import LayeredSets.Proofs.Packed.Outside

/-!
# Terms of constraints

The terms that constrain variables, points and projections, one component for each pack.
-/

namespace LayeredSets.Packed

open Action

variable {ρ : Type} {inner : Operations ρ} {I : Meaning inner} {o : Packed (List UInt32)}
  {reads : Multiset Cell}

/-! ## Values -/

theorem width_of_widths {m : Ideal} {pack j : Nat} (hm : m.widths = widthsOf o pack)
    (hj : j < 2 ^ 32) {bits : UInt32} (hbits : (widthsOf o pack)[j]? = some bits) :
    m.width ⟨UInt32.ofNat j⟩ = .ok bits := by
  simp only [Ideal.width, UInt32.toNat_ofNat_of_lt' (show j < UInt32.size from hj), hm, hbits]

theorem made_constant {m : Ideal} {pack j : Nat} (hm : m.widths = widthsOf o pack)
    (hj : j < 2 ^ 32) {bits : UInt32} (hbits : (widthsOf o pack)[j]? = some bits)
    (value : UInt64) :
    m.made (.varEqConst ⟨UInt32.ofNat j⟩ value) = do
      Ideal.checkValue value bits
      return {u ∈ topPart o pack | u[j]? = some value.toNat} := by
  simp only [Ideal.made, width_of_widths hm hj hbits, topPart, ← hm,
    UInt32.toNat_ofNat_of_lt' (show j < UInt32.size from hj)]
  rfl

theorem yields_constant {pack j : Nat} (hpack : pack < o.packs.length) (hj : j < 2 ^ 32)
    {bits : UInt32} (hbits : (widthsOf o pack)[j]? = some bits) {value : UInt64}
    (hvalue : value.toNat < 2 ^ bits.toNat) :
    Yields I o reads 0 (inPack pack (inner.step (.varEqConst ⟨UInt32.ofNat j⟩ value)))
      fun set given => given = {⟨pack, set, {u ∈ topPart o pack | u[j]? = some value.toNat}⟩} :=
  yields_made hpack fun m hm _ => by
    rw [made_constant hm hj hbits, Ideal.checkValue, if_pos hvalue]
    rfl

theorem made_equality {m : Ideal} {pack i j : Nat} (hm : m.widths = widthsOf o pack)
    (hi : i < 2 ^ 32) (hj : j < 2 ^ 32) {left right : UInt32}
    (hleft : (widthsOf o pack)[i]? = some left) (hright : (widthsOf o pack)[j]? = some right) :
    m.made (.varEqVar ⟨UInt32.ofNat i⟩ ⟨UInt32.ofNat j⟩) =
      if left ≠ right then .error (.widthMismatch left right)
      else .ok {u ∈ topPart o pack | u[i]? = u[j]?} := by
  simp only [Ideal.made, width_of_widths hm hi hleft, width_of_widths hm hj hright, topPart, ← hm,
    UInt32.toNat_ofNat_of_lt' (show i < UInt32.size from hi),
    UInt32.toNat_ofNat_of_lt' (show j < UInt32.size from hj), bind, Except.bind]
  split <;> rfl

/-! ## Values in two packs -/

theorem cellsFrom_congr {part part' : Nat → Set Valuation} {start : Nat}
    (h : ∀ pack, start ≤ pack → part pack = part' pack) (term : Term) :
    cellsFrom part start term = cellsFrom part' start term := by
  induction term generalizing start with
  | nil => rfl
  | cons set term ih =>
    rw [cellsFrom_cons, cellsFrom_cons, h start le_rfl,
      ih fun pack hpack => h pack (by omega)]

/-- Exchanging one component of a term exchanges one of its cells. -/
theorem exists_rest (part : Nat → Set Valuation) {start i : Nat} {term : Term} {old : SetId}
    (h : term[i]? = some old) :
    ∃ rest, cellsFrom part start term = {⟨start + i, old, part (start + i)⟩} + rest ∧
      ∀ set value, cellsFrom (Function.update part (start + i) value) start (term.set i set) =
        {⟨start + i, set, value⟩} + rest := by
  induction term generalizing start i with
  | nil => simp at h
  | cons first term ih =>
    cases i with
    | zero =>
      obtain rfl : first = old := by simpa using h
      refine ⟨cellsFrom part (start + 1) term, rfl, fun set value => ?_⟩
      rw [List.set_cons_zero, cellsFrom_cons, Nat.add_zero, Function.update_self]
      congr 1
      exact cellsFrom_congr (fun pack hpack => by rw [Function.update_of_ne (by omega)]) term
    | succ i =>
      obtain ⟨rest, hrest, hset⟩ := @ih (start + 1) i (by simpa using h)
      rw [show start + 1 + i = start + (i + 1) by omega] at hrest hset
      refine ⟨{⟨start, first, part start⟩} + rest, ?_, fun set value => ?_⟩
      · rw [cellsFrom_cons, hrest, add_left_comm]
      · rw [List.set_cons_succ, cellsFrom_cons, hset, Function.update_of_ne (by omega),
          add_left_comm]

theorem yields_exchange {part : Nat → Set Valuation} {term : Term}
    (hlength : term.length = o.packs.length) {pack : Nat} (hpack : pack < o.packs.length)
    (component : SetId) (value : Set Valuation) :
    Yields I o reads ((Piece.mk term part).cells + {⟨pack, component, value⟩})
      (exchange inner pack component term)
      (GivesOne o.packs.length (Function.update part pack value)) := by
  have hlt : pack < term.length := hlength ▸ hpack
  have hat : term[pack]? = some term[pack] := List.getElem?_eq_getElem hlt
  obtain ⟨rest, hrest, hset⟩ := @exists_rest part 0 pack term _ hat
  rw [Nat.zero_add] at hrest hset
  simp only [exchange, hat]
  refine Yields.bind (((yields_release ⟨pack, _, part pack⟩).keep
    (rest + {⟨pack, component, value⟩}) (subset_add _ _)).cast ?_) ?_
  · rw [Piece.cells, hrest, add_assoc]
  · rintro _ _ ⟨_, rfl, rfl⟩
    refine .pure ⟨by rw [List.length_set, hlength], ?_⟩
    rw [Piece.cells, hset, zero_add, add_comm]

theorem yields_crossTerm {a b : PackedVar} (ha : a.pack < o.packs.length)
    (hb : b.pack < o.packs.length) {i j : Nat} (hi : i < 2 ^ 32) (hj : j < 2 ^ 32)
    (hai : a.inner = ⟨UInt32.ofNat i⟩) (hbj : b.inner = ⟨UInt32.ofNat j⟩) {bits : UInt32}
    (hbits : (widthsOf o a.pack)[i]? = some bits)
    (hbits' : (widthsOf o b.pack)[j]? = some bits) {value : UInt64}
    (hvalue : value.toNat < 2 ^ bits.toNat) :
    Yields I o reads 0 (crossTerm inner a b value) (GivesOne o.packs.length
      (Function.update (Function.update (topPart o) a.pack
        {u ∈ topPart o a.pack | u[i]? = some value.toNat}) b.pack
        {u ∈ topPart o b.pack | u[j]? = some value.toNat})) := by
  rw [crossTerm_eq, hai, hbj]
  refine Yields.bind (yields_constant ha hi hbits hvalue) ?_
  rintro left _ rfl
  refine Yields.bind (((yields_constant hb hj hbits' hvalue).keep _ (subset_add _ _)).cast
    (zero_add _).symm) ?_
  rintro right _ ⟨_, rfl, rfl⟩
  refine Yields.bind (((yields_termWith ha left _).keep _ (subset_add _ _)).cast
    (add_comm _ _)) ?_
  rintro term _ ⟨_, ⟨hlength, rfl⟩, rfl⟩
  exact yields_exchange hlength hb right _

/-! ## Projections -/

theorem yields_projectTerm {piece : Piece} (hsized : piece.term.length = o.packs.length)
    (hreads : piece.cells ⊆ reads) {var : PackedVar} {j : Nat} (hj : j < 2 ^ 32)
    (hvar : var.inner = ⟨UInt32.ofNat j⟩) {bits : UInt32}
    (hbits : (widthsOf o var.pack)[j]? = some bits) :
    Yields I o reads 0 (projectTerm inner var piece.term) (GivesOne o.packs.length
      (Function.update piece.part var.pack
        {u ∈ topPart o var.pack | ∃ x, u.set j x ∈ piece.part var.pack})) := by
  refine Yields.term_of_reads (map_zipIdx_snd hsized) fun x hx => ?_
  obtain ⟨component, pack⟩ := x
  have hpack : pack < o.packs.length := lt_of_mem_zipIdx hsized hx
  have hcell := hreads (mem_cells hx)
  by_cases h : pack = var.pack
  · subst h
    simp only [if_true, Function.update_self]
    refine yields_made hpack fun m hm hsets => ?_
    simp only [hvar, Ideal.made, width_of_widths hm hj hbits, Ideal.set, hsets _ hcell rfl, topPart,
      ← hm, UInt32.toNat_ofNat_of_lt' (show j < UInt32.size from hj)]
    rfl
  · simp only [if_neg h, Function.update_of_ne h]
    exact yields_copy hcell hpack

/-! ## Points -/

/-- The component of a point that has passed the check of its pack. -/
theorem yields_pointComponent {point : List (PackedVar × UInt64)} {pack : Nat}
    (hpack : pack < o.packs.length) {values : List UInt64}
    (hvalues : (point.filter (·.1.pack = pack)).map (·.2) = values)
    (hlength : values.length = (widthsOf o pack).length)
    (hcheck : Ideal.checkPoint (widthsOf o pack) values = .ok ()) :
    Yields I o reads 0 (pointComponent inner point pack) fun set given =>
      given = {⟨pack, set, {values.map UInt64.toNat}⟩} := by
  rw [pointComponent, hvalues]
  cases values with
  | nil =>
    have hnone : widthsOf o pack = [] := List.length_eq_zero_iff.mp hlength.symm
    have htop : topPart o pack = {[]} := by
      ext v
      simp [topPart, hnone]
    rw [List.map_nil, ← htop]
    exact yields_top hpack
  | cons value values =>
    refine yields_made hpack fun m hm _ => ?_
    simp only [Ideal.made, hm, hlength, ne_eq, not_true_eq_false, if_false, hcheck]
    rfl

/-- What fails in a pack fails for the whole. -/
theorem made_point_error {m : Ideal} {pack : Nat} (hm : m.widths = widthsOf o pack)
    {values : List UInt64} (hlength : values.length = (widthsOf o pack).length) {e : DomainError}
    (hcheck : Ideal.checkPoint (widthsOf o pack) values = .error e) :
    m.made (.singleton values) = .error e := by
  simp only [Ideal.made, hm, hlength, ne_eq, not_true_eq_false, if_false, hcheck]
  rfl

end LayeredSets.Packed
