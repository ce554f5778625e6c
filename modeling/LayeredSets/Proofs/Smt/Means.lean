import LayeredSets.Proofs.Explicit.Ideal
import LayeredSets.Proofs.Smt.Reads

/-!
# Formulas mean sets

A formula means a set of valuations if it has a sort and comes out true exactly where the constants
have the values of such a valuation. Each way to make formulas of others has its counterpart on the
sets. A variable that is declared later is one that the formula does not speak of, and a quantifier
covers whatever its symbol stood for outside.
-/

namespace LayeredSets.SmtLib

/-! ## Sorts -/

/-- A term keeps its sort if more symbols come into scope. -/
theorem Term.sort?_mono {t : Term} {scope scope' : String → Option Nat} {s : Ty}
    (hscope : ∀ name width, scope name = some width → scope' name = some width)
    (h : t.sort? scope = some s) : t.sort? scope' = some s := by
  induction t generalizing scope scope' s with
  | constant | literal => exact h
  | symbol name =>
    obtain ⟨width, hwidth, rfl⟩ := Option.map_eq_some_iff.mp h
    rw [sort?, hscope name width hwidth]
    rfl
  | equal a b iha ihb =>
    rw [sort?] at h
    cases ha : a.sort? scope <;> cases hb : b.sort? scope <;> simp only [ha, hb] at h
    · cases h
    · cases h
    · cases h
    · rw [sort?, iha hscope ha, ihb hscope hb]
      exact h
  | or a b iha ihb | and a b iha ihb | xor a b iha ihb =>
    rw [sort?] at h ⊢
    split at h
    · next hab => rw [if_pos ⟨iha hscope hab.1, ihb hscope hab.2⟩, h]
    · cases h
  | not a ih =>
    rw [sort?] at h ⊢
    split at h
    · next ha => rw [if_pos (ih hscope ha), h]
    · cases h
  | «exists» name width body ih =>
    have hinside (other : String) (w : Nat)
        (hw : Function.update scope name (some width) other = some w) :
        Function.update scope' name (some width) other = some w := by
      by_cases hname : other = name
      · rwa [hname, Function.update_self] at hw ⊢
      · rw [Function.update_of_ne hname] at hw ⊢
        exact hscope other w hw
    rw [sort?] at h ⊢
    split at h
    · next hbody => rw [if_pos ⟨hbody.1, hbody.2.1, ih hinside hbody.2.2⟩, h]
    · cases h

/-- The free symbols of a term that has a sort are in scope. -/
theorem Term.isSome_of_free {t : Term} {scope : String → Option Nat} {s : Ty}
    (h : t.sort? scope = some s) {name : String} (hname : name ∈ t.free) : (scope name).isSome := by
  induction t generalizing scope s with
  | constant | literal => exact hname.elim
  | symbol symbol =>
    obtain ⟨width, hwidth, -⟩ := Option.map_eq_some_iff.mp h
    rw [Set.mem_singleton_iff.mp hname, hwidth]
    rfl
  | equal a b iha ihb =>
    rw [sort?] at h
    cases ha : a.sort? scope <;> cases hb : b.sort? scope <;> simp only [ha, hb] at h
    · cases h
    · cases h
    · cases h
    · exact hname.elim (iha ha) (ihb hb)
  | or a b iha ihb | and a b iha ihb | xor a b iha ihb =>
    rw [sort?] at h
    split at h
    · next hab => exact hname.elim (iha hab.1) (ihb hab.2)
    · cases h
  | not a ih =>
    rw [sort?] at h
    split at h
    · next ha => exact ih ha hname
    · cases h
  | «exists» bound width body ih =>
    rw [sort?] at h
    split at h
    · next hbody =>
      have hfound := ih hbody.2.2 hname.1
      rwa [Function.update_of_ne hname.2] at hfound
    · cases h

/-! ## Values of the constants -/

theorem bits_eq_iff {m n : Nat} {x : BitVec m} {y : BitVec n} :
    Value.bits m x = Value.bits n y ↔ m = n ∧ x.toNat = y.toNat := by
  constructor
  · rintro ⟨⟩
    exact ⟨rfl, rfl⟩
  · rintro ⟨rfl, h⟩
    rw [BitVec.eq_of_toNat_eq h]

section

variable {widths : List UInt32} {values : String → Value} {v : Valuation} {i : Nat}

theorem length_constants (widths : List UInt32) : (constants widths).length = widths.length := by
  simp [constants]

theorem getElem_constants (hw : i < widths.length) (h : i < (constants widths).length) :
    (constants widths)[i] = (constantName i, widths[i].toNat) := by
  simp [constants]

theorem constants_append (widths : List UInt32) (bits : UInt32) :
    constants (widths ++ [bits]) =
      constants widths ++ [(constantName widths.length, bits.toNat)] := by
  simp [constants, List.zipIdx_append]

theorem gives_iff : (constants widths).Gives values v ↔ v.length = widths.length ∧
    ∀ i (hw : i < widths.length) (hv : i < v.length),
      ∃ x : BitVec widths[i].toNat, values (constantName i) = .bits widths[i].toNat x ∧
        x.toNat = v[i] := by
  rw [Constants.Gives, List.forall₂_iff_get]
  simp only [List.get_eq_getElem, length_constants]
  refine and_congr_right fun _ => forall_congr' fun i => ?_
  rw [forall_comm]
  refine forall_congr' fun hw => forall_congr' fun hv => ?_
  rw [getElem_constants hw]

theorem Constants.Gives.length_eq (h : (constants widths).Gives values v) :
    v.length = widths.length := (gives_iff.mp h).1

/-- The value of a constant. -/
theorem Constants.Gives.get (h : (constants widths).Gives values v) (hi : i < widths.length) :
    ∃ x : BitVec widths[i].toNat, values (constantName i) = .bits widths[i].toNat x ∧
      v[i]? = some x.toNat := by
  have hv : i < v.length := h.length_eq ▸ hi
  obtain ⟨x, hx, hvalue⟩ := (gives_iff.mp h).2 i hi hv
  exact ⟨x, hx, by rw [List.getElem?_eq_getElem hv, hvalue]⟩

theorem Constants.Gives.mem_box (h : (constants widths).Gives values v) : v ∈ box widths := by
  obtain ⟨hlength, hget⟩ := gives_iff.mp h
  refine List.forall₂_iff_get.mpr ⟨hlength, fun i hv hw => ?_⟩
  obtain ⟨x, -, hx⟩ := hget i hw hv
  exact (hx ▸ x.isLt :)

/-- One constant is given another value. -/
theorem Constants.Gives.set (h : (constants widths).Gives values v) (hi : i < widths.length)
    (x : BitVec widths[i].toNat) :
    (constants widths).Gives
      (Function.update values (constantName i) (.bits widths[i].toNat x)) (v.set i x.toNat) := by
  obtain ⟨hlength, hget⟩ := gives_iff.mp h
  refine gives_iff.mpr ⟨by simp [hlength], fun j hw hv => ?_⟩
  by_cases hj : j = i
  · subst hj
    exact ⟨x, Function.update_self .., by simp⟩
  · obtain ⟨y, hy, hvalue⟩ := hget j hw (by simpa using hv)
    refine ⟨y, ?_, ?_⟩
    · rw [Function.update_of_ne (fun h => hj (constantName_injective h)), hy]
    · rw [List.getElem_set_of_ne (Ne.symm hj), hvalue]

theorem gives_append {bits : UInt32} {u : Valuation} :
    (constants (widths ++ [bits])).Gives values u ↔
      ∃ v, (constants widths).Gives values v ∧ ∃ x : BitVec bits.toNat,
        values (constantName widths.length) = .bits bits.toNat x ∧ u = v ++ [x.toNat] := by
  rw [constants_append, Constants.Gives]
  constructor
  · intro h
    have hfront := List.forall₂_take_append _ _ _ h
    have hback := List.forall₂_drop_append _ _ _ h
    generalize hlast : u.drop (constants widths).length = last at hback
    cases hback with
    | cons hlastValue hnil =>
      cases hnil
      obtain ⟨x, hx, rfl⟩ := hlastValue
      exact ⟨_, hfront, x, hx, by rw [← hlast, List.take_append_drop]⟩
  · rintro ⟨v, hv, x, hx, rfl⟩
    exact List.rel_append hv (.cons ⟨x, hx, rfl⟩ .nil)

/-- Another symbol does not matter. -/
theorem Constants.Gives.update_of_new (h : (constants widths).Gives values v) {name : String}
    (x : Value) (hname : ∀ i < widths.length, constantName i ≠ name) :
    (constants widths).Gives (Function.update values name x) v := by
  obtain ⟨hlength, hget⟩ := gives_iff.mp h
  refine gives_iff.mpr ⟨hlength, fun i hw hv => ?_⟩
  rw [Function.update_of_ne (hname i hw)]
  exact hget i hw hv

/-- Every valuation is given by some values. -/
theorem exists_gives (hv : v ∈ box widths) : ∃ values, (constants widths).Gives values v := by
  induction widths using List.reverseRecOn generalizing v with
  | nil =>
    obtain rfl := (mem_box_nil v).mp hv
    exact ⟨fun _ => .bool true, .nil⟩
  | append_singleton widths bits ih =>
    obtain ⟨v, hfront, last, hlast, rfl⟩ := exists_split hv
    obtain ⟨values, hvalues⟩ := ih hfront
    cases last with
    | nil => simpa using length_of_mem_box hlast
    | cons n rest =>
      simp only [mem_box_cons, mem_box_nil] at hlast
      obtain ⟨hn, rfl⟩ := hlast
      refine ⟨Function.update values (constantName widths.length)
        (.bits bits.toNat (BitVec.ofNat bits.toNat n)), gives_append.mpr ⟨v, ?_, _,
          Function.update_self .., ?_⟩⟩
      · exact hvalues.update_of_new _ fun i hi h => hi.ne (constantName_injective h)
      · rw [BitVec.toNat_ofNat, Nat.mod_eq_of_lt hn]

/-- The scope has every constant with its width. -/
theorem scope_constants (hi : i < widths.length) :
    (constants widths).scope (constantName i) = some widths[i].toNat := by
  induction widths using List.reverseRecOn with
  | nil => simp at hi
  | append_singleton widths bits ih =>
    rw [Constants.scope, constants_append, List.lookup_append]
    rcases (Nat.lt_succ_iff_lt_or_eq.mp (by simpa using hi)) with h | rfl
    · have hfound : List.lookup (constantName i) (constants widths) = some widths[i].toNat := ih h
      rw [hfound, List.getElem_append_left h]
      rfl
    · have hnew : List.lookup (constantName widths.length) (constants widths) = none := by
        rw [List.lookup_eq_none_iff]
        intro c hc
        obtain ⟨j, hj, rfl⟩ := List.getElem_of_mem hc
        have hj' : j < widths.length := length_constants widths ▸ hj
        rw [getElem_constants hj', bne_iff_ne]
        exact fun h => hj'.ne' (constantName_injective h)
      rw [hnew]
      simp

/-- Nothing else is in scope. -/
theorem exists_of_scope {name : String} (h : ((constants widths).scope name).isSome) :
    ∃ i < widths.length, name = constantName i := by
  obtain ⟨width, hwidth⟩ := Option.isSome_iff_exists.mp h
  obtain ⟨before, after, hsplit, -⟩ := List.lookup_eq_some_iff.mp hwidth
  obtain ⟨i, hi, hget⟩ := List.getElem_of_mem (show (name, width) ∈ constants widths by simp [hsplit])
  have hi' : i < widths.length := length_constants widths ▸ hi
  rw [getElem_constants hi'] at hget
  exact ⟨i, hi', (congrArg Prod.fst hget).symm⟩

/-- What is in scope stays there. -/
theorem scope_append {bits : UInt32} {name : String} {width : Nat}
    (h : (constants widths).scope name = some width) :
    (constants (widths ++ [bits])).scope name = some width := by
  have hfound : List.lookup name (constants widths) = some width := h
  rw [Constants.scope, constants_append, List.lookup_append, hfound]
  rfl

end

end LayeredSets.SmtLib

namespace LayeredSets

open SmtLib

/-- The formula has a sort, and is true of the valuations in this set. -/
structure Formula.Means (f : Formula) (widths : List UInt32) (s : Set Valuation) : Prop where
  sort : f.term.sort? (constants widths).scope = some .bool
  subset : s ⊆ box widths
  eval : ∀ {values v}, (constants widths).Gives values v →
    (f.term.eval values = .bool true ↔ v ∈ s)

namespace Formula.Means

attribute [local simp] term SmtLib.Term.sort? SmtLib.Term.eval

variable {f g : Formula} {widths : List UInt32} {s t : Set Valuation} {i j : Nat}

/-- The models of the formula are the valuations in the set. -/
theorem models_eq (h : f.Means widths s) : f.term.models (constants widths) = s := by
  ext v
  constructor
  · rintro ⟨values, hgives, heval⟩
    exact (h.eval hgives).mp heval
  · intro hv
    obtain ⟨values, hgives⟩ := exists_gives (h.subset hv)
    exact ⟨values, hgives, (h.eval hgives).mpr hv⟩

theorem satisfiable_iff (h : f.Means widths s) :
    Problem.Satisfiable ⟨constants widths, [f.term]⟩ ↔ s ≠ ∅ := by
  rw [← Set.nonempty_iff_ne_empty, ← h.models_eq]
  simp only [Problem.Satisfiable, SmtLib.Term.models, List.forall_mem_singleton]
  exact exists_comm

/-! ## Constraints -/

theorem top (widths : List UInt32) : (constant true).Means widths (box widths) where
  sort := rfl
  subset := subset_rfl
  eval h := iff_of_true rfl h.mem_box

theorem bottom (widths : List UInt32) : (constant false).Means widths ∅ where
  sort := rfl
  subset := Set.empty_subset _
  eval h := by simp

theorem equalsValue {var : UInt32} (hi : var.toNat < widths.length)
    (hpos : 0 < widths[var.toNat].toNat) {value : UInt64}
    (hvalue : value.toNat < 2 ^ widths[var.toNat].toNat) :
    (Formula.equalsValue var value widths[var.toNat]).Means widths
      {v ∈ box widths | v[var.toNat]? = some value.toNat} where
  sort := by simp [scope_constants hi, hpos, hvalue]
  subset _ hv := hv.1
  eval {values v} h := by
    obtain ⟨x, hx, hv⟩ := h.get hi
    simp only [term, SmtLib.Term.eval, hx, Value.bool.injEq, decide_eq_true_eq, Set.mem_ofPred_eq, h.mem_box,
      true_and, hv, Option.some.injEq, bits_eq_iff]
    rw [BitVec.toNat_ofNat, Nat.mod_eq_of_lt hvalue]

theorem equalsVar {a b : UInt32} (hi : a.toNat < widths.length) (hj : b.toNat < widths.length)
    (hsame : widths[a.toNat] = widths[b.toNat]) :
    (Formula.equalsVar a b).Means widths {v ∈ box widths | v[a.toNat]? = v[b.toNat]?} where
  sort := by simp [scope_constants hi, scope_constants hj, hsame]
  subset _ hv := hv.1
  eval {values v} h := by
    obtain ⟨x, hx, hv⟩ := h.get hi
    obtain ⟨y, hy, hw⟩ := h.get hj
    simp only [term, SmtLib.Term.eval, hx, hy, Value.bool.injEq, decide_eq_true_eq, Set.mem_ofPred_eq,
      h.mem_box, true_and, hv, hw, Option.some.injEq, bits_eq_iff]
    exact and_iff_right (congrArg UInt32.toNat hsame)

/-! ## Connectives -/

theorem or (hf : f.Means widths s) (hg : g.Means widths t) : (f.or g).Means widths (s ∪ t) where
  sort := by simp [hf.sort, hg.sort]
  subset := Set.union_subset hf.subset hg.subset
  eval h := by simp [hf.eval h, hg.eval h]

theorem and (hf : f.Means widths s) (hg : g.Means widths t) : (f.and g).Means widths (s ∩ t) where
  sort := by simp [hf.sort, hg.sort]
  subset _ hv := hf.subset hv.1
  eval h := by simp [hf.eval h, hg.eval h]

theorem not (hf : f.Means widths s) : f.not.Means widths (box widths \ s) where
  sort := by simp [hf.sort]
  subset := Set.sdiff_subset
  eval h := by simp [hf.eval h, h.mem_box]

theorem diff (hf : f.Means widths s) (hg : g.Means widths t) : (f.diff g).Means widths (s \ t) := by
  have h := hf.and hg.not
  rwa [← Set.inter_sdiff_assoc, Set.inter_eq_left.mpr hf.subset] at h

theorem xor (hf : f.Means widths s) (hg : g.Means widths t) :
    (f.xor g).Means widths (symmDiff s t) where
  sort := by simp [hf.sort, hg.sort]
  subset := (symmDiff_le_sup : symmDiff s t ≤ s ⊔ t).trans (Set.union_subset hf.subset hg.subset)
  eval h := by
    simp only [term, SmtLib.Term.eval, hf.eval h, hg.eval h, Value.bool.injEq, decide_eq_true_eq,
      Set.mem_symmDiff]
    rfl

/-! ## Quantifiers and declarations -/

theorem «exists» (hf : f.Means widths s) {var : UInt32} (hi : var.toNat < widths.length)
    (hpos : 0 < widths[var.toNat].toNat) :
    (Formula.exists var widths[var.toNat] f).Means widths
      {v ∈ box widths | ∃ x, v.set var.toNat x ∈ s} where
  sort := by
    have hscope : Function.update (constants widths).scope (constantName var.toNat)
        (some widths[var.toNat].toNat) = (constants widths).scope := by
      rw [← scope_constants hi, Function.update_eq_self]
    rw [term, SmtLib.Term.sort?, hscope, if_pos ⟨isSymbol_constantName _, hpos, hf.sort⟩]
  subset _ hv := hv.1
  eval {values v} h := by
    simp only [term, SmtLib.Term.eval, Value.bool.injEq, decide_eq_true_eq, Set.mem_ofPred_eq, h.mem_box,
      true_and, hf.eval (h.set hi _)]
    constructor
    · rintro ⟨x, hx⟩
      exact ⟨x.toNat, hx⟩
    · rintro ⟨n, hn⟩
      have hlt : n < 2 ^ widths[var.toNat].toNat := (set_mem_box h.mem_box hi).mp (hf.subset hn)
      refine ⟨BitVec.ofNat _ n, ?_⟩
      rwa [BitVec.toNat_ofNat, Nat.mod_eq_of_lt hlt]

/-- The formula does not speak of a constant that is declared later. -/
theorem grow (hf : f.Means widths s) (bits : UInt32) :
    f.Means (widths ++ [bits]) (cylinder bits s) where
  sort := SmtLib.Term.sort?_mono (fun _ _ => scope_append) hf.sort
  subset := by
    rintro _ ⟨v, hv, x, hx, rfl⟩
    exact (mem_box_append (length_of_mem_box (hf.subset hv))).mpr ⟨hf.subset hv, by simpa using hx⟩
  eval {values u} h := by
    obtain ⟨v, hv, x, -, rfl⟩ := gives_append.mp h
    rw [hf.eval hv]
    constructor
    · exact fun hs => ⟨v, hs, x.toNat, x.isLt, rfl⟩
    · rintro ⟨v', hs, n, -, heq⟩
      rwa [(List.append_inj' heq rfl).1]

end Formula.Means
end LayeredSets
