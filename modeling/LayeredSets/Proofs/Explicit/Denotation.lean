import LayeredSets.Explicit.Basic
import LayeredSets.Proofs.Region
import LayeredSets.Proofs.Valuation

/-!
# What stored regions denote

The set of valuations behind a region, and what the constructions of the explicit domain make of
it. Canonical regions over the bits of a box are equal exactly if they denote the same set.
-/

namespace LayeredSets

/-- The valuations whose bits lie in a region. -/
def denote (widths : List UInt32) (r : Region) : Set Valuation :=
  {v | v ∈ box widths ∧ r.has (spell widths v) = true}

theorem denote_subset (widths : List UInt32) (r : Region) : denote widths r ⊆ box widths :=
  fun _ h => h.1

theorem Region.Canonical.eq_of_denote {widths : List UInt32} {r s : Region}
    (hr : r.Canonical (bitCount widths)) (hs : s.Canonical (bitCount widths))
    (h : denote widths r = denote widths s) : r = s := by
  refine hr.eq_of_has hs fun bits hb => ?_
  obtain ⟨v, hv, rfl⟩ := exists_spell hb
  have hiff : v ∈ denote widths r ↔ v ∈ denote widths s := by rw [h]
  simp only [denote, Set.mem_ofPred_eq, hv, true_and] at hiff
  exact Bool.eq_iff_iff.mpr hiff

theorem denote_eq_iff {widths : List UInt32} {r s : Region}
    (hr : r.Canonical (bitCount widths)) (hs : s.Canonical (bitCount widths)) :
    denote widths r = denote widths s ↔ r = s :=
  ⟨hr.eq_of_denote hs, fun h => by rw [h]⟩

/-! ## Boolean operations -/

@[simp] theorem denote_full (widths : List UInt32) : denote widths .full = box widths := by
  ext v
  simp [denote]

@[simp] theorem denote_empty (widths : List UInt32) : denote widths .empty = ∅ := by
  ext v
  simp [denote]

@[simp] theorem denote_union (widths : List UInt32) (r s : Region) :
    denote widths (r.union s) = denote widths r ∪ denote widths s := by
  ext v
  simp [denote, ← and_or_left]

@[simp] theorem denote_inter (widths : List UInt32) (r s : Region) :
    denote widths (r.inter s) = denote widths r ∩ denote widths s := by
  ext v
  simp only [denote, Region.has_inter, Bool.and_eq_true, Set.mem_ofPred_eq, Set.mem_inter_iff]
  tauto

@[simp] theorem denote_diff (widths : List UInt32) (r s : Region) :
    denote widths (r.diff s) = denote widths r \ denote widths s := by
  ext v
  simp only [denote, Region.has_diff, Bool.and_eq_true, Bool.not_eq_true', Set.mem_ofPred_eq,
    Set.mem_sdiff, not_and, Bool.not_eq_true]
  tauto

@[simp] theorem denote_compl (widths : List UInt32) (r : Region) :
    denote widths r.compl = box widths \ denote widths r := by
  ext v
  simp only [denote, Region.has_compl, Bool.not_eq_true', Set.mem_ofPred_eq, Set.mem_sdiff, not_and,
    Bool.not_eq_true]
  tauto

/-- A region is empty exactly if it is the empty leaf, and likewise for inclusion. -/
theorem denote_eq_empty_iff {widths : List UInt32} {r : Region}
    (hr : r.Canonical (bitCount widths)) : denote widths r = ∅ ↔ r = .empty := by
  rw [← denote_empty widths, denote_eq_iff hr (Region.canonical_empty _)]

theorem denote_subset_iff {widths : List UInt32} {r s : Region}
    (hr : r.Canonical (bitCount widths)) (hs : s.Canonical (bitCount widths)) :
    denote widths r ⊆ denote widths s ↔ r.diff s = .empty := by
  rw [← denote_eq_empty_iff (hr.diff hs), denote_diff, Set.sdiff_eq_empty]

/-! ## Constraints -/

theorem canonical_constantRegion {widths : List UInt32} {i : Nat} (hw : i < widths.length)
    (value : UInt64) :
    (Explicit.constantRegion (bitCount (widths.take i)) widths[i] value).Canonical
      (bitCount widths) := by
  have h := ((Region.canonical_leaf 0 true).exact value.toNat widths[i].toNat).skip
    (bitCount (widths.take i))
  refine h.mono ?_
  rw [bitCount_split hw]
  omega

theorem denote_constantRegion {widths : List UInt32} {i : Nat} (hw : i < widths.length)
    {value : UInt64} (hvalue : value.toNat < 2 ^ widths[i].toNat) :
    denote widths (Explicit.constantRegion (bitCount (widths.take i)) widths[i] value) =
      {v ∈ box widths | v[i]? = some value.toNat} := by
  ext v
  simp only [denote, Set.mem_ofPred_eq, and_congr_right_iff]
  intro hv
  have hi : i < v.length := by rw [length_of_mem_box hv]; exact hw
  have room : widths[i].toNat ≤ ((spell widths v).drop (bitCount (widths.take i))).length := by
    rw [List.length_drop, length_spell hv, bitCount_split hw]
    omega
  rw [Explicit.constantRegion, Region.has_skip, Region.has_exact _ _ _ room, word_at_spell hv hi hw,
    Region.has_full, Bool.and_true, decide_eq_true_iff, List.getElem?_eq_getElem hi,
    Option.some.injEq]
  exact ⟨word_injective (lt_of_mem_box hv hi hw) hvalue, fun h => by rw [h]⟩

theorem bitCount_take_le {widths : List UInt32} {i j : Nat} (h : i < j) (hj : j < widths.length) :
    bitCount (widths.take i) + widths[i].toNat ≤ bitCount (widths.take j) := by
  have hi : i < (widths.take j).length := by simp; omega
  have split := bitCount_split hi
  rw [List.take_take, min_eq_left (by omega), List.getElem_take] at split
  omega

/-- The region of an equation between a variable and a later one of the same width. -/
theorem denote_agree {widths : List UInt32} {i j : Nat} (h : i < j) (hj : j < widths.length)
    (hsame : widths[i].toNat = widths[j].toNat) :
    let gap := bitCount (widths.take j) - bitCount (widths.take i) - widths[i].toNat
    denote widths (Region.skip (Region.agree widths[i].toNat gap widths[i].toNat 0)
      (bitCount (widths.take i))) = {v ∈ box widths | v[i]? = v[j]?} := by
  intro gap
  ext v
  simp only [denote, Set.mem_ofPred_eq, and_congr_right_iff]
  intro hv
  have hvj : j < v.length := by rw [length_of_mem_box hv]; exact hj
  have hvi : i < v.length := by omega
  have hle := bitCount_take_le h hj
  have hsplit := bitCount_split hj
  have room : widths[i].toNat + gap + widths[i].toNat ≤
      ((spell widths v).drop (bitCount (widths.take i))).length := by
    rw [List.length_drop, length_spell hv]
    omega
  have first := word_at_spell hv hvi (by omega)
  have second := word_at_spell hv hvj hj
  rw [Region.has_skip, Region.has_agree _ _ _ _ room, decide_eq_true_iff, List.drop_drop,
    show bitCount (widths.take i) + (widths[i].toNat + gap) = bitCount (widths.take j) by omega,
    first, word_number 0 (by simp), hsame, second, List.getElem?_eq_getElem hvi,
    List.getElem?_eq_getElem hvj, Option.some.injEq]
  constructor
  · intro heq
    exact word_injective (hsame ▸ lt_of_mem_box hv hvi (by omega)) (lt_of_mem_box hv hvj hj) heq.symm
  · exact fun heq => by rw [heq]

theorem canonical_agree {widths : List UInt32} {i j : Nat} (h : i < j) (hj : j < widths.length)
    (hsame : widths[i].toNat = widths[j].toNat) :
    let gap := bitCount (widths.take j) - bitCount (widths.take i) - widths[i].toNat
    (Region.skip (Region.agree widths[i].toNat gap widths[i].toNat 0)
      (bitCount (widths.take i))).Canonical (bitCount widths) := by
  intro gap
  have hle := bitCount_take_le h hj
  have hsplit := bitCount_split hj
  refine ((Region.Canonical.agree _ gap _ 0).skip _).mono ?_
  omega

/-- Widths are positive, so different variables start at different bits. -/
theorem bitCount_take_lt {widths : List UInt32} (hpos : ∀ width ∈ widths, 0 < width.toNat)
    {i j : Nat} (h : i < j) (hj : j < widths.length) :
    bitCount (widths.take i) < bitCount (widths.take j) := by
  have hle := bitCount_take_le h hj
  have := hpos widths[i] (List.getElem_mem _)
  omega

theorem equalityRegion_comm (first second : Nat) (bits : UInt32) :
    Explicit.equalityRegion first second bits = Explicit.equalityRegion second first bits := by
  simp only [Explicit.equalityRegion, eq_comm, min_comm, max_comm]

theorem equalityRegion_of_lt {first second : Nat} (bits : UInt32) (h : first < second) :
    Explicit.equalityRegion first second bits =
      Region.skip (Region.agree bits.toNat (second - first - bits.toNat) bits.toNat 0) first := by
  rw [Explicit.equalityRegion, if_neg (by omega), min_eq_left (by omega), max_eq_right (by omega)]

theorem denote_equalityRegion {widths : List UInt32} (hpos : ∀ width ∈ widths, 0 < width.toNat)
    {i j : Nat} (hi : i < widths.length) (hj : j < widths.length) (hsame : widths[i] = widths[j]) :
    denote widths (Explicit.equalityRegion (bitCount (widths.take i)) (bitCount (widths.take j))
      widths[i]) = {v ∈ box widths | v[i]? = v[j]?} := by
  rcases Nat.lt_trichotomy i j with h | rfl | h
  · rw [equalityRegion_of_lt _ (bitCount_take_lt hpos h hj)]
    exact denote_agree h hj (by rw [hsame])
  · simp [Explicit.equalityRegion]
  · rw [equalityRegion_comm, equalityRegion_of_lt _ (bitCount_take_lt hpos h hi), hsame,
      denote_agree h hi (by rw [hsame])]
    simp only [eq_comm]

theorem canonical_equalityRegion {widths : List UInt32} (hpos : ∀ width ∈ widths, 0 < width.toNat)
    {i j : Nat} (hi : i < widths.length) (hj : j < widths.length) (hsame : widths[i] = widths[j]) :
    (Explicit.equalityRegion (bitCount (widths.take i)) (bitCount (widths.take j))
      widths[i]).Canonical (bitCount widths) := by
  rcases Nat.lt_trichotomy i j with h | rfl | h
  · rw [equalityRegion_of_lt _ (bitCount_take_lt hpos h hj)]
    exact canonical_agree h hj (by rw [hsame])
  · simp only [Explicit.equalityRegion, if_pos]
    exact Region.canonical_full _
  · rw [equalityRegion_comm, equalityRegion_of_lt _ (bitCount_take_lt hpos h hi), hsame]
    exact canonical_agree h hi (by rw [hsame])

/-! ## Points -/

theorem canonical_pointRegion (vars : List Variable) (point : List UInt64) :
    (Explicit.pointRegion vars point).Canonical (bitCount (vars.map (·.bits))) := by
  induction vars generalizing point with
  | nil => exact Region.canonical_full _
  | cons v vars ih =>
    cases point with
    | nil => exact Region.canonical_full _
    | cons value point =>
      refine ((ih point).exact value.toNat v.bits.toNat).mono ?_
      rw [List.map_cons, bitCount_cons]
      omega

theorem denote_pointRegion {vars : List Variable} {point : List UInt64}
    (h : point.map UInt64.toNat ∈ box (vars.map (·.bits))) :
    denote (vars.map (·.bits)) (Explicit.pointRegion vars point) = {point.map UInt64.toNat} := by
  induction vars generalizing point with
  | nil =>
    rw [List.map_nil, mem_box_nil] at h
    simp only [h, List.map_nil, Explicit.pointRegion, denote_full]
    ext v
    simp
  | cons v vars ih =>
    cases point with
    | nil => simpa using length_of_mem_box h
    | cons value point =>
      rw [List.map_cons, List.map_cons, mem_box_cons] at h
      ext u
      cases u with
      | nil => simp [denote, box]
      | cons y u =>
        have tail : u ∈ denote (vars.map (·.bits)) (Explicit.pointRegion vars point) ↔
            u = point.map UInt64.toNat := by rw [ih h.2, Set.mem_singleton_iff]
        have top (hy : y < 2 ^ v.bits.toNat) :
            word v.bits.toNat y = word v.bits.toNat value.toNat ↔ y = value.toNat :=
          ⟨word_injective hy h.1, fun h => by rw [h]⟩
        simp only [denote, Set.mem_ofPred_eq] at tail
        simp only [denote, List.map_cons, Set.mem_ofPred_eq, mem_box_cons, Explicit.pointRegion,
          spell, Set.mem_singleton_iff, List.cons.injEq]
        rw [Region.has_exact _ _ _ (by simp), List.take_left' (length_word _ _),
          List.drop_left' (length_word _ _), Bool.and_eq_true, decide_eq_true_iff, ← tail]
        constructor
        · rintro ⟨⟨hy, hu⟩, hword, hhas⟩
          exact ⟨(top hy).mp hword, hu, hhas⟩
        · rintro ⟨rfl, hu, hhas⟩
          exact ⟨⟨h.1, hu⟩, rfl, hhas⟩

/-! ## Projection and growth -/

theorem denote_forgetAt {widths : List UInt32} {i : Nat} (hw : i < widths.length) (r : Region) :
    denote widths (Region.forgetAt widths[i].toNat (bitCount (widths.take i)) r) =
      {v ∈ box widths | ∃ x, v.set i x ∈ denote widths r} := by
  ext v
  simp only [denote, Set.mem_ofPred_eq, and_congr_right_iff]
  intro hv
  have room : bitCount (widths.take i) + widths[i].toNat ≤ (spell widths v).length := by
    rw [length_spell hv, bitCount_split hw]
    omega
  rw [Region.has_forgetAt _ _ _ room]
  constructor
  · rintro ⟨middle, hlength, hhas⟩
    obtain ⟨x, hx, rfl⟩ := exists_word hlength
    exact ⟨x, (set_mem_box hv hw).mpr hx, by rwa [spell_set hv hw hx]⟩
  · rintro ⟨x, hmem, hhas⟩
    have hx := (set_mem_box hv hw).mp hmem
    exact ⟨word widths[i].toNat x, length_word _ _, by rwa [spell_set hv hw hx] at hhas⟩

/-- A canonical region does not look at bits beyond its own. -/
theorem Region.Canonical.has_append {n : Nat} {r : Region} (h : r.Canonical n) {bits : List Bool}
    (hb : n ≤ bits.length) (more : List Bool) : r.has (bits ++ more) = r.has bits := by
  induction n generalizing r bits with
  | zero =>
    cases r with
    | leaf => simp
    | split => exact h.elim
  | succ n ih =>
    cases r with
    | leaf => simp
    | split low high =>
      cases bits with
      | nil => simp at hb
      | cons bit bits =>
        have hn : n ≤ bits.length := by simpa using hb
        cases bit
        · simpa [Region.has] using ih h.1 hn
        · simpa [Region.has] using ih h.2.1 hn

/-- A stored region is its own cylinder over any further variables. -/
theorem denote_append {ws us : List UInt32} {r : Region} (h : r.Canonical (bitCount ws)) :
    denote (ws ++ us) r = Set.image2 (· ++ ·) (denote ws r) (box us) := by
  ext v
  constructor
  · rintro ⟨hv, hhas⟩
    obtain ⟨a, ha, b, hb, rfl⟩ := exists_split hv
    rw [spell_append (length_of_mem_box ha), h.has_append (length_spell ha).ge] at hhas
    exact ⟨a, ⟨ha, hhas⟩, b, hb, rfl⟩
  · rintro ⟨a, ⟨ha, hhas⟩, b, hb, rfl⟩
    refine ⟨(mem_box_append (length_of_mem_box ha)).mpr ⟨ha, hb⟩, ?_⟩
    rw [spell_append (length_of_mem_box ha), h.has_append (length_spell ha).ge]
    exact hhas

end LayeredSets
