import LayeredSets.Proofs.Explicit.Exact
import Mathlib.Data.Set.Card
import Mathlib.Data.Set.Finite.List

/-!
# Sizes of sets, and some of the variables

A region over some bits holds as many sequences as its leaves say. Spelling is a bijection from a
box to the sequences of the right length, so this is also the number of valuations that the region
denotes, which is what the explicit domain reports as the size of a set.

A mask tells which of the variables are meant. A set of valuations of these is lifted to all of the
variables: the others may have any values of theirs. Lifting goes along with all operations on sets,
and multiplies the size of a set by that of the box of the other variables.
-/

/-! ## Sizes -/

namespace LayeredSets

namespace Region

/-- The sequences of `n` bits that a region holds. -/
def sequences (n : Nat) (r : Region) : Set (List Bool) := {bits | bits.length = n ∧ r.has bits = true}

theorem finite_sequences (n : Nat) (r : Region) : (r.sequences n).Finite :=
  (List.finite_length_eq Bool n).subset fun _ h => h.1

theorem sequences_succ (n : Nat) (r : Region) :
    r.sequences (n + 1) = (false :: ·) '' r.low.sequences n ∪ (true :: ·) '' r.high.sequences n := by
  ext bits
  rcases bits with _ | ⟨_ | _, bits⟩ <;> simp [sequences]

@[simp] theorem card_leaf (n : Nat) (all : Bool) :
    (leaf all).card n = if all then 2 ^ n else 0 := rfl

theorem card_succ (n : Nat) (r : Region) : r.card (n + 1) = r.low.card n + r.high.card n := by
  cases r with
  | leaf all => cases all <;> simp [low, high, Nat.pow_succ, Nat.mul_two]
  | split low high => rfl

theorem Canonical.ncard_sequences {n : Nat} {r : Region} (h : r.Canonical n) :
    (r.sequences n).ncard = r.card n := by
  induction n generalizing r with
  | zero =>
    cases r with
    | leaf all => cases all <;> simp [sequences]
    | split low high => exact h.elim
  | succ n ih =>
    have hcons (b : Bool) : Function.Injective (b :: · : List Bool → List Bool) :=
      fun _ _ heq => (List.cons.inj heq).2
    have hdisjoint :
        Disjoint ((false :: ·) '' r.low.sequences n) ((true :: ·) '' r.high.sequences n) := by
      rw [Set.disjoint_left]
      rintro _ ⟨_, _, rfl⟩ ⟨_, _, ⟨⟩⟩
    rw [sequences_succ, Set.ncard_union_eq hdisjoint ((finite_sequences n _).image _)
      ((finite_sequences n _).image _), Set.ncard_image_of_injective _ (hcons false),
      Set.ncard_image_of_injective _ (hcons true), ih h.low, ih h.high, card_succ]

end Region

theorem spell_injOn (widths : List UInt32) : Set.InjOn (spell widths) (box widths) := by
  induction widths with
  | nil =>
    intro v hv u hu _
    rw [(mem_box_nil v).mp hv, (mem_box_nil u).mp hu]
  | cons width widths ih =>
    rintro (_ | ⟨x, v⟩) hv (_ | ⟨y, u⟩) hu heq
    · rfl
    · simpa using length_of_mem_box hv
    · simpa using length_of_mem_box hu
    · rw [mem_box_cons] at hv hu
      obtain ⟨hword, hrest⟩ := List.append_inj heq (by rw [length_word, length_word])
      rw [word_injective hv.1 hu.1 hword, ih hv.2 hu.2 hrest]

theorem image_spell_denote (widths : List UInt32) (r : Region) :
    spell widths '' denote widths r = r.sequences (bitCount widths) := by
  ext bits
  constructor
  · rintro ⟨v, ⟨hbox, hhas⟩, rfl⟩
    exact ⟨length_spell hbox, hhas⟩
  · rintro ⟨hlength, hhas⟩
    obtain ⟨v, hv, rfl⟩ := exists_spell hlength
    exact ⟨v, ⟨hv, hhas⟩, rfl⟩

/-- The leaves of a canonical region count the valuations that it denotes. -/
theorem Region.Canonical.ncard_denote {widths : List UInt32} {r : Region}
    (h : r.Canonical (bitCount widths)) : (denote widths r).ncard = r.card (bitCount widths) := by
  rw [← h.ncard_sequences, ← image_spell_denote]
  exact ((spell_injOn widths).mono (denote_subset widths r)).ncard_image.symm

theorem ncard_box (widths : List UInt32) : (box widths).ncard = 2 ^ bitCount widths := by
  rw [← denote_full, (Region.canonical_full _).ncard_denote]
  rfl

/-- What the domain reports as the size of a set is the number of its valuations. -/
theorem Represents.cardinality {d : Explicit} {m : Ideal} (h : Represents d m)
    (hbits : bitCount m.widths < 2 ^ 32) (set : SetId) :
    d.cardinality set = Set.ncard <$> m.set set := by
  have htotal : d.totalBits.toNat = bitCount m.widths := by
    rw [h.totalBits, UInt32.toNat_ofNat_of_lt' hbits]
  rw [Explicit.cardinality, htotal, Explicit.region, Ideal.set, h.sets]
  cases hr : d.sets.get? set with
  | none => rfl
  | some r => exact congrArg Except.ok (h.canonical set r hr).ncard_denote.symm

/-! ## Masks -/

section

variable {α : Type}

/-- The entries at the places that a mask marks. -/
@[grind] def pick : List Bool → List α → List α
  | [], _ | _, [] => []
  | b :: mask, x :: v => if b then x :: pick mask v else pick mask v

/-- The place of the entry that is the one at `i` once the others have been left out. -/
@[grind] def place : List Bool → Nat → Nat
  | [], i => i
  | b :: mask, i => if b then (if i = 0 then 0 else place mask (i - 1) + 1) else place mask i + 1

/-- The places that a mask does not mark. -/
abbrev others (mask : List Bool) : List Bool := mask.map (!·)

theorem length_pick {mask : List Bool} {v : List α} (h : mask.length = v.length) :
    (pick mask v).length = mask.count true := by
  induction mask generalizing v <;> cases v <;> grind

theorem pick_append {mask mask' : List Bool} {v u : List α} (h : mask.length = v.length) :
    pick (mask ++ mask') (v ++ u) = pick mask v ++ pick mask' u := by
  induction mask generalizing v <;> cases v <;> grind

theorem getElem?_pick {mask : List Bool} {v : List α} (h : mask.length = v.length) (i : Nat) :
    (pick mask v)[i]? = v[place mask i]? := by
  induction mask generalizing v i <;> cases v <;> grind

theorem pick_set {mask : List Bool} {v : List α} (h : mask.length = v.length) (i : Nat) (x : α) :
    pick mask (v.set (place mask i) x) = (pick mask v).set i x := by
  induction mask generalizing v i <;> cases v <;> cases i <;> grind

theorem place_lt {mask : List Bool} {i : Nat} (h : i < mask.count true) :
    place mask i < mask.length := by
  induction mask generalizing i <;> grind

theorem place_append {mask : List Bool} (mask' : List Bool) {i : Nat} (h : i < mask.count true) :
    place (mask ++ mask') i = place mask i := by
  induction mask generalizing i <;> grind

/-- The next place is at the end. -/
theorem place_concat (mask : List Bool) : place (mask ++ [true]) (mask.count true) = mask.length := by
  induction mask <;> grind

theorem place_inj {mask : List Bool} {i j : Nat} (hi : i < mask.count true)
    (hj : j < mask.count true) (h : place mask i = place mask j) : i = j := by
  induction mask generalizing i j <;> grind

theorem pick_inj {mask : List Bool} {v u : List α} (hv : mask.length = v.length)
    (hu : mask.length = u.length) (h : pick mask v = pick mask u)
    (h' : pick (others mask) v = pick (others mask) u) : v = u := by
  induction mask generalizing v u <;> cases v <;> cases u <;> grind

end

/-! ## Boxes -/

variable {mask : List Bool} {widths : List UInt32}

theorem pick_mem_box {v : Valuation} (hv : v ∈ box widths) : pick mask v ∈ box (pick mask widths) := by
  induction hv generalizing mask with
  | nil => cases mask <;> simp [pick]
  | cons hx _ ih =>
    rcases mask with _ | ⟨_ | _, mask⟩
    · simp [pick]
    · exact ih
    · exact (mem_box_cons ..).mpr ⟨hx, ih⟩

/-- The marked variables and the others can be given values apart from each other. -/
theorem exists_pick (h : mask.length = widths.length) {u x : Valuation}
    (hu : u ∈ box (pick mask widths)) (hx : x ∈ box (pick (others mask) widths)) :
    ∃ v ∈ box widths, pick mask v = u ∧ pick (others mask) v = x := by
  induction mask generalizing widths u x with
  | nil =>
    obtain rfl := List.length_eq_zero_iff.mp h.symm
    exact ⟨[], by simp, ((mem_box_nil u).mp hu).symm, ((mem_box_nil x).mp hx).symm⟩
  | cons b mask ih =>
    obtain _ | ⟨width, widths⟩ := widths
    · cases h
    have hlength : mask.length = widths.length := Nat.succ_inj.mp h
    cases b with
    | false =>
      cases hx with
      | cons hy hx =>
        obtain ⟨v, hv, rfl, rfl⟩ := ih hlength hu hx
        exact ⟨_ :: v, (mem_box_cons ..).mpr ⟨hy, hv⟩, rfl, rfl⟩
    | true =>
      cases hu with
      | cons hy hu =>
        obtain ⟨v, hv, rfl, rfl⟩ := ih hlength hu hx
        exact ⟨_ :: v, (mem_box_cons ..).mpr ⟨hy, hv⟩, rfl, rfl⟩

theorem box_nonempty (widths : List UInt32) : (box widths).Nonempty := by
  obtain ⟨v, hv, -⟩ := @exists_spell widths (List.replicate (bitCount widths) false) (by simp)
  exact ⟨v, hv⟩

theorem bitCount_pick (h : mask.length = widths.length) :
    bitCount widths = bitCount (pick mask widths) + bitCount (pick (others mask) widths) := by
  induction mask generalizing widths <;> cases widths <;> grind [bitCount_cons, bitCount_nil]

/-! ## Lifted sets -/

/-- The valuations that are in `s` as far as the marked variables go. -/
def lift (mask : List Bool) (widths : List UInt32) (s : Set Valuation) : Set Valuation :=
  {v ∈ box widths | pick mask v ∈ s}

variable (h : mask.length = widths.length) {s t : Set Valuation}

theorem lift_box : lift mask widths (box (pick mask widths)) = box widths :=
  Set.sep_eq_self_iff_mem_true.mpr fun _ hv => pick_mem_box hv

theorem lift_empty : lift mask widths ∅ = ∅ := Set.sep_false

theorem lift_union : lift mask widths (s ∪ t) = lift mask widths s ∪ lift mask widths t := by
  ext v
  simp only [lift, Set.mem_ofPred_eq, Set.mem_union, and_or_left]

theorem lift_inter : lift mask widths (s ∩ t) = lift mask widths s ∩ lift mask widths t := by
  ext v
  simp only [lift, Set.mem_ofPred_eq, Set.mem_inter_iff]
  tauto

theorem lift_diff : lift mask widths (s \ t) = lift mask widths s \ lift mask widths t := by
  ext v
  simp only [lift, Set.mem_ofPred_eq, Set.mem_sdiff]
  tauto

include h

theorem lift_subset_iff (hs : s ⊆ box (pick mask widths)) :
    lift mask widths s ⊆ lift mask widths t ↔ s ⊆ t := by
  constructor
  · intro hsub u hu
    obtain ⟨x, hx⟩ := box_nonempty (pick (others mask) widths)
    obtain ⟨v, hv, rfl, -⟩ := exists_pick h (hs hu) hx
    exact (hsub ⟨hv, hu⟩).2
  · exact fun hsub v hv => ⟨hv.1, hsub hv.2⟩

theorem lift_eq_iff (hs : s ⊆ box (pick mask widths)) (ht : t ⊆ box (pick mask widths)) :
    lift mask widths s = lift mask widths t ↔ s = t := by
  rw [Set.Subset.antisymm_iff, lift_subset_iff h hs, lift_subset_iff h ht, Set.Subset.antisymm_iff]

theorem lift_eq_empty_iff (hs : s ⊆ box (pick mask widths)) : lift mask widths s = ∅ ↔ s = ∅ := by
  rw [← lift_eq_iff h hs (Set.empty_subset _), lift_empty]

/-- A lifted set is a product with the box of the other variables. -/
theorem ncard_lift (hs : s ⊆ box (pick mask widths)) :
    (lift mask widths s).ncard = s.ncard * 2 ^ bitCount (pick (others mask) widths) := by
  let both (v : Valuation) := (pick mask v, pick (others mask) v)
  have hinj : Set.InjOn both (lift mask widths s) := by
    intro v hv u hu heq
    obtain ⟨hmarked, hothers⟩ := Prod.mk.inj heq
    exact pick_inj (h.trans (length_of_mem_box hv.1).symm) (h.trans (length_of_mem_box hu.1).symm)
      hmarked hothers
  have himage : both '' lift mask widths s = s ×ˢ box (pick (others mask) widths) := by
    ext ⟨u, x⟩
    constructor
    · rintro ⟨v, hv, heq⟩
      obtain ⟨rfl, rfl⟩ := Prod.mk.inj heq
      exact ⟨hv.2, pick_mem_box hv.1⟩
    · rintro ⟨hu, hx⟩
      obtain ⟨v, hv, rfl, rfl⟩ := exists_pick h (hs hu) hx
      exact ⟨v, ⟨hv, hu⟩, rfl⟩
  rw [← hinj.ncard_image, himage, Set.ncard_prod, ncard_box]

/-! ## Constraints and cylinders -/

theorem lift_constant (i x : Nat) :
    lift mask widths {u ∈ box (pick mask widths) | u[i]? = some x} =
      {v ∈ box widths | v[place mask i]? = some x} := by
  ext v
  refine and_congr_right fun hv => ?_
  rw [Set.mem_ofPred_eq, getElem?_pick (h.trans (length_of_mem_box hv).symm)]
  exact and_iff_right (pick_mem_box hv)

theorem lift_equality (i j : Nat) :
    lift mask widths {u ∈ box (pick mask widths) | u[i]? = u[j]?} =
      {v ∈ box widths | v[place mask i]? = v[place mask j]?} := by
  ext v
  have hpick (hv : v ∈ box widths) (k : Nat) : (pick mask v)[k]? = v[place mask k]? :=
    getElem?_pick (h.trans (length_of_mem_box hv).symm) k
  refine and_congr_right fun hv => ?_
  rw [Set.mem_ofPred_eq, hpick hv, hpick hv]
  exact and_iff_right (pick_mem_box hv)

theorem lift_project (hs : s ⊆ box (pick mask widths)) {i : Nat} (hi : i < (pick mask widths).length) :
    lift mask widths {u ∈ box (pick mask widths) | ∃ x, u.set i x ∈ s} =
      {v ∈ box widths | ∃ x, v.set (place mask i) x ∈ lift mask widths s} := by
  have hplace : place mask i < widths.length := by
    rw [← h]
    exact place_lt (length_pick h ▸ hi)
  have hwidth : (pick mask widths)[i] = widths[place mask i] := by
    rw [← Option.some_inj, ← List.getElem?_eq_getElem, ← List.getElem?_eq_getElem, getElem?_pick h]
  ext v
  refine and_congr_right fun hv => ?_
  have hpick (x : Nat) := pick_set (h.trans (length_of_mem_box hv).symm) i x
  constructor
  · rintro ⟨-, x, hx⟩
    refine ⟨x, ?_, (hpick x).symm ▸ hx⟩
    rw [set_mem_box hv hplace, ← hwidth, ← set_mem_box (pick_mem_box hv) hi]
    exact hs hx
  · rintro ⟨x, -, hx⟩
    exact ⟨pick_mem_box hv, x, hpick x ▸ hx⟩

/-- One more variable, which is marked. -/
theorem cylinder_lift_marked (bits : UInt32) :
    cylinder bits (lift mask widths s) =
      lift (mask ++ [true]) (widths ++ [bits]) (cylinder bits s) := by
  ext v
  constructor
  · rintro ⟨v, ⟨hv, hs⟩, x, hx, rfl⟩
    have hlength := length_of_mem_box hv
    refine ⟨(mem_box_append hlength).mpr ⟨hv, by simpa using hx⟩, pick mask v, hs, x, hx, ?_⟩
    exact pick_append (h.trans hlength.symm)
  · rintro ⟨hbox, hs⟩
    obtain ⟨v, hv, b, hb, rfl⟩ := exists_split hbox
    cases hb with
    | @cons x _ _ _ hx hnil =>
      obtain rfl := (mem_box_nil _).mp hnil
      rw [pick_append (h.trans (length_of_mem_box hv).symm)] at hs
      obtain ⟨u, hu, y, hy, heq⟩ := hs
      obtain ⟨hpick, -⟩ := List.append_inj' heq rfl
      exact ⟨v, ⟨hv, hpick ▸ hu⟩, x, hx, rfl⟩

/-- One more variable, which is not. -/
theorem cylinder_lift_other (bits : UInt32) :
    cylinder bits (lift mask widths s) = lift (mask ++ [false]) (widths ++ [bits]) s := by
  have hpick {v : Valuation} (hv : v ∈ box widths) (x : Nat) :
      pick (mask ++ [false]) (v ++ [x]) = pick mask v := by
    rw [pick_append (h.trans (length_of_mem_box hv).symm)]
    exact List.append_nil _
  ext v
  constructor
  · rintro ⟨v, ⟨hv, hs⟩, x, hx, rfl⟩
    refine ⟨(mem_box_append (length_of_mem_box hv)).mpr ⟨hv, by simpa using hx⟩, ?_⟩
    exact (hpick hv x).symm ▸ hs
  · rintro ⟨hbox, hs⟩
    obtain ⟨v, hv, b, hb, rfl⟩ := exists_split hbox
    cases hb with
    | @cons x _ _ _ hx hnil =>
      obtain rfl := (mem_box_nil _).mp hnil
      exact ⟨v, ⟨hv, hpick hv x ▸ hs⟩, x, hx, rfl⟩

end LayeredSets
