import Mathlib.Tactic
import LayeredSets.Domain.Basic

/-!
# Valuations

The bits of a number, highest first, and the number that bits spell. A word of `width` bits and a
number below `2 ^ width` determine each other.

A valuation gives every variable a number, in the order of declaration. The box of some widths is
the product of the ranges `[0, 2 ^ width)`. Spelled in bits, the valuations of a box are exactly the
sequences of a certain length.
-/

namespace LayeredSets

/-! ## Words as bits -/

/-- The lowest `width` bits of a number, highest first. -/
def word : Nat → Nat → List Bool
  | 0, _ => []
  | width + 1, value => value.testBit width :: word width value

/-- The number that `bits` spell after the bits of `known`. -/
def number (known : Nat) (bits : List Bool) : Nat := bits.foldl (fun n b => 2 * n + b.toNat) known

@[simp] theorem length_word (width value : Nat) : (word width value).length = width := by
  induction width with
  | zero => rfl
  | succ width ih => simp [word, ih]

theorem word_eq_iff {width x y : Nat} :
    word width x = word width y ↔ ∀ i, i < width → x.testBit i = y.testBit i := by
  induction width with
  | zero => simp [word]
  | succ width ih =>
    simp only [word, List.cons.injEq, ih]
    constructor
    · rintro ⟨top, rest⟩ i hi
      rcases Nat.lt_succ_iff_lt_or_eq.mp hi with h | rfl
      · exact rest i h
      · exact top
    · exact fun h => ⟨h width (by omega), fun i hi => h i (by omega)⟩

theorem word_injective {width x y : Nat} (hx : x < 2 ^ width) (hy : y < 2 ^ width)
    (h : word width x = word width y) : x = y := by
  apply Nat.eq_of_testBit_eq
  intro i
  by_cases hi : i < width
  · exact word_eq_iff.mp h i hi
  · have hle : 2 ^ width ≤ 2 ^ i := Nat.pow_le_pow_right (by omega) (by omega)
    rw [Nat.testBit_lt_two_pow (by omega), Nat.testBit_lt_two_pow (by omega)]

@[simp] theorem number_nil (known : Nat) : number known [] = known := rfl

@[simp] theorem number_cons (known : Nat) (b : Bool) (bits : List Bool) :
    number known (b :: bits) = number (2 * known + b.toNat) bits := rfl

/-- The bits of what is known stand above the bits that are read. -/
theorem number_eq (known : Nat) (bits : List Bool) :
    number known bits = known * 2 ^ bits.length + number 0 bits := by
  induction bits generalizing known with
  | nil => simp
  | cons b bits ih =>
    rw [number_cons, number_cons, ih, ih (2 * 0 + b.toNat)]
    simp only [List.length_cons, Nat.pow_succ]
    ring

theorem number_lt (bits : List Bool) : number 0 bits < 2 ^ bits.length := by
  induction bits with
  | nil => simp
  | cons b bits ih =>
    rw [number_cons, number_eq]
    have : b.toNat ≤ 1 := Bool.toNat_le b
    have : (2 * 0 + b.toNat) * 2 ^ bits.length ≤ 1 * 2 ^ bits.length :=
      Nat.mul_le_mul_right _ (by omega)
    simp only [List.length_cons, Nat.pow_succ]
    omega

/-- Reading a word gives it back, whatever was known before. -/
theorem word_number {width : Nat} (known : Nat) {bits : List Bool} (h : bits.length = width) :
    word width (number known bits) = bits := by
  subst h
  induction bits generalizing known with
  | nil => rfl
  | cons b bits ih =>
    have top : (number (2 * known + b.toNat) bits).testBit bits.length = b := by
      rw [number_eq, Nat.mul_comm, Nat.testBit_two_pow_mul_add _ (number_lt bits)]
      cases b <;> simp [Nat.testBit_zero, Nat.add_mod]
    rw [List.length_cons, word, number_cons, ih, top]

/-- Every sequence of bits is the word of one number. -/
theorem exists_word {width : Nat} {bits : List Bool} (h : bits.length = width) :
    ∃ x, x < 2 ^ width ∧ word width x = bits := by
  refine ⟨number 0 bits, ?_, word_number 0 h⟩
  rw [← h]
  exact number_lt bits

/-! ## Sequences of numbers -/

abbrev Valuation : Type := List Nat

/-- All valuations of variables with these widths. -/
def box (widths : List UInt32) : Set Valuation :=
  {v | List.Forall₂ (fun x width => x < 2 ^ width.toNat) v widths}

/-- How many bits spell a valuation. -/
def bitCount (widths : List UInt32) : Nat := (widths.map UInt32.toNat).sum

def spell : List UInt32 → Valuation → List Bool
  | width :: widths, x :: v => word width.toNat x ++ spell widths v
  | _, _ => []

/-- The product of a set with the range of one more variable. -/
def cylinder (width : UInt32) (s : Set Valuation) : Set Valuation :=
  {u | ∃ v ∈ s, ∃ x, x < 2 ^ width.toNat ∧ u = v ++ [x]}

@[simp] theorem bitCount_nil : bitCount [] = 0 := rfl

@[simp] theorem bitCount_cons (width : UInt32) (widths : List UInt32) :
    bitCount (width :: widths) = width.toNat + bitCount widths := rfl

@[simp] theorem bitCount_append (ws us : List UInt32) :
    bitCount (ws ++ us) = bitCount ws + bitCount us := by
  simp [bitCount]

/-! ## Boxes -/

@[simp] theorem mem_box_nil (v : Valuation) : v ∈ box [] ↔ v = [] := List.forall₂_nil_right_iff

@[simp] theorem mem_box_cons (x : Nat) (v : Valuation) (width : UInt32) (widths : List UInt32) :
    x :: v ∈ box (width :: widths) ↔ x < 2 ^ width.toNat ∧ v ∈ box widths :=
  List.forall₂_cons

theorem length_of_mem_box {v : Valuation} {widths : List UInt32} (h : v ∈ box widths) :
    v.length = widths.length := h.length_eq

theorem lt_of_mem_box {v : Valuation} {widths : List UInt32} (h : v ∈ box widths) {i : Nat}
    (hv : i < v.length) (hw : i < widths.length) : v[i] < 2 ^ widths[i].toNat := h.get hv hw

theorem mem_box_append {v u : Valuation} {ws us : List UInt32} (h : v.length = ws.length) :
    v ++ u ∈ box (ws ++ us) ↔ v ∈ box ws ∧ u ∈ box us := by
  induction ws generalizing v with
  | nil =>
    rw [List.length_nil, List.length_eq_zero_iff] at h
    simp [h]
  | cons width ws ih =>
    cases v with
    | nil => simp at h
    | cons x v => simp [ih (by simpa using h), and_assoc]

/-- A valuation of many variables splits into valuations of the first and of the rest. -/
theorem exists_split {v : Valuation} {ws us : List UInt32} (h : v ∈ box (ws ++ us)) :
    ∃ a ∈ box ws, ∃ b ∈ box us, v = a ++ b := by
  have hl : v.length = ws.length + us.length := by simpa using length_of_mem_box h
  have ht : (v.take ws.length).length = ws.length := by simp; omega
  rw [← List.take_append_drop ws.length v, mem_box_append ht] at h
  exact ⟨_, h.1, _, h.2, (List.take_append_drop _ _).symm⟩

/-- Moving one coordinate within its range stays in the box. -/
theorem set_mem_box {v : Valuation} {widths : List UInt32} (h : v ∈ box widths) {i x : Nat}
    (hi : i < widths.length) : v.set i x ∈ box widths ↔ x < 2 ^ widths[i].toNat := by
  induction widths generalizing v i with
  | nil => simp at hi
  | cons width widths ih =>
    cases v with
    | nil => simpa using length_of_mem_box h
    | cons y v =>
      rw [mem_box_cons] at h
      cases i with
      | zero => simp [h.2]
      | succ i => simpa [h.1] using ih h.2 (by simpa using hi)

theorem cylinder_eq_image2 (width : UInt32) (s : Set Valuation) :
    cylinder width s = Set.image2 (· ++ ·) s (box [width]) := by
  ext u
  constructor
  · rintro ⟨v, hv, x, hx, rfl⟩
    exact ⟨v, hv, [x], by simp [hx], rfl⟩
  · rintro ⟨v, hv, b, hb, rfl⟩
    cases b with
    | nil => simpa using length_of_mem_box hb
    | cons x b =>
      simp only [mem_box_cons, mem_box_nil] at hb
      obtain ⟨hx, rfl⟩ := hb
      exact ⟨v, hv, x, hx, rfl⟩

/-- The box of more variables is the product of two boxes. -/
theorem box_append (ws us : List UInt32) :
    box (ws ++ us) = Set.image2 (· ++ ·) (box ws) (box us) := by
  ext v
  constructor
  · intro hv
    obtain ⟨a, ha, b, hb, rfl⟩ := exists_split hv
    exact ⟨a, ha, b, hb, rfl⟩
  · rintro ⟨a, ha, b, hb, rfl⟩
    exact (mem_box_append (length_of_mem_box ha)).mpr ⟨ha, hb⟩

theorem box_concat (widths : List UInt32) (width : UInt32) :
    box (widths ++ [width]) = cylinder width (box widths) := by
  rw [box_append, cylinder_eq_image2]

/-! ## Spelling -/

theorem length_spell {v : Valuation} {widths : List UInt32} (h : v ∈ box widths) :
    (spell widths v).length = bitCount widths := by
  induction widths generalizing v with
  | nil => cases v <;> rfl
  | cons width widths ih =>
    cases v with
    | nil => simpa using length_of_mem_box h
    | cons x v => simp [spell, ih ((mem_box_cons ..).mp h).2]

/-- Every sequence of the right length spells a valuation. -/
theorem exists_spell {widths : List UInt32} {bits : List Bool} (h : bits.length = bitCount widths) :
    ∃ v ∈ box widths, spell widths v = bits := by
  induction widths generalizing bits with
  | nil => exact ⟨[], by simp, by simpa [spell] using h⟩
  | cons width widths ih =>
    rw [bitCount_cons] at h
    obtain ⟨x, hx, hword⟩ :=
      @exists_word width.toNat (bits.take width.toNat) (by simp; omega)
    obtain ⟨v, hv, hrest⟩ := @ih (bits.drop width.toNat) (by simp; omega)
    refine ⟨x :: v, by simp [hx, hv], ?_⟩
    rw [spell, hword, hrest, List.take_append_drop]

theorem spell_append {v u : Valuation} {ws us : List UInt32} (h : v.length = ws.length) :
    spell (ws ++ us) (v ++ u) = spell ws v ++ spell us u := by
  induction ws generalizing v with
  | nil =>
    rw [List.length_nil, List.length_eq_zero_iff] at h
    simp [h, spell]
  | cons width ws ih =>
    cases v with
    | nil => simp at h
    | cons x v => simp [spell, ih (by simpa using h)]

/-- The bits of a valuation around those of one variable. -/
theorem spell_eq {v : Valuation} {widths : List UInt32} (h : v ∈ box widths) {i : Nat}
    (hv : i < v.length) (hw : i < widths.length) :
    spell widths v = spell (widths.take i) (v.take i) ++ word widths[i].toNat v[i] ++
      spell (widths.drop (i + 1)) (v.drop (i + 1)) := by
  have hl := length_of_mem_box h
  have key := @spell_append (v.take i) (v.drop i) (widths.take i) (widths.drop i)
    (by simp; omega)
  rw [List.take_append_drop, List.take_append_drop] at key
  rw [key, List.drop_eq_getElem_cons hv, List.drop_eq_getElem_cons hw, spell, List.append_assoc]

theorem length_spell_take {v : Valuation} {widths : List UInt32} (h : v ∈ box widths) (i : Nat) :
    (spell (widths.take i) (v.take i)).length = bitCount (widths.take i) :=
  length_spell (List.forall₂_take i h)

theorem word_at_spell {v : Valuation} {widths : List UInt32} (h : v ∈ box widths) {i : Nat}
    (hv : i < v.length) (hw : i < widths.length) :
    ((spell widths v).drop (bitCount (widths.take i))).take widths[i].toNat =
      word widths[i].toNat v[i] := by
  rw [spell_eq h hv hw, List.append_assoc, List.drop_left' (length_spell_take h i),
    List.take_left' (length_word _ _)]

/-- Moving one coordinate rewrites its word. -/
theorem spell_set {v : Valuation} {widths : List UInt32} (h : v ∈ box widths) {i : Nat}
    (hw : i < widths.length) {x : Nat} (hx : x < 2 ^ widths[i].toNat) :
    spell widths (v.set i x) = (spell widths v).take (bitCount (widths.take i)) ++
      word widths[i].toNat x ++
      (spell widths v).drop (bitCount (widths.take i) + widths[i].toNat) := by
  have hv : i < v.length := by rw [length_of_mem_box h]; exact hw
  have hset := (set_mem_box h hw).mpr hx
  have before : (v.set i x).take i = v.take i := List.take_set_of_le (Nat.le_refl i)
  have after : (v.set i x).drop (i + 1) = v.drop (i + 1) := List.drop_set_of_lt (by omega)
  have front := length_spell_take h i
  have word_end : (spell (widths.take i) (v.take i) ++ word widths[i].toNat v[i]).length =
      bitCount (widths.take i) + widths[i].toNat := by simp [front]
  rw [spell_eq hset (by simpa using hv) hw, before, after, List.getElem_set_self,
    spell_eq h hv hw, List.drop_left' word_end, List.append_assoc _ (word _ v[i]),
    List.take_left' front]

theorem bitCount_split {widths : List UInt32} {i : Nat} (hw : i < widths.length) :
    bitCount widths =
      bitCount (widths.take i) + widths[i].toNat + bitCount (widths.drop (i + 1)) := by
  have h : widths = widths.take i ++ widths[i] :: widths.drop (i + 1) := by simp
  conv_lhs => rw [h]
  rw [bitCount_append, bitCount_cons, Nat.add_assoc]

end LayeredSets
