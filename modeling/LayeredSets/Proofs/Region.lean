import LayeredSets.Explicit.Region
import LayeredSets.Proofs.Valuation
import Mathlib.Tactic

/-!
# Regions as sets of bit sequences

What each operation on regions does to the sequences in it, and why equal sets of sequences have
equal trees: a tree without redundant splits is determined by the sequences that it holds.
-/

namespace LayeredSets.Region

/-! ## Canonical trees -/

/-- A tree over `n` bits in which no split has two equal leaves. -/
def Canonical : Nat → Region → Prop
  | _, leaf _ => True
  | 0, split _ _ => False
  | n + 1, split low high => Canonical n low ∧ Canonical n high ∧ node low high = split low high

@[simp] theorem canonical_leaf (n : Nat) (all : Bool) : Canonical n (leaf all) := by
  cases n <;> trivial

theorem Canonical.succ {n : Nat} {r : Region} (h : Canonical n r) : Canonical (n + 1) r := by
  induction n generalizing r with
  | zero =>
    cases r with
    | leaf => simp
    | split => exact h.elim
  | succ n ih =>
    cases r with
    | leaf => simp
    | split => exact ⟨ih h.1, ih h.2.1, h.2.2⟩

theorem Canonical.mono {n m : Nat} {r : Region} (h : Canonical n r) (hm : n ≤ m) :
    Canonical m r := by
  induction hm with
  | refl => exact h
  | step _ ih => exact ih.succ

/-- A split that `node` does not shorten stays as it is. -/
theorem node_eq (low high : Region) :
    node low high = split low high ∨ ∃ all, node low high = leaf all := by
  cases low <;> cases high <;> simp only [node, true_or]
  split
  · exact .inr ⟨_, rfl⟩
  · exact .inl rfl

theorem Canonical.node {n : Nat} {low high : Region} (hl : Canonical n low)
    (hh : Canonical n high) : Canonical (n + 1) (node low high) := by
  rcases node_eq low high with h | ⟨all, h⟩
  · rw [h]
    exact ⟨hl, hh, h⟩
  · rw [h]
    exact canonical_leaf _ _

theorem Canonical.low {n : Nat} {r : Region} (h : Canonical (n + 1) r) : Canonical n r.low := by
  cases r with
  | leaf => exact canonical_leaf _ _
  | split => exact h.1

theorem Canonical.high {n : Nat} {r : Region} (h : Canonical (n + 1) r) : Canonical n r.high := by
  cases r with
  | leaf => exact canonical_leaf _ _
  | split => exact h.2.1

theorem Canonical.map {n : Nat} {r : Region} (f : Bool → Bool) (h : Canonical n r) :
    Canonical n (r.map f) := by
  induction r generalizing n with
  | leaf => exact canonical_leaf _ _
  | split low high ihl ihh =>
    cases n with
    | zero => exact h.elim
    | succ n => exact (ihl h.1).node (ihh h.2.1)

theorem Canonical.combine {n : Nat} {r s : Region} (f : Bool → Bool → Bool) (hr : Canonical n r)
    (hs : Canonical n s) : Canonical n (combine f r s) := by
  induction r generalizing n s with
  | leaf => exact hs.map _
  | split low high ihl ihh =>
    cases n with
    | zero => exact hr.elim
    | succ n => exact (ihl hr.1 hs.low).node (ihh hr.2.1 hs.high)

theorem canonical_full (n : Nat) : Canonical n full := canonical_leaf _ _

theorem canonical_empty (n : Nat) : Canonical n empty := canonical_leaf _ _

theorem Canonical.union {n : Nat} {r s : Region} (hr : Canonical n r) (hs : Canonical n s) :
    Canonical n (r.union s) := hr.combine _ hs

theorem Canonical.inter {n : Nat} {r s : Region} (hr : Canonical n r) (hs : Canonical n s) :
    Canonical n (r.inter s) := hr.combine _ hs

theorem Canonical.diff {n : Nat} {r s : Region} (hr : Canonical n r) (hs : Canonical n s) :
    Canonical n (r.diff s) := hr.combine _ hs

theorem Canonical.compl {n : Nat} {r : Region} (hr : Canonical n r) : Canonical n r.compl :=
  hr.map _

theorem Canonical.exact {n : Nat} {rest : Region} (value : Nat) (h : Canonical n rest)
    (width : Nat) : Canonical (n + width) (exact value rest width) := by
  induction width with
  | zero => exact h
  | succ width ih =>
    rw [Region.exact]
    split
    · exact (canonical_leaf _ _).node ih
    · exact ih.node (canonical_leaf _ _)

theorem Canonical.skip {n : Nat} {rest : Region} (h : Canonical n rest) (count : Nat) :
    Canonical (n + count) (skip rest count) := by
  induction count with
  | zero => exact h
  | succ count ih => exact ih.node ih

theorem Canonical.agree (width gap count known : Nat) :
    Canonical (width + gap + count) (agree width gap count known) := by
  induction count generalizing known with
  | zero =>
    have h := (canonical_leaf 0 true).exact known width
    rw [Nat.zero_add] at h
    exact h.skip gap
  | succ count ih => exact (ih _).node (ih _)

theorem Canonical.forget {n : Nat} {r : Region} (width : Nat) (h : Canonical n r) :
    Canonical n (forget width r) := by
  induction width generalizing n r with
  | zero => exact h
  | succ width ih =>
    cases r with
    | leaf => exact canonical_leaf _ _
    | split low high =>
      cases n with
      | zero => exact h.elim
      | succ n =>
        have both : Canonical n (low.union high) := Canonical.union h.1 h.2.1
        exact (ih both).node (ih both)

theorem Canonical.forgetAt {n : Nat} {r : Region} (width offset : Nat) (h : Canonical n r) :
    Canonical n (forgetAt width offset r) := by
  induction offset generalizing n r with
  | zero => exact h.forget width
  | succ offset ih =>
    cases r with
    | leaf => exact canonical_leaf _ _
    | split low high =>
      cases n with
      | zero => exact h.elim
      | succ n => exact (ih h.1).node (ih h.2.1)

/-- Two trees with one answer to all sequences are one tree: by induction on the depth, since a
split without two equal leaves below it answers both ways. -/
theorem Canonical.not_constant {n : Nat} {r : Region} (h : Canonical n r) (all : Bool)
    (same : ∀ bits, bits.length = n → r.has bits = all) : r = leaf all := by
  induction n generalizing r with
  | zero =>
    cases r with
    | leaf a => exact congrArg leaf (same [] rfl)
    | split => exact h.elim
  | succ n ih =>
    cases r with
    | leaf a => exact congrArg leaf (same (List.replicate (n + 1) false) (by simp))
    | split low high =>
      have hl : low = leaf all :=
        ih h.1 fun bits hb => by simpa [has] using same (false :: bits) (by simp [hb])
      have hh : high = leaf all :=
        ih h.2.1 fun bits hb => by simpa [has] using same (true :: bits) (by simp [hb])
      have hn := h.2.2
      rw [hl, hh] at hn
      simp [Region.node] at hn

theorem Canonical.eq_of_has {n : Nat} {r s : Region} (hr : Canonical n r) (hs : Canonical n s)
    (same : ∀ bits, bits.length = n → r.has bits = s.has bits) : r = s := by
  induction n generalizing r s with
  | zero =>
    cases s with
    | leaf all => exact hr.not_constant all fun bits hb => same bits hb
    | split => exact hs.elim
  | succ n ih =>
    cases r with
    | leaf all => exact (hs.not_constant all fun bits hb => (same bits hb).symm).symm
    | split low high =>
      cases s with
      | leaf all => exact hr.not_constant all fun bits hb => same bits hb
      | split low' high' =>
        have hl : low = low' :=
          ih hr.1 hs.1 fun bits hb => by simpa [has] using same (false :: bits) (by simp [hb])
        have hh : high = high' :=
          ih hr.2.1 hs.2.1 fun bits hb => by simpa [has] using same (true :: bits) (by simp [hb])
        rw [hl, hh]

/-! ## The sequences in a region -/

@[simp] theorem has_leaf (all : Bool) (bits : List Bool) : (leaf all).has bits = all := by
  cases bits <;> rfl

@[simp] theorem has_empty (bits : List Bool) : empty.has bits = false := has_leaf _ _

@[simp] theorem has_full (bits : List Bool) : full.has bits = true := has_leaf _ _

@[simp] theorem has_union (r s : Region) (bits : List Bool) :
    (union r s).has bits = (r.has bits || s.has bits) := has_combine _ _ _ _

@[simp] theorem has_inter (r s : Region) (bits : List Bool) :
    (inter r s).has bits = (r.has bits && s.has bits) := has_combine _ _ _ _

@[simp] theorem has_diff (r s : Region) (bits : List Bool) :
    (diff r s).has bits = (r.has bits && !s.has bits) := has_combine _ _ _ _

@[simp] theorem has_compl (r : Region) (bits : List Bool) :
    r.compl.has bits = !r.has bits := has_map _ _ _

theorem has_skip (rest : Region) (count : Nat) (bits : List Bool) :
    (skip rest count).has bits = rest.has (bits.drop count) := by
  induction count generalizing bits with
  | zero => rfl
  | succ count ih =>
    cases bits with
    | nil => simp [skip, has, ih]
    | cons bit bits => cases bit <;> simp [skip, has, ih]

theorem has_exact (value width : Nat) (rest : Region) {bits : List Bool}
    (h : width ≤ bits.length) :
    (exact value rest width).has bits =
      (decide (bits.take width = word width value) && rest.has (bits.drop width)) := by
  induction width generalizing bits with
  | zero => simp [exact, word]
  | succ width ih =>
    cases bits with
    | nil => simp at h
    | cons bit bits =>
      have tail := @ih bits (by simpa using h)
      rw [exact]
      cases hv : value.testBit width <;> cases bit <;> simp [has, word, hv, tail]

theorem has_agree (width gap count known : Nat) {bits : List Bool}
    (h : count + gap + width ≤ bits.length) :
    (agree width gap count known).has bits =
      decide ((bits.drop (count + gap)).take width =
        word width (number known (bits.take count))) := by
  induction count generalizing known bits with
  | zero =>
    rw [agree, has_skip, has_exact]
    · simp
    · simp only [List.length_drop]
      omega
  | succ count ih =>
    cases bits with
    | nil => simp at h
    | cons bit bits =>
      have tail := fun known => @ih known bits (by simp at h; omega)
      have hd : (bit :: bits).drop (count + 1 + gap) = bits.drop (count + gap) := by
        rw [show count + 1 + gap = (count + gap) + 1 by omega, List.drop_succ_cons]
      cases bit <;> simp [agree, has, tail, hd]

/-- Some sequence that differs in its first `width` bits at most is in the region. -/
theorem has_forget (width : Nat) (r : Region) {bits : List Bool} (h : width ≤ bits.length) :
    (forget width r).has bits = true ↔
      ∃ front : List Bool, front.length = width ∧ r.has (front ++ bits.drop width) = true := by
  induction width generalizing r bits with
  | zero => simp [forget]
  | succ width ih =>
    cases bits with
    | nil => simp at h
    | cons bit bits =>
      have hw : width ≤ bits.length := by simpa using h
      cases r with
      | leaf all =>
        simp only [forget, has_leaf]
        exact ⟨fun ha => ⟨List.replicate (width + 1) false, by simp, ha⟩, fun ⟨_, _, ha⟩ => ha⟩
      | split low high =>
        have step : (forget (width + 1) (split low high)).has (bit :: bits) =
            (forget width (union low high)).has bits := by
          cases bit <;> simp [forget, has]
        rw [step, ih _ hw]
        simp only [has_union, Bool.or_eq_true, List.drop_succ_cons]
        constructor
        · rintro ⟨front, hf, hl | hh⟩
          · exact ⟨false :: front, by simp [hf], by simpa [has] using hl⟩
          · exact ⟨true :: front, by simp [hf], by simpa [has] using hh⟩
        · rintro ⟨front, hf, ha⟩
          cases front with
          | nil => simp at hf
          | cons b front =>
            refine ⟨front, by simpa using hf, ?_⟩
            cases b
            · exact .inl (by simpa [has] using ha)
            · exact .inr (by simpa [has] using ha)

/-- Some sequence that differs at most in the `width` bits after `offset` is in the region. -/
theorem has_forgetAt (width offset : Nat) (r : Region) {bits : List Bool}
    (h : offset + width ≤ bits.length) :
    (forgetAt width offset r).has bits = true ↔
      ∃ middle : List Bool, middle.length = width ∧
        r.has (bits.take offset ++ middle ++ bits.drop (offset + width)) = true := by
  induction offset generalizing r bits with
  | zero =>
    rw [forgetAt, has_forget _ _ (by omega)]
    simp
  | succ offset ih =>
    cases bits with
    | nil => simp at h
    | cons bit bits =>
      have hw : offset + width ≤ bits.length := by simp at h; omega
      have hd : (bit :: bits).drop (offset + 1 + width) = bits.drop (offset + width) := by
        rw [show offset + 1 + width = (offset + width) + 1 by omega, List.drop_succ_cons]
      cases r with
      | leaf all =>
        simp only [forgetAt, has_leaf]
        exact ⟨fun ha => ⟨List.replicate width false, by simp, ha⟩, fun ⟨_, _, ha⟩ => ha⟩
      | split low high =>
        rw [hd]
        cases bit
        · simpa [forgetAt, has] using ih low hw
        · simpa [forgetAt, has] using ih high hw

end LayeredSets.Region
