import LayeredSets.Proofs.Explicit.Ideal

/-!
# Chunks

The variables of one pack are a chunk of all variables: a given number of them in the order of
declaration. A valuation is put together of its chunks, one in the box of each pack, and the checks
of a point go through its chunks in turn.
-/

namespace LayeredSets

variable {α : Type}

/-- The items with the numbers from `pack * size` on, at most `size` of them. -/
def chunk (size pack : Nat) (l : List α) : List α := (l.drop (pack * size)).take size

/-! ## Items -/

theorem length_chunk (size pack : Nat) (l : List α) :
    (chunk size pack l).length = min size (l.length - pack * size) := by
  simp [chunk]

/-- The last chunk that is begun holds what is left over by the full ones. -/
theorem length_chunk_last {size : Nat} (hsize : 0 < size) (l : List α) :
    (chunk size (l.length / size) l).length = l.length % size := by
  have hdiv := Nat.div_add_mod l.length size
  have hmod := Nat.mod_lt l.length hsize
  rw [Nat.mul_comm] at hdiv
  rw [length_chunk]
  omega

theorem getElem?_chunk {size : Nat} (hsize : 0 < size) (l : List α) (i : Nat) :
    (chunk size (i / size) l)[i % size]? = l[i]? := by
  rw [chunk, List.getElem?_take_of_lt (Nat.mod_lt i hsize), List.getElem?_drop, Nat.mul_comm,
    Nat.div_add_mod]

theorem chunk_set {size : Nat} (hsize : 0 < size) (l : List α) (i : Nat) (x : α) (pack : Nat) :
    chunk size pack (l.set i x) =
      if pack = i / size then (chunk size pack l).set (i % size) x else chunk size pack l := by
  have hi := Nat.div_add_mod i size
  have hmod := Nat.mod_lt i hsize
  rw [Nat.mul_comm] at hi
  by_cases h : pack = i / size
  · subst h
    rw [if_pos rfl, chunk, chunk, List.drop_set, if_neg (by omega), List.take_set]
    congr 1
    omega
  · rw [if_neg h, chunk, chunk, List.drop_set]
    rcases Nat.lt_or_gt_of_ne h with hlt | hgt
    · have hle : (pack + 1) * size ≤ i / size * size := Nat.mul_le_mul_right _ hlt
      rw [Nat.add_mul, Nat.one_mul] at hle
      rw [if_neg (by omega), List.take_set_of_le (by omega)]
    · have hle : (i / size + 1) * size ≤ pack * size := Nat.mul_le_mul_right _ hgt
      rw [Nat.add_mul, Nat.one_mul] at hle
      rw [if_pos (by omega)]

/-- One more item belongs to the pack of its number. -/
theorem chunk_concat {size : Nat} (hsize : 0 < size) (l : List α) (x : α) (pack : Nat) :
    chunk size pack (l ++ [x]) =
      if pack = l.length / size then chunk size pack l ++ [x] else chunk size pack l := by
  have hi := Nat.div_add_mod l.length size
  have hmod := Nat.mod_lt l.length hsize
  rw [Nat.mul_comm] at hi
  by_cases h : pack = l.length / size
  · subst h
    rw [if_pos rfl, chunk, chunk, List.drop_append_of_le_length (by omega), List.take_of_length_le,
      List.take_of_length_le]
    · simp only [List.length_drop]
      omega
    · simp only [List.length_append, List.length_drop, List.length_singleton]
      omega
  · rw [if_neg h, chunk, chunk]
    rcases Nat.lt_or_gt_of_ne h with hlt | hgt
    · have hle : (pack + 1) * size ≤ l.length / size * size := Nat.mul_le_mul_right _ hlt
      rw [Nat.add_mul, Nat.one_mul] at hle
      rw [List.drop_append_of_le_length (by omega), List.take_append_of_le_length]
      simp only [List.length_drop]
      omega
    · have hle : (l.length / size + 1) * size ≤ pack * size := Nat.mul_le_mul_right _ hgt
      rw [Nat.add_mul, Nat.one_mul] at hle
      rw [List.drop_of_length_le (by simp; omega), List.drop_of_length_le (by omega)]

theorem eq_of_chunks {size n : Nat} (hsize : 0 < size) {l l' : List α}
    (hl : l.length ≤ n * size) (hl' : l'.length ≤ n * size)
    (h : ∀ pack < n, chunk size pack l = chunk size pack l') : l = l' := by
  refine List.ext_getElem? fun i => ?_
  by_cases hi : i < n * size
  · rw [← getElem?_chunk hsize, h _ (Nat.div_lt_of_lt_mul (Nat.mul_comm .. ▸ hi)),
      getElem?_chunk hsize]
  · rw [List.getElem?_eq_none (by omega), List.getElem?_eq_none (by omega)]

theorem chunk_zero (size : Nat) (l : List α) : chunk size 0 l = l.take size := by
  simp [chunk]

theorem chunk_succ (size pack : Nat) (l : List α) :
    chunk size (pack + 1) l = chunk size pack (l.drop size) := by
  rw [chunk, chunk, List.drop_drop]
  congr 2
  ring

theorem map_chunk {β : Type} (f : α → β) (size pack : Nat) (l : List α) :
    (chunk size pack l).map f = chunk size pack (l.map f) := by
  simp [chunk]

/-! ## Boxes -/

theorem chunk_mem_box {widths : List UInt32} {v : Valuation} (h : v ∈ box widths)
    (size pack : Nat) : chunk size pack v ∈ box (chunk size pack widths) :=
  List.forall₂_take _ (List.forall₂_drop _ h)

/-- Valuations of all chunks come from a valuation of the whole. -/
theorem exists_of_chunks {size n : Nat} {widths : List UInt32} (h : widths.length ≤ n * size)
    {bundle : Nat → Valuation} (hbundle : ∀ pack < n, bundle pack ∈ box (chunk size pack widths)) :
    ∃ v ∈ box widths, ∀ pack < n, chunk size pack v = bundle pack := by
  induction n generalizing widths bundle with
  | zero =>
    rw [Nat.zero_mul, Nat.le_zero, List.length_eq_zero_iff] at h
    exact ⟨[], by simp [h], by simp⟩
  | succ n ih =>
    rw [Nat.add_mul, Nat.one_mul] at h
    obtain ⟨v, hv, hchunks⟩ := @ih (widths.drop size) (by simp; omega)
      (fun pack => bundle (pack + 1))
      fun pack hpack => chunk_succ size pack widths ▸ hbundle (pack + 1) (by omega)
    have hfirst := hbundle 0 (by omega)
    rw [chunk_zero] at hfirst
    have hlength := length_of_mem_box hfirst
    have hrest := length_of_mem_box hv
    rw [List.length_take] at hlength
    rw [List.length_drop] at hrest
    refine ⟨bundle 0 ++ v, ?_, fun pack hpack => ?_⟩
    · rw [← List.take_append_drop size widths, mem_box_append (length_of_mem_box hfirst)]
      exact ⟨hfirst, hv⟩
    · -- either the first chunk is full, or nothing comes after it
      by_cases hfull : size ≤ widths.length
      · have hsize : (bundle 0).length = size := by omega
        cases pack with
        | zero => rw [chunk_zero, List.take_left' hsize]
        | succ pack =>
          rw [chunk_succ, List.drop_left' hsize, hchunks pack (by omega)]
      · have hnone : v = [] := List.length_eq_zero_iff.mp (by omega)
        rw [hnone, List.append_nil]
        cases pack with
        | zero => rw [chunk_zero, List.take_of_length_le (by omega)]
        | succ pack =>
          rw [chunk_succ, List.drop_of_length_le (by omega), ← hchunks pack (by omega), hnone]

/-! ## Points -/

theorem checkPoint_eq_ok_iff {widths : List UInt32} {point : List UInt64} :
    Ideal.checkPoint widths point = .ok () ↔
      ∀ x ∈ widths.zip point, x.2.toNat < 2 ^ x.1.toNat := by
  induction widths generalizing point with
  | nil => simp [Ideal.checkPoint]
  | cons width widths ih =>
    cases point with
    | nil => simp [Ideal.checkPoint]
    | cons value point =>
      simp only [Ideal.checkPoint, Ideal.checkValue, List.zip_cons_cons, List.forall_mem_cons]
      split
      · next hfits =>
        rw [and_iff_right hfits]
        exact ih
      · next hfits => exact iff_of_false nofun fun hall => hfits hall.1

theorem checkPoint_append {ws us : List UInt32} {a b : List UInt64} (h : a.length = ws.length) :
    Ideal.checkPoint (ws ++ us) (a ++ b) =
      Ideal.checkPoint ws a >>= fun _ => Ideal.checkPoint us b := by
  induction ws generalizing a with
  | nil =>
    obtain rfl := List.length_eq_zero_iff.mp h
    rfl
  | cons width ws ih =>
    cases a with
    | nil => simp at h
    | cons value a =>
      simp only [List.cons_append, Ideal.checkPoint, bind_assoc]
      rw [ih (by simpa using h)]

theorem checkPoint_chunks {size n : Nat} {widths : List UInt32} {point : List UInt64}
    (hlength : point.length = widths.length) (h : widths.length ≤ n * size) :
    match Ideal.checkPoint widths point with
    | .ok () => ∀ pack < n,
        Ideal.checkPoint (chunk size pack widths) (chunk size pack point) = .ok ()
    | .error e => ∃ pack < n,
        (∀ before < pack,
          Ideal.checkPoint (chunk size before widths) (chunk size before point) = .ok ()) ∧
        Ideal.checkPoint (chunk size pack widths) (chunk size pack point) = .error e := by
  induction n generalizing widths point with
  | zero =>
    rw [Nat.zero_mul, Nat.le_zero, List.length_eq_zero_iff] at h
    rw [h] at hlength ⊢
    rw [List.length_nil, List.length_eq_zero_iff] at hlength
    simp [hlength, Ideal.checkPoint]
  | succ n ih =>
    rw [Nat.add_mul, Nat.one_mul] at h
    have hrest := @ih (widths.drop size) (point.drop size) (by simp [hlength]) (by simp; omega)
    have hsplit : Ideal.checkPoint (widths.take size ++ widths.drop size)
        (point.take size ++ point.drop size) = _ := checkPoint_append (by simp [hlength])
    simp only [List.take_append_drop] at hsplit
    rw [hsplit]
    have hfirst : Ideal.checkPoint (chunk size 0 widths) (chunk size 0 point) =
        Ideal.checkPoint (widths.take size) (point.take size) := by
      rw [chunk_zero, chunk_zero]
    cases hcheck : Ideal.checkPoint (widths.take size) (point.take size) with
    | error e => exact ⟨0, by omega, by simp, by rw [hfirst, hcheck]⟩
    | ok u =>
      change match Ideal.checkPoint (widths.drop size) (point.drop size) with
        | .ok () => _
        | .error e => _
      revert hrest
      cases Ideal.checkPoint (widths.drop size) (point.drop size) with
      | ok _ =>
        intro hrest pack hpack
        cases pack with
        | zero => rw [hfirst, hcheck]
        | succ pack =>
          rw [chunk_succ, chunk_succ]
          exact hrest pack (by omega)
      | error e =>
        rintro ⟨pack, hpack, hbefore, hfails⟩
        refine ⟨pack + 1, by omega, fun before hlt => ?_, by rwa [chunk_succ, chunk_succ]⟩
        cases before with
        | zero => rw [hfirst, hcheck]
        | succ before =>
          rw [chunk_succ, chunk_succ]
          exact hbefore before (by omega)

end LayeredSets
