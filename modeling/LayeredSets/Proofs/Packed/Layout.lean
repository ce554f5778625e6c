import LayeredSets.Proofs.Packed.Chunk
import LayeredSets.Proofs.Packed.Outside

/-!
# How variables and sets are laid out

The packs take the variables in the order of declaration and are filled one after the other. The set
of a union of terms are the valuations whose chunks a term holds, and the operations on terms do to
it what their names say.
-/

namespace LayeredSets.Packed

/-- Where the variables live in packs of a given size. -/
def layout (size : Nat) (widths : List UInt32) : List PackedVar :=
  widths.zipIdx.map fun x => ⟨x.2 / size, ⟨UInt32.ofNat (x.2 % size)⟩, x.1⟩

theorem length_layout (size : Nat) (widths : List UInt32) :
    (layout size widths).length = widths.length := by
  simp [layout]

theorem getElem?_layout (size : Nat) (widths : List UInt32) (i : Nat) :
    (layout size widths)[i]? =
      widths[i]?.map fun bits => ⟨i / size, ⟨UInt32.ofNat (i % size)⟩, bits⟩ := by
  simp [layout, List.getElem?_zipIdx, Option.map_map, Function.comp_def]

theorem layout_concat (size : Nat) (widths : List UInt32) (bits : UInt32) :
    layout size (widths ++ [bits]) = layout size widths ++
      [⟨widths.length / size, ⟨UInt32.ofNat (widths.length % size)⟩, bits⟩] := by
  simp [layout, List.zipIdx_append]

/-- The coordinates of a point in one pack, with the widths of their variables. -/
theorem filter_layout_zip {size : Nat} (hsize : 0 < size) {widths : List UInt32} {point : List UInt64}
    (h : point.length = widths.length) (pack : Nat) :
    (((layout size widths).zip point).filter (·.1.pack = pack)).map (fun x => (x.1.bits, x.2)) =
      (chunk size pack widths).zip (chunk size pack point) := by
  induction widths using List.reverseRecOn generalizing point with
  | nil =>
    rw [List.length_nil, List.length_eq_zero_iff] at h
    simp [h, layout, chunk]
  | append_singleton widths bits ih =>
    obtain ⟨before, value, rfl⟩ : ∃ before value, point = before ++ [value] := by
      rcases List.eq_nil_or_concat point with rfl | ⟨before, value, rfl⟩
      · simp at h
      · exact ⟨before, value, by simp⟩
    have hbefore : before.length = widths.length := by simpa using h
    rw [layout_concat, List.zip_append (by rw [length_layout, hbefore]), List.filter_append,
      List.map_append, ih hbefore, chunk_concat hsize, chunk_concat hsize, hbefore]
    by_cases hpack : pack = widths.length / size
    · simp [hpack, List.zip_append, length_chunk, hbefore]
    · simp [hpack, Ne.symm hpack]

/-- The coordinates of a point in one pack are a chunk of it. -/
theorem filter_layout {size : Nat} (hsize : 0 < size) {widths : List UInt32} {point : List UInt64}
    (h : point.length = widths.length) (pack : Nat) :
    (((layout size widths).zip point).filter (·.1.pack = pack)).map (·.2) =
      chunk size pack point := by
  have hzip := congrArg (List.map Prod.snd) (filter_layout_zip hsize h pack)
  rwa [List.map_map, List.map_snd_zip (by rw [length_chunk, length_chunk, h])] at hzip

/-- The first value that does not fit is in the first pack that finds something wrong. -/
theorem find?_layout {size : Nat} (hsize : 0 < size) {widths : List UInt32} {point : List UInt64}
    (h : point.length = widths.length) {pack : Nat} {e : DomainError}
    (hbefore : ∀ before < pack,
      Ideal.checkPoint (chunk size before widths) (chunk size before point) = .ok ())
    (hfails : Ideal.checkPoint (chunk size pack widths) (chunk size pack point) = .error e) :
    ∃ x, ((layout size widths).zip point).find? (fun x => 2 ^ x.1.bits.toNat ≤ x.2.toNat) =
      some x ∧ x.1.pack = pack := by
  have hok (q : Nat) : Ideal.checkPoint (chunk size q widths) (chunk size q point) = .ok () ↔
      ∀ x ∈ (layout size widths).zip point, x.1.pack = q → x.2.toNat < 2 ^ x.1.bits.toNat := by
    rw [checkPoint_eq_ok_iff, ← filter_layout_zip hsize h]
    simp only [List.forall_mem_map, List.mem_filter, decide_eq_true_eq, and_imp]
  have hnot : ¬ Ideal.checkPoint (chunk size pack widths) (chunk size pack point) = .ok () := by
    simp [hfails]
  rw [hok] at hnot
  push Not at hnot
  obtain ⟨y, hy, hypack, hymisfit⟩ := hnot
  have hsorted : ((layout size widths).zip point).Pairwise (·.1.pack ≤ ·.1.pack) := by
    rw [List.pairwise_iff_getElem]
    intro i j hi hj hij
    simp only [layout, List.getElem_zip, List.getElem_map, List.getElem_zipIdx, Nat.zero_add]
    exact Nat.div_le_div_right hij.le
  cases hfind : ((layout size widths).zip point).find? fun x => 2 ^ x.1.bits.toNat ≤ x.2.toNat with
  | none => exact absurd hymisfit (by simpa using List.find?_eq_none.mp hfind y hy)
  | some x =>
    obtain ⟨hmisfit, before, after, hsplit, hfit⟩ := List.find?_eq_some_iff_append.mp hfind
    rw [decide_eq_true_eq] at hmisfit
    refine ⟨x, rfl, Nat.le_antisymm ?_ (not_lt.mp fun hlt => ?_)⟩
    · rw [hsplit] at hy hsorted
      rcases List.mem_append.mp hy with hmem | hmem
      · exact absurd hymisfit (by simpa using hfit y hmem)
      rw [← hypack]
      rcases List.mem_cons.mp hmem with rfl | hmem
      · exact le_rfl
      · exact (List.pairwise_cons.mp (List.pairwise_append.mp hsorted).2.1).1 y hmem
    · have hfits := (hok _).mp (hbefore _ hlt) x (List.mem_of_find?_eq_some hfind) rfl
      exact absurd hmisfit (not_le.mpr hfits)

/-- Packs that hold the chunks of a list. -/
def chunks {α : Type} (size n : Nat) (l : List α) : List (Pack (List α)) :=
  (List.range n).map fun pack => ⟨chunk size pack l, (chunk size pack l).length⟩

section

variable {α : Type} {size n : Nat} {l : List α}

@[simp] theorem length_chunks (size n : Nat) (l : List α) : (chunks size n l).length = n := by
  simp [chunks]

/-- The next item goes to the pack that is not full yet. -/
theorem chunks_concat (hsize : 0 < size) (l : List α) (x : α) :
    chunks size n (l ++ [x]) = (chunks size n l).set (l.length / size)
      ⟨chunk size (l.length / size) (l ++ [x]),
        (chunk size (l.length / size) (l ++ [x])).length⟩ := by
  refine List.ext_getElem (by simp) fun pack hpack _ => ?_
  by_cases heq : pack = l.length / size
  · simp [chunks, heq]
  · simp [chunks, List.getElem_set_ne (Ne.symm heq), chunk_concat hsize, heq]

/-- If all packs are full, the next item opens one more. -/
theorem chunks_succ (hsize : 0 < size) (hfull : l.length = n * size) (x : α) :
    chunks size (n + 1) (l ++ [x]) = chunks size n l ++ [⟨[x], 1⟩] := by
  have hnew : l.length / size = n := by rw [hfull, Nat.mul_div_cancel _ hsize]
  have hnone : chunk size n l = [] := by rw [chunk, List.drop_of_length_le hfull.le, List.take_nil]
  have hold : chunks size n (l ++ [x]) = chunks size n l := by
    refine List.map_congr_left fun pack hpack => ?_
    rw [chunk_concat hsize, hnew, if_neg (List.mem_range.mp hpack).ne]
  rw [← hold, chunks, List.range_succ, List.map_append, List.map_singleton, chunk_concat hsize, hnew,
    if_pos rfl, hnone]
  rfl

end

/-- The packs are full but for the last one, and hold the chunks of the variables. -/
structure Shaped (size : Nat) (widths : List UInt32) (o : Packed (List UInt32)) : Prop where
  pos : 0 < size
  capacity : o.capacity = size
  packs : o.packs = (List.range o.packs.length).map fun pack =>
    ⟨chunk size pack widths, (chunk size pack widths).length⟩
  nonempty : 0 < o.packs.length
  room : widths.length ≤ o.packs.length * size
  filled : (o.packs.length - 1) * size ≤ widths.length
  vars : o.vars = layout size widths

/-- The valuations whose chunks are held by one of the terms. -/
def gather (size : Nat) (widths : List UInt32) (n : Nat) (parts : List (Nat → Set Valuation)) :
    Set Valuation :=
  {v ∈ box widths | Covers n parts fun pack => chunk size pack v}

theorem Holds.congr {n : Nat} {part : Nat → Set Valuation} {bundle bundle' : Nat → Valuation}
    (h : ∀ pack < n, bundle pack = bundle' pack) : Holds n part bundle ↔ Holds n part bundle' :=
  forall₂_congr fun pack hpack => by rw [h pack hpack]

theorem Covers.congr {n : Nat} {parts : List (Nat → Set Valuation)} {bundle bundle' : Nat → Valuation}
    (h : ∀ pack < n, bundle pack = bundle' pack) :
    Covers n parts bundle ↔ Covers n parts bundle' :=
  exists_congr fun _ => and_congr_right fun _ => Holds.congr h

namespace Shaped

variable {size : Nat} {widths : List UInt32} {o : Packed (List UInt32)}

/-- The shape is that of the packs and the variables. -/
theorem congr (h : Shaped size widths o) {o' : Packed (List UInt32)}
    (hcapacity : o'.capacity = o.capacity) (hpacks : o'.packs = o.packs)
    (hvars : o'.vars = o.vars) : Shaped size widths o' where
  pos := h.pos
  capacity := hcapacity.trans h.capacity
  packs := by rw [hpacks, ← h.packs]
  nonempty := hpacks ▸ h.nonempty
  room := hpacks ▸ h.room
  filled := hpacks ▸ h.filled
  vars := hvars.trans h.vars

theorem widthsOf_eq (h : Shaped size widths o) {pack : Nat} (hpack : pack < o.packs.length) :
    widthsOf o pack = chunk size pack widths := by
  have hat : o.packs[pack]? =
      some ⟨chunk size pack widths, (chunk size pack widths).length⟩ := by
    rw [h.packs]
    simp [hpack]
  simp [widthsOf, hat]

theorem pack_lt (h : Shaped size widths o) {i : Nat} (hi : i < widths.length) :
    i / size < o.packs.length :=
  Nat.div_lt_of_lt_mul (Nat.mul_comm .. ▸ hi.trans_le h.room)

theorem var_eq (h : Shaped size widths o) {i : Nat} (hi : i < widths.length) :
    o.vars[i]? = some ⟨i / size, ⟨UInt32.ofNat (i % size)⟩, widths[i]⟩ := by
  rw [h.vars, getElem?_layout, List.getElem?_eq_getElem hi, Option.map_some]

/-- The width of a variable can be found in its pack. -/
theorem width_eq (h : Shaped size widths o) {i : Nat} (hi : i < widths.length) :
    (widthsOf o (i / size))[i % size]? = some widths[i] := by
  rw [h.widthsOf_eq (h.pack_lt hi), getElem?_chunk h.pos, List.getElem?_eq_getElem hi]

theorem holds_chunks (h : Shaped size widths o) {v : Valuation} (hv : v ∈ box widths) :
    Holds o.packs.length (topPart o) fun pack => chunk size pack v := by
  intro pack hpack
  rw [topPart, h.widthsOf_eq hpack]
  exact chunk_mem_box hv size pack

/-- A bundle of valuations of all packs comes from a valuation. -/
theorem exists_bundle (h : Shaped size widths o) {bundle : Nat → Valuation}
    (hbundle : Holds o.packs.length (topPart o) bundle) :
    ∃ v ∈ box widths, ∀ pack < o.packs.length, chunk size pack v = bundle pack :=
  exists_of_chunks h.room fun pack hpack => h.widthsOf_eq hpack ▸ hbundle pack hpack

theorem forall_bundle (h : Shaped size widths o) {P : (Nat → Valuation) → Prop}
    (hP : ∀ {bundle bundle'}, (∀ pack < o.packs.length, bundle pack = bundle' pack) →
      P bundle → P bundle') :
    (∀ bundle, Holds o.packs.length (topPart o) bundle → P bundle) ↔
      ∀ v ∈ box widths, P fun pack => chunk size pack v := by
  constructor
  · exact fun hall v hv => hall _ (h.holds_chunks hv)
  · intro hall bundle hbundle
    obtain ⟨v, hv, hchunks⟩ := h.exists_bundle hbundle
    exact hP hchunks (hall v hv)

/-! ## Sets of terms -/

section

variable {parts parts' parts'' : List (Nat → Set Valuation)}

theorem gather_eq_empty_iff (h : Shaped size widths o) :
    gather size widths o.packs.length parts = ∅ ↔
      ∀ bundle, Holds o.packs.length (topPart o) bundle →
        ¬ Covers o.packs.length parts bundle := by
  rw [h.forall_bundle fun hsame hnot hcovers => hnot ((Covers.congr hsame).mpr hcovers)]
  simp [gather, Set.eq_empty_iff_forall_notMem]

theorem gather_subset_iff (h : Shaped size widths o) :
    gather size widths o.packs.length parts ⊆ gather size widths o.packs.length parts' ↔
      ∀ bundle, Holds o.packs.length (topPart o) bundle →
        Covers o.packs.length parts bundle → Covers o.packs.length parts' bundle := by
  rw [h.forall_bundle fun hsame himp hcovers =>
    (Covers.congr hsame).mp (himp ((Covers.congr hsame).mpr hcovers))]
  constructor
  · exact fun hsub v hv hcovers => (hsub ⟨hv, hcovers⟩).2
  · exact fun hall v ⟨hv, hcovers⟩ => ⟨hv, hall v hv hcovers⟩

theorem gather_top (h : Shaped size widths o) :
    gather size widths o.packs.length [topPart o] = box widths := by
  ext v
  refine ⟨fun hv => hv.1, fun hv => ⟨hv, topPart o, List.mem_singleton_self _, ?_⟩⟩
  exact h.holds_chunks hv

theorem gather_complement (h : Shaped size widths o)
    (hcovers : ∀ bundle, Holds o.packs.length (topPart o) bundle →
      (Covers o.packs.length parts' bundle ↔ ¬ Covers o.packs.length parts bundle)) :
    gather size widths o.packs.length parts' =
      box widths \ gather size widths o.packs.length parts := by
  ext v
  simp only [gather, Set.mem_ofPred_eq, Set.mem_sdiff, not_and]
  refine and_congr_right fun hv => ?_
  rw [hcovers _ (h.holds_chunks hv)]
  exact (imp_iff_right hv).symm

theorem gather_difference (h : Shaped size widths o)
    (hcovers : ∀ bundle, Holds o.packs.length (topPart o) bundle →
      (Covers o.packs.length parts'' bundle ↔
        Covers o.packs.length parts bundle ∧ ¬ Covers o.packs.length parts' bundle)) :
    gather size widths o.packs.length parts'' =
      gather size widths o.packs.length parts \ gather size widths o.packs.length parts' := by
  ext v
  simp only [gather, Set.mem_ofPred_eq, Set.mem_sdiff, not_and, and_assoc]
  refine and_congr_right fun hv => ?_
  rw [hcovers _ (h.holds_chunks hv)]
  exact and_congr_right fun _ => (imp_iff_right hv).symm

end

/-! ## Sets of constraints -/

/-- A term that is constrained in one pack. -/
theorem mem_gather_update (h : Shaped size widths o) {pack : Nat} (hpack : pack < o.packs.length)
    (value : Set Valuation) (v : Valuation) :
    v ∈ gather size widths o.packs.length [Function.update (topPart o) pack value] ↔
      v ∈ box widths ∧ chunk size pack v ∈ value := by
  simp only [gather, Set.mem_ofPred_eq, Covers, List.mem_singleton, exists_eq_left]
  refine and_congr_right fun hv => ?_
  exact holds_update (h.holds_chunks hv) hpack value

theorem gather_constant (h : Shaped size widths o) {i : Nat} (hi : i < widths.length) (x : Nat) :
    gather size widths o.packs.length [Function.update (topPart o) (i / size)
      {u ∈ topPart o (i / size) | u[i % size]? = some x}] =
        {v ∈ box widths | v[i]? = some x} := by
  ext v
  rw [h.mem_gather_update (h.pack_lt hi)]
  refine and_congr_right fun hv => ?_
  rw [Set.mem_ofPred_eq, getElem?_chunk h.pos]
  exact and_iff_right (h.holds_chunks hv _ (h.pack_lt hi))

theorem gather_equality (h : Shaped size widths o) {i j : Nat} (hi : i < widths.length)
    (hsame : j / size = i / size) :
    gather size widths o.packs.length [Function.update (topPart o) (i / size)
      {u ∈ topPart o (i / size) | u[i % size]? = u[j % size]?}] =
        {v ∈ box widths | v[i]? = v[j]?} := by
  ext v
  rw [h.mem_gather_update (h.pack_lt hi)]
  refine and_congr_right fun hv => ?_
  rw [Set.mem_ofPred_eq, getElem?_chunk h.pos, ← hsame, getElem?_chunk h.pos]
  exact and_iff_right (hsame ▸ h.holds_chunks hv _ (h.pack_lt hi))

/-- An equation across packs, value by value. -/
theorem gather_cross (h : Shaped size widths o) {i j : Nat} (hi : i < widths.length)
    (hj : j < widths.length) (hdiffer : i / size ≠ j / size) :
    gather size widths o.packs.length ((List.range (2 ^ widths[i].toNat)).map fun x =>
      Function.update (Function.update (topPart o) (i / size)
        {u ∈ topPart o (i / size) | u[i % size]? = some x}) (j / size)
        {u ∈ topPart o (j / size) | u[j % size]? = some x}) =
          {v ∈ box widths | v[i]? = v[j]?} := by
  ext v
  simp only [gather, Set.mem_ofPred_eq, Covers, List.mem_map, List.mem_range,
    exists_exists_and_eq_and]
  refine and_congr_right fun hv => ?_
  have htop := h.holds_chunks hv
  have hboth (x : Nat) : Holds o.packs.length (Function.update (Function.update (topPart o)
      (i / size) {u ∈ topPart o (i / size) | u[i % size]? = some x}) (j / size)
      {u ∈ topPart o (j / size) | u[j % size]? = some x}) (fun pack => chunk size pack v) ↔
        v[i]? = some x ∧ v[j]? = some x := by
    constructor
    · intro hholds
      have hati := hholds _ (h.pack_lt hi)
      have hatj := hholds _ (h.pack_lt hj)
      rw [Function.update_of_ne hdiffer, Function.update_self] at hati
      rw [Function.update_self] at hatj
      rw [← getElem?_chunk h.pos v i, ← getElem?_chunk h.pos v j]
      exact ⟨hati.2, hatj.2⟩
    · rintro ⟨hati, hatj⟩
      rw [← getElem?_chunk h.pos] at hati hatj
      intro pack hpack
      by_cases hpj : pack = j / size
      · subst hpj
        simpa using ⟨htop _ hpack, hatj⟩
      · by_cases hpi : pack = i / size
        · subst hpi
          simpa [Function.update_of_ne hpj] using ⟨htop _ hpack, hati⟩
        · simpa [Function.update_of_ne hpj, Function.update_of_ne hpi] using htop pack hpack
  simp only [hboth]
  have hvi : i < v.length := (length_of_mem_box hv).symm ▸ hi
  constructor
  · rintro ⟨x, -, hati, hatj⟩
    rw [hati, hatj]
  · intro heq
    refine ⟨v[i], lt_of_mem_box hv hvi hi, List.getElem?_eq_getElem hvi, ?_⟩
    rw [← heq, List.getElem?_eq_getElem hvi]

theorem gather_point (h : Shaped size widths o) {v : Valuation} (hv : v ∈ box widths) :
    gather size widths o.packs.length [fun pack => {chunk size pack v}] = {v} := by
  ext u
  simp only [gather, Set.mem_ofPred_eq, Covers, List.mem_singleton, exists_eq_left, Holds,
    Set.mem_singleton_iff]
  constructor
  · rintro ⟨hu, hchunks⟩
    exact eq_of_chunks h.pos (length_of_mem_box hu ▸ h.room) (length_of_mem_box hv ▸ h.room) hchunks
  · rintro rfl
    exact ⟨hv, fun _ _ => rfl⟩

/-- Projection changes one component of each term. -/
theorem gather_project (h : Shaped size widths o) {parts : List (Nat → Set Valuation)}
    (hbounded : Bounded o parts) {i : Nat} (hi : i < widths.length) :
    gather size widths o.packs.length (parts.map fun part => Function.update part (i / size)
      {u ∈ topPart o (i / size) | ∃ x, u.set (i % size) x ∈ part (i / size)}) =
        {v ∈ box widths | ∃ x, v.set i x ∈ gather size widths o.packs.length parts} := by
  ext v
  simp only [gather, Set.mem_ofPred_eq, Covers, List.mem_map, exists_exists_and_eq_and]
  refine and_congr_right fun hv => ?_
  have htop := h.holds_chunks hv
  have hpack := h.pack_lt hi
  constructor
  · rintro ⟨part, hpart, hholds⟩
    have hat := hholds _ hpack
    rw [Function.update_self] at hat
    obtain ⟨-, x, hx⟩ := hat
    have hset : Holds o.packs.length part fun pack => chunk size pack (v.set i x) := by
      intro pack hlt
      simp only [chunk_set h.pos]
      split
      · next heq => rwa [heq]
      · next hne => simpa [Function.update_of_ne hne] using hholds pack hlt
    refine ⟨x, ?_, part, hpart, hset⟩
    have hbox := hbounded part hpart _ hpack hx
    rw [topPart, h.widthsOf_eq hpack] at hbox
    have hchunk := chunk_mem_box hv size (i / size)
    have hwidth := getElem?_chunk h.pos widths i
    rw [List.getElem?_eq_getElem hi] at hwidth
    obtain ⟨hlt, hwidth⟩ := List.getElem?_eq_some_iff.mp hwidth
    rw [set_mem_box hv hi, ← hwidth]
    exact (set_mem_box hchunk hlt).mp hbox
  · rintro ⟨x, -, part, hpart, hholds⟩
    refine ⟨part, hpart, fun pack hlt => ?_⟩
    have hat := hholds pack hlt
    simp only [chunk_set h.pos] at hat
    by_cases heq : pack = i / size
    · subst heq
      rw [if_pos rfl] at hat
      simpa using ⟨htop _ hlt, x, hat⟩
    · rw [if_neg heq] at hat
      simpa [Function.update_of_ne heq] using hat

end Shaped

theorem gather_nil (size : Nat) (widths : List UInt32) (n : Nat) :
    gather size widths n [] = ∅ := by
  ext v
  simp [gather, Covers]

theorem gather_append (size : Nat) (widths : List UInt32) (n : Nat)
    (parts parts' : List (Nat → Set Valuation)) :
    gather size widths n (parts ++ parts') =
      gather size widths n parts ∪ gather size widths n parts' := by
  ext v
  simp only [gather, Set.mem_ofPred_eq, Covers, List.mem_append, or_and_right, exists_or,
    Set.mem_union, and_or_left]

theorem gather_inter {size : Nat} {widths : List UInt32} {n : Nat}
    {parts parts' parts'' : List (Nat → Set Valuation)}
    (h : ∀ bundle, Covers n parts'' bundle ↔ Covers n parts bundle ∧ Covers n parts' bundle) :
    gather size widths n parts'' = gather size widths n parts ∩ gather size widths n parts' := by
  ext v
  simp only [gather, Set.mem_ofPred_eq, h, Set.mem_inter_iff]
  tauto

end LayeredSets.Packed
