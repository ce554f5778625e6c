import LayeredSets.Proofs.Packed.Spreads

/-!
# One more variable

A new variable makes a cylinder of every set. Where it goes into the last pack, the components there
become cylinders themselves; where it goes into a pack of its own, every term gets one more
component, which is the whole range of the variable.
-/

namespace LayeredSets

theorem append_mem_cylinder {width : UInt32} {s : Set Valuation} {v : Valuation} {x : Nat} :
    v ++ [x] ∈ cylinder width s ↔ v ∈ s ∧ x < 2 ^ width.toNat := by
  constructor
  · rintro ⟨u, hu, y, hy, heq⟩
    obtain ⟨rfl, hlast⟩ := List.append_inj' heq rfl
    obtain rfl : x = y := by simpa using hlast
    exact ⟨hu, hy⟩
  · rintro ⟨hv, hx⟩
    exact ⟨v, hv, x, hx, rfl⟩

/-- A declaration where there is always room. -/
def Ideal.declareFreely (m : Ideal) (bits : UInt32) : Except DomainError (VarId × Ideal) :=
  if bits.toNat = 0 ∨ 63 < bits.toNat then .error (.invalidWidth bits)
  else .ok (⟨UInt32.ofNat m.widths.length⟩, m.grow bits)

namespace Packed

open Action

variable {ρ α : Type} {inner : Operations ρ} {I : Meaning inner}

/-! ## Components -/

/-- What one more variable in the pack at `index` makes of the components of a term. -/
def widenPart (index : Nat) (bits : UInt32) (part : Nat → Set Valuation) : Nat → Set Valuation :=
  Function.update part index (cylinder bits (part index))

/-- The components of a term with one more pack at `index`, which holds one variable. -/
def extendPart (index : Nat) (bits : UInt32) (part : Nat → Set Valuation) : Nat → Set Valuation :=
  Function.update part index (box [bits])

/-- Sets become cylinders if their terms hold the bundles that are longer by one value. -/
theorem gather_concat {size n n' : Nat} {widths : List UInt32} {bits : UInt32}
    {parts parts' : List (Nat → Set Valuation)}
    (hcovers : ∀ v ∈ box widths, ∀ x < 2 ^ bits.toNat,
      (Covers n' parts' fun pack => chunk size pack (v ++ [x])) ↔
        Covers n parts fun pack => chunk size pack v) :
    gather size (widths ++ [bits]) n' parts' = cylinder bits (gather size widths n parts) := by
  ext u
  constructor
  · rintro ⟨hu, hholds⟩
    rw [box_concat] at hu
    obtain ⟨v, hv, x, hx, rfl⟩ := hu
    exact append_mem_cylinder.mpr ⟨⟨hv, (hcovers v hv x hx).mp hholds⟩, hx⟩
  · rintro ⟨v, ⟨hv, hholds⟩, x, hx, rfl⟩
    refine ⟨?_, (hcovers v hv x hx).mpr hholds⟩
    rw [box_concat]
    exact append_mem_cylinder.mpr ⟨hv, hx⟩

theorem covers_map {n n' : Nat} {parts : List (Nat → Set Valuation)}
    {f : (Nat → Set Valuation) → Nat → Set Valuation} {bundle bundle' : Nat → Valuation}
    (h : ∀ part, Holds n' (f part) bundle' ↔ Holds n part bundle) :
    Covers n' (parts.map f) bundle' ↔ Covers n parts bundle := by
  simp only [Covers, List.mem_map, exists_exists_and_eq_and, h]

theorem gather_widen {size n : Nat} (hsize : 0 < size) (widths : List UInt32) (bits : UInt32)
    (parts : List (Nat → Set Valuation)) :
    gather size (widths ++ [bits]) n (parts.map (widenPart (widths.length / size) bits)) =
      cylinder bits (gather size widths n parts) := by
  refine gather_concat fun v hv x hx => covers_map fun part => forall₂_congr fun pack _ => ?_
  simp only [chunk_concat hsize, length_of_mem_box hv, widenPart]
  by_cases h : pack = widths.length / size
  · subst h
    rw [if_pos rfl, Function.update_self, append_mem_cylinder]
    exact and_iff_left hx
  · rw [if_neg h, Function.update_of_ne h]

theorem gather_extend {size n : Nat} (hsize : 0 < size) {widths : List UInt32}
    (hfull : widths.length = n * size) (bits : UInt32) (parts : List (Nat → Set Valuation)) :
    gather size (widths ++ [bits]) (n + 1) (parts.map (extendPart n bits)) =
      cylinder bits (gather size widths n parts) := by
  refine gather_concat fun v hv x hx => covers_map fun part => ?_
  have hlength : v.length = n * size := (length_of_mem_box hv).trans hfull
  have hnew : v.length / size = n := by rw [hlength, Nat.mul_div_cancel _ hsize]
  have hold (pack : Nat) (hpack : pack < n) : chunk size pack (v ++ [x]) ∈
      extendPart n bits part pack ↔ chunk size pack v ∈ part pack := by
    rw [chunk_concat hsize, hnew, if_neg hpack.ne, extendPart, Function.update_of_ne hpack.ne]
  have hlast : chunk size n (v ++ [x]) ∈ extendPart n bits part n := by
    have hnone : chunk size n v = [] := by
      rw [chunk, List.drop_of_length_le hlength.le, List.take_nil]
    rw [chunk_concat hsize, hnew, if_pos rfl, hnone, extendPart, Function.update_self]
    simp [hx]
  constructor
  · exact fun h pack hpack => (hold pack hpack).mp (h pack (by omega))
  · intro h pack hpack
    rcases Nat.lt_succ_iff_lt_or_eq.mp hpack with hlt | rfl
    · exact (hold pack hlt).mpr (h pack hlt)
    · exact hlast

/-! ## The last pack -/

def Cell.widen (index : Nat) (bits : UInt32) (c : Cell) : Cell :=
  { c with value := if c.pack = index then cylinder bits c.value else c.value }

def Piece.widen (index : Nat) (bits : UInt32) (piece : Piece) : Piece :=
  { piece with part := widenPart index bits piece.part }

theorem Piece.cells_widen (index : Nat) (bits : UInt32) (piece : Piece) :
    (piece.widen index bits).cells = piece.cells.map (Cell.widen index bits) := by
  simp only [Piece.cells, cellsFrom, Multiset.map_coe, List.map_map]
  refine congrArg _ (List.map_congr_left fun x _ => ?_)
  by_cases h : x.2 = index
  · simp [Piece.widen, Cell.widen, widenPart, h]
  · simp [Piece.widen, Cell.widen, widenPart, h]

theorem map_sum_cells (f : Cell → Cell) (cells : List (Multiset Cell)) :
    cells.sum.map f = (cells.map (Multiset.map f)).sum :=
  map_list_sum (Multiset.mapAddMonoidHom f) cells

theorem tableCells_widen (index : Nat) (bits : UInt32) (table : Table SetId (List Piece)) :
    tableCells (table.map fun pieces => pieces.map (Piece.widen index bits)) =
      (tableCells table).map (Cell.widen index bits) := by
  simp only [tableCells, cellsOf, Table.map, map_sum_cells, List.map_map, Function.comp_def,
    Piece.cells_widen]

namespace Shaped

variable {size : Nat} {widths : List UInt32} {o : Packed (List UInt32)}

theorem hasRoom_iff (h : Shaped size widths o) :
    o.hasRoom = true ↔ widths.length < o.packs.length * size := by
  have hfilled := h.filled
  have hpos := h.nonempty
  have hsplit : o.packs.length * size = (o.packs.length - 1) * size + size := by
    rw [← Nat.succ_mul, Nat.succ_eq_add_one, Nat.sub_add_cancel hpos]
  have hlast : o.packs.getLast? = some ⟨chunk size (o.packs.length - 1) widths,
      (chunk size (o.packs.length - 1) widths).length⟩ := by
    rw [h.packs]
    simp [List.getLast?_map, List.getLast?_range, hpos.ne']
  rw [hasRoom, hlast, Option.any_some, decide_eq_true_iff, h.capacity, length_chunk]
  change min size _ < size ↔ _
  omega

/-- Where there is room, the last pack is the next one to be filled. -/
theorem last_eq (h : Shaped size widths o) (hroom : widths.length < o.packs.length * size) :
    widths.length / size = o.packs.length - 1 := by
  refine Nat.div_eq_of_lt_le h.filled ?_
  rwa [Nat.sub_add_cancel h.nonempty]

theorem widen (h : Shaped size widths o) (hroom : widths.length < o.packs.length * size)
    (bits : UInt32) :
    Shaped size (widths ++ [bits]) { o with
      packs := o.packs.set (widths.length / size)
        ⟨chunk size (widths.length / size) (widths ++ [bits]),
          (chunk size (widths.length / size) (widths ++ [bits])).length⟩
      vars := o.vars ++
        [⟨widths.length / size, ⟨UInt32.ofNat (widths.length % size)⟩, bits⟩] } where
  pos := h.pos
  capacity := h.capacity
  packs := by
    have hpacks : o.packs = chunks size o.packs.length widths := h.packs
    simp only [List.length_set]
    conv_lhs => rw [hpacks]
    exact (chunks_concat h.pos widths bits).symm
  nonempty := by simpa using h.nonempty
  room := by simpa using hroom
  filled := by
    have hfilled := h.filled
    simp only [List.length_set, List.length_append, List.length_singleton]
    omega
  vars := by rw [layout_concat, ← h.vars]

theorem extend (h : Shaped size widths o) (hfull : widths.length = o.packs.length * size)
    (bits : UInt32) :
    Shaped size (widths ++ [bits]) { o with
      packs := o.packs ++ [⟨[bits], 1⟩]
      vars := o.vars ++ [⟨o.packs.length, ⟨UInt32.ofNat 0⟩, bits⟩] } where
  pos := h.pos
  capacity := h.capacity
  packs := by
    have hpacks : o.packs = chunks size o.packs.length widths := h.packs
    simp only [List.length_append, List.length_singleton]
    conv_lhs => rw [hpacks]
    exact (chunks_succ h.pos hfull bits).symm
  nonempty := by simp
  room := by
    have hpos := h.pos
    simp only [List.length_append, List.length_singleton, hfull, Nat.add_mul, Nat.one_mul]
    omega
  filled := by simp [hfull]
  vars := by
    rw [layout_concat, ← h.vars, hfull, Nat.mul_div_cancel _ h.pos, Nat.mul_mod_left]

end Shaped

theorem modify_held (packs : List (Pack ρ)) (index : Nat) (domain : ρ) (held : Nat) :
    (packs.set index ⟨domain, held⟩).modify index (fun p => { p with held := p.held + 1 }) =
      packs.set index ⟨domain, held + 1⟩ := by
  refine List.ext_getElem (by simp) fun j hj _ => ?_
  by_cases h : index = j <;> simp [h]

/-- What may come of looking for a place for a variable: it has one, or its width is out of range,
or a pack has no room. -/
def Placed (I : Meaning inner) (size : Nat) (s : Packed ρ) (m : Ideal) (bits : UInt32) :
    Except DomainError PackedVar → Packed ρ → Prop
  | .ok var, t => ¬ (bits.toNat = 0 ∨ 63 < bits.toNat) ∧
      StandsFor I size { t with vars := t.vars ++ [var] } (m.grow bits) ∧ Grows I.ideal s t
  | .error e, t => ((∃ total limit, e = .universeTooLarge total limit) ∨
      (bits.toNat = 0 ∨ 63 < bits.toNat) ∧ e = .invalidWidth bits) ∧ StandsFor I size t m ∧
      Leaves I.ideal s t 0

namespace Spreads

variable {size : Nat} {s t : Packed ρ} {m : Ideal} {table : Table SetId (List Piece)}
  {lost : Multiset Cell}

theorem get?_last (h : Spreads I size s m table lost)
    (hroom : m.widths.length < (outline I s).packs.length * size) :
    ∃ domain, s.packs[m.widths.length / size]? = some ⟨domain,
      (chunk size (m.widths.length / size) m.widths).length⟩ ∧ I.Good domain ∧
      (I.ideal domain).widths = chunk size (m.widths.length / size) m.widths := by
  have hlast : m.widths.length / size < (outline I s).packs.length :=
    Nat.div_lt_of_lt_mul (Nat.mul_comm .. ▸ hroom)
  obtain ⟨⟨domain, held⟩, hpack⟩ := h.owns.exists_pack hlast
  have hheld : held = (chunk size (m.widths.length / size) m.widths).length := by
    have hat : (outline I s).packs[m.widths.length / size]? =
        some ⟨(I.ideal domain).widths, held⟩ := by
      simp [outline, map, hpack, Pack.map]
    rw [h.shaped.packs] at hat
    simp only [List.getElem?_map, List.getElem?_range hlast, Option.map_some, Option.some.injEq,
      Pack.mk.injEq] at hat
    exact hat.2.symm
  refine ⟨domain, hheld ▸ hpack, h.owns.good _ (List.mem_of_getElem? hpack), ?_⟩
  rw [h.owns.widths hpack, h.shaped.widthsOf_eq hlast]

/-- The last pack has taken one more variable. -/
theorem widen (h : Spreads I size s m table lost)
    (hroom : m.widths.length < (outline I s).packs.length * size) {pack : Pack ρ}
    (hpack : s.packs[m.widths.length / size]? = some pack)
    (hheld : pack.held = (chunk size (m.widths.length / size) m.widths).length)
    (hwidths : (I.ideal pack.domain).widths = chunk size (m.widths.length / size) m.widths)
    {domain : ρ} (hgood : I.Good domain) {bits : UInt32}
    (hsame : ((I.ideal pack.domain).grow bits).Same (I.ideal domain))
    (ht : t = { s with
      packs := s.packs.set (m.widths.length / size) ⟨domain, pack.held + 1⟩
      vars := s.vars ++
        [⟨m.widths.length / size, ⟨UInt32.ofNat (m.widths.length % size)⟩, bits⟩] }) :
    Spreads I size t (m.grow bits)
      (table.map fun pieces => pieces.map (Piece.widen (m.widths.length / size) bits))
      (lost.map (Cell.widen (m.widths.length / size) bits)) where
  shaped := by
    have hgrown : (I.ideal domain).widths =
        chunk size (m.widths.length / size) (m.widths ++ [bits]) := by
      rw [hsame.widths, chunk_concat h.shaped.pos, if_pos rfl, ← hwidths]
      rfl
    have hshaped := h.shaped.widen hroom bits
    have hlength : pack.held + 1 = (I.ideal domain).widths.length := by
      rw [hsame.widths, hheld, ← hwidths]
      simp [Ideal.grow]
    rw [← hgrown, ← hlength] at hshaped
    subst ht
    simpa [outline, map, List.map_set, Pack.map, Ideal.grow] using hshaped
  owns := by
    subst ht
    have hlt : m.widths.length / size < s.packs.length := (List.getElem?_eq_some_iff.mp hpack).1
    rw [tableCells_widen, ← Multiset.map_add]
    refine ⟨rfl, fun other hother => ?_, h.owns.blank, fun c' => ?_, ?_⟩
    · rcases List.mem_or_eq_of_mem_set hother with hold | rfl
      · exact h.owns.good other hold
      · exact hgood
    · rw [Multiset.mem_map]
      constructor
      · rintro ⟨c, hc, rfl⟩
        obtain ⟨other, hother, hvalue⟩ := h.owns.exists_of_mem hc
        by_cases hlast : c.pack = m.widths.length / size
        · rw [hlast, hpack, Option.some.injEq] at hother
          subst hother
          refine ⟨⟨domain, pack.held + 1⟩, ?_, ?_⟩
          · simp [Cell.widen, hlast, hlt]
          · simp [hsame.sets, Ideal.grow, Cell.widen, hlast, hvalue]
        · refine ⟨other, ?_, ?_⟩
          · simpa [Cell.widen, List.getElem?_set_ne (Ne.symm hlast)] using hother
          · simpa [Cell.widen, hlast] using hvalue
      · rintro ⟨other, hother, hvalue⟩
        obtain ⟨index, set, value⟩ := c'
        by_cases hlast : index = m.widths.length / size
        · subst hlast
          obtain rfl : ⟨domain, pack.held + 1⟩ = other := by simpa [hlt] using hother
          simp only [hsame.sets, Ideal.grow, Option.map_eq_some_iff] at hvalue
          obtain ⟨value, hvalue, rfl⟩ := hvalue
          exact ⟨⟨_, set, value⟩, (h.owns.mem_iff_sets hpack).mpr hvalue, by simp [Cell.widen]⟩
        · rw [List.getElem?_set_ne (Ne.symm hlast)] at hother
          exact ⟨_, (h.owns.mem_iff_sets hother).mpr hvalue, by simp [Cell.widen, hlast]⟩
    · rw [Multiset.map_map]
      exact h.owns.distinct
  sized entry hentry piece' hpiece' := by
    subst ht
    obtain ⟨⟨set, pieces⟩, hold, rfl⟩ := List.mem_map.mp hentry
    obtain ⟨piece, hpiece, rfl⟩ := List.mem_map.mp hpiece'
    have hsized := h.sized (set, pieces) hold piece hpiece
    simpa [outline, map, Piece.widen] using hsized
  terms := by
    rw [ht, h.terms]
    simp [Table.map, Piece.widen]
  sets set := by
    have hn : (outline I t).packs.length = (outline I s).packs.length := by
      simp [ht, outline, map]
    have hparts (pieces : List Piece) :
        (pieces.map (Piece.widen (m.widths.length / size) bits)).map (·.part) =
          (pieces.map (·.part)).map (widenPart (m.widths.length / size) bits) := by
      simp [Piece.widen]
    rw [hn, Table.get?_map]
    simp only [Ideal.grow, h.sets set, Option.map_map]
    cases table.get? set with
    | none => rfl
    | some pieces =>
      simp only [Option.map_some, Function.comp_apply, hparts, gather_widen h.shaped.pos]
  issued := by
    rw [ht]
    exact h.issued

/-- The cells in the last pack keep their handles. -/
theorem grows_widen (h : Spreads I size s m table lost) {index : Nat} {bits : UInt32}
    (ht : Spreads I size t (m.grow bits)
      (table.map fun pieces => pieces.map (Piece.widen index bits))
      (lost.map (Cell.widen index bits)))
    (hpacks : t.packs.length = s.packs.length) (hsets : t.sets = s.sets) : Grows I.ideal s t := by
  refine grows_of_same ht.owned hpacks hsets ?_
  rw [ht.owns.live_eq, h.owns.live_eq, tableCells_widen, ← Multiset.map_add, Multiset.map_map]
  rfl

/-- Looking for a place in the last pack. -/
theorem ends_declareInLastPack (h : Spreads I size s m table lost)
    (hroom : m.widths.length < (outline I s).packs.length * size) (name : String)
    (bits : UInt32) :
    Ends (AnyPack I.Spent) (declareInLastPack inner name bits) s (Placed I size s m bits) := by
  obtain ⟨domain, hpack, -, hwidths⟩ := h.get?_last hroom
  refine Ends.get_bind ?_
  rw [h.owns.length, ← h.shaped.last_eq hroom]
  refine Ends.bind (Q := fun outcome t => ∃ after, I.Good after ∧
    (I.ideal domain).Admits (.declare name bits) outcome (I.ideal after) ∧
    t = { s with
      packs := s.packs.set (m.widths.length / size)
        ⟨after, (chunk size (m.widths.length / size) m.widths).length⟩ })
    (h.owns.ends_inPack hpack (.declare name bits) fun outcome after hgood hadmits =>
      ⟨after, hgood, hadmits, rfl⟩) ?_ ?_
  · rintro var t ⟨after, hgood, ⟨_, _, ⟨⟩, -⟩ | hplaced, rfl⟩
    split at hplaced
    · cases hplaced.1
    · next hvalid =>
      obtain ⟨hvar, hsame⟩ := hplaced
      refine Ends.modify_bind (Ends.pure ?_)
      obtain rfl : var = ⟨UInt32.ofNat (m.widths.length % size)⟩ := by
        rw [Except.ok.inj hvar, hwidths, length_chunk_last h.shaped.pos]
      have hgrown := h.widen hroom hpack rfl hwidths hgood hsame rfl
      rw [← modify_held] at hgrown
      have hgrows := h.grows_widen hgrown (by simp) rfl
      exact ⟨hvalid, ⟨_, _, hgrown⟩, hgrows⟩
  · rintro e t ⟨after, hgood, hadmits, rfl⟩
    have ht (hsame : (I.ideal domain).Same (I.ideal after)) :
        StandsFor I size _ m ∧ Leaves I.ideal s _ 0 :=
      have howns := h.owns.replace_same hpack hgood hsame
      ⟨⟨table, lost, h.transfer howns⟩, h.owns.leaves howns⟩
    rcases hadmits with ⟨total, limit, ⟨⟩, hsame⟩ | hfails
    · exact ⟨.inl ⟨total, limit, rfl⟩, ht hsame⟩
    · split at hfails
      · next hinvalid =>
        obtain ⟨⟨⟩, hsame⟩ := hfails
        exact ⟨.inr ⟨hinvalid, rfl⟩, ht hsame⟩
      · cases hfails.1

end Spreads

end Packed
end LayeredSets
