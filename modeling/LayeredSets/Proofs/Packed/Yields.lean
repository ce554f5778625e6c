import LayeredSets.Proofs.Packed.Cells

/-!
# What actions on packs yield

An action reads some cells, takes over others and gives new ones together with its value. It leaves
alone whatever else the packs hold; this is part of the definition, so that actions can be put
together with any cells around them.
-/

namespace LayeredSets.Packed

open Action

variable {ρ α β : Type} {inner : Operations ρ} {I : Meaning inner} {o : Packed (List UInt32)}

/-- Wherever the packs hold the cells that it reads and those that it takes, the action succeeds,
and what it took is replaced by what it gives. -/
def Yields (I : Meaning inner) (o : Packed (List UInt32)) (reads taken : Multiset Cell)
    (x : Act (Packed ρ) α) (P : α → Multiset Cell → Prop) : Prop :=
  ∀ s frame, reads ⊆ frame → Owns I o (taken + frame) s →
    Ends (AnyPack I.Spent) x s fun outcome t =>
      ∃ a given, outcome = .ok a ∧ P a given ∧ Owns I o (given + frame) t

theorem subset_add (cells reads : Multiset Cell) : reads ⊆ cells + reads :=
  Multiset.subset_of_le (Multiset.le_add_left reads cells)

namespace Yields

variable {reads reads' taken : Multiset Cell} {x : Act (Packed ρ) α}
  {P Q : α → Multiset Cell → Prop}

theorem mono (h : Yields I o reads taken x P) (hPQ : ∀ a given, P a given → Q a given) :
    Yields I o reads taken x Q :=
  fun s frame hreads howns => (h s frame hreads howns).mono
    fun _ _ ⟨a, given, houtcome, hP, hafter⟩ => ⟨a, given, houtcome, hPQ a given hP, hafter⟩

protected theorem pure {a : α} (h : P a taken) : Yields I o reads taken (pure a) P :=
  fun _ _ _ howns => Ends.pure ⟨a, taken, rfl, h, howns⟩

protected theorem bind {S : β → Multiset Cell → Prop} {f : α → Act (Packed ρ) β}
    [∀ a, Keeps (fun s _ => AnyPack I.Spent s) (f a)] (hx : Yields I o reads taken x P)
    (hf : ∀ a given, P a given → Yields I o reads given (f a) S) :
    Yields I o reads taken (x >>= f) S := by
  intro s frame hreads howns
  refine Ends.bind (hx s frame hreads howns) ?_ ?_
  · rintro a t ⟨_, given, ⟨⟩, hP, hafter⟩
    exact hf a given hP t frame hreads hafter
  · rintro e t ⟨_, _, ⟨⟩, _⟩

/-- Cells may be kept aside, and may be read there. -/
theorem keep (h : Yields I o reads taken x P) (kept : Multiset Cell)
    (hreads : reads ⊆ kept + reads') :
    Yields I o reads' (taken + kept) x fun a given => ∃ new, P a new ∧ given = new + kept := by
  intro s frame hframe howns
  rw [add_assoc] at howns
  refine (h s (kept + frame) (fun c hc => ?_) howns).mono ?_
  · rcases Multiset.mem_add.mp (hreads hc) with hkept | hread
    · exact Multiset.mem_add.mpr (.inl hkept)
    · exact Multiset.mem_add.mpr (.inr (hframe hread))
  · rintro _ t ⟨a, new, rfl, hP, hafter⟩
    exact ⟨a, _, rfl, ⟨new, hP, rfl⟩, by rwa [add_assoc]⟩

/-- What is owned may be read. -/
theorem own {kept : Multiset Cell} (h : Yields I o (kept + reads) 0 x P) :
    Yields I o reads kept x fun a given => ∃ new, P a new ∧ given = new + kept := by
  have hkept := h.keep kept (Multiset.Subset.refl _)
  rwa [zero_add] at hkept

theorem cast {taken' : Multiset Cell} (h : Yields I o reads taken x P) (heq : taken' = taken) :
    Yields I o reads taken' x P := heq ▸ h

/-- What is read holds valuations of its pack. -/
theorem of_bounded
    (h : (∀ c ∈ reads, c.value ⊆ box (widthsOf o c.pack)) → Yields I o reads taken x P) :
    Yields I o reads taken x P :=
  fun s frame hreads howns =>
    h (fun _ hc => howns.bounded (Multiset.mem_add.mpr (.inr (hreads hc)))) s frame hreads howns

/-- What is given holds valuations of its pack. -/
theorem bounded (h : Yields I o reads taken x P) :
    Yields I o reads taken x fun a given =>
      P a given ∧ ∀ c ∈ given, c.value ⊆ box (widthsOf o c.pack) :=
  fun s frame hreads howns => (h s frame hreads howns).mono
    fun _ _ ⟨a, given, houtcome, hP, hafter⟩ => ⟨a, given, houtcome,
      ⟨hP, fun _ hc => hafter.bounded (Multiset.mem_add.mpr (.inl hc))⟩, hafter⟩

/-- Each item gives its own result. -/
protected theorem mapM {items : List β} {f : β → Act (Packed ρ) α}
    [∀ b, Keeps (fun s _ => AnyPack I.Spent s) (f b)] {taken : β → Multiset Cell}
    {P : β → α → Multiset Cell → Prop}
    (hf : ∀ b ∈ items, Yields I o reads (taken b) (f b) (P b)) :
    Yields I o reads (items.map taken).sum (items.mapM f) fun results given =>
      ∃ outs : List (α × Multiset Cell), results = outs.map (·.1) ∧ given = (outs.map (·.2)).sum ∧
        List.Forall₂ (fun b out => P b out.1 out.2) items outs := by
  induction items with
  | nil =>
    rw [List.mapM_nil]
    exact .pure ⟨[], rfl, rfl, .nil⟩
  | cons b items ih =>
    rw [List.mapM_cons, List.map_cons, List.sum_cons]
    have hrest := ih fun b' hb' => hf b' (List.mem_cons_of_mem b hb')
    refine Yields.bind ((hf b List.mem_cons_self).keep _ (subset_add _ _)) ?_
    rintro a _ ⟨new, hP, rfl⟩
    rw [add_comm]
    refine Yields.bind (hrest.keep new (subset_add _ _)) ?_
    rintro results _ ⟨_, ⟨outs, rfl, rfl, houts⟩, rfl⟩
    refine .pure ⟨(a, new) :: outs, rfl, ?_, .cons hP houts⟩
    rw [List.map_cons, List.sum_cons, add_comm]

end Yields

/-! ## Calls on one pack -/

theorem yields_made {reads : Multiset Cell} {index : Nat} (hindex : index < o.packs.length)
    {call : Call .set} {value : Set Valuation}
    (hmade : ∀ m : Ideal, m.widths = widthsOf o index →
      (∀ c ∈ reads, c.pack = index → m.sets c.set = some c.value) → m.made call = .ok value) :
    Yields I o reads 0 (inPack index (inner.step call)) fun set given =>
      given = {⟨index, set, value⟩} := by
  intro s frame hreads howns
  rw [zero_add] at howns
  obtain ⟨m, hwidths, hsets, hends⟩ := howns.ends_made hindex call
  refine hends.mono fun outcome t h => ?_
  rw [hmade m hwidths fun c hc => hsets c (hreads hc)] at h
  obtain ⟨set, rfl, hafter⟩ := h
  exact ⟨set, _, rfl, rfl, by rwa [Multiset.singleton_add]⟩

theorem yields_isEmpty {reads : Multiset Cell} {c : Cell} (hc : c ∈ reads) :
    Yields I o reads 0 (inPack c.pack (inner.step (.isEmpty c.set))) fun answer given =>
      (answer = true ↔ c.value = ∅) ∧ given = 0 := by
  intro s frame hreads howns
  rw [zero_add] at howns
  refine (howns.ends_isEmpty (hreads hc)).mono ?_
  rintro _ t ⟨answer, rfl, hanswer, hafter⟩
  exact ⟨answer, 0, rfl, ⟨hanswer, rfl⟩, by rwa [zero_add]⟩

theorem yields_release (c : Cell) {reads : Multiset Cell} :
    Yields I o reads {c} (inPack c.pack (inner.step (.release c.set))) fun _ given => given = 0 := by
  intro s frame hreads howns
  rw [Multiset.singleton_add] at howns
  refine howns.ends_release.mono ?_
  rintro _ t ⟨rfl, hafter⟩
  exact ⟨(), 0, rfl, rfl, by rwa [zero_add]⟩

/-! ## Looking at the packs -/

theorem yields_packIndices_bind {reads taken : Multiset Cell} {f : List Nat → Act (Packed ρ) α}
    {P : α → Multiset Cell → Prop}
    (h : Yields I o reads taken (f (List.range o.packs.length)) P) :
    Yields I o reads taken (packIndices >>= f) P := by
  intro s frame hreads howns
  have hends := h s frame hreads howns
  rw [← howns.length] at hends
  exact hends

/-- As many items as there are packs. -/
theorem yields_inEachPack {reads taken : Multiset Cell} {items : List β}
    (hlength : items.length = o.packs.length) {f : β → Act ρ α}
    {P : List α → Multiset Cell → Prop}
    (h : Yields I o reads taken
      (items.zipIdx.mapM fun (item, index) => inPack index (f item)) P) :
    Yields I o reads taken (inEachPack items f) P := by
  intro s frame hreads howns
  have hends := h s frame hreads howns
  rw [← List.take_of_length_le (l := items) (i := s.packs.length)
    (by rw [hlength, howns.length])] at hends
  exact hends

/-! ## Terms -/

/-- A term whose components are known. -/
structure Piece where
  term : Term
  part : Nat → Set Valuation

/-- The cells that make up a term, those of its packs from `start` on. -/
def cellsFrom (part : Nat → Set Valuation) (start : Nat) (term : Term) : Multiset Cell :=
  ((term.zipIdx start).map fun x => (⟨x.2, x.1, part x.2⟩ : Cell) : List Cell)

def Piece.cells (piece : Piece) : Multiset Cell := cellsFrom piece.part 0 piece.term

def cellsOf (pieces : List Piece) : Multiset Cell := (pieces.map Piece.cells).sum

@[simp] theorem cellsFrom_nil (part : Nat → Set Valuation) (start : Nat) :
    cellsFrom part start [] = 0 := rfl

@[simp] theorem cellsFrom_cons (part : Nat → Set Valuation) (start : Nat) (set : SetId)
    (term : Term) :
    cellsFrom part start (set :: term) =
      {⟨start, set, part start⟩} + cellsFrom part (start + 1) term := rfl

@[simp] theorem cellsOf_nil : cellsOf [] = 0 := rfl

@[simp] theorem cellsOf_cons (piece : Piece) (pieces : List Piece) :
    cellsOf (piece :: pieces) = piece.cells + cellsOf pieces := rfl

theorem mem_cellsFrom {part : Nat → Set Valuation} {start : Nat} {term : Term} {c : Cell} :
    c ∈ cellsFrom part start term ↔
      ∃ set pack, (set, pack) ∈ term.zipIdx start ∧ c = ⟨pack, set, part pack⟩ := by
  simp only [cellsFrom, Multiset.mem_coe, List.mem_map, Prod.exists, eq_comm]

theorem mem_cells {piece : Piece} {set : SetId} {pack : Nat} (h : (set, pack) ∈ piece.term.zipIdx) :
    ⟨pack, set, piece.part pack⟩ ∈ piece.cells :=
  mem_cellsFrom.mpr ⟨set, pack, h, rfl⟩

theorem cells_subset {piece : Piece} {pieces : List Piece} (h : piece ∈ pieces) :
    piece.cells ⊆ cellsOf pieces :=
  Multiset.subset_of_le (Multiset.le_sum_of_mem (Multiset.mem_coe.mpr (List.mem_map_of_mem h)))

/-- The terms and their cells, with the components in `parts`. -/
def Gives (n : Nat) (parts : List (Nat → Set Valuation)) (terms : List Term)
    (given : Multiset Cell) : Prop :=
  ∃ pieces : List Piece, pieces.map (·.part) = parts ∧ pieces.map (·.term) = terms ∧
    (∀ piece ∈ pieces, piece.term.length = n) ∧ given = cellsOf pieces

/-- A term and its cells, with the components in `part`. -/
def GivesOne (n : Nat) (part : Nat → Set Valuation) (term : Term) (given : Multiset Cell) : Prop :=
  term.length = n ∧ given = (Piece.mk term part).cells

namespace Yields

variable {reads : Multiset Cell} {n : Nat}

/-- One component for each pack makes a term. -/
theorem term {items : List β} {place : β → Nat} (hplace : items.map place = List.range n)
    {f : β → Act (Packed ρ) SetId} [∀ b, Keeps (fun s _ => AnyPack I.Spent s) (f b)]
    {taken : β → Multiset Cell} {part : Nat → Set Valuation}
    (hf : ∀ b ∈ items, Yields I o reads (taken b) (f b) fun set given =>
      given = {⟨place b, set, part (place b)⟩}) :
    Yields I o reads (items.map taken).sum (items.mapM f) (GivesOne n part) := by
  refine (Yields.mapM hf).mono ?_
  rintro _ _ ⟨outs, rfl, rfl, houts⟩
  have key : ∀ start, items.map place = List.range' start items.length →
      (outs.map (·.2)).sum = cellsFrom part start (outs.map (·.1)) := by
    clear hplace hf
    induction houts with
    | nil => exact fun _ _ => rfl
    | @cons b out items outs hout _ ih =>
      intro start hstart
      rw [List.map_cons, List.length_cons, List.range'_succ, List.cons.injEq] at hstart
      rw [List.map_cons, List.sum_cons, List.map_cons, cellsFrom_cons, ih _ hstart.2, hout,
        hstart.1]
  have hlength : items.length = n := by simpa using congrArg List.length hplace
  refine ⟨by rw [List.length_map, ← houts.length_eq, hlength], key 0 ?_⟩
  rw [hplace, hlength, List.range_eq_range']

theorem term_of_reads {items : List β} {place : β → Nat}
    (hplace : items.map place = List.range n) {f : β → Act (Packed ρ) SetId}
    [∀ b, Keeps (fun s _ => AnyPack I.Spent s) (f b)] {part : Nat → Set Valuation}
    (hf : ∀ b ∈ items, Yields I o reads 0 (f b) fun set given =>
      given = {⟨place b, set, part (place b)⟩}) :
    Yields I o reads 0 (items.mapM f) (GivesOne n part) := by
  have h := term hplace hf
  rwa [List.map_const', List.sum_replicate, smul_zero] at h

/-- One term for each item. -/
theorem terms {items : List β} {f : β → Act (Packed ρ) Term}
    [∀ b, Keeps (fun s _ => AnyPack I.Spent s) (f b)] {taken : β → Multiset Cell}
    {part : β → Nat → Set Valuation}
    (hf : ∀ b ∈ items, Yields I o reads (taken b) (f b) (GivesOne n (part b))) :
    Yields I o reads (items.map taken).sum (items.mapM f) (Gives n (items.map part)) := by
  refine (Yields.mapM hf).mono ?_
  rintro _ _ ⟨outs, rfl, rfl, houts⟩
  clear hf
  induction houts with
  | nil => exact ⟨[], rfl, rfl, by simp, rfl⟩
  | @cons b out items outs hout _ ih =>
    obtain ⟨pieces, hparts, hterms, hsized, hgiven⟩ := ih
    obtain ⟨hlength, hcells⟩ := hout
    refine ⟨⟨out.1, part b⟩ :: pieces, ?_, ?_, ?_, ?_⟩
    · rw [List.map_cons, List.map_cons, hparts]
    · rw [List.map_cons, List.map_cons, hterms]
    · rintro piece (_ | ⟨_, hmem⟩)
      · exact hlength
      · exact hsized piece hmem
    · rw [List.map_cons, List.sum_cons, cellsOf_cons, hcells, hgiven]

theorem terms_of_reads {items : List β} {f : β → Act (Packed ρ) Term}
    [∀ b, Keeps (fun s _ => AnyPack I.Spent s) (f b)] {part : β → Nat → Set Valuation}
    (hf : ∀ b ∈ items, Yields I o reads 0 (f b) (GivesOne n (part b))) :
    Yields I o reads 0 (items.mapM f) (Gives n (items.map part)) := by
  have h := terms hf
  rwa [List.map_const', List.sum_replicate, smul_zero] at h

end Yields

end LayeredSets.Packed
