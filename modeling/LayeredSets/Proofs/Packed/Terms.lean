import LayeredSets.Proofs.Packed.Yields

/-!
# Terms and their products

A term holds a bundle, one valuation for each pack, if each component holds the valuation of its
pack; a union of terms covers the bundles that one of them holds. Copies of a term hold the same
bundles, the pairwise products of two unions cover what both cover, and none of the products that
are kept is empty.
-/

namespace LayeredSets.Packed

open Action

variable {ρ : Type} {inner : Operations ρ} {I : Meaning inner} {o : Packed (List UInt32)}
  {reads : Multiset Cell}

def Holds (n : Nat) (part : Nat → Set Valuation) (bundle : Nat → Valuation) : Prop :=
  ∀ pack < n, bundle pack ∈ part pack

def Covers (n : Nat) (parts : List (Nat → Set Valuation)) (bundle : Nat → Valuation) : Prop :=
  ∃ part ∈ parts, Holds n part bundle

/-- All valuations of the variables of a pack. -/
def topPart (o : Packed (List UInt32)) (pack : Nat) : Set Valuation := box (widthsOf o pack)

theorem map_zipIdx_snd {term : Term} {n : Nat} (h : term.length = n) :
    term.zipIdx.map (·.2) = List.range n := by
  rw [List.zipIdx_map_snd, h, List.range_eq_range']

theorem lt_of_mem_zipIdx {term : Term} {n : Nat} (h : term.length = n) {x : SetId × Nat}
    (hx : x ∈ term.zipIdx) : x.2 < n := by
  rw [← List.mem_range, ← map_zipIdx_snd h]
  exact List.mem_map_of_mem hx

theorem map_range (n : Nat) : (List.range n).map (fun index => index) = List.range n := by simp

/-! ## Making terms -/

theorem yields_top {index : Nat} (hindex : index < o.packs.length) :
    Yields I o reads 0 (inPack index (inner.step .top)) fun set given =>
      given = {⟨index, set, topPart o index⟩} :=
  yields_made hindex fun m hm _ => by
    rw [topPart, ← hm]
    rfl

theorem yields_topTerm :
    Yields I o reads 0 (topTerm inner) (GivesOne o.packs.length (topPart o)) :=
  yields_packIndices_bind <| Yields.term_of_reads (map_range _) fun _ hindex =>
    yields_top (List.mem_range.mp hindex)

theorem sum_map_range {n pack : Nat} (hpack : pack < n) (c : Cell) :
    ((List.range n).map fun index => if index = pack then ({c} : Multiset Cell) else 0).sum =
      {c} := by
  induction n with
  | zero => omega
  | succ n ih =>
    rw [List.range_succ, List.map_append, List.sum_append, List.map_singleton, List.sum_singleton]
    by_cases h : pack = n
    · subst h
      have hnone : ((List.range pack).map fun index =>
          if index = pack then ({c} : Multiset Cell) else 0) = (List.range pack).map fun _ => 0 :=
        List.map_congr_left fun index hindex => if_neg (List.mem_range.mp hindex).ne
      simp [hnone]
    · rw [ih (by omega), if_neg (Ne.symm h), add_zero]

/-- The component for one pack is given, and goes over into the term. -/
theorem yields_termWith {pack : Nat} (hpack : pack < o.packs.length) (component : SetId)
    (value : Set Valuation) :
    Yields I o reads {⟨pack, component, value⟩} (termWith inner pack component)
      (GivesOne o.packs.length (Function.update (topPart o) pack value)) := by
  rw [← sum_map_range hpack]
  refine yields_packIndices_bind <| Yields.term (map_range _) fun index hindex => ?_
  by_cases h : index = pack
  · subst h
    simp only [if_true, Function.update_self]
    exact .pure rfl
  · simp only [if_neg h, Function.update_of_ne h]
    exact yields_top (List.mem_range.mp hindex)

theorem yields_copy {c : Cell} (hc : c ∈ reads) (hpack : c.pack < o.packs.length) :
    Yields I o reads 0 (inPack c.pack (inner.step (.union c.set c.set))) fun set given =>
      given = {⟨c.pack, set, c.value⟩} :=
  yields_made hpack fun m _ hsets => by
    simp only [Ideal.made, Ideal.set, hsets c hc rfl]
    exact congrArg Except.ok (Set.union_self c.value)

theorem yields_copyTerm {piece : Piece} (hsized : piece.term.length = o.packs.length)
    (hreads : piece.cells ⊆ reads) :
    Yields I o reads 0 (copyTerm inner piece.term) (GivesOne o.packs.length piece.part) :=
  yields_inEachPack hsized <| Yields.term_of_reads (map_zipIdx_snd hsized) fun _ hx =>
    yields_copy (hreads (mem_cells hx)) (lt_of_mem_zipIdx hsized hx)

theorem yields_copyTerms {pieces : List Piece}
    (hsized : ∀ piece ∈ pieces, piece.term.length = o.packs.length)
    (hreads : ∀ piece ∈ pieces, piece.cells ⊆ reads) :
    Yields I o reads 0 ((pieces.map (·.term)).mapM (copyTerm inner))
      (Gives o.packs.length (pieces.map (·.part))) := by
  rw [List.mapM_map]
  exact Yields.terms_of_reads (f := fun piece => copyTerm inner piece.term) fun piece hpiece =>
    yields_copyTerm (hsized piece hpiece) (hreads piece hpiece)

/-! ## Giving terms up -/

theorem sum_cells (part : Nat → Set Valuation) (start : Nat) (term : Term) :
    ((term.zipIdx start).map fun x => ({⟨x.2, x.1, part x.2⟩} : Multiset Cell)).sum =
      cellsFrom part start term := by
  induction term generalizing start with
  | nil => rfl
  | cons set term ih => rw [List.zipIdx_cons, List.map_cons, List.sum_cons, ih, cellsFrom_cons]

theorem yields_releaseTerm {piece : Piece} (hsized : piece.term.length = o.packs.length) :
    Yields I o reads piece.cells (releaseTerm inner piece.term) fun _ given => given = 0 := by
  rw [Piece.cells, ← sum_cells]
  refine Yields.bind (yields_inEachPack hsized (Yields.mapM fun x _ =>
    yields_release ⟨x.2, x.1, piece.part x.2⟩)) ?_
  rintro _ _ ⟨outs, -, rfl, houts⟩
  refine .pure ?_
  generalize piece.term.zipIdx = items at houts
  induction houts with
  | nil => rfl
  | cons hout _ ih => rw [List.map_cons, List.sum_cons, hout, ih, add_zero]

theorem yields_releaseTerms {pieces : List Piece}
    (hsized : ∀ piece ∈ pieces, piece.term.length = o.packs.length) :
    Yields I o reads (cellsOf pieces) (releaseTerms inner (pieces.map (·.term)))
      fun _ given => given = 0 := by
  induction pieces with
  | nil => exact Yields.pure rfl
  | cons piece pieces ih =>
    refine Yields.bind ((yields_releaseTerm (hsized piece List.mem_cons_self)).keep
      (cellsOf pieces) (subset_add _ _)) ?_
    rintro _ _ ⟨_, rfl, rfl⟩
    rw [zero_add]
    exact ih fun other hother => hsized other (List.mem_cons_of_mem _ hother)

theorem Gives.yields_releaseTerms {parts : List (Nat → Set Valuation)} {terms : List Term}
    {taken : Multiset Cell} (h : Gives o.packs.length parts terms taken) :
    Yields I o reads taken (releaseTerms inner terms) fun _ given => given = 0 := by
  obtain ⟨pieces, -, rfl, hsized, rfl⟩ := h
  exact Packed.yields_releaseTerms hsized

/-! ## Empty terms -/

theorem yields_anyEmpty {cells : List Cell} (hreads : ∀ c ∈ cells, c ∈ reads) :
    Yields I o reads 0 (anyEmpty inner (cells.map fun c => (c.set, c.pack))) fun answer given =>
      (answer = true ↔ ∃ c ∈ cells, c.value = ∅) ∧ given = 0 := by
  induction cells with
  | nil => exact Yields.pure ⟨by simp, rfl⟩
  | cons c cells ih =>
    refine Yields.bind (yields_isEmpty (hreads c List.mem_cons_self)) ?_
    rintro answer _ ⟨hanswer, rfl⟩
    cases answer with
    | true => exact .pure ⟨by simpa using .inl (hanswer.mp rfl), rfl⟩
    | false =>
      refine (ih fun c' hc' => hreads c' (List.mem_cons_of_mem c hc')).mono ?_
      rintro rest given ⟨hrest, rfl⟩
      have hfull : c.value ≠ ∅ := fun h => by simpa using hanswer.mpr h
      exact ⟨by simpa [hfull] using hrest, rfl⟩

theorem yields_termIsEmpty {piece : Piece} (hsized : piece.term.length = o.packs.length)
    (hreads : piece.cells ⊆ reads) :
    Yields I o reads 0 (termIsEmpty inner piece.term) fun answer given =>
      (answer = true ↔ ∃ pack < o.packs.length, piece.part pack = ∅) ∧ given = 0 := by
  refine yields_packIndices_bind ?_
  rw [List.length_range, List.take_of_length_le hsized.le]
  have hcells : piece.term.zipIdx =
      (piece.term.zipIdx.map fun x => (⟨x.2, x.1, piece.part x.2⟩ : Cell)).map
        fun c => (c.set, c.pack) := by
    rw [List.map_map]
    exact (List.map_id _).symm
  rw [hcells]
  refine (yields_anyEmpty fun c hc => hreads hc).mono ?_
  rintro answer given ⟨hanswer, rfl⟩
  refine ⟨hanswer.trans ?_, rfl⟩
  simp only [← List.mem_range, ← map_zipIdx_snd hsized, List.mem_map, exists_exists_and_eq_and]

/-! ## Products -/

theorem yields_intersect {a b : Cell} (ha : a ∈ reads) (hb : b ∈ reads) (hsame : b.pack = a.pack)
    (hpack : a.pack < o.packs.length) :
    Yields I o reads 0 (inPack a.pack (inner.step (.intersect a.set b.set))) fun set given =>
      given = {⟨a.pack, set, a.value ∩ b.value⟩} :=
  yields_made hpack fun m _ hsets => by
    simp only [Ideal.made, Ideal.set, hsets a ha rfl, hsets b hb hsame]
    rfl

theorem yields_product {left right : Piece} (hleft : left.term.length = o.packs.length)
    (hright : right.term.length = o.packs.length) (hreads : left.cells ⊆ reads)
    (hreads' : right.cells ⊆ reads) :
    Yields I o reads 0
      (inEachPack (left.term.zip right.term) fun x => inner.step (.intersect x.1 x.2))
      (GivesOne o.packs.length fun pack => left.part pack ∩ right.part pack) := by
  have hlength : (left.term.zip right.term).length = o.packs.length := by
    rw [List.length_zip, hleft, hright, min_self]
  have hplace : (left.term.zip right.term).zipIdx.map (·.2) = List.range o.packs.length := by
    rw [List.zipIdx_map_snd, hlength, List.range_eq_range']
  refine yields_inEachPack hlength (Yields.term_of_reads hplace fun x hx => ?_)
  obtain ⟨⟨a, b⟩, pack⟩ := x
  have hpack : pack < o.packs.length := by
    rw [← List.mem_range, ← hplace]
    exact List.mem_map_of_mem hx
  rw [List.mk_mem_zipIdx_iff_getElem?, List.getElem?_zip_eq_some] at hx
  exact yields_intersect
    (hreads (mem_cells (List.mk_mem_zipIdx_iff_getElem?.mpr hx.1)))
    (hreads' (mem_cells (List.mk_mem_zipIdx_iff_getElem?.mpr hx.2))) rfl hpack

section

variable {n : Nat} {part : Nat → Set Valuation} {parts : List (Nat → Set Valuation)} {term : Term}
  {terms : List Term} {cells cells' : Multiset Cell}

theorem Gives.nil (n : Nat) : Gives n [] [] 0 := ⟨[], rfl, rfl, by simp, rfl⟩

theorem Gives.cons (h : GivesOne n part term cells) (h' : Gives n parts terms cells') :
    Gives n (part :: parts) (term :: terms) (cells + cells') := by
  obtain ⟨hlength, rfl⟩ := h
  obtain ⟨pieces, rfl, rfl, hsized, rfl⟩ := h'
  refine ⟨⟨term, part⟩ :: pieces, rfl, rfl, ?_, rfl⟩
  rintro piece (_ | ⟨_, hmem⟩)
  · exact hlength
  · exact hsized piece hmem

theorem GivesOne.gives (h : GivesOne n part term cells) : Gives n [part] [term] cells := by
  rw [← add_zero cells]
  exact .cons h (.nil n)

end

/-- The products that are kept are those of the pairs, but for empty ones. -/
theorem yields_products {pairs : List (Piece × Piece)}
    (hsized : ∀ pair ∈ pairs, pair.1.term.length = o.packs.length ∧
      pair.2.term.length = o.packs.length)
    (hreads : ∀ pair ∈ pairs, pair.1.cells ⊆ reads ∧ pair.2.cells ⊆ reads) :
    Yields I o reads 0 (products inner (pairs.map fun pair => (pair.1.term, pair.2.term)))
      fun terms given => ∃ parts, Gives o.packs.length parts terms given ∧
        (∀ part ∈ parts, ∀ pack < o.packs.length, (part pack).Nonempty) ∧
        ∀ bundle, Covers o.packs.length parts bundle ↔ ∃ pair ∈ pairs,
          Holds o.packs.length pair.1.part bundle ∧ Holds o.packs.length pair.2.part bundle := by
  induction pairs with
  | nil => exact Yields.pure ⟨[], .nil _, by simp, by simp [Covers]⟩
  | cons pair pairs ih =>
    obtain ⟨left, right⟩ := pair
    obtain ⟨hleft, hright⟩ := hsized _ List.mem_cons_self
    obtain ⟨hreadl, hreadr⟩ := hreads _ List.mem_cons_self
    have ih := ih (fun pair hpair => hsized pair (List.mem_cons_of_mem _ hpair))
      fun pair hpair => hreads pair (List.mem_cons_of_mem _ hpair)
    refine Yields.bind (yields_product hleft hright hreadl hreadr) fun term given hterm => ?_
    obtain ⟨hlength, rfl⟩ := hterm
    have hboth (bundle : Nat → Valuation) :
        Holds o.packs.length (fun pack => left.part pack ∩ right.part pack) bundle ↔
          Holds o.packs.length left.part bundle ∧ Holds o.packs.length right.part bundle :=
      forall₂_and
    refine Yields.bind (yields_termIsEmpty hlength fun c hc =>
      Multiset.mem_add.mpr (.inl hc)).own ?_
    rintro vanished _ ⟨_, ⟨hvanished, rfl⟩, rfl⟩
    rw [zero_add]
    cases vanished with
    | true =>
      obtain ⟨pack, hpack, hempty⟩ := hvanished.mp rfl
      change left.part pack ∩ right.part pack = ∅ at hempty
      have hnone (bundle : Nat → Valuation) : ¬ (Holds o.packs.length left.part bundle ∧
          Holds o.packs.length right.part bundle) := fun h => by
        have hmem : bundle pack ∈ left.part pack ∩ right.part pack :=
          (hboth bundle).mpr h pack hpack
        rw [hempty] at hmem
        exact hmem
      refine Yields.bind (GivesOne.gives ⟨hlength, rfl⟩).yields_releaseTerms ?_
      rintro _ _ rfl
      refine ih.mono ?_
      rintro terms given ⟨parts, hgives, hfull, hcovers⟩
      exact ⟨parts, hgives, hfull, fun bundle => by simp [hcovers, hnone]⟩
    | false =>
      have hfull : ∀ pack < o.packs.length, (left.part pack ∩ right.part pack).Nonempty :=
        fun pack hpack => Set.nonempty_iff_ne_empty.mpr fun hempty => by
          simpa using hvanished.mpr ⟨pack, hpack, hempty⟩
      have hrest := ih.keep (Piece.mk term fun pack => left.part pack ∩ right.part pack).cells
        (subset_add _ _)
      rw [zero_add] at hrest
      refine Yields.bind hrest ?_
      rintro terms _ ⟨given, ⟨parts, hgives, hnonempty, hcovers⟩, rfl⟩
      refine .pure ⟨_ :: parts, by rw [add_comm]; exact .cons ⟨hlength, rfl⟩ hgives, ?_, ?_⟩
      · rintro part (_ | ⟨_, hmem⟩)
        · exact hfull
        · exact hnonempty part hmem
      · intro bundle
        have htail := hcovers bundle
        simp only [Covers] at htail
        simp [Covers, hboth, htail]

theorem yields_intersectTerms {lefts rights : List Piece}
    (hlefts : ∀ piece ∈ lefts, piece.term.length = o.packs.length)
    (hrights : ∀ piece ∈ rights, piece.term.length = o.packs.length)
    (hreads : cellsOf lefts ⊆ reads) (hreads' : cellsOf rights ⊆ reads) :
    Yields I o reads 0 (intersectTerms inner (lefts.map (·.term)) (rights.map (·.term)))
      fun terms given => ∃ parts, Gives o.packs.length parts terms given ∧
        (∀ part ∈ parts, ∀ pack < o.packs.length, (part pack).Nonempty) ∧
        ∀ bundle, Covers o.packs.length parts bundle ↔
          Covers o.packs.length (lefts.map (·.part)) bundle ∧
            Covers o.packs.length (rights.map (·.part)) bundle := by
  have hpairs : ((lefts.map (·.term)).flatMap fun left => (rights.map (·.term)).map fun right =>
      (left, right)) = (lefts.flatMap fun left => rights.map fun right => (left, right)).map
        fun pair => (pair.1.term, pair.2.term) := by
    simp [List.map_flatMap, List.flatMap_map, Function.comp_def]
  rw [intersectTerms, hpairs]
  refine (yields_products ?_ ?_).mono ?_
  · simp only [List.mem_flatMap, List.mem_map]
    rintro _ ⟨left, hleft, right, hright, rfl⟩
    exact ⟨hlefts left hleft, hrights right hright⟩
  · simp only [List.mem_flatMap, List.mem_map]
    rintro _ ⟨left, hleft, right, hright, rfl⟩
    exact ⟨fun c hc => hreads (cells_subset hleft hc), fun c hc => hreads' (cells_subset hright hc)⟩
  · rintro terms given ⟨parts, hgives, hfull, hcovers⟩
    refine ⟨parts, hgives, hfull, fun bundle => (hcovers bundle).trans ?_⟩
    simp only [Covers, List.mem_flatMap, List.mem_map, exists_exists_and_eq_and]
    constructor
    · rintro ⟨_, ⟨left, hleft, right, hright, rfl⟩, hl, hr⟩
      exact ⟨⟨left, hleft, hl⟩, right, hright, hr⟩
    · rintro ⟨⟨left, hleft, hl⟩, right, hright, hr⟩
      exact ⟨_, ⟨left, hleft, right, hright, rfl⟩, hl, hr⟩

end LayeredSets.Packed
