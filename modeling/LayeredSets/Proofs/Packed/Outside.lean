import LayeredSets.Proofs.Packed.Terms

/-!
# What lies outside

Outside a product means outside one of its components. Cutting the terms of a union out of the term
of all bundles, one after the other, leaves terms that cover the rest. Containment and emptiness are
then read off the terms, since a term without empty components holds some bundle.
-/

namespace LayeredSets.Packed

open Action

variable {ρ : Type} {inner : Operations ρ} {I : Meaning inner} {o : Packed (List UInt32)}
  {reads : Multiset Cell}

/-! ## Bundles of single components -/

theorem holds_update {n : Nat} {part : Nat → Set Valuation} {bundle : Nat → Valuation}
    (h : Holds n part bundle) {pack : Nat} (hpack : pack < n) (value : Set Valuation) :
    Holds n (Function.update part pack value) bundle ↔ bundle pack ∈ value := by
  constructor
  · intro hholds
    simpa using hholds pack hpack
  · intro hvalue other hother
    by_cases heq : other = pack
    · subst heq
      simpa using hvalue
    · simpa [Function.update_of_ne heq] using h other hother

theorem covers_outside {n : Nat} (part : Nat → Set Valuation) {bundle : Nat → Valuation}
    (h : Holds n (topPart o) bundle) :
    Covers n ((List.range n).map fun pack =>
      Function.update (topPart o) pack (topPart o pack \ part pack)) bundle ↔
        ¬ Holds n part bundle := by
  have hone {pack : Nat} (hpack : pack < n) :
      Holds n (Function.update (topPart o) pack (topPart o pack \ part pack)) bundle ↔
        bundle pack ∉ part pack := by
    rw [holds_update h hpack, Set.mem_sdiff]
    exact and_iff_right (h pack hpack)
  simp only [Covers, List.mem_map, List.mem_range, exists_exists_and_eq_and, Holds, not_forall,
    exists_prop]
  exact exists_congr fun pack => and_congr_right fun hpack => hone hpack

/-- Components of some terms lie within their packs. -/
def Bounded (o : Packed (List UInt32)) (parts : List (Nat → Set Valuation)) : Prop :=
  ∀ part ∈ parts, ∀ pack < o.packs.length, part pack ⊆ topPart o pack

theorem bounded_of_cells {pieces : List Piece}
    (hsized : ∀ piece ∈ pieces, piece.term.length = o.packs.length)
    (hcells : ∀ c ∈ cellsOf pieces, c.value ⊆ topPart o c.pack) :
    Bounded o (pieces.map (·.part)) := by
  intro part hpart pack hpack
  obtain ⟨piece, hpiece, rfl⟩ := List.mem_map.mp hpart
  have hlt : pack < piece.term.length := (hsized piece hpiece).symm ▸ hpack
  have hmem : (piece.term[pack], pack) ∈ piece.term.zipIdx :=
    List.mk_mem_zipIdx_iff_getElem?.mpr (List.getElem?_eq_getElem hlt)
  exact hcells _ (cells_subset hpiece (mem_cells hmem))

theorem Gives.bounded {parts : List (Nat → Set Valuation)} {terms : List Term}
    {given : Multiset Cell} (h : Gives o.packs.length parts terms given)
    (hcells : ∀ c ∈ given, c.value ⊆ topPart o c.pack) : Bounded o parts := by
  obtain ⟨pieces, rfl, rfl, hsized, rfl⟩ := h
  exact bounded_of_cells hsized hcells

/-- A term without empty components holds a bundle. -/
theorem exists_holds {n : Nat} {part : Nat → Set Valuation}
    (h : ∀ pack < n, (part pack).Nonempty) : ∃ bundle, Holds n part bundle := by
  classical
  choose f hf using h
  exact ⟨fun pack => if hpack : pack < n then f pack hpack else [], fun pack hpack => by
    simpa [hpack] using hf pack hpack⟩

theorem Bounded.covers_nothing {parts : List (Nat → Set Valuation)} (h : Bounded o parts) :
    (∀ part ∈ parts, ∃ pack < o.packs.length, part pack = ∅) ↔
      ∀ bundle, Holds o.packs.length (topPart o) bundle →
        ¬ Covers o.packs.length parts bundle := by
  constructor
  · rintro hempty bundle - ⟨part, hpart, hholds⟩
    obtain ⟨pack, hpack, hnone⟩ := hempty part hpart
    have hmem := hholds pack hpack
    rw [hnone] at hmem
    exact hmem
  · intro hnone part hpart
    by_contra hfull
    push Not at hfull
    obtain ⟨bundle, hholds⟩ := exists_holds hfull
    exact hnone bundle (fun pack hpack => h part hpart pack hpack (hholds pack hpack))
      ⟨part, hpart, hholds⟩

/-! ## Complements -/

theorem yields_complement {c : Cell} (hc : c ∈ reads) (hpack : c.pack < o.packs.length) :
    Yields I o reads 0 (inPack c.pack (inner.step (.complement c.set))) fun set given =>
      given = {⟨c.pack, set, topPart o c.pack \ c.value⟩} :=
  yields_made hpack fun m hm hsets => by
    simp only [Ideal.made, Ideal.set, hsets c hc rfl, topPart, hm]
    rfl

theorem yields_outsideTerm {piece : Piece} (hsized : piece.term.length = o.packs.length)
    (hreads : piece.cells ⊆ reads) :
    Yields I o reads 0 (outsideTerm inner piece.term)
      (Gives o.packs.length ((List.range o.packs.length).map fun pack =>
        Function.update (topPart o) pack (topPart o pack \ piece.part pack))) := by
  have hparts : ((List.range o.packs.length).map fun pack =>
      Function.update (topPart o) pack (topPart o pack \ piece.part pack)) =
        piece.term.zipIdx.map fun x =>
          Function.update (topPart o) x.2 (topPart o x.2 \ piece.part x.2) := by
    rw [← map_zipIdx_snd hsized, List.map_map]
    rfl
  rw [hparts]
  refine Yields.terms_of_reads fun x hx => ?_
  have hpack := lt_of_mem_zipIdx hsized hx
  refine Yields.bind (yields_complement (hreads (mem_cells hx)) hpack) ?_
  rintro flipped _ rfl
  exact yields_termWith hpack flipped _

theorem yields_cutOut {parts : List (Nat → Set Valuation)} {terms : List Term}
    {taken : Multiset Cell} (h : Gives o.packs.length parts terms taken) {piece : Piece}
    (hsized : piece.term.length = o.packs.length) (hreads : piece.cells ⊆ reads) :
    Yields I o reads taken (cutOut inner terms piece.term) fun next given =>
      ∃ parts', Gives o.packs.length parts' next given ∧
        ∀ bundle, Holds o.packs.length (topPart o) bundle →
          (Covers o.packs.length parts' bundle ↔
            Covers o.packs.length parts bundle ∧ ¬ Holds o.packs.length piece.part bundle) := by
  have houtside := (yields_outsideTerm (I := I) hsized hreads).keep taken (subset_add _ _)
  refine Yields.bind (houtside.cast (zero_add taken).symm) ?_
  rintro outside _ ⟨out, hout, rfl⟩
  obtain ⟨results, hresults, rfl, hresized, rfl⟩ := id h
  obtain ⟨outs, houts, rfl, houtsized, rfl⟩ := id hout
  refine Yields.bind (yields_intersectTerms hresized houtsized
    (fun c hc => Multiset.mem_add.mpr (.inl (Multiset.mem_add.mpr (.inr hc))))
    fun c hc => Multiset.mem_add.mpr (.inl (Multiset.mem_add.mpr (.inl hc)))).own ?_
  rintro next _ ⟨new, ⟨parts', hnext, -, hcovers⟩, rfl⟩
  refine Yields.bind ((h.yields_releaseTerms.keep (new + cellsOf outs) (subset_add _ _)).cast
    (by abel)) ?_
  rintro _ _ ⟨_, rfl, rfl⟩
  refine Yields.bind ((hout.yields_releaseTerms.keep new (subset_add _ _)).cast (by abel)) ?_
  rintro _ _ ⟨_, rfl, rfl⟩
  rw [zero_add]
  refine .pure ⟨parts', hnext, fun bundle hbundle => ?_⟩
  rw [hcovers, hresults, houts, covers_outside piece.part hbundle]

/-- By induction on the terms that are cut out: what is left shrinks by one after the other. -/
theorem yields_cutAll {pieces : List Piece}
    (hsized : ∀ piece ∈ pieces, piece.term.length = o.packs.length)
    (hreads : cellsOf pieces ⊆ reads) {parts : List (Nat → Set Valuation)} {terms : List Term}
    {taken : Multiset Cell} (h : Gives o.packs.length parts terms taken) :
    Yields I o reads taken ((pieces.map (·.term)).foldlM (cutOut inner) terms) fun next given =>
      ∃ parts', Gives o.packs.length parts' next given ∧
        ∀ bundle, Holds o.packs.length (topPart o) bundle →
          (Covers o.packs.length parts' bundle ↔ Covers o.packs.length parts bundle ∧
            ¬ Covers o.packs.length (pieces.map (·.part)) bundle) := by
  induction pieces generalizing parts terms taken with
  | nil => exact Yields.pure ⟨parts, h, fun _ _ => by simp [Covers]⟩
  | cons piece pieces ih =>
    rw [List.map_cons, List.foldlM_cons]
    have hfirst := yields_cutOut (I := I) h (hsized piece List.mem_cons_self)
      fun c hc => hreads (Multiset.mem_add.mpr (.inl hc))
    refine Yields.bind hfirst ?_
    rintro next given ⟨parts', hnext, hcut⟩
    refine (ih (fun other hother => hsized other (List.mem_cons_of_mem _ hother))
      (fun c hc => hreads (Multiset.mem_add.mpr (.inr hc))) hnext).mono ?_
    rintro last given' ⟨parts'', hlast, hcovers⟩
    refine ⟨parts'', hlast, fun bundle hbundle => ?_⟩
    rw [hcovers bundle hbundle, hcut bundle hbundle]
    simp only [Covers, List.map_cons, List.mem_cons, exists_eq_or_imp, not_or, and_assoc]

theorem yields_complementTerms {pieces : List Piece}
    (hsized : ∀ piece ∈ pieces, piece.term.length = o.packs.length)
    (hreads : cellsOf pieces ⊆ reads) :
    Yields I o reads 0 (complementTerms inner (pieces.map (·.term))) fun terms given =>
      ∃ parts, Gives o.packs.length parts terms given ∧
        ∀ bundle, Holds o.packs.length (topPart o) bundle →
          (Covers o.packs.length parts bundle ↔
            ¬ Covers o.packs.length (pieces.map (·.part)) bundle) := by
  refine Yields.bind yields_topTerm fun everything given hall => ?_
  refine (yields_cutAll hsized hreads hall.gives).mono ?_
  rintro terms given' ⟨parts, hgives, hcovers⟩
  refine ⟨parts, hgives, fun bundle hbundle => (hcovers bundle hbundle).trans (and_iff_right ?_)⟩
  exact ⟨topPart o, List.mem_singleton_self _, hbundle⟩

/-! ## Differences -/

/-- The terms of what one union holds outside another. -/
def without (inner : Operations ρ) (left right : List Term) : Act (Packed ρ) (List Term) := do
  let outside ← complementTerms inner right
  let rest ← intersectTerms inner left outside
  releaseTerms inner outside
  return rest

theorem contained_eq (a b : SetId) : contained inner a b = (do
    let left ← findTerms a
    let right ← findTerms b
    let rest ← without inner left right
    releaseTerms inner rest
    return rest.isEmpty : Act (Packed ρ) Bool) := by
  simp only [contained, without, bind_assoc, pure_bind]

theorem yields_without {lefts rights : List Piece}
    (hlefts : ∀ piece ∈ lefts, piece.term.length = o.packs.length)
    (hrights : ∀ piece ∈ rights, piece.term.length = o.packs.length)
    (hreads : cellsOf lefts ⊆ reads) (hreads' : cellsOf rights ⊆ reads) :
    Yields I o reads 0 (without inner (lefts.map (·.term)) (rights.map (·.term)))
      fun terms given => ∃ parts, Gives o.packs.length parts terms given ∧
        (∀ part ∈ parts, ∀ pack < o.packs.length, (part pack).Nonempty) ∧
        ∀ bundle, Holds o.packs.length (topPart o) bundle →
          (Covers o.packs.length parts bundle ↔
            Covers o.packs.length (lefts.map (·.part)) bundle ∧
              ¬ Covers o.packs.length (rights.map (·.part)) bundle) := by
  refine Yields.bind (yields_complementTerms hrights hreads') ?_
  rintro outside given ⟨parts, hout, hcomplement⟩
  obtain ⟨outs, rfl, rfl, houtsized, rfl⟩ := id hout
  refine Yields.bind (yields_intersectTerms hlefts houtsized
    (fun c hc => Multiset.mem_add.mpr (.inr (hreads hc)))
    fun c hc => Multiset.mem_add.mpr (.inl hc)).own ?_
  rintro rest _ ⟨new, ⟨parts', hrest, hfull, hcovers⟩, rfl⟩
  refine Yields.bind ((hout.yields_releaseTerms.keep new (subset_add _ _)).cast
    (add_comm _ _)) ?_
  rintro _ _ ⟨_, rfl, rfl⟩
  rw [zero_add]
  refine .pure ⟨parts', hrest, hfull, fun bundle hbundle => ?_⟩
  rw [hcovers, hcomplement bundle hbundle]

/-- Nothing is left of the one outside the other exactly if the other covers it. -/
theorem yields_nothing_without {lefts rights : List Piece}
    (hlefts : ∀ piece ∈ lefts, piece.term.length = o.packs.length)
    (hrights : ∀ piece ∈ rights, piece.term.length = o.packs.length)
    (hreads : cellsOf lefts ⊆ reads) (hreads' : cellsOf rights ⊆ reads) :
    Yields I o reads 0 (do
      let rest ← without inner (lefts.map (·.term)) (rights.map (·.term))
      releaseTerms inner rest
      return rest.isEmpty)
      fun answer given => given = 0 ∧ (answer = true ↔
        ∀ bundle, Holds o.packs.length (topPart o) bundle →
          Covers o.packs.length (lefts.map (·.part)) bundle →
            Covers o.packs.length (rights.map (·.part)) bundle) := by
  refine Yields.bind (yields_without hlefts hrights hreads hreads').bounded ?_
  rintro rest given ⟨⟨parts, hrest, hfull, hcovers⟩, hcells⟩
  refine Yields.bind hrest.yields_releaseTerms ?_
  rintro _ _ rfl
  refine .pure ⟨rfl, ?_⟩
  have hbounded := hrest.bounded hcells
  obtain ⟨pieces, rfl, rfl, -, -⟩ := hrest
  have hnone : (pieces.map (·.term)).isEmpty = true ↔ pieces.map (·.part) = [] := by
    cases pieces <;> simp
  have hempty : pieces.map (·.part) = [] ↔
      ∀ part ∈ pieces.map (·.part), ∃ pack < o.packs.length, part pack = ∅ := by
    constructor
    · intro h
      simp [h]
    · intro h
      refine List.eq_nil_iff_forall_not_mem.mpr fun part hpart => ?_
      obtain ⟨pack, hpack, hpart'⟩ := h part hpart
      exact (hfull part hpart pack hpack).ne_empty hpart'
  rw [hnone, hempty, hbounded.covers_nothing]
  refine forall₂_congr fun bundle hbundle => ?_
  rw [hcovers bundle hbundle, not_and_not_right]

/-! ## Emptiness -/

theorem yields_allEmpty {pieces : List Piece}
    (hsized : ∀ piece ∈ pieces, piece.term.length = o.packs.length)
    (hreads : cellsOf pieces ⊆ reads) :
    Yields I o reads 0 (allEmpty inner (pieces.map (·.term))) fun answer given => given = 0 ∧
      (answer = true ↔
        ∀ part ∈ pieces.map (·.part), ∃ pack < o.packs.length, part pack = ∅) := by
  induction pieces with
  | nil => exact Yields.pure ⟨rfl, by simp⟩
  | cons piece pieces ih =>
    refine Yields.bind (yields_termIsEmpty (hsized piece List.mem_cons_self)
      fun c hc => hreads (Multiset.mem_add.mpr (.inl hc))) ?_
    rintro vanished _ ⟨hvanished, rfl⟩
    cases vanished with
    | true =>
      refine (ih (fun other hother => hsized other (List.mem_cons_of_mem _ hother))
        fun c hc => hreads (Multiset.mem_add.mpr (.inr hc))).mono ?_
      rintro answer given ⟨rfl, hanswer⟩
      refine ⟨rfl, hanswer.trans ?_⟩
      rw [List.map_cons, List.forall_mem_cons]
      exact (and_iff_right (hvanished.mp rfl)).symm
    | false =>
      refine .pure ⟨rfl, ?_⟩
      rw [List.map_cons, List.forall_mem_cons, ← hvanished]
      simp

end LayeredSets.Packed
