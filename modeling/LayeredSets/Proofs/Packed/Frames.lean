import LayeredSets.Proofs.Packed.Keeps
import LayeredSets.Proofs.Packed.Transport

/-!
# What calls leave alone

Of a packed domain, the calls other than declarations change the stored sets and what the packs know
of sets. Whatever is seen of a pack apart from its sets stays as it was, and so do the variables and
the number of packs. Every term that is made has one component for each pack.
-/

namespace LayeredSets.Packed

open Action

variable {ρ τ α β : Type}

/-- Calls other than declarations are not seen in a view of the domain. -/
def Spares (inner : Operations ρ) (view : ρ → τ) : Prop :=
  ∀ {k : Answer} (call : Call k), k ≠ .var → ∀ d host, view (inner.step call d host).2.1 = view d

/-- The terms have one component for each of `n` packs. -/
def Complete (n : Nat) (terms : List Term) : Prop := ∀ term ∈ terms, term.length = n

/-- There are `n` packs, and one component for each of them in every term that is stored. -/
structure Even (n : Nat) (s : Packed ρ) : Prop where
  packs : s.packs.length = n
  terms : ∀ entry ∈ s.sets.entries, Complete n entry.2

@[simp] theorem even_map {n : Nat} (view : ρ → τ) (s : Packed ρ) :
    Even n (s.map view) ↔ Even n s :=
  ⟨fun h => ⟨by simpa [map] using h.packs, h.terms⟩, fun h => ⟨by simpa [map] using h.packs, h.terms⟩⟩

theorem Even.congr {n : Nat} {view : ρ → τ} {s t : Packed ρ} (h : Even n s)
    (hsame : t.map view = s.map view) : Even n t := by
  rw [← even_map view, hsame, even_map]
  exact h

theorem Even.get? {n : Nat} {s : Packed ρ} (h : Even n s) {set : SetId} {terms : List Term}
    (hset : s.sets.get? set = some terms) : Complete n terms := by
  obtain ⟨entry, hfind, rfl⟩ := Option.map_eq_some_iff.mp hset
  exact h.terms entry (List.mem_of_find?_eq_some hfind)

/-- The action is not seen in a view of the packs, and what it returns has the property. -/
def Frames (view : ρ → τ) (n : Nat) (x : Act (Packed ρ) α) (Q : α → Prop) : Prop :=
  ∀ s host, s.Even n →
    (x s host).2.1.map view = s.map view ∧ ∀ a, (x s host).1 = .ok a → Q a

namespace Frames

variable {view : ρ → τ} {n : Nat} {x y : Act (Packed ρ) α} {Q R : α → Prop}

theorem mono (h : Frames view n x Q) (hQR : ∀ a, Q a → R a) : Frames view n x R :=
  fun s host hs => (h s host hs).imp_right fun hall a ha => hQR a (hall a ha)

protected theorem pure {a : α} (h : Q a) : Frames view n (pure a) Q := by
  rintro s host -
  refine ⟨rfl, ?_⟩
  rintro _ ⟨⟩
  exact h

protected theorem fail (e : DomainError) : Frames view n (fail e : Act (Packed ρ) α) Q :=
  fun _ _ _ => ⟨rfl, nofun⟩

protected theorem bind {S : β → Prop} {f : α → Act (Packed ρ) β} (hx : Frames view n x Q)
    (hf : ∀ a, Q a → Frames view n (f a) S) : Frames view n (x >>= f) S := by
  intro s host hs
  obtain ⟨hsame, hvalue⟩ := hx s host hs
  rw [bind_apply]
  generalize x s host = r at hsame hvalue ⊢
  obtain ⟨e | a, t, host'⟩ := r
  · exact ⟨hsame, nofun⟩
  · obtain ⟨hsame', hvalue'⟩ := hf a (hvalue a rfl) t host' (hs.congr hsame)
    exact ⟨hsame'.trans hsame, hvalue'⟩

theorem get_bind {f : Packed ρ → Act (Packed ρ) α} (h : ∀ s, s.Even n → Frames view n (f s) Q) :
    Frames view n (get >>= f) Q :=
  fun s host hs => h s hs s host hs

protected theorem ite {p : Prop} [Decidable p] (hx : p → Frames view n x Q)
    (hy : ¬p → Frames view n y Q) : Frames view n (if p then x else y) Q := by
  split
  · next h => exact hx h
  · next h => exact hy h

protected theorem mapM {f : β → Act (Packed ρ) α} {items : List β}
    (h : ∀ b ∈ items, Frames view n (f b) Q) :
    Frames view n (items.mapM f) fun results =>
      results.length = items.length ∧ ∀ a ∈ results, Q a := by
  induction items with
  | nil =>
    rw [List.mapM_nil]
    exact .pure ⟨rfl, by simp⟩
  | cons b items ih =>
    rw [List.forall_mem_cons] at h
    rw [List.mapM_cons]
    refine h.1.bind fun a ha => (ih h.2).bind fun results ⟨hlength, hall⟩ => .pure ?_
    exact ⟨congrArg (· + 1) hlength, List.forall_mem_cons.mpr ⟨ha, hall⟩⟩

protected theorem forM {f : β → Act (Packed ρ) Unit} (items : List β)
    (h : ∀ b, Frames view n (f b) fun _ => True) : Frames view n (items.forM f) fun _ => True := by
  induction items with
  | nil => exact .pure trivial
  | cons b items ih => exact (h b).bind fun _ _ => ih

protected theorem foldlM {f : α → β → Act (Packed ρ) α} (items : List β) {a : α} (ha : Q a)
    (h : ∀ a b, Q a → Frames view n (f a b) Q) : Frames view n (items.foldlM f a) Q := by
  induction items generalizing a with
  | nil =>
    rw [List.foldlM_nil]
    exact .pure ha
  | cons b items ih =>
    rw [List.foldlM_cons]
    exact (h a b ha).bind fun a' ha' => ih ha'

end Frames

/-! ## Single steps -/

section

variable {view : ρ → τ} {n : Nat}

theorem set_map_packs {s : Packed ρ} {index : Nat} {pack : Pack ρ} (hpack : s.packs[index]? = some pack)
    {domain : ρ} (hview : view domain = view pack.domain) :
    map view { s with packs := s.packs.set index { pack with domain } } = map view s := by
  obtain ⟨hlt, rfl⟩ := List.getElem?_eq_some_iff.mp hpack
  have hsame : Pack.map view { s.packs[index] with domain } = Pack.map view s.packs[index] := by
    rw [Pack.map, hview]
    rfl
  rw [map, map, List.map_set, hsame, ← List.map_set, List.set_getElem_self]

theorem frames_inPack {x : Act ρ α} (hx : ∀ d host, view (x d host).2.1 = view d) (index : Nat) :
    Frames view n (inPack index x) fun _ => True := by
  intro s host _
  refine ⟨?_, fun _ _ => trivial⟩
  rw [inPack]
  split
  · rfl
  · next pack hpack => exact set_map_packs hpack (hx pack.domain host)

theorem frames_packIndices : Frames view n (packIndices (ρ := ρ)) fun indices => indices.length = n :=
  .get_bind fun s hs => .pure (by rw [List.length_range, hs.packs])

theorem frames_findVar (var : VarId) : Frames view n (findVar (ρ := ρ) var) fun _ => True := by
  refine .get_bind fun s _ => ?_
  cases s.vars[var.index.toNat]? with
  | none => exact .fail _
  | some var => exact .pure trivial

theorem frames_findTerms (set : SetId) : Frames view n (findTerms (ρ := ρ) set) (Complete n) := by
  refine .get_bind fun s hs => ?_
  cases hset : s.sets.get? set with
  | none => exact .fail _
  | some terms => exact .pure (hs.get? hset)

theorem frames_inEachPack {f : β → Act ρ α} (hf : ∀ b d host, view (f b d host).2.1 = view d)
    {items : List β} (hitems : items.length = n) :
    Frames view n (inEachPack items f) fun results => results.length = n := by
  refine .get_bind fun s hs => ?_
  refine (Frames.mapM fun x _ => frames_inPack (hf x.1) x.2).mono fun results ⟨hlength, _⟩ => ?_
  simp [hlength, hitems, hs.packs]

end

/-! ## Terms -/

section

variable {inner : Operations ρ} {view : ρ → τ} {n : Nat}

theorem complete_nil : Complete n [] := by simp [Complete]

theorem complete_cons_iff {term : Term} {terms : List Term} :
    Complete n (term :: terms) ↔ term.length = n ∧ Complete n terms :=
  List.forall_mem_cons

theorem complete_append_iff {a b : List Term} :
    Complete n (a ++ b) ↔ Complete n a ∧ Complete n b :=
  List.forall_mem_append

variable (h : Spares inner view)

include h

theorem frames_ask {k : Answer} (call : Call k) (index : Nat) (hk : k ≠ .var) :
    Frames view n (inPack index (inner.step call)) fun _ => True :=
  frames_inPack (h call hk) index

theorem frames_topTerm : Frames view n (topTerm inner) fun term => term.length = n :=
  frames_packIndices.bind fun _ hindices =>
    (Frames.mapM fun index _ => frames_ask h .top index (by decide)).mono fun _ ⟨hlength, _⟩ =>
      hlength.trans hindices

theorem frames_termWith (pack : Nat) (component : SetId) :
    Frames view n (termWith inner pack component) fun term => term.length = n :=
  frames_packIndices.bind fun _ hindices =>
    (Frames.mapM fun index _ => .ite (fun _ => .pure trivial) fun _ =>
      frames_ask h .top index (by decide)).mono fun _ ⟨hlength, _⟩ => hlength.trans hindices

theorem frames_copyTerm {term : Term} (hterm : term.length = n) :
    Frames view n (copyTerm inner term) fun term => term.length = n :=
  frames_inEachPack (fun set => h (.union set set) (by decide)) hterm

theorem frames_releaseTerm (term : Term) : Frames view n (releaseTerm inner term) fun _ => True := by
  refine Frames.bind (Q := fun _ => True) ?_ fun _ _ => .pure trivial
  refine .get_bind fun s _ => ?_
  exact (Frames.mapM fun x _ => frames_ask h (.release x.1) x.2 (by decide)).mono fun _ _ => trivial

theorem frames_releaseTerms (terms : List Term) :
    Frames view n (releaseTerms inner terms) fun _ => True :=
  .forM terms (frames_releaseTerm h)

theorem frames_anyEmpty (components : List (SetId × Nat)) :
    Frames view n (anyEmpty inner components) fun _ => True := by
  induction components with
  | nil => exact .pure trivial
  | cons component rest ih =>
    exact (frames_ask h (.isEmpty component.1) component.2 (by decide)).bind fun _ _ =>
      .ite (fun _ => .pure trivial) fun _ => ih

theorem frames_termIsEmpty (term : Term) : Frames view n (termIsEmpty inner term) fun _ => True :=
  frames_packIndices.bind fun _ _ => frames_anyEmpty h _

theorem frames_products {pairs : List (Term × Term)}
    (hpairs : ∀ pair ∈ pairs, pair.1.length = n ∧ pair.2.length = n) :
    Frames view n (products inner pairs) (Complete n) := by
  induction pairs with
  | nil => exact .pure complete_nil
  | cons pair rest ih =>
    obtain ⟨⟨hleft, hright⟩, hrest⟩ := List.forall_mem_cons.mp hpairs
    have hmeet (x : SetId × SetId) (d : ρ) (host : Host) :
        view (inner.step (.intersect x.1 x.2) d host).2.1 = view d :=
      h (.intersect x.1 x.2) (by decide) d host
    refine (frames_inEachPack hmeet (by simp [hleft, hright])).bind fun term hterm =>
      (frames_termIsEmpty h term).bind fun _ _ => .ite (fun _ => ?_) fun _ => ?_
    · exact (frames_releaseTerms h [term]).bind fun _ _ => ih hrest
    · exact (ih hrest).bind fun terms hterms => .pure (complete_cons_iff.mpr ⟨hterm, hterms⟩)

theorem frames_intersectTerms {a b : List Term} (ha : Complete n a) (hb : Complete n b) :
    Frames view n (intersectTerms inner a b) (Complete n) := by
  refine frames_products h fun pair hpair => ?_
  simp only [List.mem_flatMap, List.mem_map] at hpair
  obtain ⟨left, hleft, right, hright, rfl⟩ := hpair
  exact ⟨ha left hleft, hb right hright⟩

theorem frames_outsideTerm (term : Term) :
    Frames view n (outsideTerm inner term) (Complete n) :=
  (Frames.mapM fun x _ => (frames_ask h (.complement x.1) x.2 (by decide)).bind fun flipped _ =>
    frames_termWith h x.2 flipped).mono fun _ => And.right

theorem frames_cutOut {result : List Term} (hresult : Complete n result) (term : Term) :
    Frames view n (cutOut inner result term) (Complete n) :=
  (frames_outsideTerm h term).bind fun outside houtside =>
    (frames_intersectTerms h hresult houtside).bind fun _ hnext =>
      (frames_releaseTerms h result).bind fun _ _ =>
        (frames_releaseTerms h outside).bind fun _ _ => .pure hnext

theorem frames_complementTerms (terms : List Term) :
    Frames view n (complementTerms inner terms) (Complete n) :=
  (frames_topTerm h).bind fun _ htop =>
    .foldlM terms (complete_cons_iff.mpr ⟨htop, complete_nil⟩) fun _ term hresult =>
      frames_cutOut h hresult term

theorem frames_contained (a b : SetId) : Frames view n (contained inner a b) fun _ => True :=
  (frames_findTerms a).bind fun _ hleft => (frames_findTerms b).bind fun right _ =>
    (frames_complementTerms h right).bind fun outside houtside =>
      (frames_intersectTerms h hleft houtside).bind fun rest _ =>
        (frames_releaseTerms h outside).bind fun _ _ =>
          (frames_releaseTerms h rest).bind fun _ _ => .pure trivial

theorem frames_exchange (pack : Nat) (component : SetId) {term : Term} (hterm : term.length = n) :
    Frames view n (exchange inner pack component term) fun term => term.length = n := by
  have hset : Frames view n (pure (term.set pack component) : Act (Packed ρ) Term)
      fun term => term.length = n := .pure (by simpa using hterm)
  simp only [exchange]
  split
  · next old _ => exact (frames_ask h (.release old) pack (by decide)).bind fun _ _ => hset
  · exact hset

theorem frames_crossTerm (a b : PackedVar) (value : UInt64) :
    Frames view n (crossTerm inner a b value) fun term => term.length = n := by
  rw [crossTerm_eq]
  exact (frames_ask h (.varEqConst a.inner value) a.pack (by decide)).bind fun left _ =>
    (frames_ask h (.varEqConst b.inner value) b.pack (by decide)).bind fun right _ =>
    (frames_termWith h a.pack left).bind fun _ hterm => frames_exchange h b.pack right hterm

theorem frames_pointComponent (point : List (PackedVar × UInt64)) (pack : Nat) :
    Frames view n (pointComponent inner point pack) fun _ => True := by
  unfold pointComponent
  split
  · exact frames_ask h .top pack (by decide)
  · exact frames_ask h (.singleton _) pack (by decide)

theorem frames_projectTerm (var : PackedVar) {term : Term} (hterm : term.length = n) :
    Frames view n (projectTerm inner var term) fun term => term.length = n :=
  (Frames.mapM fun x _ => frames_ask h (if x.2 = var.pack then .exists x.1 var.inner else
    .union x.1 x.1) x.2 (by decide)).mono fun _ ⟨hlength, _⟩ =>
      hlength.trans (List.length_zipIdx.trans hterm)

theorem frames_allEmpty (terms : List Term) : Frames view n (allEmpty inner terms) fun _ => True := by
  induction terms with
  | nil => exact .pure trivial
  | cons term rest ih =>
    exact (frames_termIsEmpty h term).bind fun _ _ =>
      .ite (fun _ => ih) fun _ => .pure trivial

end

/-! ## Calls -/

/-- The action is seen in the stored sets only, and every term there is complete again. -/
def TouchesSets (view : ρ → τ) (n : Nat) (x : Act (Packed ρ) α) : Prop :=
  ∀ s host, s.Even n →
    let t := (x s host).2.1
    t.Even n ∧ t.map view = { s.map view with sets := t.sets, issued := t.issued }

section

variable {view : ρ → τ} {n : Nat} {x : Act (Packed ρ) α}

theorem Frames.touchesSets {Q : α → Prop} (h : Frames view n x Q) : TouchesSets view n x := by
  intro s host hs t
  have hsame : t.map view = s.map view := (h s host hs).1
  refine ⟨hs.congr hsame, ?_⟩
  change t.map view = { s.map view with sets := (t.map view).sets, issued := (t.map view).issued }
  rw [hsame]

theorem TouchesSets.bind {f : α → Act (Packed ρ) β} (hx : TouchesSets view n x)
    (hf : ∀ a, TouchesSets view n (f a)) : TouchesSets view n (x >>= f) := by
  intro s host hs
  obtain ⟨heven, hsame⟩ := hx s host hs
  rw [bind_apply]
  generalize x s host = r at heven hsame ⊢
  obtain ⟨e | a, t, host'⟩ := r
  · exact ⟨heven, hsame⟩
  · obtain ⟨heven', hsame'⟩ := hf a t host' heven
    exact ⟨heven', hsame'.trans (by rw [hsame])⟩

theorem TouchesSets.get_bind {f : Packed ρ → Act (Packed ρ) α} (h : ∀ s, TouchesSets view n (f s)) :
    TouchesSets view n (get >>= f) :=
  fun s host hs => h s s host hs

/-- What follows may rely on the value. -/
theorem Frames.bind_touchesSets {Q : α → Prop} {f : α → Act (Packed ρ) β} (hx : Frames view n x Q)
    (hf : ∀ a, Q a → TouchesSets view n (f a)) : TouchesSets view n (x >>= f) := by
  intro s host hs
  obtain ⟨hsame, hvalue⟩ := hx s host hs
  obtain ⟨heven', hsame'⟩ := hx.touchesSets s host hs
  rw [bind_apply]
  generalize x s host = r at hsame hvalue heven' hsame' ⊢
  obtain ⟨e | a, t, host'⟩ := r
  · exact ⟨heven', hsame'⟩
  · obtain ⟨heven'', hsame''⟩ := hf a (hvalue a rfl) t host' heven'
    exact ⟨heven'', hsame''.trans (by rw [hsame])⟩

theorem touchesSets_store {terms : List Term} (hterms : Complete n terms) :
    TouchesSets view n (store (ρ := ρ) terms) := by
  refine fun s host hs => ⟨⟨hs.packs, ?_⟩, rfl⟩
  exact List.forall_mem_cons.mpr ⟨hterms, fun entry hmem => hs.terms entry (List.mem_of_mem_filter hmem)⟩

theorem touchesSets_erase (set : SetId) : TouchesSets view n
    (Action.modify fun s : Packed ρ => { s with sets := s.sets.erase set } : Act (Packed ρ) Unit) :=
  fun _ _ hs => ⟨⟨hs.packs, fun entry hmem => hs.terms entry (List.mem_of_mem_filter hmem)⟩, rfl⟩

end

section

variable {inner : Operations ρ} {view : ρ → τ} {n : Nat} (h : Spares inner view)

include h

theorem touchesSets_varEqVar (a b : PackedVar) : TouchesSets view n (varEqVar inner a b) := by
  unfold varEqVar
  split
  · have hcomponent := frames_ask (n := n) h (.varEqVar a.inner b.inner) a.pack (by decide)
    refine hcomponent.bind_touchesSets fun component _ => ?_
    exact (frames_termWith h a.pack component).bind_touchesSets fun _ hterm =>
      touchesSets_store (complete_cons_iff.mpr ⟨hterm, complete_nil⟩)
  split
  · exact (Frames.fail (Q := fun _ => True) _).touchesSets
  split
  · exact (Frames.get_bind (Q := fun _ => True) fun _ _ => .fail _).touchesSets
  · exact (Frames.mapM fun value _ => frames_crossTerm h a b (UInt64.ofNat value)).bind_touchesSets
      fun _ ⟨_, hterms⟩ => touchesSets_store hterms

/-- A call other than a declaration. -/
theorem touchesSets_step {k : Answer} (hk : k ≠ .var) (call : Call k) :
    TouchesSets view n (step inner call) := by
  cases call with
  | declare name bits => exact absurd rfl hk
  | top =>
    exact (frames_topTerm h).bind_touchesSets fun _ hterm =>
      touchesSets_store (complete_cons_iff.mpr ⟨hterm, complete_nil⟩)
  | bottom => exact touchesSets_store complete_nil
  | varEqConst var value =>
    refine (frames_findVar var).bind_touchesSets fun var _ => ?_
    have hcomponent := frames_ask (n := n) h (.varEqConst var.inner value) var.pack (by decide)
    exact hcomponent.bind_touchesSets fun component _ =>
      (frames_termWith h var.pack component).bind_touchesSets fun _ hterm =>
        touchesSets_store (complete_cons_iff.mpr ⟨hterm, complete_nil⟩)
  | varEqVar a b =>
    exact (frames_findVar a).bind_touchesSets fun a _ => (frames_findVar b).bind_touchesSets fun b _ =>
      touchesSets_varEqVar h a b
  | singleton point =>
    refine .get_bind fun s => ?_
    split
    · exact (Frames.fail (Q := fun _ => True) _).touchesSets
    refine frames_packIndices.bind_touchesSets fun indices hindices => ?_
    refine (Frames.mapM fun pack _ => frames_pointComponent h _ pack).bind_touchesSets
      fun term ⟨hlength, _⟩ => touchesSets_store ?_
    exact complete_cons_iff.mpr ⟨hlength.trans hindices, complete_nil⟩
  | union a b =>
    refine (frames_findTerms a).bind_touchesSets fun left hleft =>
      (frames_findTerms b).bind_touchesSets fun right hright => ?_
    have hterms := complete_append_iff.mpr ⟨hleft, hright⟩
    exact (Frames.mapM fun term hterm => frames_copyTerm h (hterms term hterm)).bind_touchesSets
      fun _ ⟨_, hcopies⟩ => touchesSets_store hcopies
  | intersect a b =>
    exact (frames_findTerms a).bind_touchesSets fun left hleft =>
      (frames_findTerms b).bind_touchesSets fun right hright =>
        (frames_intersectTerms h hleft hright).bind_touchesSets fun _ hterms =>
          touchesSets_store hterms
  | difference a b =>
    exact (frames_findTerms a).bind_touchesSets fun left hleft =>
      (frames_findTerms b).bind_touchesSets fun right _ =>
        (frames_complementTerms h right).bind_touchesSets fun outside houtside =>
          (frames_intersectTerms h hleft houtside).bind_touchesSets fun _ hterms =>
            (frames_releaseTerms h outside).bind_touchesSets fun _ _ => touchesSets_store hterms
  | complement a =>
    exact (frames_findTerms a).bind_touchesSets fun terms _ =>
      (frames_complementTerms h terms).bind_touchesSets fun _ hterms => touchesSets_store hterms
  | «exists» set var =>
    exact (frames_findVar var).bind_touchesSets fun var _ =>
      (frames_findTerms set).bind_touchesSets fun terms hterms =>
        (Frames.mapM fun term hterm => frames_projectTerm h var (hterms term hterm)).bind_touchesSets
          fun _ ⟨_, hprojected⟩ => touchesSets_store hprojected
  | isEmpty set =>
    exact (frames_findTerms set).bind_touchesSets fun terms _ => (frames_allEmpty h terms).touchesSets
  | equal a b =>
    exact ((frames_contained h a b).bind fun _ _ =>
      .ite (fun _ => frames_contained h b a) fun _ => .pure trivial).touchesSets
  | subset a b => exact (frames_contained h a b).touchesSets
  | release set =>
    exact (frames_findTerms set).bind_touchesSets fun terms _ =>
      (touchesSets_erase set).bind fun _ => (frames_releaseTerms h terms).touchesSets

end

end LayeredSets.Packed
