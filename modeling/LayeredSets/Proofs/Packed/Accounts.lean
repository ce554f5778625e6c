import LayeredSets.Proofs.Packed.Layout

/-!
# Accounts of the sets in packs

A stored set owns the components of its terms. A call that succeeds makes the components of a new
set, gives up those of a released one, or gives every term a component in a new pack, and leaves the
packs with no other sets than before. A call that fails changes nothing but may leave components
behind: those of a point in the packs before the one that refuses it.
-/

namespace LayeredSets.Packed

variable {ρ τ : Type}

/-- The components of terms, each with its pack. -/
def components (terms : List Term) : List (SetId × Nat) := terms.flatMap fun term => term.zipIdx

/-- The components of all stored terms. -/
def holdings (s : Packed ρ) : List (SetId × Nat) :=
  s.sets.entries.flatMap fun entry => components entry.2

/-- Every term has a component in each pack, which is a live set there and belongs to no other
term. -/
structure Owned (ideal : ρ → Ideal) (s : Packed ρ) : Prop where
  sized : ∀ entry ∈ s.sets.entries, ∀ term ∈ entry.2, term.length = s.packs.length
  live : ∀ x ∈ s.holdings, x ∈ live ideal s
  distinct : s.holdings.Nodup

/-- Every term has got components in `n` more packs. -/
def Appends (n : Nat) (sets sets' : Table SetId (List Term)) : Prop :=
  List.Forall₂ (fun entry entry' => entry'.1 = entry.1 ∧ List.Forall₂ (fun term term' =>
    ∃ more : Term, more.length = n ∧ term' = term ++ more) entry.2 entry'.2)
    sets.entries sets'.entries

/-- There may be one more pack, whose sets are the components that the terms have there. -/
def Grows (ideal : ρ → Ideal) (s t : Packed ρ) : Prop :=
  ∃ n ≤ 1, t.packs.length = s.packs.length + n ∧ Appends n s.sets t.sets ∧
    live ideal t = live ideal s ∪ {x | x ∈ t.holdings ∧ s.packs.length ≤ x.2}

/-- What a call that succeeds does to the stored sets and to the sets in the packs. -/
def Accounts (ideal : ρ → Ideal) (s t : Packed ρ) : {k : Answer} → Call k → k.Value → Prop
  | .var, _, _ => Grows ideal s t
  | .set, _, set => ∃ terms, t.sets = s.sets.insert set terms ∧
    (∀ x ∈ components terms, x ∉ live ideal s) ∧
    live ideal t = live ideal s ∪ {x | x ∈ components terms}
  | .bool, _, _ => t.sets = s.sets ∧ live ideal t = live ideal s
  | .unit, .release set, _ => ∃ terms, s.sets.get? set = some terms ∧ t.sets = s.sets.erase set ∧
    {x | x ∈ components terms} ⊆ live ideal s ∧
    live ideal t = live ideal s \ {x | x ∈ components terms}

/-- How many components are left behind if the call fails. A point is given up at the first value
that does not fit its variable, after the packs before that of the variable have made theirs. -/
def stranded (s : Packed ρ) : {k : Answer} → Call k → Nat
  | _, .singleton point =>
    if point.length = s.vars.length then
      ((s.vars.zip point).find? fun x => 2 ^ x.1.bits.toNat ≤ x.2.toNat).elim 0 (·.1.pack)
    else 0
  | _, _ => 0

/-- Nothing has changed but that `n` components have been left behind, one in each of the first
packs. -/
def Leaves (ideal : ρ → Ideal) (s t : Packed ρ) (n : Nat) : Prop :=
  (t.map fun d => (ideal d).widths) = (s.map fun d => (ideal d).widths) ∧
    ∃ lost : Term, lost.length = n ∧ (∀ x ∈ lost.zipIdx, x ∉ live ideal s) ∧
      live ideal t = live ideal s ∪ {x | x ∈ lost.zipIdx}

/-- What a call leaves behind, whether it succeeds or fails. -/
def Settles (ideal : ρ → Ideal) (s : Packed ρ) {k : Answer} (call : Call k) :
    Except DomainError k.Value → Packed ρ → Prop
  | .ok value, t => Accounts ideal s t call value
  | .error _, t => Leaves ideal s t (s.stranded call)

theorem lt_of_live {ideal : ρ → Ideal} {s : Packed ρ} {x : SetId × Nat} (h : x ∈ live ideal s) :
    x.2 < s.packs.length := by
  obtain ⟨pack, hpack, -⟩ := h
  exact (List.getElem?_eq_some_iff.mp hpack).1

theorem appends_zero (sets : Table SetId (List Term)) : Appends 0 sets sets :=
  List.forall₂_same.mpr fun _ _ =>
    ⟨rfl, List.forall₂_same.mpr fun term _ => ⟨[], rfl, (List.append_nil term).symm⟩⟩

theorem mem_zipIdx_append (term more : Term) (x : SetId × Nat) :
    x ∈ term.zipIdx ↔ x ∈ (term ++ more).zipIdx ∧ x.2 < term.length := by
  obtain ⟨set, index⟩ := x
  simp only [List.mem_zipIdx_iff_getElem?]
  constructor
  · intro h
    have hlt := (List.getElem?_eq_some_iff.mp h).1
    exact ⟨(List.getElem?_append_left hlt).trans h, hlt⟩
  · rintro ⟨h, hlt⟩
    rwa [List.getElem?_append_left hlt] at h

/-- The components that terms had before they got more are those in the old packs. -/
theorem mem_holdings_of_appends {s t : Packed ρ} {n : Nat} (h : Appends n s.sets t.sets)
    (hsized : ∀ entry ∈ s.sets.entries, ∀ term ∈ entry.2, term.length = s.packs.length)
    (x : SetId × Nat) : x ∈ s.holdings ↔ x ∈ t.holdings ∧ x.2 < s.packs.length := by
  have hterms {terms terms' : List Term} (hterms : List.Forall₂ (fun term term' =>
      ∃ more : Term, more.length = n ∧ term' = term ++ more) terms terms')
      (hlengths : ∀ term ∈ terms, term.length = s.packs.length) :
      x ∈ components terms ↔ x ∈ components terms' ∧ x.2 < s.packs.length := by
    induction hterms with
    | nil => simp [components]
    | cons hterm _ ih =>
      obtain ⟨more, -, rfl⟩ := hterm
      rw [List.forall_mem_cons] at hlengths
      simp only [components, List.flatMap_cons, List.mem_append] at ih ⊢
      rw [ih hlengths.2, mem_zipIdx_append _ more, hlengths.1]
      tauto
  simp only [holdings]
  unfold Appends at h
  generalize s.sets.entries = entries at h hsized
  generalize t.sets.entries = entries' at h
  induction h with
  | nil => simp
  | cons hentry _ ih =>
    rw [List.forall_mem_cons] at hsized
    have hfirst := hterms hentry.2 hsized.1
    have hrest := ih hsized.2
    simp only [List.flatMap_cons, List.mem_append]
    tauto

/-- No pack is added, and no set. -/
theorem grows_of_same {ideal : ρ → Ideal} {s t : Packed ρ} (ht : Owned ideal t)
    (hpacks : t.packs.length = s.packs.length) (hsets : t.sets = s.sets)
    (hlive : live ideal t = live ideal s) : Grows ideal s t := by
  refine ⟨0, Nat.zero_le 1, hpacks, hsets ▸ appends_zero s.sets, ?_⟩
  have hnone : {x | x ∈ t.holdings ∧ s.packs.length ≤ x.2} = ∅ :=
    Set.eq_empty_of_forall_notMem fun x hx =>
      absurd (lt_of_live (ht.live x hx.1)) (not_lt.mpr (hpacks ▸ hx.2))
  rw [hnone, Set.union_empty, hlive]

/-! ## Maps of the packs -/

section

variable (f : ρ → τ) (ideal : τ → Ideal) (s t : Packed ρ)

theorem live_map : live ideal (s.map f) = live (fun d => ideal (f d)) s := by
  ext x
  simp [live, map, Pack.map]

theorem owned_map : Owned ideal (s.map f) ↔ Owned (fun d => ideal (f d)) s := by
  have hlength : (s.map f).packs.length = s.packs.length := by simp [map]
  constructor
  · rintro ⟨hsized, hlive, hdistinct⟩
    exact ⟨hlength ▸ hsized, live_map f ideal s ▸ hlive, hdistinct⟩
  · rintro ⟨hsized, hlive, hdistinct⟩
    exact ⟨hlength ▸ hsized, live_map f ideal s ▸ hlive, hdistinct⟩

theorem map_map {υ : Type} (g : τ → υ) : (s.map f).map g = s.map fun d => g (f d) := by
  have hblank : (s.blank.map f).map g = s.blank.map fun d => g (f d) := by
    cases s.blank <;> rfl
  simp only [map, List.map_map, hblank]
  rfl

theorem settles_map {k : Answer} (call : Call k) (outcome : Except DomainError k.Value) :
    Settles ideal (s.map f) call outcome (t.map f) ↔
      Settles (fun d => ideal (f d)) s call outcome t := by
  have hlength (u : Packed ρ) : (u.map f).packs.length = u.packs.length := by simp [map]
  have hsets (u : Packed ρ) : (u.map f).sets = u.sets := rfl
  have hholdings (u : Packed ρ) : (u.map f).holdings = u.holdings := rfl
  cases outcome with
  | error e =>
    have hstranded : (s.map f).stranded call = s.stranded call := by cases call <;> rfl
    simp only [Settles, Leaves, live_map, map_map, hstranded]
  | ok value =>
    cases k with
    | unit =>
      cases call
      simp only [Settles, Accounts, live_map, hsets]
    | _ => simp only [Settles, Accounts, Grows, live_map, hsets, hlength, hholdings]

end

/-! ## Handles of cells -/

theorem handles_cells (piece : Piece) :
    piece.cells.map Cell.handle = (piece.term.zipIdx : Multiset (SetId × Nat)) := by
  simp [Piece.cells, cellsFrom, Cell.handle, Function.comp_def]

theorem handles_cellsOf (pieces : List Piece) :
    (cellsOf pieces).map Cell.handle = components (pieces.map (·.term)) := by
  induction pieces with
  | nil => rfl
  | cons piece pieces ih =>
    rw [cellsOf_cons, Multiset.map_add, ih, handles_cells, Multiset.coe_add]
    rfl

section

variable {inner : Operations ρ} {I : Meaning inner} {o o' : Packed (List UInt32)}
  {cells given : Multiset Cell} {s t : Packed ρ}

/-- More cells are more live sets, all of them new. -/
theorem Owns.live_add (hs : Owns I o cells s) (ht : Owns I o' (given + cells) t) :
    (∀ x ∈ given.map Cell.handle, x ∉ live I.ideal s) ∧
      live I.ideal t = live I.ideal s ∪ {x | x ∈ given.map Cell.handle} := by
  have hdistinct := ht.distinct
  rw [Multiset.map_add, Multiset.nodup_add] at hdistinct
  refine ⟨?_, ?_⟩
  · intro x hgiven
    rw [hs.live_eq]
    exact fun hx => Multiset.disjoint_left.mp hdistinct.2.2 hgiven hx
  · rw [ht.live_eq, hs.live_eq, Multiset.map_add]
    ext x
    simp only [Multiset.mem_add, Set.mem_ofPred_eq, Set.mem_union, or_comm]

theorem Owns.live_same (hs : Owns I o cells s) (ht : Owns I o' cells t) :
    live I.ideal t = live I.ideal s := by
  rw [ht.live_eq, hs.live_eq]

/-- Nothing has been left behind where the same cells are held. -/
theorem Owns.leaves (hs : Owns I o cells s) (ht : Owns I o cells t) : Leaves I.ideal s t 0 :=
  ⟨ht.outline.trans hs.outline.symm, [], rfl, by simp, by simp [hs.live_same ht]⟩

end

/-- An error before anything has been done. -/
theorem settles_error {ideal : ρ → Ideal} {s : Packed ρ} {k : Answer} {call : Call k}
    (h : s.stranded call = 0) (e : DomainError) : Settles ideal s call (.error e) s := by
  simp only [Settles, h]
  exact ⟨rfl, [], rfl, by simp, by simp⟩

end LayeredSets.Packed
