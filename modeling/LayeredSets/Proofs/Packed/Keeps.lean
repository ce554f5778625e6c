import LayeredSets.Layer.Packed
import LayeredSets.Proofs.Action

/-!
# What a pack has lost stays lost

A packed domain changes its packs through their calls only, and never gives one up. So if some pack
has a property that its calls keep, then some pack has it for good.
-/

namespace LayeredSets.Packed

open Action

variable {ρ α β : Type}

/-- Some pack has the property. -/
def AnyPack (J : ρ → Prop) (s : Packed ρ) : Prop := ∃ pack ∈ s.packs, J pack.domain

variable {J : ρ → Prop}

theorem anyPack_set {s : Packed ρ} {index : Nat} {pack : Pack ρ} (hpack : s.packs[index]? = some pack)
    {domain : ρ} (hkept : J pack.domain → J domain) (h : AnyPack J s) :
    AnyPack J { s with packs := s.packs.set index { pack with domain } } := by
  obtain ⟨hlt, hat⟩ := List.getElem?_eq_some_iff.mp hpack
  obtain ⟨other, hother, hJ⟩ := h
  obtain ⟨i, hi, rfl⟩ := List.getElem_of_mem hother
  by_cases hindex : i = index
  · subst hindex
    exact ⟨_, List.mem_set (by simpa using hi) _, hkept (hat ▸ hJ)⟩
  · refine ⟨s.packs[i], ?_, hJ⟩
    rw [List.mem_iff_getElem]
    exact ⟨i, by simpa using hi, by rw [List.getElem_set_ne (Ne.symm hindex)]⟩

instance keeps_inPack {x : Act ρ α} [hx : Keeps (fun d _ => J d) x] (index : Nat) :
    Keeps (fun s _ => AnyPack J s) (inPack index x) := by
  refine ⟨fun s host h => ?_⟩
  rw [inPack]
  split
  · exact h
  · next pack hpack => exact anyPack_set hpack (fun hJ => hx.keeps pack.domain host hJ) h

instance keeps_inEachPack {f : β → Act ρ α} [∀ b, Keeps (fun d _ => J d) (f b)] (items : List β) :
    Keeps (fun s _ => AnyPack J s) (inEachPack items f) := by
  unfold inEachPack
  infer_instance

instance : Keeps (fun s _ => AnyPack J s) (packIndices (ρ := ρ)) := by
  unfold packIndices
  infer_instance

instance (var : VarId) : Keeps (fun s _ => AnyPack J s) (findVar (ρ := ρ) var) := by
  unfold findVar
  infer_instance

instance (set : SetId) : Keeps (fun s _ => AnyPack J s) (findTerms (ρ := ρ) set) := by
  unfold findTerms
  infer_instance

instance (terms : List Term) : Keeps (fun s _ => AnyPack J s) (store (ρ := ρ) terms) :=
  ⟨fun _ _ h => h⟩

/-- Counting one more variable in a pack. -/
instance keeps_held (index : Nat) : Keeps (fun s _ => AnyPack J s) (Action.modify fun s : Packed ρ =>
    { s with packs := s.packs.modify index fun p => { p with held := p.held + 1 } } :
      Act (Packed ρ) Unit) := by
  refine keeps_modify fun s _ ⟨pack, hmem, hJ⟩ => ?_
  obtain ⟨i, hi, rfl⟩ := List.getElem_of_mem hmem
  refine ⟨_, List.getElem_mem (by simpa using hi), ?_⟩
  rw [List.getElem_modify]
  split <;> exact hJ

instance keeps_vars (var : PackedVar) : Keeps (fun s _ => AnyPack J s)
    (Action.modify fun s : Packed ρ => { s with vars := s.vars ++ [var] } :
      Act (Packed ρ) Unit) :=
  keeps_modify fun _ _ h => h

section

variable (inner : Operations ρ)
  [hinner : ∀ (k : Answer) (call : Call k), Keeps (fun d _ => J d) (inner.step call)]

instance : Keeps (fun s _ => AnyPack J s) (topTerm inner) := by
  unfold topTerm
  infer_instance

instance (pack : Nat) (component : SetId) :
    Keeps (fun s _ => AnyPack J s) (termWith inner pack component) := by
  unfold termWith
  infer_instance

instance (term : Term) : Keeps (fun s _ => AnyPack J s) (copyTerm inner term) := by
  unfold copyTerm
  infer_instance

instance (term : Term) : Keeps (fun s _ => AnyPack J s) (releaseTerm inner term) := by
  unfold releaseTerm
  infer_instance

instance (terms : List Term) : Keeps (fun s _ => AnyPack J s) (releaseTerms inner terms) := by
  unfold releaseTerms
  infer_instance

instance keeps_anyEmpty (components : List (SetId × Nat)) :
    Keeps (fun s _ => AnyPack J s) (anyEmpty inner components) := by
  induction components with
  | nil => exact inferInstanceAs (Keeps _ (pure false : Act (Packed ρ) Bool))
  | cons component rest ih =>
    unfold anyEmpty
    infer_instance

instance (term : Term) : Keeps (fun s _ => AnyPack J s) (termIsEmpty inner term) := by
  unfold termIsEmpty
  infer_instance

instance keeps_products (pairs : List (Term × Term)) :
    Keeps (fun s _ => AnyPack J s) (products inner pairs) := by
  induction pairs with
  | nil => exact inferInstanceAs (Keeps _ (pure [] : Act (Packed ρ) (List Term)))
  | cons pair rest ih =>
    unfold products
    infer_instance

instance (a b : List Term) : Keeps (fun s _ => AnyPack J s) (intersectTerms inner a b) := by
  unfold intersectTerms
  infer_instance

instance (term : Term) : Keeps (fun s _ => AnyPack J s) (outsideTerm inner term) := by
  unfold outsideTerm
  infer_instance

instance (result : List Term) (term : Term) :
    Keeps (fun s _ => AnyPack J s) (cutOut inner result term) := by
  unfold cutOut
  infer_instance

instance (terms : List Term) : Keeps (fun s _ => AnyPack J s) (complementTerms inner terms) := by
  unfold complementTerms
  infer_instance

instance (a b : SetId) : Keeps (fun s _ => AnyPack J s) (contained inner a b) := by
  unfold contained
  infer_instance

instance (name : String) (bits : UInt32) :
    Keeps (fun s _ => AnyPack J s) (declareInLastPack inner name bits) := by
  unfold declareInLastPack
  infer_instance

/-- A pack is added if its variable and its components could be made, and else there is none. -/
instance keeps_declareInNewPack (name : String) (bits : UInt32) :
    Keeps (fun s _ => AnyPack J s) (declareInNewPack inner name bits) := by
  refine ⟨fun s host h => ?_⟩
  rw [declareInNewPack]
  split
  · exact h
  · split
    · exact h
    · obtain ⟨pack, hmem, hJ⟩ := h
      exact ⟨pack, List.mem_append_left _ hmem, hJ⟩

instance (name : String) (bits : UInt32) :
    Keeps (fun s _ => AnyPack J s) (declare inner name bits) := by
  unfold declare
  infer_instance

/-- Put a component into a term and give up the one in its place. -/
def exchange (pack : Nat) (component : SetId) (term : Term) : Act (Packed ρ) Term := do
  match term[pack]? with
  | some old => inPack pack (inner.step (.release old))
  | none => pure ()
  return term.set pack component

theorem crossTerm_eq (a b : PackedVar) (value : UInt64) : crossTerm inner a b value = (do
    let left ← inPack a.pack (inner.step (.varEqConst a.inner value))
    let right ← inPack b.pack (inner.step (.varEqConst b.inner value))
    exchange inner b.pack right (← termWith inner a.pack left) : Act (Packed ρ) Term) := rfl

instance (pack : Nat) (component : SetId) (term : Term) :
    Keeps (fun s _ => AnyPack J s) (exchange inner pack component term) := by
  simp only [exchange]
  split <;> infer_instance

instance (a b : PackedVar) (value : UInt64) :
    Keeps (fun s _ => AnyPack J s) (crossTerm inner a b value) := by
  rw [crossTerm_eq]
  infer_instance

instance (a b : PackedVar) : Keeps (fun s _ => AnyPack J s) (varEqVar inner a b) := by
  unfold varEqVar
  infer_instance

instance (point : List (PackedVar × UInt64)) (pack : Nat) :
    Keeps (fun s _ => AnyPack J s) (pointComponent inner point pack) := by
  unfold pointComponent
  split <;> infer_instance

instance (var : PackedVar) (term : Term) :
    Keeps (fun s _ => AnyPack J s) (projectTerm inner var term) := by
  unfold projectTerm
  infer_instance

instance keeps_allEmpty (terms : List Term) :
    Keeps (fun s _ => AnyPack J s) (allEmpty inner terms) := by
  induction terms with
  | nil => exact inferInstanceAs (Keeps _ (pure true : Act (Packed ρ) Bool))
  | cons term rest ih =>
    unfold allEmpty
    infer_instance

instance keeps_step {k : Answer} (call : Call k) :
    Keeps (fun s _ => AnyPack J s) (step inner call) := by
  have herase (set : SetId) : Keeps (fun s _ => AnyPack J s)
      (Action.modify fun s : Packed ρ => { s with sets := s.sets.erase set } :
        Act (Packed ρ) Unit) :=
    keeps_modify fun _ _ h => h
  cases call <;> unfold step <;> infer_instance

end

end LayeredSets.Packed
