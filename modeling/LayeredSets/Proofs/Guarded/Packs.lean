import LayeredSets.Proofs.Guarded.Basic
import LayeredSets.Proofs.Packed.Filling

/-!
# Packed domains with their guards

A packed domain looks into its packs and into its terms at positions, shifts by the width of a
variable and counts packs, variables and sets. While every stored term has one component for each
pack and every variable lives in one of the packs, all these positions are there: terms that are
made on the way are as long as the stored ones.
-/

namespace LayeredSets.Packed

open Action (get fail modify ofExcept bind_apply bind_apply_ok bind_apply_error)
open Guarded

variable {ρ τ α β : Type}

/-! ## Calls -/

/-- Run an action in the pack at `index`. -/
def guardedInPack (index : Nat) (x : Act ρ α) : Action Halt (Packed ρ) α := do
  let s ← get
  let _ ← ofExcept (Guard.item s.packs index)
  plain (inPack index x)

def guardedStore (terms : List Term) : Action Halt (Packed ρ) SetId := do
  let s ← get
  let _ ← ofExcept (Guard.add s.issued 1)
  plain (store terms)

section

variable (inner : Operations ρ)

def guardedDescribe (s : Packed ρ) : Except Halt String := do
  let first ← Guard.item s.packs 0
  return "pack(" ++ inner.describe first.domain ++ ")"

def guardedOutsideTerm (term : Term) : Action Halt (Packed ρ) (List Term) :=
  term.zipIdx.mapM fun (component, pack) => do
    let flipped ← guardedInPack pack (inner.step (.complement component))
    plain (termWith inner pack flipped)

def guardedCutOut (result : List Term) (term : Term) : Action Halt (Packed ρ) (List Term) := do
  let outside ← guardedOutsideTerm inner term
  let next ← plain (intersectTerms inner result outside)
  plain (releaseTerms inner result)
  plain (releaseTerms inner outside)
  return next

def guardedComplementTerms (terms : List Term) : Action Halt (Packed ρ) (List Term) := do
  let everything ← plain (topTerm inner)
  terms.foldlM (guardedCutOut inner) [everything]

def guardedContained (a b : SetId) : Action Halt (Packed ρ) Bool := do
  let left ← plain (findTerms a)
  let right ← plain (findTerms b)
  let outside ← guardedComplementTerms inner right
  let rest ← plain (intersectTerms inner left outside)
  plain (releaseTerms inner outside)
  plain (releaseTerms inner rest)
  return rest.isEmpty

/-- Replace the component of a term in one pack. -/
def guardedExchange (pack : Nat) (component : SetId) (term : Term) :
    Action Halt (Packed ρ) Term := do
  let old ← ofExcept (Guard.item term pack)
  guardedInPack pack (inner.step (.release old))
  return term.set pack component

def guardedCrossTerm (a b : PackedVar) (value : UInt64) : Action Halt (Packed ρ) Term := do
  let left ← guardedInPack a.pack (inner.step (.varEqConst a.inner value))
  let right ← guardedInPack b.pack (inner.step (.varEqConst b.inner value))
  let term ← plain (termWith inner a.pack left)
  guardedExchange inner b.pack right term

def guardedVarEqVar (a b : PackedVar) : Action Halt (Packed ρ) SetId :=
  if a.pack = b.pack then do
    let component ← guardedInPack a.pack (inner.step (.varEqVar a.inner b.inner))
    let term ← plain (termWith inner a.pack component)
    guardedStore [term]
  else if a.bits != b.bits then fail (.error (.widthMismatch a.bits b.bits))
  else if maxCrossBits < a.bits then do
    let s ← get
    let domain ← ofExcept (guardedDescribe inner s)
    fail (.error (.unsupported "var_eq_var" domain))
  else do
    ofExcept (Guard.shift a.bits)
    let terms ← (List.range (1 <<< a.bits.toNat)).mapM fun value =>
      guardedCrossTerm inner a b (UInt64.ofNat value)
    guardedStore terms

def guardedPointComponent (point : List (PackedVar × UInt64)) (pack : Nat) :
    Action Halt (Packed ρ) SetId :=
  match (point.filter (·.1.pack = pack)).map (·.2) with
  | [] => guardedInPack pack (inner.step .top)
  | values => guardedInPack pack (inner.step (.singleton values))

def guardedProjectTerm (var : PackedVar) (term : Term) : Action Halt (Packed ρ) Term :=
  term.zipIdx.mapM fun (component, pack) =>
    guardedInPack pack (inner.step
      (if pack = var.pack then .exists component var.inner else .union component component))

/-- Open one more pack for a variable that is not counted yet. -/
def addPack (name : String) (bits : UInt32) : Act (Packed ρ) VarId := fun s host =>
  match s.blank with
  | .error e => (.error e, s, host)
  | .ok domain =>
    match openPack inner name bits s.sets domain host with
    | (.error e, domain, host) => (.error e, s, inner.dispose domain host)
    | (.ok (var, sets), domain, host) =>
      (.ok var, { s with packs := s.packs ++ [⟨domain, 0⟩], sets }, host)

/-- Count one more variable in a pack. -/
def guardedCount (index : Nat) : Action Halt (Packed ρ) Unit := do
  let s ← get
  let pack ← ofExcept (Guard.item s.packs index)
  let held ← ofExcept (Guard.succ pack.held)
  modify fun s => { s with packs := s.packs.set index { pack with held } }

/-- The pack of a new variable, and the handle of the variable there. -/
def guardedPlace (name : String) (bits : UInt32) : Action Halt (Packed ρ) (Nat × VarId) := do
  let s ← get
  let last ← ofExcept (Guard.pred s.packs.length)
  let pack ← ofExcept (Guard.item s.packs last)
  if pack.held < s.capacity then do
    let var ← guardedInPack last (inner.step (.declare name bits))
    return (last, var)
  else do
    let var ← plain (addPack inner name bits)
    let next ← ofExcept (Guard.succ last)
    return (next, var)

def guardedTake (name : String) (bits : UInt32) : Action Halt (Packed ρ) PackedVar := do
  let (pack, var) ← guardedPlace inner name bits
  guardedCount pack
  return ⟨pack, var, bits⟩

def guardedDeclare (name : String) (bits : UInt32) : Action Halt (Packed ρ) VarId := do
  let var ← guardedTake inner name bits
  modify fun s => { s with vars := s.vars ++ [var] }
  let s ← get
  let index ← ofExcept (Guard.sub (UInt32.ofNat s.vars.length) 1)
  return ⟨index⟩

def guardedStep : {k : Answer} → Call k → Action Halt (Packed ρ) k.Value
  | _, .declare name bits => guardedDeclare inner name bits
  | _, .top => do guardedStore [← plain (topTerm inner)]
  | _, .bottom => guardedStore []
  | _, .varEqConst var value => do
    let var ← plain (findVar var)
    let component ← guardedInPack var.pack (inner.step (.varEqConst var.inner value))
    guardedStore [← plain (termWith inner var.pack component)]
  | _, .varEqVar a b => do
    guardedVarEqVar inner (← plain (findVar a)) (← plain (findVar b))
  | _, .singleton point => do
    let s ← get
    if point.length != s.vars.length then
      fail (.error (.arityMismatch s.vars.length point.length))
    else
      let term ← (← plain packIndices).mapM (guardedPointComponent inner (s.vars.zip point))
      guardedStore [term]
  | _, .union a b => do
    let left ← plain (findTerms a)
    let right ← plain (findTerms b)
    guardedStore (← plain ((left ++ right).mapM (copyTerm inner)))
  | _, .intersect a b => do
    let left ← plain (findTerms a)
    let right ← plain (findTerms b)
    guardedStore (← plain (intersectTerms inner left right))
  | _, .difference a b => do
    let left ← plain (findTerms a)
    let right ← plain (findTerms b)
    let outside ← guardedComplementTerms inner right
    let terms ← plain (intersectTerms inner left outside)
    plain (releaseTerms inner outside)
    guardedStore terms
  | _, .complement a => do
    guardedStore (← guardedComplementTerms inner (← plain (findTerms a)))
  | _, .exists set var => do
    let var ← plain (findVar var)
    guardedStore (← (← plain (findTerms set)).mapM (guardedProjectTerm inner var))
  | _, .isEmpty set => do plain (allEmpty inner (← plain (findTerms set)))
  | _, .equal a b => do
    if ← guardedContained inner a b then guardedContained inner b a else return false
  | _, .subset a b => guardedContained inner a b
  | _, .release set => do
    let terms ← plain (findTerms set)
    modify fun s => { s with sets := s.sets.erase set }
    plain (releaseTerms inner terms)

end

/-! ## What the guards let pass -/

/-- Every stored term has one component for each of `n` packs, and every variable lives in one. -/
structure Steady (n : Nat) (s : Packed ρ) : Prop extends Even n s where
  pos : 0 < n
  vars : ∀ var ∈ s.vars, var.pack < n

theorem Steady.congr {n : Nat} {view : ρ → τ} {s t : Packed ρ} (h : Steady n s)
    (hsame : t.map view = s.map view) : Steady n t where
  toEven := h.toEven.congr hsame
  pos := h.pos
  vars := by
    have hvars : t.vars = s.vars := congrArg (·.vars) hsame
    exact hvars ▸ h.vars

/-- The guards of an action stop nothing. -/
def Passes (n : Nat) (g : Action Halt (Packed ρ) α) (x : Act (Packed ρ) α) : Prop :=
  ∀ s host, Steady n s → g s host = plain x s host

/-- An action keeps a set at last. Its guards stop nothing as long as there is a handle for it. -/
def Stores (n : Nat) (g : Action Halt (Packed ρ) SetId) (x : Act (Packed ρ) SetId) : Prop :=
  ∀ s host, Steady n s →
    ((∀ set, (x s host).1 = .ok set → s.issued.toNat + 1 < 2 ^ 32) → g s host = plain x s host) ∧
    match (x s host).1 with
    | .ok _ => (x s host).2.1.issued = s.issued + 1
    | .error _ => (x s host).2.1.issued = s.issued

section

variable {view : ρ → τ} {n : Nat} {g : Action Halt (Packed ρ) α} {x : Act (Packed ρ) α}
  {Q : α → Prop}

namespace Passes

protected theorem plain (x : Act (Packed ρ) α) : Passes n (plain x) x := fun _ _ _ => rfl

protected theorem pure (a : α) : Passes n (pure a) (pure a : Act (Packed ρ) α) := fun _ _ _ => rfl

protected theorem bind (hg : Passes n g x) (hx : Frames view n x Q)
    {g' : α → Action Halt (Packed ρ) β} {f : α → Act (Packed ρ) β}
    (hf : ∀ a, Q a → Passes n (g' a) (f a)) : Passes n (g >>= g') (x >>= f) := by
  intro s host hs
  obtain ⟨hsame, hvalue⟩ := hx s host hs.toEven
  rw [plain_bind, bind_apply, bind_apply, hg s host hs, plain_apply]
  generalize x s host = r at hsame hvalue ⊢
  obtain ⟨e | a, t, host'⟩ := r
  · rfl
  · exact hf a (hvalue a rfl) t host' (hs.congr hsame)

theorem get_bind {g : Packed ρ → Action Halt (Packed ρ) α} {x : Packed ρ → Act (Packed ρ) α}
    (h : ∀ s, Steady n s → Passes n (g s) (x s)) : Passes n (get >>= g) (get >>= x) :=
  fun s host hs => h s hs s host hs

theorem ite {p : Prop} [Decidable p] {g' : Action Halt (Packed ρ) α} {x' : Act (Packed ρ) α}
    (h : Passes n g x) (h' : Passes n g' x') :
    Passes n (if p then g else g') (if p then x else x') := by
  split
  · exact h
  · exact h'

protected theorem mapM {g : β → Action Halt (Packed ρ) α} {f : β → Act (Packed ρ) α}
    {items : List β} (hg : ∀ b ∈ items, Passes n (g b) (f b)) (hf : ∀ b ∈ items, Frames view n (f b) Q) :
    Passes n (items.mapM g) (items.mapM f) := by
  induction items with
  | nil =>
    rw [List.mapM_nil, List.mapM_nil]
    exact .pure []
  | cons b items ih =>
    rw [List.forall_mem_cons] at hg hf
    rw [List.mapM_cons, List.mapM_cons]
    exact hg.1.bind hf.1 fun _ _ => (ih hg.2 hf.2).bind (.mapM hf.2) fun _ _ => .pure _

protected theorem foldlM {g : α → β → Action Halt (Packed ρ) α} {f : α → β → Act (Packed ρ) α}
    {items : List β} {a : α} (ha : Q a)
    (hg : ∀ a, ∀ b ∈ items, Q a → Passes n (g a b) (f a b))
    (hf : ∀ a b, Q a → Frames view n (f a b) Q) :
    Passes n (items.foldlM g a) (items.foldlM f a) := by
  induction items generalizing a with
  | nil =>
    rw [List.foldlM_nil, List.foldlM_nil]
    exact .pure a
  | cons b items ih =>
    rw [List.foldlM_cons, List.foldlM_cons]
    refine (hg a b List.mem_cons_self ha).bind (hf a b ha) fun a' ha' => ?_
    exact ih ha' fun a c hc => hg a c (List.mem_cons_of_mem _ hc)

end Passes

namespace Stores

theorem bind {g' : α → Action Halt (Packed ρ) SetId} {f : α → Act (Packed ρ) SetId}
    (hg : Passes n g x) (hx : Frames view n x Q) (hf : ∀ a, Q a → Stores n (g' a) (f a)) :
    Stores n (g >>= g') (x >>= f) := by
  intro s host hs
  obtain ⟨hsame, hvalue⟩ := hx s host hs.toEven
  rw [plain_bind, bind_apply, bind_apply, bind_apply, hg s host hs, plain_apply]
  generalize x s host = r at hsame hvalue ⊢
  obtain ⟨e | a, t, host'⟩ := r
  · exact ⟨fun _ => rfl, congrArg (·.issued) hsame⟩
  · have hissued : t.issued = s.issued := congrArg (·.issued) hsame
    have hstores := hf a (hvalue a rfl) t host' (hs.congr hsame)
    rw [hissued] at hstores
    exact hstores

theorem get_bind {g : Packed ρ → Action Halt (Packed ρ) SetId}
    {x : Packed ρ → Act (Packed ρ) SetId} (h : ∀ s, Steady n s → Stores n (g s) (x s)) :
    Stores n (get >>= g) (get >>= x) :=
  fun s host hs => h s hs s host hs

protected theorem fail (e : DomainError) :
    Stores n (fail (.error e)) (fail e : Act (Packed ρ) SetId) :=
  fun _ _ _ => ⟨fun _ => rfl, rfl⟩

theorem ite {p : Prop} [Decidable p] {g g' : Action Halt (Packed ρ) SetId}
    {x x' : Act (Packed ρ) SetId} (h : p → Stores n g x) (h' : ¬p → Stores n g' x') :
    Stores n (if p then g else g') (if p then x else x') := by
  split
  · next hp => exact h hp
  · next hp => exact h' hp

end Stores

theorem stores_store (terms : List Term) :
    Stores n (guardedStore terms) (store (ρ := ρ) terms) := by
  refine fun s host _ => ⟨fun hroom => ?_, rfl⟩
  change (ofExcept (Guard.add s.issued 1) >>= _) s host = _
  rw [guard_bind (Guard.add_eq (hroom _ rfl))]

end

/-! ## Terms -/

section

variable {inner : Operations ρ} {view : ρ → τ} {n : Nat}

theorem guardedInPack_apply {index : Nat} {s : Packed ρ} (hindex : index < s.packs.length)
    (x : Act ρ α) (host : Host) :
    guardedInPack index x s host = plain (inPack index x) s host := by
  change (ofExcept (Guard.item s.packs index) >>= _) s host = _
  rw [guard_bind (Guard.item_eq hindex)]

theorem passes_inPack {index : Nat} (hindex : index < n) (x : Act ρ α) :
    Passes n (guardedInPack index x) (inPack index x) :=
  fun _ host hs => guardedInPack_apply (hs.packs.symm ▸ hindex) x host

theorem passes_pointComponent (inner : Operations ρ) (point : List (PackedVar × UInt64))
    {pack : Nat} (hpack : pack < n) :
    Passes n (guardedPointComponent inner point pack) (pointComponent inner point pack) := by
  unfold guardedPointComponent pointComponent
  generalize (point.filter (·.1.pack = pack)).map (·.2) = values
  cases values <;> exact passes_inPack hpack _

theorem guardedDescribe_eq (inner : Operations ρ) {s : Packed ρ} (hs : Steady n s) :
    guardedDescribe inner s = .ok (s.describe inner) := by
  have hlt : 0 < s.packs.length := hs.packs.symm ▸ hs.pos
  rw [guardedDescribe, Guard.item_eq hlt, describe, List.head?_eq_getElem?,
    List.getElem?_eq_getElem hlt]
  rfl

theorem Stores.findVar_bind {var : VarId} {g : PackedVar → Action Halt (Packed ρ) SetId}
    {x : PackedVar → Act (Packed ρ) SetId} (h : ∀ v, v.pack < n → Stores n (g v) (x v)) :
    Stores n (plain (findVar var) >>= g) (findVar var >>= x) := by
  intro s host hs
  cases hv : s.vars[var.index.toNat]? with
  | none =>
    have hfind : findVar var s host = (.error (.unknownVariable var), s, host) := by
      change Action.require s.vars[var.index.toNat]? _ s host = _
      rw [hv]
      rfl
    rw [plain_bind, bind_apply, bind_apply, bind_apply, plain_apply, hfind]
    exact ⟨fun _ => rfl, rfl⟩
  | some v =>
    have hfind : findVar var s host = (.ok v, s, host) := by
      change Action.require s.vars[var.index.toNat]? _ s host = _
      rw [hv]
      rfl
    rw [plain_bind, bind_apply, bind_apply, bind_apply, plain_apply, hfind]
    exact h v (hs.vars v (List.mem_of_getElem? hv)) s host hs

theorem Passes.findTerms_bind (set : SetId) {g : List Term → Action Halt (Packed ρ) α}
    {f : List Term → Act (Packed ρ) α}
    (hf : ∀ terms, Complete n terms → Passes n (g terms) (f terms)) :
    Passes n (plain (findTerms set) >>= g) (findTerms set >>= f) :=
  (Passes.plain _).bind (frames_findTerms set : Frames id n _ _) hf

theorem Stores.findTerms_bind (set : SetId) {g : List Term → Action Halt (Packed ρ) SetId}
    {f : List Term → Act (Packed ρ) SetId}
    (hf : ∀ terms, Complete n terms → Stores n (g terms) (f terms)) :
    Stores n (plain (findTerms set) >>= g) (findTerms set >>= f) :=
  .bind (.plain _) (frames_findTerms set : Frames id n _ _) hf

variable (h : Spares inner view)

include h

theorem passes_outsideTerm {term : Term} (hterm : term.length = n) :
    Passes n (guardedOutsideTerm inner term) (outsideTerm inner term) :=
  .mapM (fun x hx => (passes_inPack (lt_of_mem_zipIdx hterm hx) _).bind
      (frames_ask h (.complement x.1) x.2 (by decide)) fun _ _ => .plain _)
    fun x _ => (frames_ask h (.complement x.1) x.2 (by decide)).bind fun flipped _ =>
      frames_termWith h x.2 flipped

theorem passes_cutOut {result : List Term} (hresult : Complete n result) {term : Term}
    (hterm : term.length = n) :
    Passes n (guardedCutOut inner result term) (cutOut inner result term) :=
  (passes_outsideTerm h hterm).bind (frames_outsideTerm h term) fun outside houtside =>
    (Passes.plain _).bind (frames_intersectTerms h hresult houtside) fun _ _ =>
      (Passes.plain _).bind (frames_releaseTerms h result) fun _ _ =>
        (Passes.plain _).bind (frames_releaseTerms h outside) fun _ _ => .pure _

theorem passes_complementTerms {terms : List Term} (hterms : Complete n terms) :
    Passes n (guardedComplementTerms inner terms) (complementTerms inner terms) :=
  (Passes.plain _).bind (frames_topTerm h) fun _ htop =>
    .foldlM (complete_cons_iff.mpr ⟨htop, complete_nil⟩)
      (fun _ term hterm hresult => passes_cutOut h hresult (hterms term hterm))
      fun _ term hresult => frames_cutOut h hresult term

theorem passes_contained (a b : SetId) :
    Passes n (guardedContained inner a b) (contained inner a b) :=
  .findTerms_bind a fun _ hleft =>
    .findTerms_bind b fun right hright =>
      (passes_complementTerms h hright).bind (frames_complementTerms h right)
        fun outside houtside => (Passes.plain _).bind (frames_intersectTerms h hleft houtside) fun rest _ =>
          (Passes.plain _).bind (frames_releaseTerms h outside) fun _ _ =>
            (Passes.plain _).bind (frames_releaseTerms h rest) fun _ _ => .pure _

theorem passes_exchange {pack : Nat} (hpack : pack < n) (component : SetId) {term : Term}
    (hterm : term.length = n) :
    Passes n (guardedExchange inner pack component term) (exchange inner pack component term) := by
  have hlt : pack < term.length := hterm.symm ▸ hpack
  rw [guardedExchange, guard_bind (Guard.item_eq hlt)]
  simp only [exchange, List.getElem?_eq_getElem hlt]
  exact (passes_inPack hpack _).bind (frames_ask h _ pack (by decide))
    fun _ _ => .pure _

theorem passes_crossTerm {a b : PackedVar} (ha : a.pack < n) (hb : b.pack < n) (value : UInt64) :
    Passes n (guardedCrossTerm inner a b value) (crossTerm inner a b value) := by
  rw [crossTerm_eq]
  exact (passes_inPack ha _).bind (frames_ask h _ a.pack (by decide)) fun left _ =>
    (passes_inPack hb _).bind (frames_ask h _ b.pack (by decide)) fun right _ =>
      (Passes.plain _).bind (frames_termWith h a.pack left) fun _ hterm =>
        passes_exchange h hb right hterm

theorem passes_projectTerm (var : PackedVar) {term : Term} (hterm : term.length = n) :
    Passes n (guardedProjectTerm inner var term) (projectTerm inner var term) :=
  .mapM (fun _ hx => passes_inPack (lt_of_mem_zipIdx hterm hx) _) fun x _ =>
    frames_ask h (if x.2 = var.pack then .exists x.1 var.inner else
      .union x.1 x.1) x.2 (by decide)

/-! ## Calls that make a set -/

theorem stores_varEqVar {a b : PackedVar} (ha : a.pack < n) (hb : b.pack < n) :
    Stores n (guardedVarEqVar inner a b) (varEqVar inner a b) := by
  unfold guardedVarEqVar varEqVar
  refine .ite (fun _ => ?_) fun _ => .ite (fun _ => .fail _) fun _ =>
    .ite (fun _ => ?_) fun hnarrow => ?_
  · exact .bind (passes_inPack ha _) (frames_ask h _ a.pack (by decide)) fun component _ =>
      .bind (.plain _) (frames_termWith h a.pack component) fun _ _ => stores_store _
  · refine .get_bind fun s hs => ?_
    rw [guardedDescribe_eq inner hs, guard_bind rfl]
    exact .fail _
  · have hshift : a.bits.toNat ≤ 63 := by
      rw [maxCrossBits, UInt32.lt_iff_toNat_lt] at hnarrow
      exact (not_lt.mp hnarrow).trans (by decide)
    rw [guard_bind (Guard.shift_eq hshift)]
    exact .bind (.mapM (fun value _ => passes_crossTerm h ha hb _)
        fun value _ => frames_crossTerm h a b _)
      (.mapM fun value _ => frames_crossTerm h a b _) fun _ _ => stores_store _

theorem stores_step (call : Call .set) : Stores n (guardedStep inner call) (step inner call) := by
  cases call with
  | top => exact .bind (.plain _) (frames_topTerm h) fun _ _ => stores_store _
  | bottom => exact stores_store _
  | varEqConst var value =>
    exact .findVar_bind fun v hv =>
      .bind (passes_inPack hv _) (frames_ask h _ v.pack (by decide)) fun component _ =>
        .bind (.plain _) (frames_termWith h v.pack component) fun _ _ => stores_store _
  | varEqVar a b =>
    exact .findVar_bind fun _ ha => .findVar_bind fun _ hb => stores_varEqVar h ha hb
  | singleton point =>
    have hindices : Frames view n packIndices fun indices => ∀ pack ∈ indices, pack < n :=
      .get_bind fun s hs => .pure fun pack hpack => hs.packs ▸ List.mem_range.mp hpack
    exact .get_bind fun s hs => .ite (fun _ => .fail _) fun _ =>
      .bind (.plain _) hindices fun indices hlt =>
        .bind (.mapM (fun pack hpack => passes_pointComponent inner _ (hlt pack hpack))
          fun pack _ => frames_pointComponent h _ pack)
          (.mapM fun pack _ => frames_pointComponent h _ pack) fun _ _ => stores_store _
  | union a b =>
    exact .findTerms_bind a fun left hleft =>
      .findTerms_bind b fun right hright =>
        have hterms := complete_append_iff.mpr ⟨hleft, hright⟩
        .bind (.plain _) (.mapM fun term hterm => frames_copyTerm h (hterms term hterm))
          fun _ _ => stores_store _
  | intersect a b =>
    exact .findTerms_bind a fun left hleft =>
      .findTerms_bind b fun right hright =>
        .bind (.plain _) (frames_intersectTerms h hleft hright) fun _ _ => stores_store _
  | difference a b =>
    exact .findTerms_bind a fun left hleft =>
      .findTerms_bind b fun right hright =>
        .bind (passes_complementTerms h hright) (frames_complementTerms h right)
          fun outside houtside => .bind (.plain _) (frames_intersectTerms h hleft houtside) fun _ _ =>
            .bind (.plain _) (frames_releaseTerms h outside) fun _ _ => stores_store _
  | complement a =>
    exact .findTerms_bind a fun terms hterms =>
      .bind (passes_complementTerms h hterms) (frames_complementTerms h terms) fun _ _ =>
        stores_store _
  | «exists» set var =>
    exact .findVar_bind fun v _ => .findTerms_bind set fun terms hterms =>
      .bind (.mapM (fun term hterm => passes_projectTerm h v (hterms term hterm))
        fun term hterm => frames_projectTerm h v (hterms term hterm))
        (.mapM fun term hterm => frames_projectTerm h v (hterms term hterm))
        fun _ _ => stores_store _

theorem passes_query (call : Call .bool) : Passes n (guardedStep inner call) (step inner call) := by
  cases call with
  | isEmpty set => exact .findTerms_bind set fun _ _ => .plain _
  | equal a b =>
    exact (passes_contained h a b).bind (frames_contained h a b) fun _ _ =>
      .ite (passes_contained h b a) (.pure _)
  | subset a b => exact passes_contained h a b

theorem frames_query (call : Call .bool) : Frames view n (step inner call) fun _ => True := by
  cases call with
  | isEmpty set => exact (frames_findTerms set).bind fun terms _ => frames_allEmpty h terms
  | equal a b =>
    exact (frames_contained h a b).bind fun _ _ =>
      .ite (fun _ => frames_contained h b a) fun _ => .pure trivial
  | subset a b => exact frames_contained h a b

theorem issued_release (set : SetId) {s : Packed ρ} (hs : Even n s) (host : Host) :
    (step inner (.release set) s host).2.1.issued = s.issued := by
  have hfind : findTerms set s host =
      Action.require (s.sets.get? set) (.unknownSet set) s host := rfl
  cases hset : s.sets.get? set with
  | none =>
    rw [hset] at hfind
    rw [step, bind_apply_error hfind]
  | some terms =>
    rw [hset] at hfind
    obtain ⟨heven, -⟩ := (touchesSets_erase set : TouchesSets view n _) s host hs
    rw [step, bind_apply_ok hfind]
    exact congrArg (·.issued) (frames_releaseTerms h terms _ host heven).1

end

/-- Nothing is looked up while a set is released. -/
theorem guardedStep_release (inner : Operations ρ) (set : SetId) :
    guardedStep inner (.release set) = plain (step inner (.release set)) := by
  simp only [guardedStep, step, plain_bind]
  rfl

end LayeredSets.Packed
