import LayeredSets.Domain.Basic
import LayeredSets.Table

/-!
# Packed domains

The variables are spread over packs, each a domain of its own that holds at most `capacity` of
them. A set is a union of terms. A term has one component for each pack and stands for the product
of its components: the valuations whose part in each pack lies in the component there.

Union copies terms, intersection pairs them up and drops the empty products, and complement goes
through the terms one by one: outside a product means outside one of its components.
-/

namespace LayeredSets

/-- A domain that holds `held` of the variables. -/
structure Pack (ρ : Type) where
  domain : ρ
  held : Nat

/-- Where a variable lives: its pack, and its handle there. -/
structure PackedVar where
  pack : Nat
  inner : VarId
  bits : UInt32
  deriving DecidableEq, Repr

/-- One component for each pack. -/
abbrev Term : Type := List SetId

structure Packed (ρ : Type) where
  packs : List (Pack ρ)
  capacity : Nat
  /-- The name of the backend of all packs but the first. -/
  backend : String
  /-- A fresh domain for one more pack, or the reason why there is none. -/
  blank : Except DomainError ρ
  vars : List PackedVar
  sets : Table SetId (List Term)
  /-- The last set handle that was issued. -/
  issued : UInt32

namespace Packed

variable {ρ α β : Type}

/-- The widest variables that are compared across packs, value by value. -/
def maxCrossBits : UInt32 := 8

/-- `first` is the first pack; a pack holds one variable at least. -/
def new (first : ρ) (backend : String) (blank : Except DomainError ρ) (capacity : Nat) : Packed ρ :=
  ⟨[⟨first, 0⟩], max capacity 1, backend, blank, [], .empty, 0⟩

/-- Run an action in the pack at `index`. -/
def inPack (index : Nat) (x : Act ρ α) : Act (Packed ρ) α := fun s host =>
  match s.packs[index]? with
  | none => (.error (.backend s!"there is no pack {index}"), s, host)
  | some pack =>
    let (outcome, domain, host) := x pack.domain host
    (outcome, { s with packs := s.packs.set index { pack with domain } }, host)

/-- Run an action in every pack in turn, each with its own item. -/
def inEachPack (items : List β) (f : β → Act ρ α) : Act (Packed ρ) (List α) := do
  let s ← Action.get
  (items.take s.packs.length).zipIdx.mapM fun (item, index) => inPack index (f item)

def packIndices : Act (Packed ρ) (List Nat) := do
  let s ← Action.get
  return List.range s.packs.length

def findVar (var : VarId) : Act (Packed ρ) PackedVar := do
  let s ← Action.get
  Action.require s.vars[var.index.toNat]? (.unknownVariable var)

def findTerms (set : SetId) : Act (Packed ρ) (List Term) := do
  let s ← Action.get
  Action.require (s.sets.get? set) (.unknownSet set)

/-- Keep a union of terms under the next handle. -/
def store (terms : List Term) : Act (Packed ρ) SetId := fun s host =>
  let set := ⟨s.issued + 1⟩
  (.ok set, { s with sets := s.sets.insert set terms, issued := s.issued + 1 }, host)

variable (inner : Operations ρ)

def topTerm : Act (Packed ρ) Term := do
  (← packIndices).mapM fun index => inPack index (inner.step .top)

/-- A term that is constrained in one pack only. -/
def termWith (pack : Nat) (component : SetId) : Act (Packed ρ) Term := do
  (← packIndices).mapM fun index =>
    if index = pack then pure component else inPack index (inner.step .top)

def copyTerm (term : Term) : Act (Packed ρ) Term :=
  inEachPack term fun set => inner.step (.union set set)

def releaseTerm (term : Term) : Act (Packed ρ) Unit := do
  let _ ← inEachPack term fun set => inner.step (.release set)

def releaseTerms (terms : List Term) : Act (Packed ρ) Unit := terms.forM (releaseTerm inner)

/-- Is one of the components, given with their packs, empty? -/
def anyEmpty : List (SetId × Nat) → Act (Packed ρ) Bool
  | [] => return false
  | (set, index) :: rest => do
    if ← inPack index (inner.step (.isEmpty set)) then return true else anyEmpty rest

def termIsEmpty (term : Term) : Act (Packed ρ) Bool := do
  anyEmpty inner (term.take (← packIndices).length).zipIdx

/-- The products of pairs of terms, without the empty ones. -/
def products : List (Term × Term) → Act (Packed ρ) (List Term)
  | [] => return []
  | (left, right) :: rest => do
    let term ← inEachPack (left.zip right) fun (a, b) => inner.step (.intersect a b)
    if ← termIsEmpty inner term then
      releaseTerms inner [term]
      products rest
    else
      let terms ← products rest
      return term :: terms

def intersectTerms (a b : List Term) : Act (Packed ρ) (List Term) :=
  products inner (a.flatMap fun left => b.map fun right => (left, right))

/-- The terms of what lies outside one term. -/
def outsideTerm (term : Term) : Act (Packed ρ) (List Term) :=
  term.zipIdx.mapM fun (component, pack) => do
    let flipped ← inPack pack (inner.step (.complement component))
    termWith inner pack flipped

/-- Cut one term out of a union that is then used up. -/
def cutOut (result : List Term) (term : Term) : Act (Packed ρ) (List Term) := do
  let outside ← outsideTerm inner term
  let next ← intersectTerms inner result outside
  releaseTerms inner result
  releaseTerms inner outside
  return next

def complementTerms (terms : List Term) : Act (Packed ρ) (List Term) := do
  let everything ← topTerm inner
  terms.foldlM (cutOut inner) [everything]

/-- Has `a` no valuation outside `b`? -/
def contained (a b : SetId) : Act (Packed ρ) Bool := do
  let left ← findTerms a
  let right ← findTerms b
  let outside ← complementTerms inner right
  let rest ← intersectTerms inner left outside
  releaseTerms inner outside
  releaseTerms inner rest
  return rest.isEmpty

/-- Declare a variable in a fresh pack and give every term a component there. -/
def openPack (name : String) (bits : UInt32) (sets : Table SetId (List Term)) :
    Act ρ (VarId × Table SetId (List Term)) := do
  let var ← inner.step (.declare name bits)
  let entries ← sets.entries.mapM fun (set, terms) => do
    let terms ← terms.mapM fun term => do
      let component ← inner.step .top
      return term ++ [component]
    return (set, terms)
  return (var, ⟨entries⟩)

/-- Declare a variable in one more pack. -/
def declareInNewPack (name : String) (bits : UInt32) : Act (Packed ρ) PackedVar := fun s host =>
  match s.blank with
  | .error e => (.error e, s, host)
  | .ok domain =>
    match openPack inner name bits s.sets domain host with
    | (.error e, domain, host) => (.error e, s, inner.dispose domain host)
    | (.ok (var, sets), domain, host) =>
      (.ok ⟨s.packs.length, var, bits⟩, { s with packs := s.packs ++ [⟨domain, 1⟩], sets }, host)

/-- Declare a variable in the last pack. -/
def declareInLastPack (name : String) (bits : UInt32) : Act (Packed ρ) PackedVar := do
  let s ← Action.get
  let last := s.packs.length - 1
  let var ← inPack last (inner.step (.declare name bits))
  Action.modify fun s =>
    { s with packs := s.packs.modify last fun p => { p with held := p.held + 1 } }
  return ⟨last, var, bits⟩

def hasRoom (s : Packed ρ) : Bool := s.packs.getLast?.any (·.held < s.capacity)

def declare (name : String) (bits : UInt32) : Act (Packed ρ) VarId := do
  let s ← Action.get
  let var ←
    if s.hasRoom then declareInLastPack inner name bits else declareInNewPack inner name bits
  Action.modify fun s => { s with vars := s.vars ++ [var] }
  return ⟨UInt32.ofNat s.vars.length⟩

/-- The name of the domain, after that of its first pack. -/
def describe (s : Packed ρ) : String :=
  "pack(" ++ ((s.packs.head?.map fun p => inner.describe p.domain).getD "") ++ ")"

/-- The term in which two variables of different packs both have the value `value`. -/
def crossTerm (a b : PackedVar) (value : UInt64) : Act (Packed ρ) Term := do
  let left ← inPack a.pack (inner.step (.varEqConst a.inner value))
  let right ← inPack b.pack (inner.step (.varEqConst b.inner value))
  let term ← termWith inner a.pack left
  match term[b.pack]? with
  | some unconstrained => inPack b.pack (inner.step (.release unconstrained))
  | none => pure ()
  return term.set b.pack right

def varEqVar (a b : PackedVar) : Act (Packed ρ) SetId := do
  if a.pack = b.pack then
    let component ← inPack a.pack (inner.step (.varEqVar a.inner b.inner))
    store [← termWith inner a.pack component]
  else if a.bits != b.bits then Action.fail (.widthMismatch a.bits b.bits)
  else if maxCrossBits < a.bits then
    let s ← Action.get
    Action.fail (.unsupported "var_eq_var" (s.describe inner))
  else
    let terms ← (List.range (1 <<< a.bits.toNat)).mapM fun value =>
      crossTerm inner a b (UInt64.ofNat value)
    store terms

/-- The component of a point in one pack. -/
def pointComponent (point : List (PackedVar × UInt64)) (pack : Nat) : Act (Packed ρ) SetId :=
  match (point.filter (·.1.pack = pack)).map (·.2) with
  | [] => inPack pack (inner.step .top)
  | values => inPack pack (inner.step (.singleton values))

/-- Project one term. Only the component in the variable's pack changes. -/
def projectTerm (var : PackedVar) (term : Term) : Act (Packed ρ) Term :=
  term.zipIdx.mapM fun (component, pack) =>
    inPack pack (inner.step
      (if pack = var.pack then .exists component var.inner else .union component component))

/-- Are all terms empty? -/
def allEmpty : List Term → Act (Packed ρ) Bool
  | [] => return true
  | term :: rest => do
    if ← termIsEmpty inner term then allEmpty rest else return false

def step : {k : Answer} → Call k → Act (Packed ρ) k.Value
  | _, .declare name bits => declare inner name bits
  | _, .top => do store [← topTerm inner]
  | _, .bottom => store []
  | _, .varEqConst var value => do
    let var ← findVar var
    let component ← inPack var.pack (inner.step (.varEqConst var.inner value))
    store [← termWith inner var.pack component]
  | _, .varEqVar a b => do varEqVar inner (← findVar a) (← findVar b)
  | _, .singleton point => do
    let s ← Action.get
    if point.length != s.vars.length then
      Action.fail (.arityMismatch s.vars.length point.length)
    else
      let term ← (← packIndices).mapM (pointComponent inner (s.vars.zip point))
      store [term]
  | _, .union a b => do
    let left ← findTerms a
    let right ← findTerms b
    store (← (left ++ right).mapM (copyTerm inner))
  | _, .intersect a b => do
    let left ← findTerms a
    let right ← findTerms b
    store (← intersectTerms inner left right)
  | _, .difference a b => do
    let left ← findTerms a
    let right ← findTerms b
    let outside ← complementTerms inner right
    let terms ← intersectTerms inner left outside
    releaseTerms inner outside
    store terms
  | _, .complement a => do store (← complementTerms inner (← findTerms a))
  | _, .exists set var => do
    let var ← findVar var
    store (← (← findTerms set).mapM (projectTerm inner var))
  | _, .isEmpty set => do allEmpty inner (← findTerms set)
  | _, .equal a b => do
    if ← contained inner a b then contained inner b a else return false
  | _, .subset a b => contained inner a b
  | _, .release set => do
    let terms ← findTerms set
    Action.modify fun s => { s with sets := s.sets.erase set }
    releaseTerms inner terms

def operations : Operations (Packed ρ) where
  step := step inner
  describe s := s.describe inner
  dispose s host := s.packs.foldl (fun host p => inner.dispose p.domain host) host

end Packed
end LayeredSets
