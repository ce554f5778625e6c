import LayeredSets.Layer.Basic
import LayeredSets.Table

/-!
# Remembered equalities

This layer remembers which sets have been found equal. Questions about two sets of one class are
then answered here and do not reach the domain below. A set leaves its class when it is released.
-/

namespace LayeredSets

/-- The sets known to be equal, in numbered classes. Two tables keep them, one by set and one by
class. -/
structure Equalities where
  /-- The number of the class that a set is in. -/
  classOf : Table SetId Nat
  /-- The sets of each class, once each and in no particular order. -/
  classes : Table Nat (List SetId)
  nextClass : Nat
  /-- How many questions were answered from what is known. -/
  shortcuts : Nat

namespace Equalities

def none : Equalities := ⟨.empty, .empty, 0, 0⟩

/-- Is it known that the two sets are equal? -/
def knownEqual (e : Equalities) (a b : SetId) : Bool :=
  a == b || match e.classOf.get? a, e.classOf.get? b with
    | some x, some y => x == y
    | _, _ => false

/-- The sets of a class. -/
def members (e : Equalities) (n : Nat) : List SetId := (e.classes.get? n).getD []

/-- The class of a set, which is a new one if nothing is known of it. -/
def classFor (e : Equalities) (a : SetId) : Nat × Equalities :=
  match e.classOf.get? a with
  | some n => (n, e)
  | .none =>
    (e.nextClass,
      { e with
        classOf := e.classOf.insert a e.nextClass
        classes := e.classes.insert e.nextClass [a]
        nextClass := e.nextClass + 1 })

/-- Move all sets of the class `gone` to the class `kept`. -/
def absorb (e : Equalities) (kept gone : Nat) : Equalities :=
  let moved := e.members gone
  let rest := { e with classes := e.classes.erase gone }
  let stay := rest.members kept
  { rest with
    classOf := moved.foldl (fun table set => table.insert set kept) e.classOf
    classes := rest.classes.insert kept (stay ++ moved.filter (!stay.contains ·)) }

/-- Learn that two different sets are equal. The smaller of their classes is absorbed. -/
def merge (e : Equalities) (a b : SetId) : Equalities :=
  let (x, e) := e.classFor a
  let (y, e) := e.classFor b
  if x = y then e
  else if (e.members y).length ≤ (e.members x).length then e.absorb x y
  else e.absorb y x

/-- Forget a set, and its class if at most one set would be left in it. -/
def forget (e : Equalities) (a : SetId) : Equalities :=
  match e.classOf.get? a with
  | .none => e
  | some n =>
    let classOf := e.classOf.erase a
    match e.classes.get? n with
    | .none => { e with classOf }
    | some members =>
      let left := members.filter (· != a)
      if left.length ≤ 1 then
        { e with classOf := left.foldl Table.erase classOf, classes := e.classes.erase n }
      else { e with classOf, classes := e.classes.insert n left }

def countShortcut (e : Equalities) : Equalities := { e with shortcuts := e.shortcuts + 1 }

variable {σ : Type}

/-- Answer a question about two sets from what is known, or put it to the domain below. -/
def askUnlessKnown (a b : SetId) (ask : Act (Atop Equalities σ) Bool) :
    Act (Atop Equalities σ) Bool := do
  let s ← Action.get
  if a != b && s.layer.knownEqual a b then
    Atop.modifyLayer countShortcut
    return true
  else ask

def step (inner : Operations σ) : {k : Answer} → Call k → Act (Atop Equalities σ) k.Value
  | _, .equal a b => askUnlessKnown a b do
    let answer ← Atop.below (inner.step (.equal a b))
    if answer && a != b then Atop.modifyLayer (·.merge a b)
    return answer
  | _, .subset a b => askUnlessKnown a b (Atop.below (inner.step (.subset a b)))
  | _, .release set => do
    Atop.below (inner.step (.release set))
    Atop.modifyLayer (·.forget set)
  | _, call => Atop.below (inner.step call)

def operations (inner : Operations σ) : Operations (Atop Equalities σ) where
  step := step inner
  describe s := s!"equalities({inner.describe s.inner})"
  dispose s host := inner.dispose s.inner host

end Equalities
end LayeredSets
