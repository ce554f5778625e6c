import LayeredSets.Explicit.Basic
import LayeredSets.Layer.Equalities
import LayeredSets.Layer.Basic
import LayeredSets.Layer.Packed
import LayeredSets.Layer.Points
import LayeredSets.Smt.Basic

/-!
# Chains of layers

A shape says what a domain is made of: a backend and the layers on top of it. The states and the
operations of all domains of one shape follow from those of the parts. A `Domain` is a shape with a
state; callers need to know neither.
-/

namespace LayeredSets

inductive Shape
  | explicit
  | smt
  | observed (inner : Shape)
  | equalities (inner : Shape)
  | points (inner : Shape)
  | packed (first further : Shape)
  deriving DecidableEq, Repr

namespace Operations

variable {σ τ : Type}

/-- A domain that is one of two kinds. -/
def sum (a : Operations σ) (b : Operations τ) : Operations (σ ⊕ τ) where
  step call s host :=
    match s with
    | .inl s =>
      let (outcome, s, host) := a.step call s host
      (outcome, .inl s, host)
    | .inr s =>
      let (outcome, s, host) := b.step call s host
      (outcome, .inr s, host)
  describe
    | .inl s => a.describe s
    | .inr s => b.describe s
  dispose
    | .inl s, host => a.dispose s host
    | .inr s, host => b.dispose s host

end Operations

namespace Shape

def State : Shape → Type
  | explicit => Explicit
  | smt => Smt
  | observed inner => Atop Observer inner.State
  | equalities inner => Atop Equalities inner.State
  | points inner => Atop Points inner.State
  | packed first further => Packed (first.State ⊕ further.State)

def operations : (shape : Shape) → Operations shape.State
  | explicit => Explicit.operations
  | smt => Smt.operations
  | observed inner => Observed.operations inner.operations
  | equalities inner => Equalities.operations inner.operations
  | points inner => Points.operations inner.operations
  | packed first further => Packed.operations (first.operations.sum further.operations)

end Shape

/-- What can be seen of one layer of a domain. -/
inductive LayerView
  | explicit (d : Explicit)
  | smt (d : Smt)
  | observer (o : Observer)
  | equalities (e : Equalities)
  | points
  | packed (packs : Nat) (backend : String)

/-- The layers of a chain from the backend up. A packed domain is seen through its first pack. -/
def Shape.views : (shape : Shape) → shape.State → List LayerView
  | explicit, d => [.explicit d]
  | smt, d => [.smt d]
  | observed inner, s => inner.views s.inner ++ [.observer s.layer]
  | equalities inner, s => inner.views s.inner ++ [.equalities s.layer]
  | points inner, s => inner.views s.inner ++ [.points]
  | packed first _, s =>
    (match s.packs.head?.map (·.domain) with
      | some (.inl d) => first.views d
      | _ => []) ++ [.packed s.packs.length s.backend]

structure Domain where
  shape : Shape
  state : shape.State

namespace Domain

def explicit (limit : UInt32) : Domain := ⟨.explicit, Explicit.new limit⟩

def smt (label : String) (solver : Solver) : Domain := ⟨.smt, Smt.new label solver⟩

/-- Attach an observer. -/
def observe (d : Domain) (o : Observer) : Domain := ⟨.observed d.shape, ⟨o, d.state⟩⟩

def rememberEqualities (d : Domain) : Domain := ⟨.equalities d.shape, ⟨.none, d.state⟩⟩

/-- Make points out of constraints. -/
def withPoints (d : Domain) : Domain := ⟨.points d.shape, ⟨⟨[]⟩, d.state⟩⟩

/-- Spread variables over packs of at most `capacity`, the first of them `d`. Every further pack is
a `further`, or else the reason why there is none. -/
def pack (d : Domain) (backend : String) (further : Except DomainError Domain) (capacity : Nat) :
    Domain :=
  match further with
  | .ok f =>
    ⟨.packed d.shape f.shape, Packed.new (.inl d.state) backend (.ok (.inr f.state)) capacity⟩
  | .error e => ⟨.packed d.shape .explicit, Packed.new (.inl d.state) backend (.error e) capacity⟩

def describe (d : Domain) : String := d.shape.operations.describe d.state

def dispose (d : Domain) (host : Host) : Host := d.shape.operations.dispose d.state host

def views (d : Domain) : List LayerView := d.shape.views d.state

/-- Make one call. -/
def call {k : Answer} (d : Domain) (c : Call k) (host : Host) :
    Except DomainError k.Value × Domain × Host :=
  let (outcome, state, host) := d.shape.operations.step c d.state host
  (outcome, ⟨d.shape, state⟩, host)

/-- The operations of domains of every shape. -/
def operations : Operations Domain where
  step c d host := d.call c host
  describe := describe
  dispose := dispose

end Domain
end LayeredSets
