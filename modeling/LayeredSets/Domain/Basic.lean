import LayeredSets.Action

/-!
# Domains

A domain keeps sets of valuations of declared variables, each variable ranging over the words of
its width. Variables and sets are known by handles. `Call` lists what can be asked of a domain and
`Answer` says what kind of value each call returns; `Operations` is what every domain offers,
whatever it is made of.
-/

namespace LayeredSets

structure SetId where
  index : UInt32
  deriving DecidableEq, Repr

structure VarId where
  index : UInt32
  deriving DecidableEq, Repr

def SetId.text (set : SetId) : String := "s" ++ toString set.index

def VarId.text (var : VarId) : String := "v" ++ toString var.index

/-- The kinds of values that calls return. -/
inductive Answer
  | var
  | set
  | bool
  | unit
  deriving DecidableEq, Repr

@[reducible] def Answer.Value : Answer → Type
  | .var => VarId
  | .set => SetId
  | .bool => Bool
  | .unit => Unit

/-- One call on a domain, indexed by the kind of its answer. -/
inductive Call : Answer → Type
  | declare (name : String) (bits : UInt32) : Call .var
  | top : Call .set
  | bottom : Call .set
  /-- The valuations that give `var` the value `value`. -/
  | varEqConst (var : VarId) (value : UInt64) : Call .set
  /-- The valuations that give `a` and `b` the same value. -/
  | varEqVar (a b : VarId) : Call .set
  /-- The one valuation with these values, in the order of declaration. -/
  | singleton (point : List UInt64) : Call .set
  | union (a b : SetId) : Call .set
  | intersect (a b : SetId) : Call .set
  | difference (a b : SetId) : Call .set
  | complement (a : SetId) : Call .set
  /-- The valuations that agree with one of `set` on every variable but `var`. -/
  | exists (set : SetId) (var : VarId) : Call .set
  | isEmpty (set : SetId) : Call .bool
  | equal (a b : SetId) : Call .bool
  | subset (a b : SetId) : Call .bool
  | release (set : SetId) : Call .unit
  deriving DecidableEq, Repr

inductive DomainError
  | unknownSet (set : SetId)
  | unknownVariable (var : VarId)
  | invalidWidth (bits : UInt32)
  | valueOutOfRange (value : UInt64) (bits : UInt32)
  | widthMismatch (left right : UInt32)
  | arityMismatch (expected got : Nat)
  | universeTooLarge (bits limit : UInt32)
  | unsupported (operation domain : String)
  /-- Something around the domain failed: a solver, a file, a constructor. -/
  | backend (message : String)
  deriving DecidableEq, Repr

def DomainError.message : DomainError → String
  | .unknownSet set => s!"unknown set handle {set.text}"
  | .unknownVariable var => s!"unknown variable {var.text}"
  | .invalidWidth bits => s!"unsupported variable width {bits} (expected 1..=63 bits)"
  | .valueOutOfRange value bits => s!"value {value} does not fit in {bits} bits"
  | .widthMismatch left right =>
    s!"variables of different widths compared: {left} vs {right} bits"
  | .arityMismatch expected got =>
    s!"point has {got} coordinates but {expected} variables are declared"
  | .universeTooLarge bits limit =>
    s!"universe of 2^{bits} valuations exceeds the limit of 2^{limit}"
  | .unsupported operation domain => s!"operation '{operation}' is not supported by {domain}"
  | .backend message => message

/-- An action of a domain with state `σ`. -/
abbrev Act (σ α : Type) : Type := Action DomainError σ α

/-- The widest variable a domain accepts. -/
def maxVariableBits : UInt32 := 63

def isValidWidth (bits : UInt32) : Bool := bits != 0 && bits ≤ maxVariableBits

/-- Does `value` fit in `bits` bits? The shift is defined for widths below 64 only. -/
def fits (value : UInt64) (bits : UInt32) : Bool := value >>> bits.toUInt64 == 0

/-- A declared variable, which ranges over the words of `bits` bits. -/
structure Variable where
  name : String
  bits : UInt32
  deriving DecidableEq, Repr

/-- What a domain with state `σ` can do. -/
structure Operations (σ : Type) where
  step : {k : Answer} → Call k → Act σ k.Value
  /-- The name of the domain, its layers from the outermost in. -/
  describe : σ → String
  /-- What happens when the domain is no longer needed. -/
  dispose : σ → Host → Host

end LayeredSets
