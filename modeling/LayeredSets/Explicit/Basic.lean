import LayeredSets.Domain.Basic
import LayeredSets.Explicit.Region
import LayeredSets.Table

/-!
# The explicit domain

Every set is stored as the region of its valuations. A valuation is spelled in bits: the variables
in the order of declaration, each with its highest bit first. A new variable comes last, so the
regions that are already there become cylinders over it without being touched.

The domain refuses universes of more than `2 ^ limit` valuations. A call that fails has no effect:
`apply` gives a new state only together with an answer.
-/

namespace LayeredSets

structure Explicit where
  limit : UInt32
  vars : List Variable
  sets : Table SetId Region
  /-- The last set handle that was issued. -/
  issued : UInt32

namespace Explicit

def defaultLimit : UInt32 := 20

def new (limit : UInt32) : Explicit := ⟨limit, [], .empty, 0⟩

/-- The width of the whole universe, counted in words as the limit is. -/
def totalBits (d : Explicit) : UInt32 := d.vars.foldl (fun total v => total + v.bits) 0

/-- How many bits of a valuation stand before those of the variable at `index`. -/
def offset (d : Explicit) (index : Nat) : Nat :=
  (d.vars.take index).foldl (fun n v => n + v.bits.toNat) 0

def region (d : Explicit) (set : SetId) : Except DomainError Region :=
  match d.sets.get? set with
  | some r => .ok r
  | none => .error (.unknownSet set)

def bitsOf (d : Explicit) (var : VarId) : Except DomainError UInt32 :=
  match d.vars[var.index.toNat]? with
  | some v => .ok v.bits
  | none => .error (.unknownVariable var)

/-- Keep a set under the next handle. -/
def store (d : Explicit) (r : Region) : SetId × Explicit :=
  let set := ⟨d.issued + 1⟩
  (set, { d with sets := d.sets.insert set r, issued := d.issued + 1 })

def checkValue (value : UInt64) (bits : UInt32) : Except DomainError Unit :=
  if fits value bits then .ok () else .error (.valueOutOfRange value bits)

/-- The valuations whose bits from `offset` on spell `value`. -/
def constantRegion (offset : Nat) (bits : UInt32) (value : UInt64) : Region :=
  Region.skip (Region.exact value.toNat .full bits.toNat) offset

/-- The valuations that spell the same value at two places. -/
def equalityRegion (first second : Nat) (bits : UInt32) : Region :=
  if first = second then .full
  else
    let low := min first second
    let gap := max first second - low - bits.toNat
    Region.skip (Region.agree bits.toNat gap bits.toNat 0) low

/-- The single valuation `point` of the variables `vars`. -/
def pointRegion : List Variable → List UInt64 → Region
  | v :: vars, value :: point => Region.exact value.toNat (pointRegion vars point) v.bits.toNat
  | _, _ => .full

def checkPoint : List Variable → List UInt64 → Except DomainError Unit
  | v :: vars, value :: point => do
    checkValue value v.bits
    checkPoint vars point
  | _, _ => .ok ()

def declare (d : Explicit) (name : String) (bits : UInt32) :
    Except DomainError (VarId × Explicit) :=
  if !isValidWidth bits then .error (.invalidWidth bits)
  else
    let total := d.totalBits + bits
    if d.limit < total then .error (.universeTooLarge total d.limit)
    else
      .ok (⟨UInt32.ofNat d.vars.length⟩, { d with vars := d.vars ++ [⟨name, bits⟩] })

/-- Store what `f` makes of two sets. -/
def combine (d : Explicit) (f : Region → Region → Region) (a b : SetId) :
    Except DomainError (SetId × Explicit) := do
  let x ← d.region a
  let y ← d.region b
  return d.store (f x y)

/-- The answer to a call, and the domain after it. -/
def apply (d : Explicit) : {k : Answer} → Call k → Except DomainError (k.Value × Explicit)
  | _, .declare name bits => d.declare name bits
  | _, .top => return d.store .full
  | _, .bottom => return d.store .empty
  | _, .varEqConst var value => do
    let bits ← d.bitsOf var
    checkValue value bits
    return d.store (constantRegion (d.offset var.index.toNat) bits value)
  | _, .varEqVar a b => do
    let left ← d.bitsOf a
    let right ← d.bitsOf b
    if left != right then throw (.widthMismatch left right)
    return d.store (equalityRegion (d.offset a.index.toNat) (d.offset b.index.toNat) left)
  | _, .singleton point => do
    if point.length != d.vars.length then throw (.arityMismatch d.vars.length point.length)
    checkPoint d.vars point
    return d.store (pointRegion d.vars point)
  | _, .union a b => d.combine .union a b
  | _, .intersect a b => d.combine .inter a b
  | _, .difference a b => d.combine .diff a b
  | _, .complement a => do
    let x ← d.region a
    return d.store x.compl
  | _, .exists set var => do
    let bits ← d.bitsOf var
    let x ← d.region set
    return d.store (Region.forgetAt bits.toNat (d.offset var.index.toNat) x)
  | _, .isEmpty set => do
    let x ← d.region set
    return (x == .empty, d)
  | _, .equal a b => do
    let x ← d.region a
    let y ← d.region b
    return (x == y, d)
  | _, .subset a b => do
    let x ← d.region a
    let y ← d.region b
    return (Region.diff x y == .empty, d)
  | _, .release set => do
    let _ ← d.region set
    return ((), { d with sets := d.sets.erase set })

/-- The number of valuations in a set. -/
def cardinality (d : Explicit) (set : SetId) : Except DomainError Nat := do
  let r ← d.region set
  return r.card d.totalBits.toNat

def variableNames (d : Explicit) : List String := d.vars.map (·.name)

/-- What is reported about a call that succeeded. -/
def messages : {k : Answer} → Call k → List Message
  | _, .declare name bits => [.variableDeclared name bits]
  | _, _ => []

def step {k : Answer} (call : Call k) : Act Explicit k.Value := fun d host =>
  match d.apply call with
  | .ok (value, d) => (.ok value, d, (messages call).foldl Host.report host)
  | .error e => (.error e, d, host)

def operations : Operations Explicit where
  step := step
  describe _ := "explicit"
  dispose _ host := host

end Explicit
end LayeredSets
