import LayeredSets.Proofs.Explicit.Apply
import LayeredSets.Proofs.Explicit.Denotation
import LayeredSets.Proofs.Run

/-!
# The ideal domain

The state of the ideal domain is a list of widths and, for each live handle, a set of valuations.
Its calls are the operations of set theory; nothing is said about how a set is stored.
-/

namespace LayeredSets

structure Ideal where
  limit : UInt32
  widths : List UInt32
  sets : SetId → Option (Set Valuation)
  /-- How many sets have been made. -/
  issued : Nat

namespace Ideal

def new (limit : UInt32) : Ideal := ⟨limit, [], fun _ => none, 0⟩

def set (m : Ideal) (set : SetId) : Except DomainError (Set Valuation) :=
  match m.sets set with
  | some s => .ok s
  | none => .error (.unknownSet set)

def width (m : Ideal) (var : VarId) : Except DomainError UInt32 :=
  match m.widths[var.index.toNat]? with
  | some width => .ok width
  | none => .error (.unknownVariable var)

def checkValue (value : UInt64) (bits : UInt32) : Except DomainError Unit :=
  if value.toNat < 2 ^ bits.toNat then .ok () else .error (.valueOutOfRange value bits)

/-- The first value that lies outside its range is the one that is reported. -/
def checkPoint : List UInt32 → List UInt64 → Except DomainError Unit
  | width :: widths, value :: point => do
    checkValue value width
    checkPoint widths point
  | _, _ => .ok ()

/-- The set that a call makes. -/
def made (m : Ideal) : Call .set → Except DomainError (Set Valuation)
  | .top => return box m.widths
  | .bottom => return ∅
  | .varEqConst var value => do
    let bits ← m.width var
    checkValue value bits
    return {v ∈ box m.widths | v[var.index.toNat]? = some value.toNat}
  | .varEqVar a b => do
    let left ← m.width a
    let right ← m.width b
    if left ≠ right then throw (.widthMismatch left right)
    return {v ∈ box m.widths | v[a.index.toNat]? = v[b.index.toNat]?}
  | .singleton point => do
    if point.length ≠ m.widths.length then throw (.arityMismatch m.widths.length point.length)
    checkPoint m.widths point
    return {point.map UInt64.toNat}
  | .union a b => return (← m.set a) ∪ (← m.set b)
  | .intersect a b => return (← m.set a) ∩ (← m.set b)
  | .difference a b => return (← m.set a) \ (← m.set b)
  | .complement a => return box m.widths \ (← m.set a)
  | .exists set var => do
    let _ ← m.width var
    let s ← m.set set
    return {v ∈ box m.widths | ∃ x, v.set var.index.toNat x ∈ s}

/-- What a query asks. -/
def question (m : Ideal) : Call .bool → Except DomainError Prop
  | .isEmpty a => return (← m.set a) = ∅
  | .equal a b => return (← m.set a) = (← m.set b)
  | .subset a b => return (← m.set a) ⊆ (← m.set b)

/-- Keep a set under the next handle. -/
def store (m : Ideal) (s : Set Valuation) : SetId × Ideal :=
  let set := ⟨UInt32.ofNat (m.issued + 1)⟩
  (set, { m with sets := Function.update m.sets set (some s), issued := m.issued + 1 })

/-- One more variable: every live set becomes its cylinder. -/
def grow (m : Ideal) (bits : UInt32) : Ideal :=
  { m with widths := m.widths ++ [bits], sets := fun set => (m.sets set).map (cylinder bits) }

def declare (m : Ideal) (bits : UInt32) : Except DomainError (VarId × Ideal) :=
  if bits.toNat = 0 ∨ 63 < bits.toNat then .error (.invalidWidth bits)
  else if m.limit.toNat < bitCount m.widths + bits.toNat then
    .error (.universeTooLarge (UInt32.ofNat (bitCount m.widths + bits.toNat)) m.limit)
  else .ok (⟨UInt32.ofNat m.widths.length⟩, m.grow bits)

def release (m : Ideal) (set : SetId) : Ideal :=
  { m with sets := Function.update m.sets set none }

open Classical in
/-- The answer to a call, and the domain after it. -/
noncomputable def apply (m : Ideal) : {k : Answer} → Call k → Except DomainError (k.Value × Ideal)
  | .var, .declare _ bits => m.declare bits
  | .set, call => m.store <$> m.made call
  | .bool, call => (fun q => (decide q, m)) <$> m.question call
  | .unit, .release set => (fun _ => ((), m.release set)) <$> m.set set

/-- A call that fails changes nothing. -/
noncomputable def respond (m : Ideal) (request : Request) : Outcome × Ideal :=
  match m.apply request.call with
  | .ok (value, m) => (.ok (request.kind.reply value), m)
  | .error e => (.error e, m)

noncomputable def run : List Request → Ideal → List Outcome × Ideal
  | [], m => ([], m)
  | request :: requests, m =>
    let (outcome, m) := m.respond request
    let (outcomes, m) := run requests m
    (outcome :: outcomes, m)

end Ideal
end LayeredSets
