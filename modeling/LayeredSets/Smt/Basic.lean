import LayeredSets.Domain.Basic
import LayeredSets.Smt.Solver
import LayeredSets.Table

/-!
# The solver domain

Every set is stored as a formula and nothing is enumerated. Emptiness, equality and inclusion are
put to the solver as the question whether a formula has a model. There is no call for single
points.

Formulas speak about variables that are numbered from zero. The script that asks whether one of them
has a model is in SMT-LIB notation.
-/

namespace LayeredSets

inductive Formula
  | constant (value : Bool)
  | equalsValue (var : UInt32) (value : UInt64) (bits : UInt32)
  | equalsVar (a b : UInt32)
  | or (a b : Formula)
  | and (a b : Formula)
  | xor (a b : Formula)
  | not (a : Formula)
  | exists (var : UInt32) (bits : UInt32) (body : Formula)
  deriving DecidableEq, Repr

namespace Formula

def symbol (var : UInt32) : String := s!"v{var}"

def literal (value : UInt64) (bits : UInt32) : String := s!"(_ bv{value} {bits})"

def text : Formula → String
  | constant true => "true"
  | constant false => "false"
  | equalsValue var value bits => s!"(= {symbol var} {literal value bits})"
  | equalsVar a b => s!"(= {symbol a} {symbol b})"
  | or a b => s!"(or {a.text} {b.text})"
  | and a b => s!"(and {a.text} {b.text})"
  | xor a b => s!"(xor {a.text} {b.text})"
  | not a => s!"(not {a.text})"
  | .exists var bits body => s!"(exists (({symbol var} (_ BitVec {bits}))) {body.text})"

/-- The formula of the valuations in `a` but not in `b`. -/
def diff (a b : Formula) : Formula := and a (not b)

end Formula

/-- The declaration of the variable at `index`, under a comment that gives its name. -/
def Variable.declaration (v : Variable) (index : Nat) : String :=
  s!"; {v.name}\n(declare-const v{index} (_ BitVec {v.bits}))\n"

/-- A complete script asking whether `formula` has a model over `vars`. -/
def queryScript (vars : List Variable) (formula : String) : String :=
  String.join (vars.zipIdx.map fun (v, index) => v.declaration index) ++
    s!"(assert {formula})\n(check-sat)\n(exit)\n"

structure Smt where
  label : String
  solver : Solver
  vars : List Variable
  sets : Table SetId Formula
  /-- The last set handle that was issued. -/
  issued : UInt32

namespace Smt

def new (label : String) (solver : Solver) : Smt := ⟨label, solver, [], .empty, 0⟩

def formula (d : Smt) (set : SetId) : Except DomainError Formula :=
  match d.sets.get? set with
  | some f => .ok f
  | none => .error (.unknownSet set)

def bitsOf (d : Smt) (var : VarId) : Except DomainError UInt32 :=
  match d.vars[var.index.toNat]? with
  | some v => .ok v.bits
  | none => .error (.unknownVariable var)

/-- Keep a formula under the next handle. -/
def store (d : Smt) (f : Formula) : SetId × Smt :=
  let set := ⟨d.issued + 1⟩
  (set, { d with sets := d.sets.insert set f, issued := d.issued + 1 })

def script (d : Smt) (f : Formula) : String := queryScript d.vars f.text

/-- Store what `f` makes of two sets. -/
def combine (d : Smt) (f : Formula → Formula → Formula) (a b : SetId) :
    Except DomainError (SetId × Smt) := do
  let x ← d.formula a
  let y ← d.formula b
  return d.store (f x y)

/-- What a call comes to: an answer with the domain after it, or a question to the solver, whose
answer is true if the formula has no model. -/
inductive Reaction (α : Type)
  | answer (value : α) (after : Smt)
  | question (f : Formula) (ofUnsat : Bool → α)

def Reaction.ofStored {α : Type} (stored : α × Smt) : Reaction α := .answer stored.1 stored.2

def declare (d : Smt) (name : String) (bits : UInt32) : Except DomainError (VarId × Smt) :=
  if !isValidWidth bits then .error (.invalidWidth bits)
  else .ok (⟨UInt32.ofNat d.vars.length⟩, { d with vars := d.vars ++ [⟨name, bits⟩] })

def react (d : Smt) : {k : Answer} → Call k → Except DomainError (Reaction k.Value)
  | _, .declare name bits => Reaction.ofStored <$> d.declare name bits
  | _, .top => return .ofStored (d.store (.constant true))
  | _, .bottom => return .ofStored (d.store (.constant false))
  | _, .varEqConst var value => do
    let bits ← d.bitsOf var
    if !fits value bits then throw (.valueOutOfRange value bits)
    return .ofStored (d.store (.equalsValue var.index value bits))
  | _, .varEqVar a b => do
    let left ← d.bitsOf a
    let right ← d.bitsOf b
    if left != right then throw (.widthMismatch left right)
    return .ofStored (d.store (.equalsVar a.index b.index))
  | _, .singleton _ => throw (.unsupported "singleton" d.label)
  | _, .union a b => Reaction.ofStored <$> d.combine .or a b
  | _, .intersect a b => Reaction.ofStored <$> d.combine .and a b
  | _, .difference a b => Reaction.ofStored <$> d.combine .diff a b
  | _, .complement a => do
    let x ← d.formula a
    return .ofStored (d.store (.not x))
  | _, .exists set var => do
    let bits ← d.bitsOf var
    let x ← d.formula set
    return .ofStored (d.store (.exists var.index bits x))
  | _, .isEmpty set => do
    let x ← d.formula set
    return .question x id
  | _, .equal a b => do
    let x ← d.formula a
    let y ← d.formula b
    return .question (.xor x y) id
  | _, .subset a b => do
    let x ← d.formula a
    let y ← d.formula b
    return .question (.diff x y) id
  | _, .release set => do
    let _ ← d.formula set
    return .answer () { d with sets := d.sets.erase set }

/-- Is the formula without a model? -/
def isUnsatisfiable (d : Smt) (f : Formula) (host : Host) : Except DomainError Bool × Host :=
  match d.solver.ask (d.script f) host with
  | (.ok .sat, host) => (.ok false, host)
  | (.ok .unsat, host) => (.ok true, host)
  | (.ok .unknown, host) => (.error (.backend s!"{d.label} could not decide the query"), host)
  | (.error message, host) => (.error (.backend message), host)

def step {k : Answer} (call : Call k) : Act Smt k.Value := fun d host =>
  match d.react call with
  | .error e => (.error e, d, host)
  | .ok (.answer value d) => (.ok value, d, host)
  | .ok (.question f ofUnsat) =>
    let (answer, host) := d.isUnsatisfiable f host
    (answer.map ofUnsat, d, host)

def operations : Operations Smt where
  step := step
  describe d := d.label
  dispose _ host := host

end Smt
end LayeredSets
