import LayeredSets.Domain.Basic
import LayeredSets.RunError
import LayeredSets.Script.Tree
import LayeredSets.Table

/-!
# Running scripts

Expressions are evaluated on a domain, operands from left to right. The sets that come up on the
way are released as soon as they have been used; a set that a name is bound to belongs to that name
alone. An error ends the run where it is, without undoing anything.
-/

namespace LayeredSets

/-- Text that is printed, up to a limit on its bytes if there is one. -/
structure Output where
  text : String
  limit : Option Nat
  deriving DecidableEq, Repr

namespace Output

def new (limit : Option Nat) : Output := ⟨"", limit⟩

def hasRoom (out : Output) (piece : String) : Bool :=
  out.limit.all (out.text.utf8ByteSize + piece.utf8ByteSize ≤ ·)

end Output

namespace Script

/-- The state of a run: the domain and what the names of the script stand for. -/
structure State (σ : Type) where
  domain : σ
  vars : Table String VarId
  sets : Table String SetId
  output : Output

def State.new {σ : Type} (domain : σ) (limit : Option Nat) : State σ :=
  ⟨domain, .empty, .empty, .new limit⟩

/-- The set an expression came to, and whether it has to be released once it has been used. -/
structure Value where
  set : SetId
  owned : Bool
  deriving DecidableEq, Repr

variable {σ : Type} {k : Answer}

abbrev Run (σ α : Type) : Type := Action RunError (State σ) α

variable (ops : Operations σ) (line : Nat)

def call (c : Call k) : Run σ k.Value :=
  Action.mapError (.domain line) <|
    Action.within (·.domain) (fun s domain => { s with domain }) (ops.step c)

def findVar (name : String) : Run σ VarId := do
  let s ← Action.get
  Action.require (s.vars.get? name) (.undefinedVariable name line)

def findSet (name : String) : Run σ SetId := do
  let s ← Action.get
  Action.require (s.sets.get? name) (.undefinedSet name line)

/-- Release a value that has been used. -/
def release (value : Value) : Run σ Unit := do
  if value.owned then call ops line (.release value.set)

/-- A set made by a call, which nothing else refers to. -/
def fresh (x : Run σ SetId) : Run σ Value := do return ⟨← x, true⟩

/-- Use one value in a call. It is released whether or not the call succeeds. -/
def useOne (x : Run σ Value) (c : SetId → Call k) : Run σ k.Value := do
  let a ← x
  let result ← (call ops line (c a.set)).outcome
  release ops line a
  Action.ofExcept result

/-- Use two values in a call, the first of them evaluated first. -/
def useTwo (x y : Run σ Value) (c : SetId → SetId → Call k) : Run σ k.Value := do
  let a ← x
  let b ← y
  let result ← (call ops line (c a.set b.set)).outcome
  release ops line a
  release ops line b
  Action.ofExcept result

def eval : Expr → Run σ Value
  | .top => fresh (call ops line .top)
  | .bottom => fresh (call ops line .bottom)
  | .name name => do return ⟨← findSet line name, false⟩
  | .equalsValue var value => do
    let var ← findVar line var
    fresh (call ops line (.varEqConst var value))
  | .equalsVar a b => do
    let a ← findVar line a
    let b ← findVar line b
    fresh (call ops line (.varEqVar a b))
  | .point values => fresh (call ops line (.singleton values))
  | .union a b => fresh (useTwo ops line (eval a) (eval b) .union)
  | .intersect a b => fresh (useTwo ops line (eval a) (eval b) .intersect)
  | .difference a b => fresh (useTwo ops line (eval a) (eval b) .difference)
  | .complement a => fresh (useOne ops line (eval a) .complement)
  | .exists var body => do
    let var ← findVar line var
    fresh (useOne ops line (eval body) fun set => .exists set var)

def ask : Query → Run σ Bool
  | .empty a => useOne ops line (eval ops line a) .isEmpty
  | .equal a b => useTwo ops line (eval ops line a) (eval ops line b) .equal
  | .subset a b => useTwo ops line (eval ops line a) (eval ops line b) .subset

/-- A set that a name can own: a copy, if the value belongs to another name. -/
def owned (value : Value) : Run σ SetId :=
  if value.owned then pure value.set else call ops line (.union value.set value.set)

/-- Bind a name. The set it stood for before is released. -/
def define (name : String) (e : Expr) : Run σ Unit := do
  let set ← owned ops line (← eval ops line e)
  let s ← Action.get
  Action.set { s with sets := s.sets.insert name set }
  match s.sets.get? name with
  | some previous => call ops line (.release previous)
  | none => pure ()

def declare (name : String) (bits : UInt32) : Run σ Unit := do
  let s ← Action.get
  if s.vars.contains name then Action.fail (.redeclared name line)
  let var ← call ops line (.declare name bits)
  Action.modify fun s => { s with vars := s.vars.insert name var }

def write (piece : String) : Run σ Unit := do
  let s ← Action.get
  if s.output.hasRoom piece then
    Action.set { s with output.text := s.output.text ++ piece }
  else Action.fail (.output "sink is full")

def execute : Command → Run σ Unit
  | .var name bits => declare ops line name bits
  | .define name e => define ops line name e
  | .print query => do
    let answer ← ask ops line query
    write (toString answer)
    write "\n"
  | .assert query => do
    let answer ← ask ops line query
    if !answer then Action.fail (.assertionFailed query.text line)

end Script

/-- Run a script to its end, which gives the number of its statements. -/
def Script.run {σ : Type} (ops : Operations σ) (script : Script) : Script.Run σ Nat := do
  List.forM script fun statement => Script.execute ops statement.line statement.command
  return script.length

end LayeredSets
