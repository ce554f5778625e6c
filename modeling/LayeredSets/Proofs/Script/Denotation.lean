import LayeredSets.Proofs.Explicit.Ideal
import LayeredSets.Script.Run

/-!
# What scripts mean

Expressions denote sets of valuations in an environment: the widths of the variables that have been
declared, and what the names of variables and sets stand for. A statement asks a question or makes a
new environment. Nothing is said about how sets are kept, and none is ever released.
-/

namespace LayeredSets

/-- The line that an error tells. -/
def RunError.line : RunError → Option Nat
  | undefinedSet _ line | undefinedVariable _ line | redeclared _ line | unknownHandle _ line
  | assertionFailed _ line | checkFailed _ _ line | domain line _ => some line
  | output _ => none

def Command.isPrint : Command → Bool
  | .print _ => true
  | _ => false

namespace Script

structure Env where
  widths : List UInt32
  /-- The coordinate of a variable and its width. -/
  vars : String → Option (Nat × UInt32)
  sets : String → Option (Set Valuation)

namespace Env

def empty : Env := ⟨[], fun _ => none, fun _ => none⟩

def var (env : Env) (line : Nat) (name : String) : Except RunError (Nat × UInt32) :=
  match env.vars name with
  | some v => .ok v
  | none => .error (.undefinedVariable name line)

def set (env : Env) (line : Nat) (name : String) : Except RunError (Set Valuation) :=
  match env.sets name with
  | some s => .ok s
  | none => .error (.undefinedSet name line)

/-- The set that an expression denotes, or the first error in the order of evaluation. -/
def value (env : Env) (line : Nat) : Expr → Except RunError (Set Valuation)
  | .top => return box env.widths
  | .bottom => return ∅
  | .name name => env.set line name
  | .equalsValue var value => do
    let (i, bits) ← env.var line var
    if value.toNat < 2 ^ bits.toNat then
      return {v ∈ box env.widths | v[i]? = some value.toNat}
    else throw (.domain line (.valueOutOfRange value bits))
  | .equalsVar a b => do
    let (i, left) ← env.var line a
    let (j, right) ← env.var line b
    if left = right then return {v ∈ box env.widths | v[i]? = v[j]?}
    else throw (.domain line (.widthMismatch left right))
  | .point values =>
    if values.length = env.widths.length then do
      (Ideal.checkPoint env.widths values).mapError (.domain line)
      return {values.map UInt64.toNat}
    else throw (.domain line (.arityMismatch env.widths.length values.length))
  | .union a b => return (← env.value line a) ∪ (← env.value line b)
  | .intersect a b => return (← env.value line a) ∩ (← env.value line b)
  | .difference a b => return (← env.value line a) \ (← env.value line b)
  | .complement a => return box env.widths \ (← env.value line a)
  | .exists var body => do
    let (i, _) ← env.var line var
    let s ← env.value line body
    return {v ∈ box env.widths | ∃ x, v.set i x ∈ s}

/-- What a query asks. -/
def question (env : Env) (line : Nat) : Query → Except RunError Prop
  | .empty a => return (← env.value line a) = ∅
  | .equal a b => return (← env.value line a) = (← env.value line b)
  | .subset a b => return (← env.value line a) ⊆ (← env.value line b)

/-- One more coordinate: every set that is bound becomes its cylinder. -/
def declare (env : Env) (name : String) (bits : UInt32) : Env where
  widths := env.widths ++ [bits]
  vars := Function.update env.vars name (some (env.widths.length, bits))
  sets n := (env.sets n).map (cylinder bits)

def bind (env : Env) (name : String) (s : Set Valuation) : Env :=
  { env with sets := Function.update env.sets name (some s) }

/-- A variable may be declared if its name is new and its width is positive, at most 63 and within
what is left of the limit. -/
def checkDeclaration (env : Env) (limit : UInt32) (line : Nat) (name : String) (bits : UInt32) :
    Except RunError Unit :=
  if (env.vars name).isSome then .error (.redeclared name line)
  else if bits.toNat = 0 ∨ 63 < bits.toNat then .error (.domain line (.invalidWidth bits))
  else if limit.toNat < bitCount env.widths + bits.toNat then
    .error (.domain line
      (.universeTooLarge (UInt32.ofNat (bitCount env.widths + bits.toNat)) limit))
  else .ok ()

open Classical in
/-- The answer that a statement prints, if it prints one, and the environment after it. -/
noncomputable def execute (env : Env) (limit : UInt32) (line : Nat) :
    Command → Except RunError (Option Bool × Env)
  | .var name bits => do
    env.checkDeclaration limit line name bits
    return (none, env.declare name bits)
  | .define name e => return (none, env.bind name (← env.value line e))
  | .print query => return (some (decide (← env.question line query)), env)
  | .assert query => do
    if ← env.question line query then return (none, env)
    else throw (.assertionFailed query.text line)

/-- The statements succeed one after the other, and print these answers. -/
inductive Runs (limit : UInt32) : Env → Script → List Bool → Env → Prop
  | nil (env : Env) : Runs limit env [] [] env
  | cons {env env' env'' : Env} {statement : Statement} {script : Script} {printed : Option Bool}
    {answers : List Bool}
    (first : env.execute limit statement.line statement.command = .ok (printed, env'))
    (rest : Runs limit env' script answers env'') :
    Runs limit env (statement :: script) (printed.toList ++ answers) env''

end Env

/-- Answers, one to a line. -/
def answerLines (answers : List Bool) : String :=
  String.join (answers.map fun answer => toString answer ++ "\n")

end Script
end LayeredSets
