import LayeredSets.Domain.Basic
import LayeredSets.RunError
import LayeredSets.Table
import LayeredSets.Trace.Tree

/-!
# Replaying traces

Each step is one call. The handles of the trace are looked up before the call is made, so that the
domain never sees one that the trace has not introduced or has already released. A query with a
recorded answer must get the same answer again.
-/

namespace LayeredSets.Trace

/-- The state of a replay: the domain, what the handles stand for, and how many recorded answers
have been confirmed. -/
structure State (σ : Type) where
  domain : σ
  vars : Table String VarId
  sets : Table String SetId
  checked : Nat

def State.new {σ : Type} (domain : σ) : State σ := ⟨domain, .empty, .empty, 0⟩

variable {σ : Type} {k : Answer}

abbrev Run (σ α : Type) : Type := Action RunError (State σ) α

variable (ops : Operations σ) (line : Nat)

def call (c : Call k) : Run σ k.Value :=
  Action.mapError (.domain line) <|
    Action.within (·.domain) (fun s domain => { s with domain }) (ops.step c)

def findVar (handle : String) : Run σ VarId := do
  let s ← Action.get
  Action.require (s.vars.get? handle) (.unknownHandle handle line)

def findSet (handle : String) : Run σ SetId := do
  let s ← Action.get
  Action.require (s.sets.get? handle) (.unknownHandle handle line)

/-- The call that a definition stands for. -/
def resolve : Definition → Run σ (Call .set)
  | .top => return .top
  | .bottom => return .bottom
  | .const var value => return .varEqConst (← findVar line var) value
  | .eqvar a b => return .varEqVar (← findVar line a) (← findVar line b)
  | .single values => return .singleton values
  | .union a b => return .union (← findSet line a) (← findSet line b)
  | .inter a b => return .intersect (← findSet line a) (← findSet line b)
  | .diff a b => return .difference (← findSet line a) (← findSet line b)
  | .compl a => return .complement (← findSet line a)
  | .exists set var => return .exists (← findSet line set) (← findVar line var)

/-- The call that a query stands for. -/
def resolveQuery : Query → Run σ (Call .bool)
  | .empty set => return .isEmpty (← findSet line set)
  | .equal a b => return .equal (← findSet line a) (← findSet line b)
  | .subset a b => return .subset (← findSet line a) (← findSet line b)

/-- Compare an answer with the recorded one. -/
def check (actual : Bool) : Option Bool → Run σ Unit
  | none => pure ()
  | some expected =>
    if expected = actual then Action.modify fun s => { s with checked := s.checked + 1 }
    else Action.fail (.checkFailed expected actual line)

def execute : Op → Run σ Unit
  | .declare target name bits => do
    let var ← call ops line (.declare name bits)
    Action.modify fun s => { s with vars := s.vars.insert target var }
  | .define target definition => do
    let set ← call ops line (← resolve line definition)
    Action.modify fun s => { s with sets := s.sets.insert target set }
  | .query query expected => do
    let actual ← call ops line (← resolveQuery line query)
    check line actual expected
  | .release handle => do
    let set ← findSet line handle
    call ops line (.release set)
    Action.modify fun s => { s with sets := s.sets.erase handle }

/-- Replay a trace to its end, which gives the number of its steps. -/
def run (trace : Trace) : Run σ Nat := do
  trace.forM fun step => execute ops step.line step.op
  return trace.length

end LayeredSets.Trace
