import LayeredSets.Domain.Record

/-!
# Call statistics

Counts of the calls of each operation and of how they ended, reported when the observer is no
longer needed.
-/

namespace LayeredSets

/-- The counts of one operation. -/
structure Tally where
  calls : Nat
  failures : Nat
  answeredTrue : Nat
  answeredFalse : Nat
  deriving DecidableEq, Repr

namespace Tally

def zero : Tally := ⟨0, 0, 0, 0⟩

def add (t : Tally) : Outcome → Tally
  | .error _ => { t with calls := t.calls + 1, failures := t.failures + 1 }
  | .ok (.bool true) => { t with calls := t.calls + 1, answeredTrue := t.answeredTrue + 1 }
  | .ok (.bool false) => { t with calls := t.calls + 1, answeredFalse := t.answeredFalse + 1 }
  | .ok _ => { t with calls := t.calls + 1 }

def json (t : Tally) : Text.Json :=
  .object
    [("calls", .number t.calls), ("failures", .number t.failures),
     ("answered_true", .number t.answeredTrue), ("answered_false", .number t.answeredFalse)]

end Tally

/-- The operations called so far in the order of their names, and whether the totals are reported
at the end. -/
structure Stats where
  tallies : List (String × Tally)
  reporting : Bool

namespace Stats

variable {k : Answer}

def new (reporting : Bool) : Stats := ⟨[], reporting⟩

/-- Count one more call of `operation`. -/
def count (operation : String) (outcome : Outcome) : List (String × Tally) → List (String × Tally)
  | [] => [(operation, Tally.zero.add outcome)]
  | (name, tally) :: rest =>
    if operation = name then (name, tally.add outcome) :: rest
    else if operation < name then
      (operation, Tally.zero.add outcome) :: (name, tally) :: rest
    else (name, tally) :: count operation outcome rest

def observe (s : Stats) (call : Call k) (outcome : Outcome) : Stats :=
  { s with tallies := count call.kind outcome s.tallies }

def get (s : Stats) (operation : String) : Tally := (s.tallies.lookup operation).getD .zero

def totalCalls (s : Stats) : Nat := s.tallies.foldl (fun n (_, tally) => n + tally.calls) 0

def json (s : Stats) : Text.Json :=
  .object (s.tallies.map fun (name, tally) => (name, tally.json))

/-- Report the totals, unless there is nothing to report. -/
def finish (s : Stats) (host : Host) : Host :=
  if s.reporting && !s.tallies.isEmpty then
    let report := s.json.text
    (host.report (.statisticsReport s.totalCalls report)).printLine s!"statistics: {report}"
  else host

end Stats
end LayeredSets
