import LayeredSets.Text.Blank

/-!
# Verdicts

The answer of a satisfiability solver to one question.
-/

namespace LayeredSets

inductive Verdict
  | sat
  | unsat
  | unknown
  deriving DecidableEq, Repr

namespace Verdict

def ofWord? (word : String) : Option Verdict :=
  if word == "sat" then some .sat
  else if word == "unsat" then some .unsat
  else if word == "unknown" then some .unknown
  else none

def text : Verdict → String
  | sat => "sat"
  | unsat => "unsat"
  | unknown => "unknown"

@[simp] theorem ofWord?_text (v : Verdict) : ofWord? v.text = some v := by cases v <;> rfl

/-- Read what a solver printed. Its first line that is not blank must be a verdict. -/
def ofOutput? (output : String) : Option Verdict := do
  let line ← ((Text.pieces output '\n').map Text.trim).find? (· != "")
  ofWord? line

end Verdict
end LayeredSets
