import LayeredSets.Domain.Basic

/-!
# Errors of a run

What can go wrong while a script or a trace is run, with the line at which it did.
-/

namespace LayeredSets

inductive RunError
  | undefinedSet (name : String) (line : Nat)
  | undefinedVariable (name : String) (line : Nat)
  | redeclared (name : String) (line : Nat)
  | unknownHandle (handle : String) (line : Nat)
  | assertionFailed (query : String) (line : Nat)
  | checkFailed (expected actual : Bool) (line : Nat)
  | domain (line : Nat) (error : DomainError)
  /-- What was printed could not be written. -/
  | output (reason : String)
  deriving DecidableEq, Repr

def RunError.message : RunError → String
  | .undefinedSet name line => s!"line {line}: undefined set '{name}'"
  | .undefinedVariable name line => s!"line {line}: undefined variable '{name}'"
  | .redeclared name line => s!"line {line}: variable '{name}' is already declared"
  | .unknownHandle handle line => s!"line {line}: unknown trace handle '{handle}'"
  | .assertionFailed query line => s!"line {line}: assertion failed: {query}"
  | .checkFailed expected actual line =>
    s!"line {line}: check failed: expected {expected}, got {actual}"
  | .domain line error => s!"line {line}: {error.message}"
  | .output reason => s!"failed to write output: {reason}"

end LayeredSets
