import LayeredSets.Domain.Record
import LayeredSets.Text.Numeral

/-!
# Debug printers

A debug printer shows every call with its number and its outcome as it happens, on the diagnostics
channel or in a text of its own.
-/

namespace LayeredSets

/-- Where a debug printer prints: a text of its own, or the diagnostics channel. -/
inductive DebugSink
  | diagnostics
  | text (printed : String)

structure Debug where
  sink : DebugSink
  /-- The number of the last call. -/
  step : Nat

namespace Debug

variable {k : Answer}

def line (step : Nat) (call : Call k) : Outcome → String
  | .ok reply => s!"[debug {Text.padStart 4 (toString step)}] {call.text} -> {reply.text}"
  | .error e => s!"[debug {Text.padStart 4 (toString step)}] {call.text} failed: {e.message}"

def observe (d : Debug) (call : Call k) (outcome : Outcome) (host : Host) : Debug × Host :=
  let step := d.step + 1
  let line := line step call outcome
  match d.sink with
  | .diagnostics => (⟨.diagnostics, step⟩, host.printLine line)
  | .text printed => (⟨.text (printed ++ line ++ "\n"), step⟩, host)

/-- How the printer itself is shown. -/
def text (d : Debug) : String := s!"DebugPrinter \x7b step: {d.step}, .. \x7d"

end Debug
end LayeredSets
