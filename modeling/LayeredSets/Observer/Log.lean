import LayeredSets.Domain.Record
import LayeredSets.Observer.Recorder

/-!
# Interaction logs

A log has one line for each call: a JSON object with a running number, the call with its arguments,
and the reply or the error text.
-/

namespace LayeredSets

structure Log where
  recorder : Recorder
  /-- The number of the last record. -/
  seq : Nat

namespace Log

variable {k : Answer}

/-- The record of the call with running number `seq`. -/
def record (seq : Nat) (call : Call k) (outcome : Outcome) : Text.Json :=
  .object (("seq", .number seq) :: call.jsonMembers ++ [outcomeMember outcome])

def create (path : String) (host : Host) : Except String Log × Host :=
  let (recorder, host) := Recorder.create "log" path host
  (recorder.map (⟨·, 0⟩), host)

def observe (log : Log) (call : Call k) (outcome : Outcome) (host : Host) : Log × Host :=
  if log.recorder.failed then (log, host)
  else
    let seq := log.seq + 1
    let (recorder, host) := log.recorder.writeLine (record seq call outcome).parts host
    (⟨recorder, seq⟩, host)

end Log
end LayeredSets
