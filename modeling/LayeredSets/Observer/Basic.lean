import LayeredSets.Observer.Debug
import LayeredSets.Observer.Log
import LayeredSets.Observer.Recording
import LayeredSets.Observer.Stats

/-!
# Observers

An observer is told of every call on the domain it is attached to, after the domain has answered,
with the outcome that the caller gets. It cannot change that outcome.
-/

namespace LayeredSets

inductive Observer
  | log (log : Log)
  | stats (stats : Stats)
  | debug (debug : Debug)
  | trace (recording : Recording)

namespace Observer

variable {k : Answer}

def label : Observer → String
  | log _ => "log"
  | stats _ => "stats"
  | debug _ => "debug"
  | trace r => if r.checkMode then "trace+" else "trace"

def observe (o : Observer) (call : Call k) (outcome : Outcome) (host : Host) : Observer × Host :=
  match o with
  | log l =>
    let (l, host) := l.observe call outcome host
    (log l, host)
  | stats s => (stats (s.observe call outcome), host)
  | debug d =>
    let (d, host) := d.observe call outcome host
    (debug d, host)
  | trace r =>
    let (r, host) := r.observe call outcome host
    (trace r, host)

/-- Bring what has been recorded to its file. The answer tells whether that went well; observers
without a file always succeed. -/
def finish (o : Observer) (host : Host) : Bool × Observer × Host :=
  match o with
  | log l =>
    let (done, recorder, host) := l.recorder.finish host
    (done, log { l with recorder }, host)
  | trace r =>
    let (done, recorder, host) := r.recorder.finish host
    (done, trace { r with recorder }, host)
  | o => (true, o, host)

def dispose (o : Observer) (host : Host) : Host :=
  match o with
  | stats s => s.finish host
  | o => (o.finish host).2.2

end Observer

end LayeredSets
