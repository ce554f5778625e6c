import LayeredSets.Domain.Record
import LayeredSets.Observer.Recorder
import LayeredSets.Text.Blank

/-!
# Recordings

A recording is a file that replays the successful calls on a domain, one line each. In check mode
the lines of queries carry the answers that were given, for the replay to compare. What failed
stands in a comment.
-/

namespace LayeredSets

/-- Where to record, and whether in check mode. -/
structure RecordingTarget where
  path : String
  checkMode : Bool
  deriving DecidableEq, Repr

/-- Read a target. A plus sign in front asks for check mode. -/
def RecordingTarget.parse (argument : String) : Except String RecordingTarget :=
  let target := match argument.toList with
    | '+' :: path => ⟨String.ofList path, true⟩
    | path => ⟨String.ofList path, false⟩
  if target.path == "" then .error "trace decorator needs a file path after '+'" else .ok target

structure Recording where
  recorder : Recorder
  checkMode : Bool

namespace Recording

variable {k : Answer}

/-- The line of a query, with its answer in check mode. -/
def queryLine (checkMode : Bool) (query : String) (answer : Bool) : String :=
  if checkMode then s!"{query} -> {answer}" else query

/-- The line of a successful call. A reply of a kind that the call does not give makes no step. -/
def stepLine (checkMode : Bool) (call : Call k) (reply : Reply) : String :=
  match call, reply with
  | .declare name bits, .var v => s!"{v.text} = declare {name} {bits}"
  | .top, .set s => s!"{s.text} = top"
  | .bottom, .set s => s!"{s.text} = bottom"
  | .varEqConst var value, .set s => s!"{s.text} = const {var.text} {value}"
  | .varEqVar a b, .set s => s!"{s.text} = eqvar {a.text} {b.text}"
  | .singleton point, .set s =>
    let values := " ".intercalate (point.map toString)
    String.ofList (Text.trimEnd s!"{s.text} = single {values}".toList)
  | .union a b, .set s => s!"{s.text} = union {a.text} {b.text}"
  | .intersect a b, .set s => s!"{s.text} = inter {a.text} {b.text}"
  | .difference a b, .set s => s!"{s.text} = diff {a.text} {b.text}"
  | .complement a, .set s => s!"{s.text} = compl {a.text}"
  | .exists set var, .set s => s!"{s.text} = exists {set.text} {var.text}"
  | .isEmpty set, .bool answer => queryLine checkMode s!"empty {set.text}" answer
  | .equal a b, .bool answer => queryLine checkMode s!"equal {a.text} {b.text}" answer
  | .subset a b, .bool answer => queryLine checkMode s!"subset {a.text} {b.text}" answer
  | .release set, .unit => s!"release {set.text}"
  | call, reply => s!"# {call.text} -> {reply.text}"

/-- The line of a call, whatever became of it. -/
def line (checkMode : Bool) (call : Call k) : Outcome → String
  | .ok reply => stepLine checkMode call reply
  | .error e => s!"# failed: {call.text}: {e.message}"

/-- The comments at the top of a recording. -/
def header (checkMode : Bool) : List String :=
  "# setstack operation trace" ::
    if checkMode then ["# check mode: queries carry their recorded answers"] else []

def create (target : RecordingTarget) (host : Host) : Except String Recording × Host :=
  match Recorder.create "trace" target.path host with
  | (.error e, host) => (.error e, host)
  | (.ok recorder, host) =>
    let (recorder, host) := (header target.checkMode).foldl
      (fun (r, host) line => Recorder.writeLine r [line] host) (recorder, host)
    (.ok ⟨recorder, target.checkMode⟩, host)

def observe (r : Recording) (call : Call k) (outcome : Outcome) (host : Host) : Recording × Host :=
  let (recorder, host) := r.recorder.writeLine [line r.checkMode call outcome] host
  ({ r with recorder }, host)

end Recording
end LayeredSets
