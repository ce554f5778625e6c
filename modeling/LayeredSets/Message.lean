import LayeredSets.Text.Duration

/-!
# Messages

What a run reports about itself. Every message has a level, a text for readers, fields for
machines, and, apart from the note on a declared variable, a span that scopes the messages below
it.
-/

namespace LayeredSets

inductive Level
  | trace
  | debug
  | info
  | warn
  deriving DecidableEq, Repr

def Level.text : Level → String
  | .trace => "TRACE"
  | .debug => "DEBUG"
  | .info => "INFO"
  | .warn => "WARN"

inductive Message
  | featureEnabled (package version : String)
  | featureDisabled (package : String) (found : Option String) (minimum : String)
  | backendPushed (name : String) (depth : Nat)
  | decoratorApplied (name result : String)
  | domainAssembled (description : String) (discarded : Nat)
  | domainDiscarded (description : String)
  | writeFailed (decorator path error : String)
  | statisticsReport (totalCalls : Nat) (summary : String)
  | inputOpened (name format : String)
  | inputReleased (name : String)
  | interpretationStarted (format domain : String) (statements : Nat)
  | interpretationCompleted (format : String) (executed : Nat) (elapsed : Option Duration)
  | parseFailed (input error : String)
  | variableDeclared (name : String) (bits : UInt32)
  deriving DecidableEq, Repr

structure Span where
  name : String
  level : Level
  fields : List (String × String)
  deriving DecidableEq, Repr

namespace Message

def level : Message → Level
  | featureEnabled .. => .info
  | featureDisabled .. => .debug
  | backendPushed .. => .debug
  | decoratorApplied .. => .debug
  | domainAssembled .. => .info
  | domainDiscarded .. => .debug
  | writeFailed .. => .warn
  | statisticsReport .. => .info
  | inputOpened .. => .debug
  | inputReleased .. => .debug
  | interpretationStarted .. => .info
  | interpretationCompleted .. => .info
  | parseFailed .. => .debug
  | variableDeclared .. => .trace

def text : Message → String
  | featureEnabled package version => s!"Optional backend '{package}' enabled (version {version})"
  | featureDisabled package (some found) minimum =>
    s!"Optional backend '{package}' disabled: found {found}, need at least {minimum}"
  | featureDisabled package none _ => s!"Optional backend '{package}' disabled: not installed"
  | backendPushed name depth => s!"Pushed backend '{name}' (stack depth {depth})"
  | decoratorApplied name result => s!"Applied decorator '{name}': {result}"
  | domainAssembled description 0 => s!"Assembled domain {description}"
  | domainAssembled description discarded =>
    s!"Assembled domain {description} ({discarded} unused domain(s) discarded)"
  | domainDiscarded description => s!"Disposing unused domain {description}"
  | writeFailed decorator path error =>
    s!"{decorator} decorator stopped writing to '{path}': {error}"
  | statisticsReport totalCalls summary => s!"Domain statistics: {totalCalls} calls {summary}"
  | inputOpened name format => s!"Opened {format} input from {name}"
  | inputReleased name => s!"Released input {name}"
  | interpretationStarted format domain statements =>
    s!"Interpreting {statements} statements of {format} input on {domain}"
  | interpretationCompleted format executed elapsed =>
    s!"{format} interpretation completed: {executed} statements" ++
      match elapsed with
      | some duration => " in " ++ duration.text
      | none => ""
  | parseFailed input error => s!"Failed to parse {input}: {error}"
  | variableDeclared .. => "explicit domain declared variable"

def fields : Message → List (String × String)
  | featureEnabled package version => [("package", package), ("version", version)]
  | featureDisabled package (some found) minimum =>
    [("package", package), ("found", found), ("minimum", minimum)]
  | featureDisabled package none minimum => [("package", package), ("minimum", minimum)]
  | backendPushed name depth => [("name", name), ("depth", toString depth)]
  | decoratorApplied name result => [("name", name), ("result", result)]
  | domainAssembled description discarded =>
    [("description", description), ("discarded", toString discarded)]
  | domainDiscarded description => [("description", description)]
  | writeFailed decorator path error =>
    [("decorator", decorator), ("path", path), ("error", error)]
  | statisticsReport totalCalls _ => [("total_calls", toString totalCalls)]
  | inputOpened name format => [("name", name), ("format", format)]
  | inputReleased name => [("name", name)]
  | interpretationStarted format domain statements =>
    [("format", format), ("domain", domain), ("statements", toString statements)]
  | interpretationCompleted format executed none =>
    [("format", format), ("executed", toString executed)]
  | interpretationCompleted format executed (some elapsed) =>
    [("format", format), ("executed", toString executed),
     ("duration_ms", toString (elapsed.milliseconds % UInt64.size))]
  | parseFailed input error => [("input", input), ("error", error)]
  | variableDeclared name bits => [("variable", name), ("bits", toString bits)]

def spanName? : Message → Option String
  | featureEnabled .. => some "feature_enabled"
  | featureDisabled .. => some "feature_disabled"
  | backendPushed .. => some "backend_pushed"
  | decoratorApplied .. => some "decorator_applied"
  | domainAssembled .. => some "domain"
  | domainDiscarded .. => some "domain_discarded"
  | writeFailed .. => some "decorator_write_failed"
  | statisticsReport .. => some "statistics_report"
  | inputOpened .. => some "input"
  | inputReleased .. => some "input_released"
  | interpretationStarted .. => some "interpretation"
  | interpretationCompleted .. => some "interpretation_completed"
  | parseFailed .. => some "parse_failed"
  | variableDeclared .. => none

/-- The fields of the message's span, which name their subject more closely than its own do. -/
def spanFields : Message → List (String × String)
  | featureEnabled package version => [("package", package), ("version", version)]
  | featureDisabled package _ minimum => [("package", package), ("minimum", minimum)]
  | backendPushed name depth => [("backend", name), ("depth", toString depth)]
  | decoratorApplied name result => [("decorator", name), ("result", result)]
  | domainAssembled description _ => [("description", description)]
  | domainDiscarded description => [("description", description)]
  | writeFailed decorator path _ => [("decorator", decorator), ("path", path)]
  | statisticsReport totalCalls _ => [("total_calls", toString totalCalls)]
  | inputOpened name format => [("input", name), ("format", format)]
  | inputReleased name => [("input", name)]
  | interpretationStarted format domain _ => [("format", format), ("domain", domain)]
  | interpretationCompleted format executed _ =>
    [("format", format), ("executed", toString executed)]
  | parseFailed input _ => [("input", input)]
  | variableDeclared .. => []

/-- The span of a message, labelled by its opener. -/
def span? (m : Message) (label : String) : Option Span :=
  m.spanName?.map fun name => ⟨name, m.level, ("span_name", label) :: m.spanFields⟩

end Message
end LayeredSets
