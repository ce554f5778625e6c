import LayeredSets.Assembly
import LayeredSets.Input
import LayeredSets.Script.Run
import LayeredSets.Trace.Run

/-!
# Sessions

A whole run, from arguments to an exit status. Arguments are resolved and the domain is assembled
before the input is opened; the input is read in its format and run on the domain. What a script
prints is the output, everything else is said on the diagnostics channel.
-/

namespace LayeredSets

inductive Status
  | success
  /-- The arguments were bad, or no domain could be assembled. -/
  | config
  | parse
  /-- The run failed, a failed assertion or check included. -/
  | interpret
  /-- The input could not be opened or read. -/
  | input
  deriving DecidableEq, Repr

def Status.code : Status → UInt8
  | .success => 0
  | .config => 1
  | .parse => 2
  | .interpret => 3
  | .input => 4

def Status.label : Status → String
  | .success => "Success"
  | .config => "Config"
  | .parse => "Parse"
  | .interpret => "Interpret"
  | .input => "Input"

/-- The status of a run that came to an end. -/
def Status.ofResult : Except RunError Nat → Status
  | .ok _ => .success
  | .error _ => .interpret

/-- How a session ended. -/
structure Ended (σ : Type) where
  status : Status
  output : String
  /-- The domain as it was when it was disposed of, if one had been assembled. -/
  domain : Option σ
  host : Host

namespace Session

section

/- What is printed may be limited. -/
variable {σ : Type} (ops : Operations σ) (limit : Option Nat)

/-- Run a program on a domain. The result is the number of statements run or the error that ended
the run, with what was printed and the domain after it. -/
def interpret (domain : σ) (program : Program) (host : Host) :
    Except RunError Nat × String × σ × Host :=
  match program with
  | .script script =>
    let (result, s, host) := Script.run ops script (.new domain limit) host
    (result, s.output.text, s.domain, host)
  | .trace trace =>
    let (result, s, host) := Trace.run ops trace (.new domain) host
    (result, "", s.domain, host)

/-- End a session that never got to run anything. -/
def abandon (status : Status) (line : String) (domain : σ) (input : Input) (host : Host) :
    Ended σ :=
  ⟨status, "", some domain, ops.dispose domain (input.close (host.printLine line))⟩

/-- What is told as a run starts. -/
def announce (domain : σ) (program : Program) (format : Format) (host : Host) : Host :=
  host.report (.interpretationStarted format.text (ops.describe domain) program.length)

/-- Say how a run ended. -/
def tell (name : String) (format : Format) (result : Except RunError Nat) (host : Host) : Host :=
  match result with
  | .ok executed => host.report (.interpretationCompleted format.text executed none)
  | .error e => host.printLine s!"error: {name}: {e.message}"

/-- Run a program that has been read from `input`. The domain is disposed of before the outcome is
told, and the input is closed last. -/
def runProgram (domain : σ) (program : Program) (input : Input) (host : Host) : Ended σ :=
  let (result, output, domain, host) :=
    interpret ops limit domain program (announce ops domain program input.format host)
  let host := tell input.name input.format result (ops.dispose domain host)
  ⟨.ofResult result, output, some domain, input.close host⟩

/-- Read an input and run it on a domain. -/
def executeOn (domain : σ) (input : Input) (host : Host) : Ended σ :=
  match input.readAll with
  | (.error reason, input) =>
    abandon ops .input s!"error: cannot read input '{input.name}': {reason}" domain input host
  | (.ok bytes, input) =>
    match Program.read input.format bytes with
    | .error e =>
      let host := host.report (.parseFailed input.name e.message)
      abandon ops .parse s!"{input.name}: {e.message}" domain input host
    | .ok program => runProgram ops limit domain program input host

end

/-- Read an input and run it on a domain of some shape. -/
def execute (domain : Domain) (input : Input) (host : Host) : Ended Domain :=
  executeOn Domain.operations none domain input host

/-- The name of the program in its usage text. -/
def programName : String := "setstack"

/-- Say what is wrong with the arguments, and how they should be. -/
def explain (usage : String) (error : ConfigError) (host : Host) : Host :=
  ((host.printLine s!"error: {error.message}").printLine "").print usage

/-- Open the input of an invocation and run it. -/
def start (assembled : Assembled) (path : Option String) (host : Host) : Ended Domain :=
  let host := match assembled.warning? with
    | some warning => host.printLine s!"warning: {warning}"
    | none => host
  match Input.open? path host with
  | .error reason =>
    ⟨.input, "", some assembled.domain,
      assembled.domain.dispose (host.printLine s!"error: {reason}")⟩
  | .ok (input, host) => execute assembled.domain input host

/-- Assemble the domain of an invocation and start it. -/
def assemble (usage : String) (invocation : Invocation) (host : Host) : Ended Domain :=
  match Assembly.empty.run host invocation.commands with
  | (.error e, assembly, host) => ⟨.config, "", none, assembly.dispose (explain usage e host)⟩
  | (.ok (), assembly, host) =>
    match assembly.finish host with
    | (.error e, host) => ⟨.config, "", none, explain usage e host⟩
    | (.ok assembled, host) => start assembled invocation.input host

/-- A session for the given arguments and the words of the environment. -/
def run (arguments : List String) (environment : Option String) (features : FeatureSet)
    (host : Host) : Ended Domain :=
  let registry := Registry.standard features
  let usage := registry.usage programName
  match Invocation.parse registry (Invocation.mergeArguments arguments environment) with
  | .error e => ⟨.config, "", none, explain usage e host⟩
  | .ok invocation =>
    if invocation.help then ⟨.success, "", none, host.print usage⟩
    else assemble usage invocation host

end Session
end LayeredSets
