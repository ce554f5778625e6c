import LayeredSets.Registry

/-!
# Invocations

What a command line asks for. Options are `--name`, `--name value` or `--name=value`; the only
other argument is the input, and `--` ends the options. Options stand for entries of the registry
and keep their order.
-/

namespace LayeredSets

/-- Why no domain could be made from the arguments. -/
inductive ConfigError
  | noDomain
  | emptyStack (decorator : String)
  | unknownArgument (argument : String)
  | missingValue (option : String)
  | unexpectedValue (option value : String)
  | extraInput (first second : String)
  | construction (name : String) (error : DomainError)
  deriving DecidableEq, Repr

def ConfigError.message : ConfigError → String
  | .noDomain => "no domain specified: give at least one backend, e.g. --explicit"
  | .emptyStack decorator =>
    s!"decorator '--{decorator}' has no input domain: push a backend before it"
  | .unknownArgument argument => s!"unknown argument '{argument}'"
  | .missingValue option => s!"argument '--{option}' expects a value"
  | .unexpectedValue option value => s!"argument '--{option}' does not take a value (got '{value}')"
  | .extraInput first second => s!"more than one input file given: '{first}' and '{second}'"
  | .construction name error => s!"failed to construct '--{name}': {error.message}"

/-- One option of a command line, with the entry it stands for. -/
structure StackCommand where
  entry : Entry
  value : Option String
  deriving DecidableEq, Repr

/-- The command as a single argument. -/
def StackCommand.text (c : StackCommand) : String :=
  match c.value with
  | some value => s!"--{c.entry.name}={value}"
  | none => s!"--{c.entry.name}"

structure Invocation where
  commands : List StackCommand
  input : Option String
  help : Bool
  deriving DecidableEq, Repr

namespace Invocation

def empty : Invocation := ⟨[], none, false⟩

/-- The explicit arguments followed by the words of the environment's value. -/
def mergeArguments (explicit : List String) (environment : Option String) : List String :=
  explicit ++ (environment.map Text.words).getD []

def addInput (inv : Invocation) (path : String) : Except ConfigError Invocation :=
  match inv.input with
  | some first => .error (.extraInput first path)
  | none => .ok { inv with input := some path }

def addCommand (inv : Invocation) (entry : Entry) (value : Option String) : Invocation :=
  { inv with commands := inv.commands ++ [⟨entry, value⟩] }

/-- The arguments after `--`, none of which is an option. -/
def addInputs (inv : Invocation) : List String → Except ConfigError Invocation
  | [] => .ok inv
  | argument :: rest => do addInputs (← inv.addInput argument) rest

/-- An argument as far as its form goes. -/
inductive Form
  | help
  | terminator
  /-- An option, with the value that follows its equals sign. -/
  | option (name : String) (inline : Option String)
  /-- A single dash is no option and no input either. -/
  | unknown
  | input

/-- Cut a list at its first `c`. -/
def cutAt (c : Char) : List Char → List Char × Option (List Char)
  | [] => ([], none)
  | d :: rest =>
    if d = c then ([], some rest)
    else
      let (before, after) := cutAt c rest
      (d :: before, after)

def Form.of (argument : String) : Form :=
  if argument = "-h" ∨ argument = "--help" then .help
  else if argument = "--" then .terminator
  else match argument.toList with
    | '-' :: '-' :: rest =>
      let (name, value) := cutAt '=' rest
      .option (String.ofList name) (value.map String.ofList)
    | '-' :: _ => .unknown
    | _ => .input

/-- A value that is there and not empty. -/
def checkValue (name : String) (value : Option String) : Except ConfigError String :=
  match value with
  | some value => if value = "" then .error (.missingValue name) else .ok value
  | none => .error (.missingValue name)

/-- Resolve arguments against the registry, after those that gave `inv`. -/
def parseFrom (registry : Registry) (inv : Invocation) :
    List String → Except ConfigError Invocation
  | [] => .ok inv
  | argument :: rest =>
    match Form.of argument with
    | .help => .ok { inv with help := true }
    | .terminator => inv.addInputs rest
    | .unknown => .error (.unknownArgument argument)
    | .input => do parseFrom registry (← inv.addInput argument) rest
    | .option name inline =>
      match registry.lookup name with
      | none => .error (.unknownArgument argument)
      | some entry =>
        match entry.takesValue, inline, rest with
        | true, some value, rest => do
          let value ← checkValue name (some value)
          parseFrom registry (inv.addCommand entry (some value)) rest
        | true, none, value :: rest => do
          let value ← checkValue name (some value)
          parseFrom registry (inv.addCommand entry (some value)) rest
        | true, none, [] => .error (.missingValue name)
        | false, some value, _ => .error (.unexpectedValue name value)
        | false, none, rest => parseFrom registry (inv.addCommand entry none) rest

def parse (registry : Registry) (arguments : List String) : Except ConfigError Invocation :=
  parseFrom registry .empty arguments

end Invocation
end LayeredSets
