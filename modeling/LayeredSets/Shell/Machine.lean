import LayeredSets.Shell.Parser
import LayeredSets.Table
import LayeredSets.Tool.Basic

/-!
# The state of a shell

What a running shell knows: its variables, functions and options, where its descriptors lead, and
the files around it. An action changes this state and may end early, by a jump out of the commands
that surround it.
-/

namespace LayeredSets.Shell

/-- What a variable holds: a text, or elements by their keys, which are numbers unless `keyed`. -/
inductive Value
  | text (t : String)
  | elements (keyed : Bool) (items : Table String String)

structure Variable where
  value : Option Value
  exported : Bool
  readOnly : Bool
  /-- Is what the variable is set to an expression to be computed? -/
  computed : Bool

namespace Variable

/-- A variable that holds nothing yet. -/
def blank : Variable := ⟨none, false, false, false⟩

def ofText (text : String) : Variable := { blank with value := some (.text text) }

/-- The text of a variable; that of a list is its first element. -/
def text? (v : Variable) : Option String :=
  match v.value with
  | some (.text t) => some t
  | some (.elements _ items) => items.get? "0"
  | none => none

end Variable

/-- What an open descriptor leads to. -/
inductive Channel
  /-- Text that is still to be read. -/
  | source (text : List Char)
  /-- Texts that have been written, newest first. -/
  | sink (texts : List (List Char))
  | file (id : FileId) (offset : Nat) (appends : Bool)
  /-- A directory, which can be opened but not read. -/
  | directory

/-- The part of the state that a subshell has a copy of. -/
structure Process where
  name : String
  args : List String
  vars : Table String Variable
  /-- The bodies of functions. -/
  functions : Table String Command
  /-- The channels of the open descriptors. -/
  descriptors : Table Nat Nat
  /-- The working directory, empty or with a slash at its end. -/
  directory : String
  /-- The status of the last command, and of the last one whose output was put into a word. -/
  status : Nat
  inserted : Nat
  /-- The line of the command being run, and what it was read from if not the script itself. -/
  line : Nat
  context : String
  /-- The file that commands are read from, if it is not the script itself. -/
  source : String
  /-- The letters of the options that are set. -/
  options : List Char
  loops : Nat
  /-- What the local variables hide, if a function is being run. -/
  hidden : Option (List (String × Option Variable))
  /-- The statuses of the commands that were run in the background. -/
  jobs : List Nat
  /-- The commands to run at the end. -/
  atEnd : String
  /-- How far `getopts` has come in an argument with several options. -/
  optionOffset : Nat
  dialect : Dialect
  /-- The options without letters that are set. -/
  switches : List String
  /-- The statuses of the commands of the last pipe. -/
  statuses : List Nat

structure Machine where
  files : Files
  channels : Array Channel
  process : Process

/-- Why the commands that follow are not run. -/
inductive Jump
  | leave
  | leaveLoops (count : Nat)
  | nextRound (count : Nat)
  | leaveFunction
  /-- Give up the commands on this line of the script. -/
  | leaveLine
  /-- Leave all shells that have copies of this process. -/
  | die
  deriving DecidableEq, Repr

abbrev Action : Type → Type := ExceptT Jump (StateM Machine)

/-! ### The process -/

def process : Action Process := return (← get).process

def change (f : Process → Process) : Action Unit :=
  modify fun m => { m with process := f m.process }

def setStatus (status : Nat) : Action Unit := change fun p => { p with status }

def isSet (option : Char) : Action Bool := return (← process).options.contains option

def isExtended : Action Bool := return (← process).dialect = .extended

/-- The one text in the plain dialect, the other in the extended one. -/
def byDialect (plain extended : String) : Action String :=
  return if ← isExtended then extended else plain

/-- The path that a name stands for. -/
def Process.path (p : Process) (name : String) : String :=
  Text.ofByteText (if name.startsWith "/" then name else p.directory ++ name).toList

/-! ### Channels -/

/-- Open a new channel. -/
def openChannel (channel : Channel) : Action Nat := do
  let m ← get
  set { m with channels := m.channels.push channel }
  return m.channels.size

def connect (descriptor channel : Nat) : Action Unit :=
  change fun p => { p with descriptors := p.descriptors.insert descriptor channel }

def disconnect (descriptor : Nat) : Action Unit :=
  change fun p => { p with descriptors := p.descriptors.erase descriptor }

def Machine.content (m : Machine) (id : FileId) : ByteArray :=
  ((m.files.file? id).map (·.content)).getD .empty

/-- What is left to be read on a channel. -/
def Machine.remaining (m : Machine) (channel : Nat) : List Char :=
  match m.channels[channel]? with
  | some (.source text) => text
  | some (.file id offset _) =>
    let content := m.content id
    Text.ofBytes (content.extract offset content.size).toList
  | _ => []

/-- No more than `count` characters of what is left to be read, and whether there are more. -/
def Machine.ahead (m : Machine) (channel count : Nat) : List Char × Bool :=
  match m.channels[channel]? with
  | some (.source text) => (text.take count, !(text.drop count).isEmpty)
  | some (.file id offset _) =>
    let content := m.content id
    (Text.ofBytes (content.extract offset (offset + count)).toList, offset + count < content.size)
  | _ => ([], false)

/-- Go on by `count` characters. -/
def Machine.skip (m : Machine) (channel count : Nat) : Machine :=
  match m.channels[channel]? with
  | some (.source text) =>
    { m with channels := m.channels.setIfInBounds channel (.source (text.drop count)) }
  | some (.file id offset appends) =>
    { m with channels := m.channels.setIfInBounds channel (.file id (offset + count) appends) }
  | _ => m

/-- Leave no more than `rest` to be read on a channel. -/
def Machine.leaveOver (m : Machine) (channel : Nat) (rest : List Char) : Machine :=
  match m.channels[channel]? with
  | some (.source _) => { m with channels := m.channels.setIfInBounds channel (.source rest) }
  | some (.file id _ appends) =>
    let offset := (m.content id).size - rest.length
    { m with channels := m.channels.setIfInBounds channel (.file id offset appends) }
  | _ => m

/-- What has been written on a channel that is no file. -/
def Machine.written (m : Machine) (channel : Nat) : List Char :=
  match m.channels[channel]? with
  | some (.sink texts) => texts.reverse.flatten
  | _ => []

/-- Write on a channel. Was there a fault? -/
def Machine.write (m : Machine) (channel : Nat) (text : List Char) : Option FileFault × Machine :=
  match m.channels[channel]? with
  | some (.sink texts) =>
    (none, { m with channels := m.channels.setIfInBounds channel (.sink (text :: texts)) })
  | some (.file id offset appends) =>
    let offset := if appends then (m.content id).size else offset
    let bytes : ByteArray := ⟨(Text.toBytes text).toArray⟩
    let (written, files) := m.files.writeAt id offset bytes
    let channel' := .file id (offset + written.count) appends
    (written.fault, { m with files, channels := m.channels.setIfInBounds channel channel' })
  | _ => (some .badDescriptor, m)

def channel? (descriptor : Nat) : Action (Option Nat) :=
  return (← process).descriptors.get? descriptor

def readable (descriptor : Nat) : Action (List Char) := do
  let m ← get
  return ((← channel? descriptor).map m.remaining).getD []

def leaveReadable (descriptor : Nat) (rest : List Char) : Action Unit := do
  if let some channel ← channel? descriptor then modify fun m => m.leaveOver channel rest

/-- Write on a descriptor. Was there a fault? -/
def tryWrite (descriptor : Nat) (text : List Char) : Action (Option FileFault) := do
  match ← channel? descriptor with
  | none => return some .badDescriptor
  | some channel =>
    let (fault, m) := (← get).write channel text
    set m
    return fault

/-- Write as far as that is possible. -/
def write (descriptor : Nat) (text : List Char) : Action Unit := do
  let _ ← tryWrite descriptor text

/-! ### Complaints -/

/-- What stands in front of every complaint. -/
def Process.origin (p : Process) : String :=
  let file := if p.source == "" then p.name else p.source
  match p.dialect with
  | .plain => s!"{p.name}: {p.line}"
  | .extended => s!"{file}: line {p.line}"

def complain (text : String) : Action Unit := do
  let p ← process
  let context := if p.context == "" then "" else p.context ++ ": "
  write 2 s!"{p.origin}: {context}{text}\n".toList

/-- Complain about the call of a command of the shell. -/
def complainOf (name text : String) : Action Unit := do
  write 2 s!"{(← process).origin}: {name}: {text}\n".toList

/-- Write the output of a command of the shell, which fails if the output is not taken. -/
def print (name : String) (text : List Char) : Action Unit := do
  setStatus 0
  if !text.isEmpty then
    if let some fault ← tryWrite 1 text then
      complainOf name (← byDialect s!"{name}: I/O error" s!"write error: {fault.reason}")
      setStatus 1

/-- Complain and leave the shell. -/
def failWholly {α : Type} (text : String) : Action α := do
  complain text
  setStatus (if ← isExtended then 1 else 2)
  throw .leave

/-- Complain and leave the shell or, in the extended dialect, the line of the script. -/
def fail {α : Type} (text : String) : Action α := do
  if ← isExtended then
    complain text
    setStatus 1
    throw .leaveLine
  else failWholly text

/-! ### Redirections -/

/-- The complaint about a file that cannot be opened or, if `makes`, cannot be made. -/
def Process.fileComplaint (p : Process) (makes : Bool) (name : String) (fault : FileFault) :
    String :=
  match p.dialect, makes, fault with
  | .extended, _, fault => s!"{name}: {fault.reason}"
  | .plain, false, .notFound | .plain, false, .notDirectory => s!"cannot open {name}: No such file"
  | .plain, false, fault => s!"cannot open {name}: {fault.reason}"
  | .plain, true, .notFound | .plain, true, .notDirectory =>
    s!"cannot create {name}: Directory nonexistent"
  | .plain, true, fault => s!"cannot create {name}: {fault.reason}"

/-- Open a file by its name: the channel it leads to, or a complaint. -/
def openNamed (kind : RedirectionKind) (name : String) : Action (Except String Nat) := do
  let m ← get
  let path := m.process.path name
  let create (made : Except FileFault (FileId × Files)) (appends : Bool) :
      Action (Except String Nat) :=
    match made with
    | .ok (id, files) => do
      modify fun m => { m with files }
      return .ok (← openChannel (.file id 0 appends))
    | .error fault => return .error (m.process.fileComplaint true name fault)
  match (m.files.descriptor? path).bind m.process.descriptors.get? with
  | some channel => return .ok channel
  | none =>
    match kind with
    | .write => create (m.files.create path) false
    | .append => create (m.files.provide path) true
    | .readWrite => create (m.files.provide path) false
    | _ =>
      match m.files.locate path with
      | .error fault => return .error (m.process.fileComplaint false name fault)
      | .ok place =>
        match m.files.idAt? place with
        | some id => return .ok (← openChannel (.file id 0 false))
        | none =>
          if m.files.isDirectoryAt place then return .ok (← openChannel .directory)
          else return .error (m.process.fileComplaint false name .notFound)

/-- Make a redirection whose target has been expanded. Is there a complaint? -/
def redirect (descriptor : Nat) (kind : RedirectionKind) (target : String) :
    Action (Option String) := do
  match kind with
  | .document _ =>
    connect descriptor (← openChannel (.source target.toList))
    return none
  | .line =>
    connect descriptor (← openChannel (.source (target.toList ++ ['\n'])))
    return none
  | .duplicate =>
    if target == "-" then
      disconnect descriptor
      return none
    else match Text.decimal? target.toList with
      | some n =>
        match ← channel? n with
        | some channel =>
          connect descriptor channel
          return none
        | none => return some s!"{target}: Bad file descriptor"
      | none =>
        if ← isExtended then
          match ← openNamed .write target with
          | .ok channel =>
            connect 1 channel
            connect 2 channel
            return none
          | .error complaint => return some complaint
        else fail s!"Syntax error: Bad fd number"
  | kind =>
    match ← openNamed kind target with
    | .ok channel =>
      connect descriptor channel
      return none
    | .error complaint => return some complaint

/-! ### Tools -/

/-- What a tool is given when it is run here; it may not be one that reads its input. -/
def job (readsInput : Bool) (name : String) (args : List String) : Action Tool.Job := do
  let m ← get
  let input := (← channel? 0).bind (m.channels[·]?)
  let target := match (← channel? 1).bind (m.channels[·]?) with
    | some (.file id offset appends) =>
      some (id, if appends then (m.content id).size else offset)
    | _ => none
  return {
    name, args, target
    input := ← if readsInput then readable 0 else pure []
    inputFault := match input with
      | none => some .badDescriptor
      | some .directory => some .isDirectory
      | some _ => none
    seekable := input matches some (.file ..)
    files := m.files
    directory := m.process.directory }

/-- Take over what a tool did, apart from its reading. Its output may not be taken, and then it says
`failure`. -/
def takeOutput (failure : FileFault → String × Nat) (effect : Tool.Effect) : Action Unit := do
  modify fun m => { m with files := effect.files }
  write 2 effect.errors
  setStatus effect.status
  if !effect.output.isEmpty then
    if let some fault ← tryWrite 1 effect.output then
      let (complaint, status) := failure fault
      write 2 s!"{complaint}\n".toList
      setStatus status

/-- Take over all that a tool did. -/
def take (failure : FileFault → String × Nat) (effect : Tool.Effect) : Action Unit := do
  leaveReadable 0 effect.rest
  takeOutput failure effect

end LayeredSets.Shell
