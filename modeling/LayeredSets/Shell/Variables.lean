import LayeredSets.Shell.Arithmetic
import LayeredSets.Shell.Machine
import LayeredSets.Shell.Reference

/-!
# Variables and parameters

How variables are looked up and set, the elements of lists among them, and the values of the
parameters that have no variable.
-/

namespace LayeredSets.Shell

/-- The variables that every shell starts with. -/
def shellVariables : Table String Variable :=
  ⟨[("IFS", " \t\n"), ("OPTIND", "1"), ("PS4", "+ ")].map fun (name, value) =>
    (name, .ofText value)⟩

/-- The variables that a shell of the extended dialect has besides. -/
def extendedVariables : List (String × String) :=
  [("BASH", "/bin/bash"), ("BASH_VERSION", "5.2.21(1)-release"), ("EUID", "0"),
    ("HOSTTYPE", "x86_64"), ("MACHTYPE", "x86_64-pc-linux-gnu"), ("OPTERR", "1"),
    ("OSTYPE", "linux-gnu"), ("SHLVL", "1"), ("UID", "0")]

/-- The parts of the version that such a shell tells. -/
def shellVersion : List String := ["5", "2", "21", "1", "release", "x86_64-pc-linux-gnu"]

/-- The variables that the first program is given. -/
def environment : Table String Variable :=
  ⟨[("PATH", ".:/usr/local/sbin:/usr/local/bin:/usr/sbin:/usr/bin:/sbin:/bin"),
    ("HOME", "/root")].map fun (name, value) =>
      (name, { Variable.ofText value with exported := true })⟩

/-- The number that stands for every process. Those in the background have the next ones. -/
def processNumber : Nat := 4096

/-! ### Elements of lists -/

/-- The elements of a list in order: by number, or else as they were set. -/
def Value.inOrder : Value → List (String × String)
  | .text t => [("0", t)]
  | .elements true items => items.entries.reverse
  | .elements false items =>
    let number (key : String) : Nat := Text.digitsIn 10 key.toList
    items.entries.mergeSort fun a b => number a.1 ≤ number b.1

/-- The elements of a list that has been made at once. -/
def Value.ofList (items : List String) : Value :=
  .elements false ⟨items.zipIdx.map fun (item, i) => (toString i, item)⟩

/-- The value of a variable, or of one that the shell keeps itself. -/
def Process.value? (p : Process) (name : String) : Option Value :=
  if name == "PIPESTATUS" && p.dialect = .extended then
    some (.ofList (p.statuses.map toString))
  else (p.vars.get? name).bind (·.value)

/-- The elements of a list with their keys; those of a text are the text itself. -/
def Process.elements (p : Process) (name : String) : List (String × String) :=
  ((p.value? name).map (·.inOrder)).getD []

def Process.isKeyed (p : Process) (name : String) : Bool :=
  match p.value? name with
  | some (.elements keyed _) => keyed
  | _ => false

/-- The text of a variable, or of its element with a key. -/
def Process.text? (p : Process) (name : String) (key : Option String) : Option String :=
  match p.value? name, key with
  | some (.text t), none => some t
  | some (.text t), some key => if key == "0" then some t else none
  | some (.elements _ items), key => items.get? (key.getD "0")
  | none, _ => none

/-! ### Looking up and setting -/

def valueOf? (name : String) : Action (Option String) := return (← process).text? name none

/-- The value of a parameter other than the list of all. -/
def parameter? (name : String) : Action (Option String) := do
  let p ← process
  match name, p.dialect with
  | "#", _ => return some (toString p.args.length)
  | "?", _ => return some (toString p.status)
  | "-", _ => return some (String.ofList p.options)
  | "$", _ | "BASHPID", .extended => return some (toString processNumber)
  | "!", _ =>
    return some (if p.jobs.isEmpty then "" else toString (processNumber + p.jobs.length))
  | "0", _ => return some p.name
  | "LINENO", .extended => return some (toString p.line)
  | "SECONDS", .extended => return some "0"
  | "RANDOM", .extended => return some "4"
  | name, _ =>
    if name.toList.all Char.isDigit then
      return p.args[Text.digitsIn 10 name.toList - 1]?
    else return p.text? name none

/-- The characters that separate fields. -/
def separators : Action (List Char) :=
  return ((← valueOf? "IFS").getD " \t\n").toList

/-- Let a variable or its element with a key hold a text. -/
def Variable.withText (v : Variable) (key : Option String) (text : String) : Variable :=
  let items := match v.value with
    | some (.elements keyed items) => some (keyed, items)
    | some (.text t) => if key.isSome then some (false, ⟨[("0", t)]⟩) else none
    | none => if key.isSome then some (false, .empty) else none
  { v with value := some <| match items with
      | some (keyed, items) => .elements keyed (items.insert (key.getD "0") text)
      | none => .text text }

/-- Change a variable, unless it is read only. -/
def changeVariable (name : String) (f : Variable → Variable) : Action Unit := do
  let old := ((← process).vars.get? name).getD .blank
  if old.readOnly then
    fail (← byDialect s!"{name}: is read only" s!"{name}: readonly variable")
  else change fun p => { p with vars := p.vars.insert name (f old) }

/-- Set a variable or an element to a text as it is. -/
def put (name : String) (key : Option String) (text : String) : Action Unit := do
  let marks ← isSet 'a'
  changeVariable name fun v =>
    { v.withText key text with exported := v.exported || marks }

/-- The value of an expression, or the complaint about it. Its variables are set on the way. -/
def tryEvaluate (text : List Char) : Action (Except String Int) := do
  let p ← process
  let scope : Arithmetic.Scope :=
    { dialect := p.dialect
      text := fun name key => (p.text? name key).getD ""
      isKeyed := p.isKeyed }
  match Arithmetic.value scope text with
  | .error f =>
    return .error (match p.dialect with
      | .plain => Arithmetic.plainMessage text f.fault
      | .extended => Arithmetic.extendedMessage text f)
  | .ok (n, settings) =>
    for ((name, key), value) in settings.reverse do put name key (toString value)
    return .ok n

/-- The value of an expression. -/
def evaluate (text : List Char) : Action Int := do
  match ← tryEvaluate text with
  | .ok n => return n
  | .error complaint => fail complaint

/-- Set a variable or an element to a text, or to its value if the variable asks for that. -/
def assignAt (name : String) (key : Option String) (text : String) : Action Unit := do
  if ((← process).vars.get? name).any (·.computed) then
    put name key (toString (← evaluate text.toList))
  else put name key text

def assign (name text : String) : Action Unit := assignAt name none text

/-- Let a variable hold elements. -/
def assignElements (name : String) (keyed : Bool) (items : List (String × String)) :
    Action Unit :=
  changeVariable name fun v => { v with value := some (.elements keyed ⟨items.reverse⟩) }

/-- The key of the element of a list that an expanded index stands for. Numbers below zero count
from the end of the list. -/
def keyOf (name index : String) : Action String := do
  let p ← process
  if p.isKeyed name then return index
  else
    let n ← evaluate index.toList
    if 0 ≤ n then return toString n
    else
      let last := ((p.elements name).getLast?.bind fun (key, _) => Text.decimal? key.toList)
      return toString (n + ((last.map (· + 1)).getD 0 : Nat))

end LayeredSets.Shell
