import LayeredSets.Text.Blank
import LayeredSets.Tool.Basic

/-!
# Conditions

Conditions on texts, numbers and files, as arguments of the `test` tool. A condition that cannot be
read is an error of its own.
-/

namespace LayeredSets.Tool.Test

def isUnary (op : String) : Bool :=
  ["-n", "-z", "-e", "-f", "-d", "-s", "-r", "-w", "-x", "-L", "-h", "-t", "-p", "-b", "-c",
    "-u", "-g", "-k", "-S", "-O", "-G"].contains op

def isBinary (w : Wording) (op : String) : Bool :=
  op == "==" && w ≠ .plain ||
    ["=", "!=", "<", ">", "-eq", "-ne", "-lt", "-le", "-gt", "-ge", "-nt", "-ot", "-ef"].contains op

def node? (job : Job) (name : String) : Option Node := do
  let place ← (job.files.locate (job.path name)).toOption
  job.files.node? place

def unary (job : Job) (op arg : String) : Bool :=
  let node := node? job arg
  match op, node with
  | "-n", _ => arg != ""
  | "-z", _ => arg == ""
  | "-e", n | "-r", n | "-w", n => n.isSome
  | "-f", some (.file f) => !f.device
  | "-c", some (.file f) => f.device
  | "-d", some .directory => true
  | "-s", some (.file f) => f.content.size != 0
  | "-s", some .directory => true
  | "-x", some (.file f) => f.executable
  | "-x", some .directory => true
  | "-O", n | "-G", n => n.isSome
  | _, _ => false

def number (w : Wording) (text : String) : Except String Int :=
  let complaint :=
    if w = .extended then s!"{text}: integer expression expected" else s!"Illegal number: {text}"
  match integer? (Text.trim text) with
  | some n => if 2 * n.natAbs < UInt64.size then .ok n else .error complaint
  | none => .error complaint

def binary (w : Wording) (left op right : String) : Except String Bool :=
  let numbers (f : Int → Int → Bool) : Except String Bool := do
    return f (← number w left) (← number w right)
  match op with
  | "=" | "==" => .ok (left == right)
  | "!=" => .ok (left != right)
  | "<" => .ok (left < right)
  | ">" => .ok (right < left)
  | "-eq" => numbers (· == ·)
  | "-ne" => numbers (· != ·)
  | "-lt" => numbers fun a b => a < b
  | "-le" => numbers fun a b => a ≤ b
  | "-gt" => numbers fun a b => b < a
  | "-ge" => numbers fun a b => b ≤ a
  | _ => .ok false

mutual

def either (w : Wording) (job : Job) : Nat → List String → Except String (Bool × List String)
  | 0, args => .ok (false, args)
  | fuel + 1, args => do
    let (left, rest) ← both w job fuel args
    match rest with
    | "-o" :: rest =>
      let (right, rest) ← either w job fuel rest
      return (left || right, rest)
    | rest => return (left, rest)

def both (w : Wording) (job : Job) : Nat → List String → Except String (Bool × List String)
  | 0, args => .ok (false, args)
  | fuel + 1, args => do
    let (left, rest) ← negation w job fuel args
    match rest with
    | "-a" :: rest =>
      let (right, rest) ← both w job fuel rest
      return (left && right, rest)
    | rest => return (left, rest)

def negation (w : Wording) (job : Job) : Nat → List String → Except String (Bool × List String)
  | 0, args => .ok (false, args)
  | fuel + 1, args =>
    match args with
    | "!" :: arg :: rest => do
      let (b, rest) ← negation w job fuel (arg :: rest)
      return (!b, rest)
    | args => primary w job fuel args

/-- A single condition. An operator between two arguments wins over everything else. -/
def primary (w : Wording) (job : Job) : Nat → List String → Except String (Bool × List String)
  | 0, args => .ok (false, args)
  | fuel + 1, args =>
    match args with
    | left :: op :: right :: rest =>
      if isBinary w op then do return (← binary w left op right, rest)
      else if left == "(" then group w job fuel (op :: right :: rest)
      else if isUnary left then .ok (unary job left op, right :: rest)
      else .ok (left != "", op :: right :: rest)
    | [left, arg] =>
      if isUnary left then .ok (unary job left arg, [])
      else if isBinary w arg then
        .error (if w = .extended then s!"{left}: unary operator expected"
          else s!"{arg}: argument expected")
      else .ok (left != "", [arg])
    | [arg] => .ok (arg != "", [])
    | [] => .ok (false, [])

def group (w : Wording) (job : Job) : Nat → List String → Except String (Bool × List String)
  | 0, args => .ok (false, args)
  | fuel + 1, args => do
    let (b, rest) ← either w job fuel args
    match rest with
    | ")" :: rest => return (b, rest)
    | _ => throw "closing paren expected"

end

/-- What is wrong if a condition goes on behind its end. -/
def leftOver (w : Wording) (args rest : List String) : String :=
  match w, args with
  | .extended, [first, _] => s!"{first}: unary operator expected"
  | .extended, [_, second, _] => s!"{second}: binary operator expected"
  | .extended, _ => "too many arguments"
  | _, _ =>
    let last := (args[args.length - rest.length - 1]?).getD ""
    s!"{last}: unexpected operator"

def holds (w : Wording) (job : Job) (args : List String) : Except String Bool := do
  let (b, rest) ← either w job (5 * args.length + 5) args
  if rest.isEmpty then return b else throw (leftOver w args rest)

end Test

/-- Is a condition true? Status 1 tells that it is not, status 2 that it cannot be read. -/
def test (w : Wording) (job : Job) : Effect :=
  let args :=
    if job.name.endsWith "[" then
      if job.args.getLast? == some "]" then some job.args.dropLast else none
    else some job.args
  match args with
  | none =>
    job.complains 2 <| match w with
      | .plain => "missing ]"
      | .extended => "missing \x60]'"
      | .tool => "missing ']'"
  | some args =>
    match Test.holds w job args with
    | .ok b => job.ends (if b then 0 else 1)
    | .error complaint => job.complains 2 complaint

end LayeredSets.Tool
