import LayeredSets.Tool.Basic

/-!
# The options of tools

Which options a tool knows, by letter and by name. Arguments are checked against them and brought
into one form: letters with their values first, and then the operands.
-/

namespace LayeredSets.Tool

/-- Where the value of an option stands. -/
inductive ValuePlace
  | nowhere
  /-- In the same argument, or else in the next. -/
  | behind
  /-- In the same argument, if there is one. -/
  | attached
  deriving DecidableEq, Repr

/-- An option, by its letter, its name or both. -/
structure Choice where
  letter : Option Char
  name : String
  value : ValuePlace

namespace Choice

/-- An option without a value. -/
def flag (letter : Char) (name : String) : Choice := ⟨some letter, name, .nowhere⟩

/-- An option with a value. -/
def valued (letter : Char) (name : String) : Choice := ⟨some letter, name, .behind⟩

/-- An option that may have a value. -/
def optional (letter : Char) (name : String) : Choice := ⟨some letter, name, .attached⟩

/-- Options that have letters only. -/
def letters (text : String) : List Choice := text.toList.map fun c => ⟨some c, "", .nowhere⟩

/-- Options that have names only. -/
def names (list : List String) : List Choice := list.map fun name => ⟨none, name, .attached⟩

/-- How the option is written in an argument. -/
def written (c : Choice) : String :=
  match c.letter with
  | some letter => "-" ++ letter.toString
  | none => "--" ++ c.name

end Choice

structure Usage where
  choices : List Choice
  /-- The letter whose value a number is that stands for an option. -/
  ofNumber : Option Char
  /-- The status of a call that cannot be understood. -/
  misused : Nat

namespace Usage

/-- The options that every tool has. -/
def common : List Choice := ["help", "version"].map fun name => ⟨none, name, .nowhere⟩

/-- The option that a name or the beginning of one stands for. -/
def named (u : Usage) (given : String) : Except String Choice :=
  let all := (u.choices ++ common).filter (·.name != "")
  match all.find? (·.name == given) with
  | some c => .ok c
  | none =>
    match all.filter (·.name.startsWith given) with
    | [c] => .ok c
    | [] => .error s!"unrecognized option '--{given}'"
    | several =>
      let list := " ".intercalate (several.map fun c => s!"'--{c.name}'")
      .error s!"option '--{given}' is ambiguous; possibilities: {list}"

/-- Arguments in their one form. -/
structure Call where
  options : List String
  operands : List String

def Call.withOption (c : Call) (options : List String) : Call :=
  { c with options := options ++ c.options }

/-- The options in a cluster of letters, and whether the last takes its value from the next
argument. -/
def cluster (u : Usage) : List Char → Except String (List String × Option Char)
  | [] => .ok ([], none)
  | c :: rest =>
    match u.choices.find? (·.letter == some c) with
    | none => .error s!"invalid option -- '{c}'"
    | some choice =>
      match choice.value with
      | .behind =>
        if rest.isEmpty then .ok ([choice.written], some c)
        else .ok ([choice.written, String.ofList rest], none)
      | .attached => .ok ([choice.written], none)
      | .nowhere => do
        let (others, open?) ← cluster u rest
        return (choice.written :: others, open?)

/-- What a single argument says. -/
inductive Argument
  | operand
  | options (written : List String)
  /-- Options whose last takes its value from the next argument. -/
  | awaiting (written : List String) (complaint : String)

def argument (u : Usage) (arg : String) : Except String Argument := do
  match arg.toList with
  | '-' :: '-' :: cs =>
    let given := String.ofList (cs.takeWhile (· != '='))
    let c ← u.named given
    let value? := if cs.contains '=' then some (String.ofList (cs.drop (given.length + 1)))
      else none
    match c.value, value? with
    | .behind, some v => return .options [c.written, v]
    | .behind, none => return .awaiting [c.written] s!"option '--{c.name}' requires an argument"
    | .nowhere, some _ => throw s!"option '--{c.name}' doesn't allow an argument"
    | .attached, some v =>
      return .options [if c.letter.isSome then c.written else s!"--{c.name}={v}"]
    | _, none => return .options [c.written]
  | '-' :: c :: cs =>
    match if (c :: cs).all Char.isDigit then u.ofNumber else none with
    | some letter => return .options ["-" ++ letter.toString, String.ofList (c :: cs)]
    | none =>
      match ← u.cluster (c :: cs) with
      | (written, none) => return .options written
      | (written, some letter) =>
        return .awaiting written s!"option requires an argument -- '{letter}'"
  | _ => return .operand

/-- Bring arguments into their one form. -/
def parse (u : Usage) : List String → Except String Call
  | [] => .ok ⟨[], []⟩
  | arg :: rest =>
    if arg == "--" then .ok ⟨[], rest⟩
    else
      match u.argument arg with
      | .error complaint => .error complaint
      | .ok .operand => do
        let call ← parse u rest
        return { call with operands := arg :: call.operands }
      | .ok (.options written) => return (← parse u rest).withOption written
      | .ok (.awaiting written complaint) =>
        match rest with
        | [] => .error complaint
        | v :: rest => return (← parse u rest).withOption (written ++ [v])

end Usage

/-- Complain about a call that cannot be understood. -/
def Job.misused (job : Job) (status : Nat) (complaint : String) : Effect :=
  { job.ends status with
    errors := s!"{job.name}: {complaint}\nTry '{job.name} --help' for more information.\n".toList }

/-- Run a tool on arguments in their one form, if they can be understood. -/
def Usage.run (u : Usage) (tool : Job → Effect) (job : Job) : Effect :=
  match u.parse job.args with
  | .error complaint => job.misused u.misused complaint
  | .ok call => tool { job with args := call.options ++ "--" :: call.operands }

end LayeredSets.Tool
