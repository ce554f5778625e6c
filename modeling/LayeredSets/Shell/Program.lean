import LayeredSets.Shell.Machine
import LayeredSets.Tool.Catalog

/-!
# Looking programs up

A name with a slash is a path; any other name is looked for in the working directory and then among
the tools of the system.
-/

namespace LayeredSets.Shell

inductive Program
  | tool (name : String)
  /-- An executable file and its content. -/
  | executable (path : String) (text : List Char)

/-- Why a program cannot be run. -/
inductive Missing
  | notFound
  | notPermitted
  deriving DecidableEq, Repr

namespace Missing

def status : Missing → Nat
  | notFound => 127
  | notPermitted => 126

/-- How a shell puts it. -/
def message : Missing → String
  | notFound => "not found"
  | notPermitted => "Permission denied"

/-- How other tools put it. -/
def reason : Missing → String
  | notFound => "No such file or directory"
  | notPermitted => "Permission denied"

end Missing

namespace Program

/-- The program that a path leads to; `directory` is where relative paths start. -/
def atPath (files : Files) (directory path : String) : Except Missing Program :=
  match Tool.atPath? path with
  | some name => .ok (.tool name)
  | none =>
    let full := if path.startsWith "/" then path else directory ++ path
    match files.locate (Text.ofByteText full.toList) with
    | .error _ => .error .notFound
    | .ok place =>
      match files.node? place with
      | none => .error .notFound
      | some .directory => .error .notPermitted
      | some (.file f) =>
        if f.executable then .ok (.executable path (Text.ofBytes f.content.toList))
        else .error .notPermitted

/-- The programs that a name can stand for, the first of which is preferred. -/
def candidates (files : Files) (directory name : String) : List Program × Missing :=
  let here := atPath files directory (if name.toList.contains '/' then name else "./" ++ name)
  let tools :=
    if !name.toList.contains '/' && Tool.isKnown name then [Program.tool name] else []
  match if name == "" then .error .notPermitted else here with
  | .ok program => (program :: tools, .notFound)
  | .error missing => (tools, missing)

/-- The interpreter that the first line of a text names, with one argument if there is more. -/
def interpreter? (text : List Char) : Option (String × List String) :=
  match text with
  | '#' :: '!' :: rest =>
    let isBlank (c : Char) : Bool := c == ' ' || c == '\t'
    let line := (rest.takeWhile (· != '\n')).dropWhile isBlank
    let line := (line.reverse.dropWhile isBlank).reverse
    let path := line.takeWhile (!isBlank ·)
    let argument := (line.dropWhile (!isBlank ·)).dropWhile isBlank
    some (String.ofList path, if argument.isEmpty then [] else [String.ofList argument])
  | _ => none

/-- A program that can be started, with the name and the arguments it is given. -/
inductive Start
  | tool (called name : String) (args : List String)
  /-- A text without an interpreter, which only a shell can run. -/
  | script (path : String) (text : List Char) (args : List String)

/-- What starting a program comes to once the interpreters of texts have been looked up, which may
be texts themselves. -/
def start? (files : Files) (directory called : String) :
    Nat → List String → Program → Option Start
  | 0, _, _ => none
  | fuel + 1, args, program =>
    match program with
    | tool name => some (.tool called name args)
    | executable path text =>
      match interpreter? text with
      | none => some (.script path text args)
      | some (interpreter, argument) =>
        match atPath files directory interpreter with
        | .ok program =>
          start? files directory interpreter fuel (argument ++ path :: args) program
        | .error _ => none

/-- How many interpreters may interpret each other. -/
def interpreterDepth : Nat := 6

/-- How the program called `name` is started, or why it cannot be. -/
def find (files : Files) (directory name : String) (args : List String) : Except Missing Start :=
  let (programs, missing) := candidates files directory name
  match programs.filterMap (start? files directory name interpreterDepth args) with
  | start :: _ => .ok start
  | [] => .error missing

end Program
end LayeredSets.Shell
