import LayeredSets.Host.Files
import LayeredSets.Text.Bytes
import LayeredSets.Text.Numeral

/-!
# Tools

What every tool of the command line has in common. A tool is given arguments, the input that has
not been read yet, and the files; it prints, complains, ends with a status, and leaves the rest of
the input and the files as they are then. Arguments and data are texts of bytes.
-/

namespace LayeredSets

namespace Tool

structure Job where
  /-- The name that the tool was called by. -/
  name : String
  args : List String
  input : List Char
  /-- Why the input cannot be read, if it cannot. -/
  inputFault : Option FileFault
  /-- Is the input a file, so that what was read too far can be given back? -/
  seekable : Bool
  /-- The file that takes the output, and how much of it comes before the output. -/
  target : Option (FileId × Nat)
  files : Files
  /-- The directory that relative paths start from, empty or with a slash at its end. -/
  directory : String

structure Effect where
  output : List Char
  errors : List Char
  status : Nat
  /-- What is left of the input. -/
  rest : List Char
  files : Files

namespace Job

/-- End with a status and nothing else. -/
def ends (job : Job) (status : Nat) : Effect := ⟨[], [], status, job.input, job.files⟩

def prints (job : Job) (output : List Char) : Effect := { job.ends 0 with output }

def printsText (job : Job) (output : String) : Effect := job.prints output.toList

/-- End with a complaint under the tool's name. -/
def complains (job : Job) (status : Nat) (complaint : String) : Effect :=
  { job.ends status with errors := s!"{job.name}: {complaint}\n".toList }

/-- The path that a name in an argument stands for. -/
def path (job : Job) (name : String) : String :=
  Text.ofByteText (if name.startsWith "/" then name else job.directory ++ name).toList

/-- The descriptor that a name leads to. -/
def descriptor? (job : Job) (name : String) : Option Nat :=
  job.files.descriptor? (job.path name)

/-- The content of a file. -/
def read (job : Job) (name : String) : Except FileFault (List Char) := do
  if job.descriptor? name = some 0 then return job.input
  let bytes ← (← job.files.open? (job.path name))
  return Text.ofBytes bytes.toList

end Job

/-- What stands in the files that a tool was told to read. -/
structure Sources where
  /-- The contents with the names they go by. -/
  contents : List (String × List Char)
  errors : List Char
  rest : List Char

/-- Read the named files. A dash, or no name at all, stands for the input. -/
def Job.sources (job : Job) (complaint : String → FileFault → String) (names : List String) :
    Sources :=
  (if names.isEmpty then ["-"] else names).foldl
    (fun s name =>
      let isInput : Bool := name == "-" || job.descriptor? name = some 0
      if isInput && job.inputFault.isNone then
        ⟨s.contents ++ [(name, s.rest)], s.errors, []⟩
      else match if isInput then .error (job.inputFault.getD .badDescriptor) else job.read name with
        | .ok content => { s with contents := s.contents ++ [(name, content)] }
        | .error fault =>
          { s with errors := s.errors ++ s!"{job.name}: {complaint name fault}\n".toList })
    ⟨[], [], job.input⟩

/-- Is there a directory of this name? -/
def Job.isDirectory (job : Job) (name : String) : Bool :=
  (job.files.locate (job.path name)).toOption.any job.files.isDirectoryAt

/-- What was read from the named files, and the directories among them as files without content. -/
def Job.withDirectories (job : Job) :
    List String → List (String × List Char) → List (String × List Char)
  | [], contents => contents
  | name :: names, contents =>
    if job.isDirectory name then (name, []) :: job.withDirectories names contents
    else match contents with
      | (read, content) :: rest =>
        if read == name then (read, content) :: job.withDirectories names rest
        else job.withDirectories names contents
      | [] => job.withDirectories names []

/-- The usual complaint about a file. -/
def plainComplaint (name : String) (fault : FileFault) : String := s!"{name}: {fault.reason}"

/-- Print what `f` makes of the sources; a source that could not be read makes the status 1. -/
def Job.printsFrom (job : Job) (sources : Sources) (output : List Char) : Effect :=
  ⟨output, sources.errors, if sources.errors.isEmpty then 0 else 1, sources.rest, job.files⟩

/-- What a tool says when its output is not taken, and the status it ends with. -/
def writeFailure (tool : String) (fault : FileFault) : String × Nat :=
  let usual := s!"write error: {fault.reason}"
  match tool, fault with
  | "awk", _ => (s!"close failed on file \"/dev/stdout\" ({fault.reason})", 2)
  | "cat", .badDescriptor => (s!"standard output: {fault.reason}", 1)
  | "sed", .badDescriptor => (s!"couldn't close stdout: {fault.reason}", 4)
  | "sed", _ => (s!"couldn't flush stdout: {fault.reason}", 4)
  | "sort", _ => (s!"fflush failed: 'standard output': {fault.reason}\nsort: write error", 2)
  | "tee", _ => (s!"'standard output': {fault.reason}", 1)
  | "wc", _ => ("write error", 1)
  | "egrep", _ | "fgrep", _ | "grep", _ | "ls", _ => (usual, 2)
  | "expr", _ => (usual, 3)
  | _, _ => (usual, 1)

/-- The words in which a command complains that is known to shells and also is a tool. -/
inductive Wording
  /-- As the plain dialect of scripts has it. -/
  | plain
  /-- As the extended dialect has it. -/
  | extended
  /-- As a tool of its own has it. -/
  | tool
  deriving DecidableEq, Repr

/-- Options by their letters or long names, each with its value if it takes one, and what else
there is among the arguments. -/
structure Options where
  given : List (String × String)
  operands : List String

namespace Options

def has (o : Options) (letter : String) : Bool := o.given.any (·.1 == letter)

/-- The value of an option. The last one counts. -/
def value? (o : Options) (letter : String) : Option String := o.given.reverse.lookup letter

def values (o : Options) (letter : String) : List String :=
  (o.given.filter (·.1 == letter)).map (·.2)

/-- The options in a cluster of letters; a letter that takes a value takes what follows it, in the
same argument or else the next. -/
def cluster (valued : List Char) (rest : List String) :
    List Char → List (String × String) × Bool
  | [] => ([], false)
  | c :: letters =>
    if valued.contains c then
      if letters.isEmpty then ([(c.toString, rest.headD "")], true)
      else ([(c.toString, String.ofList letters)], false)
    else
      let (others, takesNext) := cluster valued rest letters
      ((c.toString, "") :: others, takesNext)

/-- Read arguments, `skip` telling that the first was taken as a value already. -/
def read (valued : List Char) (skip : Bool) : List String → Options
  | [] => ⟨[], []⟩
  | arg :: rest =>
    if skip then read valued false rest
    else match arg.toList with
      | ['-', '-'] => ⟨[], rest⟩
      | '-' :: '-' :: name =>
        let o := read valued false rest
        let (key, value) := (name.takeWhile (· != '='), (name.dropWhile (· != '=')).drop 1)
        { o with given := (String.ofList key, String.ofList value) :: o.given }
      | '-' :: c :: letters =>
        let (here, takesNext) := cluster valued rest (c :: letters)
        let o := read valued takesNext rest
        { o with given := here ++ o.given }
      | _ =>
        let o := read valued false rest
        { o with operands := arg :: o.operands }

end Options

def Job.options (job : Job) (valued : String) : Options :=
  Options.read valued.toList false job.args

/-- A decimal number that a sign may precede. -/
def integer? (text : String) : Option Int :=
  match text.toList with
  | '-' :: digits => (Text.decimal? digits).map fun n => -Int.ofNat n
  | '+' :: digits => (Text.decimal? digits).map Int.ofNat
  | digits => (Text.decimal? digits).map Int.ofNat

end Tool
end LayeredSets
