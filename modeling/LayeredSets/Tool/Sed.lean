import LayeredSets.Text.Blank
import LayeredSets.Tool.Exchange
import LayeredSets.Tool.Regex

/-!
# Editing lines

The `sed` tool: a list of steps, each with the lines it is meant for, is run on every line of the
input in turn. The line can be changed, printed, joined with others or laid aside.
-/

namespace LayeredSets.Tool.Sed

inductive Address
  | line (n : Nat)
  | last
  | hit (r : Regex) (ignoreCase : Bool)

/-- A piece of what a match is replaced by. -/
inductive Replacement
  | text (c : Char)
  | whole
  | group (index : Nat)

structure Substitution where
  regex : Regex
  replacement : List Replacement
  /-- The first of the matches that is replaced. -/
  nth : Nat
  all : Bool
  print : Bool
  ignoreCase : Bool
  /-- The file that a changed line is written to. -/
  file : Option String

inductive Action
  | opening
  | closing
  | substitute (s : Substitution)
  | exchange (source target : List Char)
  | delete
  | deleteFirst
  | print
  | printFirst
  | number
  | next
  | joinNext
  | quit (printing : Bool) (status : Nat)
  | append (text : List Char)
  | insert (text : List Char)
  | change (text : List Char)
  | hold
  | holdMore
  | recall
  | recallMore
  | swap
  | read (name : String)
  | write (name : String)
  | list
  | label (name : String)
  | branch (name : String)
  | branchIf (name : String)

structure Step where
  first : Option Address
  last : Option Address
  negated : Bool
  action : Action

/-! ### Reading a script -/

/-- Why a script cannot be read, and the text after the place where this shows. -/
structure Fault where
  complaint : String
  rest : List Char

abbrev Reading (α : Type) : Type := Except Fault (α × List Char)

/-- The text up to the next `mark`. A backslash lets the mark stand for itself. -/
def delimited (mark : Char) : List Char → Option (List Char × List Char)
  | [] => none
  | '\\' :: c :: rest =>
    (delimited mark rest).map fun (text, rest) =>
      (if c == mark then c :: text else '\\' :: c :: text, rest)
  | c :: rest =>
    if c == mark then some ([], rest)
    else (delimited mark rest).map fun (text, rest) => (c :: text, rest)

def skipBlanks (cs : List Char) : List Char := cs.dropWhile fun c => c == ' ' || c == '\t'

def readNumber (cs : List Char) : Nat × List Char :=
  (Text.digitsIn 10 (cs.takeWhile Char.isDigit), cs.dropWhile Char.isDigit)

def regexOf (mode : Regex.Notation) (text rest : List Char) : Except Fault Regex :=
  match Regex.parse? mode text with
  | some r => .ok r
  | none => .error ⟨Regex.complaintOf text, rest⟩

def readAddress (mode : Regex.Notation) (cs : List Char) :
    Except Fault (Option Address × List Char) :=
  let regex (mark : Char) (rest : List Char) : Except Fault (Option Address × List Char) := do
    match delimited mark rest with
    | none => throw ⟨"unterminated address regex", []⟩
    | some (text, rest) =>
      let r ← regexOf mode text rest
      match rest with
      | 'I' :: rest => return (some (.hit r true), rest)
      | rest => return (some (.hit r false), rest)
  match cs with
  | '$' :: rest => return (some .last, rest)
  | '/' :: rest => regex '/' rest
  | '\\' :: mark :: rest => regex mark rest
  | c :: rest =>
    if c.isDigit then
      let (n, rest) := readNumber (c :: rest)
      return (some (.line n), rest)
    else return (none, c :: rest)
  | [] => return (none, [])

def replacement : List Char → List Replacement
  | [] => []
  | '&' :: rest => .whole :: replacement rest
  | '\\' :: 'n' :: rest => .text '\n' :: replacement rest
  | '\\' :: 't' :: rest => .text '\t' :: replacement rest
  | '\\' :: c :: rest =>
    (if c.isDigit then
        (if c == '0' then Replacement.whole else .group (c.toNat - '0'.toNat))
      else .text c) :: replacement rest
  | c :: rest => .text c :: replacement rest

/-- The text of a step that takes one: the rest of the line, or the lines after a backslash. -/
def textArgument (cs : List Char) : List Char × List Char :=
  let cs := match skipBlanks cs with
    | '\\' :: '\n' :: rest => rest
    | '\\' :: rest => skipBlanks rest
    | rest => rest
  let rec go : List Char → List Char × List Char
    | '\\' :: c :: rest =>
      let (text, rest) := go rest
      (c :: text, rest)
    | '\n' :: rest => ([], rest)
    | c :: rest =>
      let (text, rest) := go rest
      (c :: text, rest)
    | [] => ([], [])
  let (text, rest) := go cs
  (text ++ ['\n'], rest)

/-- The flags of a substitution, up to the end of the step. -/
def readFlags : Nat → Substitution → List Char → Except Fault (Substitution × List Char)
  | 0, s, cs => .ok (s, cs)
  | _, s, [] => .ok (s, [])
  | fuel + 1, s, c :: rest =>
    let again (flag : Bool) (changed : Substitution) : Except Fault (Substitution × List Char) :=
      if flag then
        .error ⟨s!"multiple \x60{c}' options to \x60s' command", rest⟩
      else readFlags fuel changed rest
    if c == 'g' then again s.all { s with all := true }
    else if c == 'p' then again s.print { s with print := true }
    else if c == 'i' || c == 'I' then readFlags fuel { s with ignoreCase := true } rest
    else if c == 'm' || c == 'M' || c == 'e' then readFlags fuel s rest
    else if c.isDigit then
      let (n, after) := readNumber (c :: rest)
      if n = 0 then .error ⟨"number option to \x60s' command may not be zero", rest⟩
      else readFlags fuel { s with nth := n } after
    else if c == 'w' then
      let name := (skipBlanks rest).takeWhile (· != '\n')
      .ok ({ s with file := some (String.ofList name) }, rest.dropWhile (· != '\n'))
    else if [' ', '\t', ';', '\n', '\x7d', '#'].contains c then .ok (s, c :: rest)
    else .error ⟨"unknown option to \x60s'", rest⟩

/-- The greatest group that a replacement refers to. -/
def greatestGroup (parts : List Replacement) : Nat :=
  (parts.map fun
    | .group i => i
    | _ => 0).foldl max 0

def readSubstitution (mode : Regex.Notation) (cs : List Char) : Reading Action :=
  let found := do
    let mark ← cs.head?
    let (pattern, rest) ← delimited mark (cs.drop 1)
    let (target, rest) ← delimited mark rest
    return (pattern, target, rest)
  match found with
  | none => .error ⟨"unterminated \x60s' command", []⟩
  | some (pattern, target, rest) =>
    let parts := replacement target
    match readFlags (rest.length + 1) ⟨.nothing, parts, 1, false, false, false, none⟩ rest with
    | .error fault => .error fault
    | .ok (s, rest) =>
      match regexOf mode pattern rest with
      | .error fault => .error fault
      | .ok r =>
        let n := greatestGroup parts
        if r.groupCount < n then
          .error ⟨s!"invalid reference \\{n} on \x60s' command's RHS", rest⟩
        else .ok (.substitute { s with regex := r }, rest)

def readAction (mode : Regex.Notation) (cs : List Char) : Reading Action :=
  let isEnd (c : Char) : Bool := c == ';' || c == '\n' || c == '\x7d'
  let named (make : String → Action) (rest : List Char) : Reading Action :=
    let rest := skipBlanks rest
    .ok (make (Text.trim (String.ofList (rest.takeWhile (!isEnd ·)))), rest.dropWhile (!isEnd ·))
  let withText (make : List Char → Action) (rest : List Char) : Reading Action :=
    if (skipBlanks rest).isEmpty then
      .error ⟨"expected \\ after \x60a', \x60c' or \x60i'", []⟩
    else
      let (text, rest) := textArgument rest
      .ok (make text, '\n' :: rest)
  let withFile (make : String → Action) (rest : List Char) : Reading Action :=
    let rest := skipBlanks rest
    if rest.isEmpty then .error ⟨"missing filename in r/R/w/W commands", []⟩
    else .ok (make (String.ofList (rest.takeWhile (· != '\n'))), rest.dropWhile (· != '\n'))
  let exits (printing : Bool) (rest : List Char) : Reading Action :=
    let (n, rest) := readNumber (skipBlanks rest)
    .ok (.quit printing n, rest)
  match cs with
  | [] => .error ⟨"missing command", []⟩
  | c :: rest =>
    match c with
    | '\x7b' => .ok (.opening, rest)
    | '\x7d' => .ok (.closing, rest)
    | 's' => readSubstitution mode rest
    | 'y' =>
      let found := do
        let mark ← rest.head?
        let (source, rest) ← delimited mark (rest.drop 1)
        let (target, rest) ← delimited mark rest
        return ((Text.unescape argumentEscapes source).text,
          (Text.unescape argumentEscapes target).text, rest)
      match found with
      | none => .error ⟨"unterminated \x60y' command", []⟩
      | some (source, target, rest) =>
        if source.length ≠ target.length then
          .error ⟨"strings for \x60y' command are different lengths", rest⟩
        else .ok (.exchange source target, rest)
    | 'd' => .ok (.delete, rest)
    | 'D' => .ok (.deleteFirst, rest)
    | 'p' => .ok (.print, rest)
    | 'P' => .ok (.printFirst, rest)
    | '=' => .ok (.number, rest)
    | 'n' => .ok (.next, rest)
    | 'N' => .ok (.joinNext, rest)
    | 'q' => exits true rest
    | 'Q' => exits false rest
    | 'a' => withText .append rest
    | 'i' => withText .insert rest
    | 'c' => withText .change rest
    | 'h' => .ok (.hold, rest)
    | 'H' => .ok (.holdMore, rest)
    | 'g' => .ok (.recall, rest)
    | 'G' => .ok (.recallMore, rest)
    | 'x' => .ok (.swap, rest)
    | 'r' => withFile .read rest
    | 'w' => withFile .write rest
    | 'l' => .ok (.list, (readNumber (skipBlanks rest)).2)
    | ':' =>
      if (skipBlanks rest).isEmpty then .error ⟨"\":\" lacks a label", []⟩
      else
        let name := (skipBlanks rest).takeWhile fun c => c != ';' && c != '\n'
        .ok (.label (Text.trim (String.ofList name)),
          rest.dropWhile fun c => c != ';' && c != '\n')
    | 'b' => named .branch rest
    | 't' => named .branchIf rest
    | c => .error ⟨s!"unknown command: \x60{c}'", rest⟩

/-- Nothing but the end of a line, or of a block, may follow a step. -/
def readEnd (action : Action) (cs : List Char) : Except Fault (List Char) :=
  match action, skipBlanks cs with
  | .opening, rest => .ok rest
  | _, [] => .ok []
  | _, c :: rest =>
    if [';', '\n', '#', '\x7d'].contains c then .ok (c :: rest)
    else .error ⟨"extra characters after command", rest⟩

/-- The steps of a script, `depth` blocks being open. -/
def steps (mode : Regex.Notation) : Nat → Nat → List Char → Except Fault (List Step)
  | 0, _, _ => .ok []
  | fuel + 1, depth, cs => do
    match cs.dropWhile fun c => c == ' ' || c == '\t' || c == '\n' || c == ';' with
    | [] => return []
    | '#' :: rest => steps mode fuel depth (rest.dropWhile (· != '\n'))
    | cs =>
      let (first, rest) ← readAddress mode cs
      let (last, rest) ← match rest with
        | ',' :: rest => do
          let (last, after) ← readAddress mode (skipBlanks rest)
          if last.isNone then throw ⟨"unexpected \x60,'", after.drop 1⟩
          else pure (last, after)
        | rest => pure (none, rest)
      let rest := skipBlanks rest
      let negated := rest.head? == some '!'
      let rest := skipBlanks (if negated then rest.drop 1 else rest)
      if negated && rest.head? == some '!' then throw ⟨"multiple \x60!'s", rest.drop 1⟩
      let (action, rest) ← readAction mode rest
      match first, last, action with
      | some (.line 0), none, _ => throw ⟨"invalid usage of line address 0", rest⟩
      | _, _, .closing => if depth = 0 then throw ⟨"unexpected \x60\x7d'", rest⟩
      | _, _, _ => pure ()
      let depth := match action with
        | .opening => depth + 1
        | .closing => depth - 1
        | _ => depth
      let rest ← readEnd action rest
      return ⟨first, last, negated, action⟩ :: (← steps mode fuel depth rest)

/-- Is every block of a script closed? -/
def isClosed (steps : List Step) : Bool :=
  let count (p : Action → Bool) : Nat := (steps.filter fun step => p step.action).length
  count (fun | .opening => true | _ => false) = count (fun | .closing => true | _ => false)

/-- A label that is branched to but stands nowhere. -/
def missingLabel? (steps : List Step) : Option String :=
  let labels := steps.filterMap fun step =>
    match step.action with
    | .label name => some name
    | _ => none
  let wanted := steps.filterMap fun step =>
    match step.action with
    | .branch name | .branchIf name => if name == "" then none else some name
    | _ => none
  wanted.find? (!labels.contains ·)

/-- Read the scripts, which make up one, and say what is wrong with them. -/
def readScripts (mode : Regex.Notation) (scripts : List String) : Except String (List Step) := do
  let script := "\n".intercalate scripts
  match steps mode (script.length + 1) 0 script.toList with
  | .error fault =>
    let read := script.length - fault.rest.length
    let (index, before) := place 1 0 read scripts
    throw s!"-e expression #{index}, char {read - before}: {fault.complaint}"
  | .ok steps =>
    if !isClosed steps then throw "-e expression #1, char 0: unmatched \x60\x7b'"
    else match missingLabel? steps with
      | some name => throw s!"can't find label for jump to \x60{name}'"
      | none => return steps
where
  /-- The script in which a place is, and how much comes before that script. -/
  place (index before read : Nat) : List String → Nat × Nat
    | [] => (index, before)
    | [_] => (index, before)
    | script :: rest =>
      if read ≤ before + script.length then (index, before)
      else place (index + 1) (before + script.length + 1) read rest

/-! ### Running it -/

structure State where
  line : List Char
  /-- Did a line break follow the line? -/
  ended : Bool
  held : List Char
  number : Nat
  rest : List (List Char)
  /-- The steps whose range of lines has begun, by their indices. -/
  begun : List Nat
  /-- What has been printed, newest first. -/
  printed : List (List Char)
  /-- What is printed once the line is done with. -/
  queue : List Char
  substituted : Bool
  status : Nat
  /-- The lines that were written to files. -/
  written : List (String × List Char)

namespace State

/-- Write the line to a file. -/
def writeLine (s : State) (name : String) : State :=
  { s with written := s.written ++ [(name, s.line ++ ['\n'])] }

def emit (s : State) (text : List Char) (ended : Bool) : State :=
  { s with printed := (text ++ if ended then ['\n'] else []) :: s.printed }

def output (s : State) : List Char := s.printed.reverse.flatten

def printLine (s : State) : State := s.emit s.line s.ended

def flush (s : State) : State :=
  if s.queue.isEmpty then s else { s with printed := s.queue :: s.printed, queue := [] }

/-- Go on to the next line. -/
def advance? (s : State) : Option State :=
  match s.rest with
  | [] => none
  | line :: rest =>
    some { s with line := Text.chomp line, ended := line.getLast? == some '\n',
                  number := s.number + 1, rest }

def hits (s : State) : Address → Bool
  | .line n => s.number = n
  | .last => s.rest.isEmpty
  | .hit r ignoreCase => Regex.isIn ignoreCase r s.line

/-- Is the step at `index` meant for the line? -/
def selects (s : State) (index : Nat) (step : Step) : Bool × State :=
  let (b, s) := match step.first, step.last with
    | none, _ => (true, s)
    | some first, none => (s.hits first, s)
    | some first, some limit =>
      let atOrPast : Bool := match limit with
        | .line n => n ≤ s.number
        | limit => s.hits limit
      let past : Bool := match limit with
        | .line n => n < s.number
        | _ => false
      if s.begun.contains index then
        if past then (s.hits first, { s with begun := s.begun.erase index })
        else (true, if atOrPast then { s with begun := s.begun.erase index } else s)
      else if s.hits first then
        let isNumber : Bool := match limit with
          | .line _ => true
          | _ => false
        (true, if isNumber && atOrPast then s else { s with begun := index :: s.begun })
      else (false, s)
  (b != step.negated, s)

end State

/-- A line in which every character can be seen, its end being marked. -/
def visible (line : List Char) : List Char :=
  let show1 (c : Char) : List Char :=
    match c with
    | '\x07' => ['\\', 'a']
    | '\x08' => ['\\', 'b']
    | '\x0c' => ['\\', 'f']
    | '\n' => ['\\', 'n']
    | '\r' => ['\\', 'r']
    | '\t' => ['\\', 't']
    | '\x0b' => ['\\', 'v']
    | '\\' => ['\\', '\\']
    | c =>
      if ' ' ≤ c && c ≤ '~' then [c]
      else
        let digits := Nat.toDigits 8 c.toNat
        '\\' :: List.replicate (3 - digits.length) '0' ++ digits
  let (text, _) := (line.map show1).foldl
    (fun (text, column) cs =>
      if 69 < column + cs.length then (text ++ ['\\', '\n'] ++ cs, cs.length)
      else (text ++ cs, column + cs.length))
    ([], 0)
  text ++ ['$']

def fill (m : Regex.Match) : Replacement → List Char
  | .text c => [c]
  | .whole => m.text
  | .group i => (m.stop.groups.lookup i).getD []

/-- Replace matches from `k` on; `nth` counts down to the first that is replaced. The result is
what follows `k`, and whether anything was replaced. -/
def replaceFrom (s : Substitution) : Nat → Nat → Regex.Cursor → List Char × Bool
  | 0, _, k => (k.rest, false)
  | fuel + 1, nth, k =>
    match Regex.find? s.ignoreCase s.regex k with
    | none => (k.rest, false)
    | some m =>
      let before := m.start.since k
      let hit := nth ≤ 1
      let new := if hit then s.replacement.flatMap (fill m) else m.text
      if hit && !s.all then (before ++ new ++ m.stop.rest, true)
      else
        let stop := { m.stop with groups := [] }
        if m.text.isEmpty then
          match stop.rest with
          | [] => (before ++ new, hit)
          | c :: _ =>
            let (after, more) := replaceFrom s fuel (nth - 1) stop.advance
            (before ++ new ++ c :: after, hit || more)
        else
          let (after, more) := replaceFrom s fuel (nth - 1) stop
          (before ++ new ++ after, hit || more)

/-- What happens after a step. -/
inductive Flow
  | goOn (index : Nat)
  | done (printing : Bool)
  /-- Run the steps again without going on to the next line. -/
  | again
  | quit (printing : Bool)

/-- The index after the block that the step before `index` opens. -/
def blockEnd (program : Array Step) (depth : Nat) : Nat → Nat → Nat
  | 0, index => index
  | fuel + 1, index =>
    match program[index]? with
    | none => index
    | some step =>
      match step.action with
      | .opening => blockEnd program (depth + 1) fuel (index + 1)
      | .closing =>
        if depth = 0 then index + 1 else blockEnd program (depth - 1) fuel (index + 1)
      | _ => blockEnd program depth fuel (index + 1)

def labelled (program : Array Step) (name : String) : Nat :=
  (program.findIdx? fun step =>
    match step.action with
    | .label n => n == name
    | _ => false).getD program.size

/-- Run the step at `index`, which is meant for the line. -/
def act (read : String → List Char) (program : Array Step) (quiet : Bool) (index : Nat)
    (action : Action) (s : State) : Flow × State :=
  let next := Flow.goOn (index + 1)
  let firstLine := s.line.takeWhile (· != '\n')
  match action with
  | .opening | .closing | .label _ => (next, s)
  | .substitute sub =>
    let (line, changed) :=
      replaceFrom sub (s.line.length + 2) sub.nth (Regex.startOf s.line)
    if changed then
      let s := { s with line, substituted := true }
      let s := if sub.print then s.printLine else s
      (next, (sub.file.map s.writeLine).getD s)
    else (next, s)
  | .exchange source target => (next, { s with line := s.line.map (exchanged source target) })
  | .delete => (.done false, s)
  | .deleteFirst =>
    if s.line.contains '\n' then
      (.again, { s with line := (s.line.dropWhile (· != '\n')).drop 1 })
    else (.done false, s)
  | .print => (next, s.printLine)
  | .printFirst => (next, s.emit firstLine true)
  | .number => (next, s.emit (toString s.number).toList true)
  | .next =>
    if s.rest.isEmpty then (.quit true, s)
    else
      let s := (if quiet then s else s.printLine).flush
      (next, s.advance?.getD s)
  | .joinNext =>
    match s.advance? with
    | none => (.quit true, s)
    | some t => (next, { t with line := s.line ++ '\n' :: t.line })
  | .quit printing status => (.quit printing, { s with status })
  | .read name => (next, { s with queue := s.queue ++ read name })
  | .write name => (next, s.writeLine name)
  | .list => (next, s.emit (visible s.line) true)
  | .append text => (next, { s with queue := s.queue ++ text })
  | .insert text => (next, s.emit text false)
  | .change text => (.done false, s.emit text false)
  | .hold => (next, { s with held := s.line })
  | .holdMore => (next, { s with held := s.held ++ '\n' :: s.line })
  | .recall => (next, { s with line := s.held })
  | .recallMore => (next, { s with line := s.line ++ '\n' :: s.held })
  | .swap => (next, { s with line := s.held, held := s.line })
  | .branch name =>
    (.goOn (if name == "" then program.size else labelled program name), s)
  | .branchIf name =>
    if s.substituted then
      (.goOn (if name == "" then program.size else labelled program name),
        { s with substituted := false })
    else (next, s)

/-- Run the steps from `index` on. -/
def runSteps (read : String → List Char) (program : Array Step) (quiet : Bool) :
    Nat → Nat → State → Flow × State
  | 0, _, s => (.done true, s)
  | fuel + 1, index, s =>
    match program[index]? with
    | none => (.done true, s)
    | some step =>
      let (selected, s) := s.selects index step
      if selected then
        match act read program quiet index step.action s with
        | (.goOn index, s) => runSteps read program quiet fuel index s
        | other => other
      else
        match step.action with
        | .opening =>
          runSteps read program quiet fuel (blockEnd program 0 program.size (index + 1)) s
        | _ => runSteps read program quiet fuel (index + 1) s

/-- The most steps that are run for one line. -/
def stepLimit : Nat := 100000

/-- Run the steps on line after line. -/
def runLines (read : String → List Char) (program : Array Step) (quiet : Bool) :
    Nat → Bool → State → State
  | 0, _, s => s
  | fuel + 1, keepsLine, s =>
    match if keepsLine then some s else s.advance? with
    | none => s
    | some s =>
      let (flow, s) := runSteps read program quiet stepLimit 0 { s with substituted := false }
      let finish (printing : Bool) : State := (if printing && !quiet then s.printLine else s).flush
      match flow with
      | .done printing => runLines read program quiet fuel false (finish printing)
      | .again => runLines read program quiet fuel true s.flush
      | .quit printing => finish printing
      | .goOn _ => runLines read program quiet fuel false (finish true)

/-- Edit a text; `read` gives the contents of files. -/
def edit (read : String → List Char) (program : Array Step) (quiet : Bool) (text : List Char) :
    State :=
  runLines read program quiet (2 * text.length + 2) false
    ⟨[], true, [], 0, Text.lines text, [], [], [], false, 0, []⟩

/-- The files that a script writes to. -/
def targets (steps : List Step) : List String :=
  steps.filterMap fun step =>
    match step.action with
    | .write name => some name
    | .substitute s => s.file
    | _ => none

/-- Make the files that are written to, and write what was written. -/
def deliver (job : Job) (steps : List Step) (s : State) (files : Files) : Files :=
  (targets steps).foldl
    (fun files name =>
      let text := (s.written.filter (·.1 == name)).flatMap (·.2)
      match files.create (job.path name) with
      | .ok (id, files) => (files.writeAt id 0 ⟨(Text.toBytes text).toArray⟩).2
      | .error _ => files)
    files

end Sed

def sed (job : Job) : Effect :=
  let o := job.options "efl"
  let given := o.values "e" ++ (o.values "f").map fun name =>
    ((job.read name).toOption.map String.ofList).getD ""
  let (scripts, names) :=
    if given.isEmpty then (o.operands.take 1, o.operands.drop 1) else (given, o.operands)
  let mode := if o.has "E" || o.has "r" then Regex.Notation.extended else .basic
  if scripts.isEmpty then job.misused 1 "no script specified"
  else match Sed.readScripts mode scripts with
  | .error complaint => job.complains 1 complaint
  | .ok steps =>
    let quiet := o.has "n"
    let read (name : String) : List Char := (job.read name).toOption.getD []
    let edit := Sed.edit read steps.toArray quiet
    if o.has "i" then
      names.foldl
        (fun e name =>
          match job.read name with
          | .error fault =>
            { e with
              errors := e.errors ++ s!"{job.name}: can't read {name}: {fault.reason}\n".toList
              status := 2 }
          | .ok content =>
            let done := edit content
            let bytes : ByteArray := ⟨(Text.toBytes done.output).toArray⟩
            match e.files.replace (job.path name) bytes with
            | .ok files => { e with files := Sed.deliver job steps done files }
            | .error _ => e)
        (job.ends 0)
    else
      let s := job.sources (fun name fault => s!"can't read {name}: {fault.reason}") names
      let done := edit (s.contents.flatMap (·.2))
      let effect := job.printsFrom s done.output
      let unread := if names.isEmpty && job.seekable then done.rest.flatten else effect.rest
      { effect with
        status := if effect.status = 0 then done.status else 2
        rest := unread
        files := Sed.deliver job steps done job.files }

end LayeredSets.Tool
