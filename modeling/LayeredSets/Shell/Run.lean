import LayeredSets.Shell.Brace
import LayeredSets.Shell.Builtin
import LayeredSets.Shell.Program
import LayeredSets.Tool.Awk.Run
import LayeredSets.Tool.Regex

/-!
# Running commands

Commands are run one after the other, words being expanded right before their command. Programs on
both sides of a pipe are run in turn, the output of one being the input of the next. Whatever can go
on without end takes fuel.
-/

namespace LayeredSets.Shell

/-- Run `act`, and then bring back a part of the process as it was before. -/
def restoring (restore : Process → Process → Process) (act : Action Unit) : Action Unit := do
  let before ← process
  try act finally change (restore before)

/-- Bring back where the descriptors led. -/
def restoreDescriptors (before after : Process) : Process :=
  { after with descriptors := before.descriptors }

/-- Bring back the variables with these names. -/
def restoreVariables (names : List String) (before after : Process) : Process :=
  let put (p : Process) (name : String) : Process :=
    { p with vars :=
      match before.vars.get? name with
      | some v => p.vars.insert name v
      | none => p.vars.erase name }
  names.foldl put after

/-- What a process begun from `p` starts with: only exported variables are passed on. -/
def Process.child (p : Process) (name : String) (args : List String) : Process :=
  let passed := p.vars.entries.filter fun (_, v) => v.exported
  { p with
    name, args
    vars := passed.reverse.foldl (fun t (n, v) => t.insert n v) shellVariables
    functions := .empty
    status := 0
    inserted := 0
    line := 1
    context := ""
    source := ""
    options := []
    loops := 0
    hidden := none
    jobs := []
    atEnd := ""
    optionOffset := 0
    switches := []
    statuses := [] }

/-- The variables that programs are given. -/
def Process.environment (p : Process) : List (String × String) :=
  p.vars.entries.filterMap fun (name, v) =>
    if v.exported then v.text?.map (name, ·) else none

/-- Can `value` not be used, because there is none, or because it is empty and that counts? -/
def isMissing (orEmpty : Bool) (value : Option String) : Bool :=
  value.all fun v => orEmpty && v == ""

/-- Pieces of a word that takes the place of a value are split like a value. -/
def asInserted (ps : List Piece) : List Piece :=
  ps.map fun
    | .char c .written => .char c .inserted
    | p => p

/-- Let child processes see variables. -/
def exportAll (names : List String) : Action Unit :=
  names.forM fun name => change fun p =>
    let old := (p.vars.get? name).getD .blank
    { p with vars := p.vars.insert name { old with exported := true } }

/-- Does a name without a slash lead to a directory? Such a name counts as not found. -/
def isDirectoryName (m : Machine) (name : String) : Bool :=
  !name.toList.contains '/' &&
    match m.files.locate (m.process.path ("./" ++ name)) with
    | .ok place => m.files.isDirectoryAt place
    | .error _ => false

/-- Where a name leads that is used as a command. -/
def describe (files : Files) (p : Process) (name : String) : Option String :=
  if specialNames.contains name || (builtin? p.dialect name).isSome then some name
  else if p.functions.contains name then some name
  else match Program.candidates files p.directory name with
    | (.executable path _ :: _, _) => some path
    | (.tool tool :: _, _) => some (if name.toList.contains '/' then name else s!"/usr/bin/{tool}")
    | ([], _) => none

/-- The options of a shell, and the arguments after them. With `-c` the script is an argument. -/
structure ShellCall where
  options : List Char
  switches : List String
  operands : List String
  complaint : Option String

def ShellCall.read (dialect : Dialect) : List String → ShellCall
  | [] => ⟨[], [], [], none⟩
  | arg :: rest =>
    match arg.toList, rest with
    | ['-', '-'], _ | ['-'], _ => ⟨[], [], rest, none⟩
    | ['-', 'o'], option :: rest | ['+', 'o'], option :: rest =>
      let c := ShellCall.read dialect rest
      { c with
        options := (Builtin.optionNames.lookup option).toList ++ c.options
        switches := option :: c.switches }
    | ['-', 'O'], option :: rest =>
      let c := ShellCall.read dialect rest
      { c with switches := option :: c.switches }
    | '-' :: '-' :: name, rest =>
      let c := ShellCall.read dialect rest
      let quiet := ["norc", "noprofile", "posix", "login"]
      if dialect = .extended && quiet.contains (String.ofList name) then c
      else { c with complaint := some "Illegal option --" }
    | '-' :: letters, rest =>
      let c := ShellCall.read dialect rest
      match letters.find? fun letter => !"aefnuvxcsilEhB".toList.contains letter with
      | some letter => { c with complaint := some s!"Illegal option -{letter}" }
      | none => { c with options := letters ++ c.options }
    | '+' :: _, rest => ShellCall.read dialect rest
    | _, _ => ⟨[], [], arg :: rest, none⟩

/-- Words of a text between blanks and line breaks, where quotes and backslashes protect. -/
def quotedWords (text : List Char) : List String :=
  let ps := (Part.read .plain (text.length + 1) .plain text).flatMap fun
    | .text cs true => Piece.ofText .quoted cs
    | .text cs false => Piece.ofText .inserted cs
    | .nothing => [.nothing]
    | .parameter cs _ | .command cs _ _ | .arithmetic cs _ | .path cs _ =>
      Piece.ofText .inserted ('$' :: cs)
  (fieldsOf [' ', '\t', '\n'] ps).map fun field => String.ofList (field.map (·.1))

/-- Drop the options of a tool that starts a program, with the values of those in `valued`. -/
def dropOptions (valued : List String) : List String → List String
  | [] => []
  | arg :: rest =>
    if arg == "--" then rest
    else if valued.contains arg then dropOptions valued rest.tail
    else if arg.startsWith "-" && arg != "-" then dropOptions valued rest
    else arg :: rest
termination_by args => args.length
decreasing_by
  · simp only [List.length_tail, List.length_cons]
    omega
  · simp

/-- Bring back what a function has of its own. -/
def leaveCall (before after : Process) : Process :=
  let put (t : Table String Variable) (name : String) (old : Option Variable) :=
    match old with
    | some v => t.insert name v
    | none => t.erase name
  { after with
    args := before.args
    line := before.line
    loops := before.loops
    hidden := before.hidden
    vars :=
      (after.hidden.getD []).foldl (fun t (name, old) => put t name old) after.vars }

/-- Bring back where commands were read from. -/
def leaveText (before after : Process) : Process :=
  { after with line := before.line, context := before.context, source := before.source }

/-- A list cut into pieces of `size` items. -/
def batches {α : Type} (size : Nat) : Nat → List α → List (List α)
  | 0, _ | _, [] => []
  | fuel + 1, items => items.take (max 1 size) :: batches size fuel (items.drop (max 1 size))

/-- Several values, each a field of its own or all of them one text. -/
def piecesOfItems (quoted joined : Bool) (items : List String) : Action (List Piece) := do
  if quoted && joined then
    return Piece.ofValue true ((String.ofList ((← separators).take 1)).intercalate items)
  else return ((items.map (Piece.ofValue quoted)).intersperse [.boundary]).flatten

/-- A text in another case. -/
def recased (upper all : Bool) (cs : List Char) : List Char :=
  let change (c : Char) : Char := if upper then c.toUpper else c.toLower
  if all then cs.map change
  else match cs with
    | c :: rest => change c :: rest
    | [] => []

/-- A text between quotes, so that it can be read again. -/
def requoted (cs : List Char) : List Char :=
  ['\''] ++ (cs.flatMap fun c => if c == '\'' then "'\\''".toList else [c]) ++ ['\'']

/-- A text as it is traced: quoted if it has to be. -/
def traced (dialect : Dialect) (text : String) : String :=
  let isSafe (c : Char) : Bool := c.isAlphanum || "%+,-./:=@_".toList.contains c
  if dialect = .plain || (text != "" && text.toList.all isSafe) then text
  else String.ofList (requoted text.toList)

/-- What fits a pattern replaced in a text, where the edge says. -/
def replaced (edge : Edge) (all : Bool) (ps : List Wildcard) (new cs : List Char) : List Char :=
  match edge with
  | .anywhere => Wildcard.replace ps all new (cs.length + 1) cs
  | .front =>
    match Wildcard.fitting? ps true cs with
    | some n => new ++ cs.drop n
    | none => cs
  | .back =>
    match Wildcard.fitting? ps.reverse true cs.reverse with
    | some n => cs.take (cs.length - n) ++ new
    | none => cs

/-- The items from `start` on, `count` of them. Numbers below zero count from the end. -/
def sliced {α : Type} (start : Int) (count : Option Int) (items : List α) : List α :=
  let size := Int.ofNat items.length
  let from_ := if start < 0 then size + start else start
  if from_ < 0 then []
  else match count with
    | none => items.drop from_.toNat
    | some count =>
      let until_ := if count < 0 then size + count else from_ + count
      (items.take until_.toNat).drop from_.toNat

/-- A pattern as an expression for texts, in which quoted characters stand for themselves. -/
def expressionOf (ps : List Piece) : List Char :=
  (Piece.marked ps).flatMap fun (c, quoted) =>
    if quoted && ".[]()*+?^$|\\\x7b\x7d".toList.contains c then ['\\', c] else [c]

/-- Make a path under which a text can be read. -/
def makePath (text : List Char) : Action String := do
  let m ← get
  let free := (List.range 64).reverse.find? fun n =>
    !m.files.places.contains ⟨true, ["dev", "fd", toString n]⟩
  let name := toString (free.getD 63)
  let file : File := ⟨⟨(Text.toBytes text).toArray⟩, false, none, false⟩
  set { m with files := (m.files.add ⟨true, ["dev", "fd", name]⟩ file).2 }
  return s!"/dev/fd/{name}"

/-- The commands that set variables in their arguments, where values are not split. -/
def declarers (dialect : Dialect) : List String :=
  ["export", "local", "readonly"] ++ if dialect = .extended then ["declare", "typeset"] else []

/-- Complain about a script that cannot be read, and leave the shell. -/
def failReading {α : Type} (line : Nat) (script : List Char) (fault : SyntaxFault) : Action α := do
  change fun p => { p with line := fault.line }
  for message in fault.messages (← process).dialect line script do complain message
  setStatus 2
  throw .leave

mutual

/-- The pieces of a text, its values put in. -/
def expand : Nat → Mode → List Char → Action (List Piece)
  | 0, _, _ => return []
  | fuel + 1, mode, cs => do
    return (← (Part.ofText (← process).dialect mode cs).mapM (expandPart fuel)).flatten

def expandPart : Nat → Part → Action (List Piece)
  | 0, _ => return []
  | fuel + 1, part => do
    match part with
    | .text cs quoted => return Piece.ofText (if quoted then .quoted else .written) cs
    | .nothing => return [.nothing]
    | .command script ticked quoted =>
      return Piece.ofValue quoted (← outputOf fuel ticked script)
    | .arithmetic e quoted =>
      let text := Piece.text (← expand fuel .document e)
      return Piece.ofValue quoted (toString (← evaluate text))
    | .path script isRead =>
      let output ← if isRead then outputOf fuel false script else pure ""
      let ending := if output == "" then [] else ['\n']
      return Piece.ofValue true (← makePath (output.toList ++ ending))
    | .parameter inner quoted =>
      match Reference.parse? (← process).dialect inner with
      | none =>
        fail (← byDialect "Bad substitution" s!"$\x7b{String.ofList inner}\x7d: bad substitution")
      | some r => expandReference fuel quoted r

/-- The text of a parameter or of an element. -/
def textOf : Nat → Target → Action (Option String)
  | 0, _ => return none
  | fuel + 1, target => do
    match target.index with
    | none => parameter? target.name
    | some index =>
      let key ← keyOf target.name (← expandText fuel index)
      return (← process).text? target.name (some key)

def expandReference : Nat → Bool → Reference → Action (List Piece)
  | 0, _, _ => return []
  | fuel + 1, quoted, r => do
    let p ← process
    let isAll : Bool := Reference.isAll r.target
    let ofParameters : Bool := r.target.index.isNone
    let shown := String.ofList (r.target.name.toList ++
      (r.target.index.map fun index => ['['] ++ index ++ [']']).getD [])
    let joined : Bool := r.target.name == "*" || r.target.index == some ['*']
    let items := if ofParameters then p.args else (p.elements r.target.name).map (·.2)
    let value ← if isAll then
        pure (if items.isEmpty && !ofParameters then none else some (" ".intercalate items))
      else textOf fuel r.target
    let assertSet : Action Unit := do
      if value.isNone && !isAll && (← isSet 'u') then
        let complaint ← byDialect s!"{shown}: parameter not set" s!"{shown}: unbound variable"
        failWholly complaint
    let present : Action (List Piece) := do
      if isAll then piecesOfItems quoted joined items
      else
        assertSet
        return Piece.ofValue quoted (value.getD "")
    let instead (word : Word) : Action (List Piece) := do
      let ps ← expand fuel (if quoted then .braced else .plain) word
      return if quoted && ps.isEmpty then [.nothing] else asInserted ps
    let pattern (word : Word) : Action (List Wildcard) := do
      return Wildcard.ofMarked (Piece.marked (← expand fuel .plain word))
    let changed (f : List Char → List Char) : Action (List Piece) := do
      assertSet
      if isAll && p.dialect = .extended then
        piecesOfItems quoted joined (items.map fun item => String.ofList (f item.toList))
      else return Piece.ofValue quoted (String.ofList (f (value.getD "").toList))
    let cut (f : List Wildcard → List Char → List Char) (word : Word) :
        Action (List Piece) := do
      assertSet
      let ps ← pattern word
      changed (f ps)
    match if r.indirect then none else some r.adjustment with
    | none =>
      match (value.map fun name => name.toList).bind (Reference.target? .extended) with
      | some (target, []) => expandReference fuel quoted { r with indirect := false, target }
      | _ => fail s!"{value.getD shown}: invalid indirect expansion"
    | some .plain => present
    | some .length =>
      assertSet
      let length := if isAll && p.dialect = .extended then items.length else (value.getD "").length
      return Piece.ofValue quoted (toString length)
    | some (.orElse orEmpty word) => if isMissing orEmpty value then instead word else present
    | some (.insteadOf orEmpty word) =>
      if isMissing orEmpty value then return Piece.ofValue quoted "" else instead word
    | some (.orAssign orEmpty word) =>
      if isMissing orEmpty value then
        if !isName r.target.name.toList then fail s!"{shown}: bad variable name"
        let text := String.ofList (Piece.text (← instead word))
        assign r.target.name text
        return Piece.ofValue quoted text
      else present
    | some (.orFail orEmpty word) =>
      if isMissing orEmpty value then
        let text := String.ofList (Piece.text (← instead word))
        let usual ← if orEmpty then
            byDialect "parameter not set or null" "parameter null or not set"
          else pure "parameter not set"
        let text := if word.isEmpty then usual else text
        failWholly s!"{shown}: {text}"
      else present
    | some (.dropFront longest word) => cut (fun ps => Wildcard.dropFront ps longest) word
    | some (.dropBack longest word) => cut (fun ps => Wildcard.dropBack ps longest) word
    | some (.replace edge all word new) =>
      let new := Piece.text (← expand fuel .plain new)
      cut (fun ps => replaced edge all ps new) word
    | some (.recase upper all) => changed (recased upper all)
    | some .requote => changed requoted
    | some .keys =>
      piecesOfItems quoted joined ((p.elements r.target.name).map (·.1))
    | some .namesFrom =>
      let names := p.vars.keys.filter (·.startsWith r.target.name)
      piecesOfItems quoted joined (names.mergeSort fun a b => !Text.precedes b.toList a.toList)
    | some (.slice start count) =>
      assertSet
      let number (word : Word) : Action Int := do
        evaluate (Piece.text (← expand fuel .document word))
      let start ← number start
      let count ← match count with
        | some word => some <$> number word
        | none => pure none
      if isAll then
        piecesOfItems quoted joined
          (sliced start count (if ofParameters then p.name :: items else items))
      else
        return Piece.ofValue quoted (String.ofList (sliced start count (value.getD "").toList))

/-- A word as one text, which is not split. -/
def expandText : Nat → Word → Action String
  | 0, _ => return ""
  | fuel + 1, word => return String.ofList (Piece.text (← expand fuel .plain word))

/-- The fields of a word. -/
def expandWord : Nat → Word → Action (List String)
  | 0, _ => return []
  | fuel + 1, word => do
    let ps ← expand fuel .plain word
    let m ← get
    let fields := fieldsOf (← separators) ps
    let paths ← if ← isSet 'f' then pure (fields.map fun field => field.map (·.1))
      else
        let orNothing := m.process.switches.contains "nullglob"
        pure (fields.flatMap (pathsOf m.files m.process.directory orNothing))
    return paths.map String.ofList

/-- The fields of words. -/
def expandWords : Nat → List Word → Action (List String)
  | 0, _ => return []
  | fuel + 1, words => do
    let words := if ← isExtended then words.flatMap alternativesOf else words
    return (← words.mapM (expandWord fuel)).flatten

/-- The arguments of a command that sets variables, and the lists among what they are set to. -/
def expandSettings : Nat → List Word → Action (List String × List Setting)
  | 0, _ => return ([], [])
  | fuel + 1, words => do
    let p ← process
    let parts ← words.mapM fun word => do
      match Parser.setting? p.dialect word with
      | some s =>
        if p.dialect = .extended && s.value.head? == some '(' then return ([s.target.name], [s])
        else
          let front := word.take (word.length - s.value.length)
          return ([String.ofList front ++ (← expandText fuel s.value)], [])
      | none => return (← expandWord fuel word, [])
    return (parts.flatMap (·.1), parts.flatMap (·.2))

/-- What a script prints, without the line breaks at the end. -/
def outputOf : Nat → Bool → List Char → Action String
  | 0, _, _ => return ""
  | fuel + 1, ticked, script => do
    let p ← process
    match parseSubstituted p.dialect ticked p.line script with
    | .error fault => failReading p.line script fault
    | .ok commands =>
      let channel ← openChannel (.sink [])
      inSubshell fuel do
        connect 1 channel
        match p.dialect, commands with
        | .extended, .simple _ [] [] [⟨_, .read, target⟩] =>
          let name ← expandText fuel target
          match (← get).files.open? (p.path name) with
          | .ok (.ok content) => write 1 (Text.ofBytes content.toList)
          | .ok (.error fault) | .error fault =>
            complain s!"{name}: {fault.reason}"
            setStatus 1
        | dialect, commands =>
          if dialect = .extended then Builtin.setOption false 'e'
          run fuel false commands
      change fun p => { p with inserted := p.status }
      let text := (((← get).written channel).reverse.dropWhile (· == '\n')).reverse
      return String.ofList (text.filter (· != '\x00'))

/-- Run something in a copy of this process, and keep only its status. -/
def inSubshell : Nat → Action Unit → Action Unit
  | 0, _ => return ()
  | fuel + 1, act => do
    let before ← process
    change fun p => { p with atEnd := "" }
    let dies ← try
        toEnd fuel act
        pure false
      catch jump => pure (jump = .die)
    change fun p => { before with status := p.status }
    if dies then throw .die

/-- Run something in a process of its own, and keep only its status. -/
def inChild : Nat → Action Unit → Action Unit
  | 0, _ => return ()
  | fuel + 1, act => do
    try inSubshell fuel act catch _ => pure ()

/-- Run something and then the commands for the end. -/
def toEnd : Nat → Action Unit → Action Unit
  | 0, _ => return ()
  | fuel + 1, act => do
    try act catch jump => if jump = .die then throw .die else pure ()
    let p ← process
    if p.atEnd != "" then
      change fun p => { p with atEnd := "" }
      let leaves ← try
          runText fuel p.line p.atEnd.toList
          pure false
        catch jump => pure (jump = .leave)
      if !leaves then setStatus p.status

/-- Run a script whose first line has the number `line`. -/
def runText : Nat → Nat → List Char → Action Unit
  | 0, _, _ => return ()
  | fuel + 1, line, text => do
    let (commands, fault) := parse (← process).dialect line text
    if commands.isEmpty then setStatus 0
    commands.forM (run fuel false)
    if let some fault := fault then failReading line text fault

/-- Run a script that is not part of another: its lines can be left one by one. -/
def runScript : Nat → List Char → Action Unit
  | 0, _ => return ()
  | fuel + 1, text => do
    let (commands, fault) := parse (← process).dialect 1 text
    if commands.isEmpty then setStatus 0
    for command in commands do
      try run fuel false command
      catch jump => if jump = .leaveLine then pure () else throw jump
    if let some fault := fault then failReading 1 text fault

/-- Leave the shell if the last command failed and this is not allowed. -/
def check : Nat → Bool → Action Unit
  | 0, _ => return ()
  | _ + 1, tested => do
    if !tested && (← process).status ≠ 0 && (← isSet 'e') then throw .leave

/-- Run a command; `tested` tells that its failure is looked at. -/
def run : Nat → Bool → Command → Action Unit
  | 0, _, _ => return ()
  | fuel + 1, tested, command => do
    if ← isSet 'n' then return ()
    match command with
    | .nothing => setStatus 0
    | .simple line settings words redirections =>
      change fun p => { p with line, inserted := 0 }
      runSimple fuel tested settings words redirections
      change fun p => { p with statuses := [p.status] }
      check fuel tested
    | .pipe commands =>
      runPipe fuel tested none commands
      check fuel tested
    | .negate c =>
      run fuel true c
      setStatus (if (← process).status = 0 then 1 else 0)
    | .both a b =>
      run fuel true a
      if (← process).status = 0 then run fuel tested b
    | .either a b =>
      run fuel true a
      if (← process).status ≠ 0 then run fuel tested b
    | .sequence a b =>
      run fuel tested a
      run fuel tested b
    | .background c =>
      let channel ← openChannel (.source [])
      inSubshell fuel do
        connect 0 channel
        run fuel tested c
      change fun p => { p with jobs := p.jobs ++ [p.status], status := 0 }
    | .redirected line c redirections =>
      change fun p => { p with line }
      restoring restoreDescriptors do
        if ← redirectAll fuel redirections then run fuel tested c
      check fuel tested
    | .subshell c =>
      inSubshell fuel (run fuel tested c)
      check fuel tested
    | .choice condition a b =>
      run fuel true condition
      if (← process).status = 0 then run fuel tested a else run fuel tested b
    | .loop untilSuccess condition body =>
      let loops := (← process).loops
      change fun p => { p with loops := loops + 1 }
      repeatWhile fuel tested untilSuccess condition body 0
      change fun p => { p with loops }
    | .each name words body =>
      let items ← match words with
        | some words => expandWords fuel words
        | none => pure (← process).args
      let loops := (← process).loops
      setStatus 0
      change fun p => { p with loops := loops + 1 }
      repeatFor fuel tested name body items
      change fun p => { p with loops }
    | .counted line start condition step body =>
      change fun p => { p with line }
      let _ ← compute fuel "((" start
      let loops := (← process).loops
      change fun p => { p with loops := loops + 1 }
      repeatCounted fuel tested condition step body 0
      change fun p => { p with loops }
    | .condition line c =>
      change fun p => { p with line }
      let holds ← holds fuel c
      setStatus (match holds with
        | some true => 0
        | some false => 1
        | none => 2)
      check fuel tested
    | .calculation line e =>
      change fun p => { p with line }
      let value ← compute fuel "((" e
      setStatus (if value.any (· ≠ 0) then 0 else 1)
      check fuel tested
    | .cases subject branches =>
      let text ← expandText fuel subject
      choose fuel tested text.toList branches
    | .define name body =>
      change fun p =>
        { p with functions := p.functions.insert name body, status := 0 }

/-- Run commands, each with the output of the one before it for its input. The first reads from the
channel that is given, if there is one. -/
def runPipe : Nat → Bool → Option Nat → List Command → Action Unit
  | 0, _, _, _ | _, _, _, [] => return ()
  | fuel + 1, tested, input, command :: others => do
    let output ← if others.isEmpty then pure none else some <$> openChannel (.sink [])
    inSubshell fuel do
      if let some channel := input then connect 0 channel
      if let some channel := output then connect 1 channel
      run fuel tested command
    let status := (← process).status
    if let some channel := output then
      modify fun m =>
        { m with channels := m.channels.setIfInBounds channel (.source (m.written channel)) }
      runPipe fuel tested output others
      change fun p =>
        let failed := p.switches.contains "pipefail" && p.status = 0
        { p with statuses := status :: p.statuses, status := if failed then status else p.status }
    else change fun p => { p with statuses := [status] }

/-- The value of an expression after its words have been put in; a complaint about it begins with
`name`, and leaves the commands after it to be run. -/
def compute : Nat → String → Word → Action (Option Int)
  | 0, _, _ => return none
  | fuel + 1, name, e => do
    match ← tryEvaluate (Piece.text (← expand fuel .document e)) with
    | .ok n => return some n
    | .error complaint =>
      complainOf name complaint
      return none

/-- Repeat a body as long as an expression is not zero; `last` is its latest status. -/
def repeatCounted : Nat → Bool → Word → Word → Command → Nat → Action Unit
  | 0, _, _, _, _, _ => return ()
  | fuel + 1, tested, condition, step, body, last => do
    let goesOn ← if condition.all isBlankChar then pure true
      else pure ((← compute fuel "((" condition).any (· ≠ 0))
    if goesOn then
      if ← runBody fuel tested body then
        let last := (← process).status
        let _ ← compute fuel "((" step
        repeatCounted fuel tested condition step body last
    else setStatus last

/-- Does a condition hold? There may be no answer. -/
def holds : Nat → Condition → Action (Option Bool)
  | 0, _ => return none
  | fuel + 1, c => do
    match c with
    | .negate c => return (← holds fuel c).map (!·)
    | .both a b =>
      match ← holds fuel a with
      | some true => holds fuel b
      | answer => return answer
    | .either a b =>
      match ← holds fuel a with
      | some false => holds fuel b
      | answer => return answer
    | .unary op word =>
      let text ← expandText fuel word
      if op == "-v" then return some (← parameter? text).isSome
      else if op == "-o" then
        let p ← process
        let letter := Builtin.optionNames.lookup text
        return some (letter.any p.options.contains || p.switches.contains text)
      else return some (Tool.Test.unary (← job false "[[" []) op text)
    | .binary op left right =>
      let text ← expandText fuel left
      let ignoresCase := (← process).switches.contains "nocasematch"
      let fold (cs : List Char) : List Char := if ignoresCase then cs.map Char.toLower else cs
      if ["=", "==", "!="].contains op then
        let pattern := (Piece.marked (← expand fuel .plain right)).map fun (c, quoted) =>
          (if ignoresCase then c.toLower else c, quoted)
        return some (Wildcard.fits (Wildcard.ofMarked pattern) (fold text.toList) == (op != "!="))
      else if op == "=~" then matches_ fuel text right
      else if op == "<" || op == ">" then
        let other ← expandText fuel right
        let (a, b) := if op == "<" then (text, other) else (other, text)
        return some (Text.precedes a.toList b.toList)
      else
        match ← compute fuel "[[" left, ← compute fuel "[[" right with
        | some a, some b =>
          return (Tool.Test.binary .extended (toString a) op (toString b)).toOption
        | _, _ => return some false

/-- Does an expression match in a text? What it matches is kept, with its groups. -/
def matches_ : Nat → String → Word → Action (Option Bool)
  | 0, _, _ => return none
  | fuel + 1, text, word => do
    match Regex.parse? .extended (expressionOf (← expand fuel .plain word)) with
    | none => return none
    | some r =>
      let ignoresCase := (← process).switches.contains "nocasematch"
      match Regex.find? ignoresCase r (Regex.startOf text.toList) with
      | none => return some false
      | some m =>
        let groups := (List.range (Regex.groupCount r)).map fun i =>
          (toString (i + 1), String.ofList ((m.stop.groups.lookup (i + 1)).getD []))
        assignElements "BASH_REMATCH" false (("0", String.ofList m.text) :: groups)
        return some true

/-- Run the body of a loop once. Does the loop go on? -/
def runBody : Nat → Bool → Command → Action Bool
  | 0, _, _ => return false
  | fuel + 1, tested, body => do
    let loops := (← process).loops
    try
      run fuel tested body
      return true
    catch jump =>
      match jump with
      | .leaveLoops 1 => return false
      | .leaveLoops n =>
        change fun p => { p with loops := loops - 1 }
        throw (.leaveLoops (n - 1))
      | .nextRound 1 => return true
      | .nextRound n =>
        change fun p => { p with loops := loops - 1 }
        throw (.nextRound (n - 1))
      | jump => throw jump

/-- Repeat a body; `last` is its latest status. -/
def repeatWhile : Nat → Bool → Bool → Command → Command → Nat → Action Unit
  | 0, _, _, _, _, _ => return ()
  | fuel + 1, tested, untilSuccess, condition, body, last => do
    if !(← runBody fuel true condition) then setStatus last
    else if ((← process).status = 0) = !untilSuccess then
      if ← runBody fuel tested body then
        repeatWhile fuel tested untilSuccess condition body (← process).status
    else setStatus last

def repeatFor : Nat → Bool → String → Command → List String → Action Unit
  | 0, _, _, _, _ | _, _, _, _, [] => return ()
  | fuel + 1, tested, name, body, item :: items => do
    assign name item
    if ← runBody fuel tested body then repeatFor fuel tested name body items

/-- Run the first branch with a pattern that fits, and the branches that its end leads on to. -/
def choose : Nat → Bool → List Char → List (List Word × Command × BranchEnd) → Action Unit
  | 0, _, _, _ => return ()
  | _, _, _, [] => setStatus 0
  | fuel + 1, tested, text, (patterns, body, ending) :: rest => do
    let fitting ← patterns.anyM fun word => do
      return Wildcard.fits (Wildcard.ofMarked (Piece.marked (← expand fuel .plain word))) text
    if fitting then chosen fuel tested text body ending rest else choose fuel tested text rest

/-- Run the body of a branch, and go on as its end says. -/
def chosen : Nat → Bool → List Char → Command → BranchEnd →
    List (List Word × Command × BranchEnd) → Action Unit
  | 0, _, _, _, _, _ => return ()
  | fuel + 1, tested, text, body, ending, rest => do
    run fuel tested body
    match ending, rest with
    | .fall, (_, body, ending) :: rest => chosen fuel tested text body ending rest
    | .goOn, rest => if !rest.isEmpty then choose fuel tested text rest
    | _, _ => return ()

/-- Make redirections, up to the first that fails. -/
def redirectAll : Nat → List Redirection → Action Bool
  | 0, _ => return false
  | _, [] => return true
  | fuel + 1, r :: rest => do
    let target ← match r.kind with
      | .document true => pure (String.ofList (Piece.text (← expand fuel .document r.target)))
      | .document false => pure (String.ofList r.target)
      | _ => expandText fuel r.target
    match ← redirect r.descriptor r.kind target with
    | none => redirectAll fuel rest
    | some complaint =>
      complain complaint
      setStatus (if ← isExtended then 1 else 2)
      return false

/-- Set variables to the values of words, and give the settings as they are traced. -/
def assignAll : Nat → List Setting → Action (List String)
  | 0, _ => return []
  | fuel + 1, settings =>
    settings.mapM fun s => do
      let p ← process
      match p.dialect, s.value with
      | .extended, '(' :: inner =>
        assignList fuel s.target.name s.appends inner.dropLast
        return s.target.name
      | _, word =>
        let value ← expandText fuel word
        let key ← match s.target.index with
          | none => pure none
          | some index => some <$> do keyOf s.target.name (← expandText fuel index)
        let old := if s.appends then (p.text? s.target.name key).getD "" else ""
        let isComputed := (p.vars.get? s.target.name).any (·.computed)
        assignAt s.target.name key
          (if s.appends && isComputed then s!"{old} + {value}" else old ++ value)
        return s!"{s.target.name}={traced p.dialect value}"

/-- Let a variable hold the elements that words stand for, behind those it has or in their place.
An element may name its key. -/
def assignList : Nat → String → Bool → List Char → Action Unit
  | 0, _, _, _ => return ()
  | fuel + 1, name, appends, inner => do
    let p ← process
    let old := if appends then p.elements name else []
    let words := (tokens .extended p.line inner).filterMap fun t =>
      match t.token with
      | .word raw => some raw
      | _ => none
    let isKeyed := p.isKeyed name
    let next (items : List (String × String)) : String :=
      toString (((items.getLast?.bind fun (key, _) => Text.decimal? key.toList).map (· + 1)).getD 0)
    let items ← words.foldlM
      (fun items word => do
        match Parser.setting? .extended ('_' :: word) with
        | some ⟨⟨"_", some index⟩, _, value⟩ =>
          let key ← keyOf name (← expandText fuel index)
          return items.filter (·.1 != key) ++ [(key, ← expandText fuel value)]
        | _ =>
          return (← expandWords fuel [word]).foldl
            (fun items field => items ++ [(next items, field)]) items)
      old
    assignElements name isKeyed items

/-- Run a command that is made of words. -/
def runSimple : Nat → Bool → List Setting → List Word → List Redirection → Action Unit
  | 0, _, _, _, _ => return ()
  | fuel + 1, tested, settings, words, redirections => do
    let dialect := (← process).dialect
    let (fields, lists) ← match words with
      | first :: others =>
        if (declarers dialect).contains (String.ofList first) then
          let (args, lists) ← expandSettings fuel others
          pure (String.ofList first :: args, lists)
        else pure (← expandWords fuel words, [])
      | [] => pure ([], [])
    let errors? ← channel? 2
    let trace (parts : List String) : Action Unit := do
      if ← isSet 'x' then
        let line := " ".intercalate parts
        if let some errors := errors? then
          modify fun m => (m.write errors s!"+ {line}\n".toList).2
    match fields with
    | [] =>
      restoring restoreDescriptors do
        if ← redirectAll fuel redirections then
          trace (← assignAll fuel settings)
          change fun p => { p with status := p.inserted }
    | ["exec"] =>
      if ← redirectAll fuel redirections then
        trace ((← assignAll fuel settings) ++ fields.map (traced dialect))
        setStatus 0
      else if dialect = .plain then throw .leave
    | name :: args =>
      let isSpecial := dialect = .plain && specialNames.contains name
      restoring restoreDescriptors do
        if ← redirectAll fuel redirections then
          if isSpecial then
            trace ((← assignAll fuel settings) ++ fields.map (traced dialect))
            if name == "exec" then exportAll (settings.map (·.target.name))
            invoke fuel tested true name args
          else
            restoring (restoreVariables (settings.map (·.target.name))) do
              trace ((← assignAll fuel settings) ++ fields.map (traced dialect))
              exportAll (settings.map (·.target.name))
              invoke fuel tested true name args
            if !lists.isEmpty then
              let _ ← assignAll fuel lists
        else if isSpecial then throw .leave

/-- Run the command called `name`. -/
def invoke : Nat → Bool → Bool → String → List String → Action Unit
  | 0, _, _, _, _ => return ()
  | fuel + 1, tested, functions, name, args => do
    let m ← get
    let p := m.process
    match name, args with
    | "eval", args =>
      let text := (" ".intercalate args).toList
      match p.dialect with
      | .plain =>
        restoring leaveText do
          change fun p => { p with context := "eval" }
          runText fuel 1 text
      | .extended =>
        if (parse .extended p.line text).2.isSome then
          try
            restoring leaveText (runText fuel p.line text)
          catch jump => if jump = .leave && (← process).status = 2 then pure () else throw jump
        else restoring leaveText (runText fuel p.line text)
    | "source", args =>
      if p.dialect = .extended then invoke fuel tested functions "." args
      else inChild fuel (startProgram fuel name args)
    | ".", [] =>
      if p.dialect = .extended then refuseAs name "" "filename argument required" 2
      else setStatus 0
    | ".", path :: others =>
      match (← get).files.open? (p.path path) with
      | .ok (.ok content) =>
        restoring leaveText do
          change fun p =>
            match p.dialect with
            | .plain => { p with context := path }
            | .extended => { p with source := path }
          if p.dialect = .extended && !others.isEmpty then
            change fun p => { p with args := others }
          try
            runText fuel 1 (Text.ofBytes content.toList)
          catch jump => if jump = .leaveFunction then pure () else throw jump
        change fun after => { after with args := if others.isEmpty then after.args else p.args }
      | _ =>
        if p.dialect = .extended then
          complain s!"{path}: No such file or directory"
          setStatus 1
        else refuse "." s!"cannot open {path}: No such file"
    | "exec", name :: args =>
      change fun p => { p with context := "exec", atEnd := "" }
      inChild fuel (startProgram fuel name args)
      throw .leave
    | "builtin", name :: args =>
      if p.dialect = .extended then invoke fuel tested false name args
      else inChild fuel (startProgram fuel "builtin" (name :: args))
    | "command", "-v" :: names | "command", "-V" :: names =>
      describeAll fuel (args.head? == some "-V") names
    | "type", "-t" :: names =>
      if p.dialect = .plain then describeAll fuel true args
      else
        let kinds := names.filterMap fun name =>
          if p.functions.contains name then some "function"
          else if specialNames.contains name || (builtin? p.dialect name).isSome then some "builtin"
          else if Parser.reserved.contains name then some "keyword"
          else if (describe m.files p name).isSome then some "file" else none
        print "type" (kinds.flatMap fun kind => (kind ++ "\n").toList)
        if kinds.length < names.length then setStatus 1
    | "type", names => describeAll fuel true names
    | "command", args =>
      match args with
      | "-p" :: name :: args | name :: args =>
        if name.startsWith "-" then
          refuseAs "command" s!"Illegal option {name}" s!"{name}: invalid option" 2
        else invoke fuel tested false name args
      | [] => setStatus 0
    | "trap", args =>
      setStatus 0
      match args with
      | action :: signals =>
        if signals.contains "EXIT" || signals.contains "0" then
          change fun p => { p with atEnd := if action == "-" then "" else action }
      | [] => return ()
    | name, args =>
      let isSpecial := p.dialect = .plain && specialNames.contains name
      let body? := if functions && !isSpecial then p.functions.get? name else none
      match body?, builtin? p.dialect name with
      | some body, _ => call fuel tested body args
      | none, some act => act args
      | none, none => inChild fuel (startProgram fuel name args)

/-- Tell what names lead to. -/
def describeAll : Nat → Bool → List String → Action Unit
  | 0, _, _ => return ()
  | _, _, [] => return ()
  | fuel + 1, verbose, name :: names => do
    let m ← get
    let dialect := m.process.dialect
    match describe m.files m.process name with
    | none =>
      if verbose && dialect = .plain then write 1 s!"{name}: not found\n".toList
      else if verbose then complainOf "type" s!"{name}: not found"
      setStatus (if dialect = .plain then 127 else 1)
    | some text =>
      let text := if !verbose then text
        else if m.process.functions.contains name then
          if dialect = .plain then s!"{name} is a shell function" else s!"{name} is a function"
        else if specialNames.contains name && dialect = .plain then
          s!"{name} is a special shell builtin"
        else if specialNames.contains name || (builtin? dialect name).isSome then
          s!"{name} is a shell builtin"
        else s!"{name} is {text}"
      write 1 s!"{text}\n".toList
      setStatus 0
    describeAll fuel verbose names

/-- Run a function. -/
def call : Nat → Bool → Command → List String → Action Unit
  | 0, _, _, _ => return ()
  | fuel + 1, tested, body, args => do
    restoring leaveCall do
      change fun p => { p with args, loops := 0, hidden := some [] }
      try
        run fuel tested body
      catch jump => if jump = .leaveFunction then pure () else throw jump

/-- Run the program called `name` in this process, which it takes over. -/
def startProgram : Nat → String → List String → Action Unit
  | 0, _, _ => return ()
  | fuel + 1, name, args => do
    let m ← get
    match Program.find m.files m.process.directory name args with
    | .ok start => runStart fuel start
    | .error missing =>
      let isPath := name.toList.contains '/'
      let isDirectory := isPath && Tool.Test.unary (← job false name []) "-d" name
      let reason := match missing with
        | .notPermitted => if isDirectory then "Is a directory" else missing.reason
        | .notFound =>
          if isPath then missing.reason
          else if m.process.context == "exec" then missing.message else "command not found"
      complain (← byDialect s!"{name}: {missing.message}" s!"{name}: {reason}")
      setStatus (if isDirectoryName m name then Missing.notFound.status else missing.status)

def runStart : Nat → Program.Start → Action Unit
  | 0, _ => return ()
  | fuel + 1, start => do
    match start with
    | .script path text args =>
      change fun p => p.child path args
      runScript fuel text
    | .tool called name args =>
      match Tool.find? name with
      | some tool =>
        take
          (fun fault =>
            let (complaint, status) := Tool.writeFailure name fault
            (s!"{called}: {complaint}", status))
          (tool (← job true called args))
      | none => runStarter fuel called name args

/-- Run a tool that runs a script or another program. -/
def runStarter : Nat → String → String → List String → Action Unit
  | 0, _, _, _ => return ()
  | fuel + 1, called, name, args => do
    let complainPlainly (text : String) (status : Nat) : Action Unit := do
      write 2 s!"{called}: {text}\n".toList
      setStatus status
    let startNext (args : List String) : Action Unit := do
      let m ← get
      match args with
      | [] =>
        let complaint := if name == "timeout" then "" else s!"{called}: missing operand\n"
        write 2 s!"{complaint}Try '{called} --help' for more information.\n".toList
        setStatus 125
      | program :: args =>
        match Program.find m.files m.process.directory program args with
        | .ok start => runStart fuel start
        | .error missing =>
          let shown := if ["nice", "nohup"].contains name then s!"'{program}'"
            else s!"failed to run command '{program}'"
          complainPlainly s!"{shown}: {missing.reason}" missing.status
    match name with
    | "env" => startIn fuel called args
    | "xargs" => startWithInput fuel called args
    | "timeout" => startNext (dropOptions ["-s", "-k"] args).tail
    | "nice" => startNext (dropOptions ["-n"] args)
    | "stdbuf" => startNext (dropOptions ["-i", "-o", "-e"] args)
    | "nohup" | "setsid" => startNext (dropOptions [] args)
    | "awk" | "mawk" | "nawk" => runPatterns fuel called args
    | _ => runShell fuel called (if name == "bash" then .extended else .plain) args

/-- Run a pattern program. Its commands are run by shells of their own. -/
def runPatterns : Nat → String → List String → Action Unit
  | 0, _, _ => return ()
  | fuel + 1, called, args => do
    let m ← get
    let shell (files : Files) (input : List Char) (name text : String) : Tool.Effect :=
      let n := m.channels.size
      let channels := m.channels ++ #[.source input, .sink [], .sink []]
      let led := [0, 1, 2].foldl (fun (t : Table Nat Nat) d => t.insert d (n + d))
        m.process.descriptors
      let start := { m with files, channels, process := { m.process with descriptors := led } }
      let (_, after) := (inChild fuel (runShell fuel name .plain ["-c", text])).run start
      ⟨after.written (n + 1), after.written (n + 2), after.process.status, after.remaining n,
        after.files⟩
    let job ← job true called args
    take
      (fun fault =>
        let (complaint, status) := Tool.writeFailure "awk" fault
        (s!"{called}: {complaint}", status))
      (Tool.Awk.runCall ⟨job, m.process.environment, shell⟩)

/-- Start a program in a changed environment, or show the environment. -/
def startIn : Nat → String → List String → Action Unit
  | 0, _, _ => return ()
  | fuel + 1, called, args => do
    match args with
    | "-S" :: text :: rest => startIn fuel called (quotedWords text.toList ++ rest)
    | "-i" :: rest | "-" :: rest | "--ignore-environment" :: rest =>
      change fun p => { p with vars := .empty }
      startIn fuel called rest
    | "-u" :: name :: rest =>
      change fun p => { p with vars := p.vars.erase name }
      startIn fuel called rest
    | "--" :: rest => startIn fuel called rest
    | [] =>
      let vars := (← process).environment
      write 1 (vars.flatMap fun (name, text) => s!"{name}={text}\n".toList)
      setStatus 0
    | arg :: rest =>
      if arg.toList.head? == some '-' && arg.startsWith "-S" then
        startIn fuel called (quotedWords (arg.toList.drop 2) ++ rest)
      else if arg.toList.contains '=' then
        let (name, value) := Builtin.splitSetting arg
        let v := { Variable.blank with value := value.map .text, exported := true }
        change fun p => { p with vars := p.vars.insert name v }
        startIn fuel called rest
      else
        let m ← get
        match Program.find m.files m.process.directory arg rest with
        | .ok start => runStart fuel start
        | .error missing =>
          write 2 s!"{called}: '{arg}': {missing.reason}\n".toList
          setStatus missing.status

/-- Start a program on the words of the input. -/
def startWithInput : Nat → String → List String → Action Unit
  | 0, _, _ => return ()
  | fuel + 1, called, args => do
    let valued := ["-n", "-I", "-L", "-d", "-P", "-s"]
    let o := Tool.Options.read ['n', 'I', 'L', 'd', 'P', 's'] false
      (args.take (args.length - (dropOptions valued args).length))
    let command := dropOptions valued args
    let command := if command.isEmpty then ["echo"] else command
    let input ← readable 0
    leaveReadable 0 []
    let lines := (Text.lines input).map Text.chomp
    let separator? := if o.has "0" then some '\x00'
      else (o.value? "d").bind fun d => (Text.unescape Tool.argumentEscapes d.toList).text.head?
    let lineItems := (lines.filter (!·.isEmpty)).map String.ofList
    let items := match o.value? "I", separator? with
      | some _, _ => lineItems
      | none, some c => ((Text.splitAt (· == c) input).filter (!·.isEmpty)).map String.ofList
      | none, none => quotedWords input
    let number (letter : String) : Option Nat :=
      (o.value? letter).bind fun n => Text.decimal? n.toList
    let calls : List (List String) :=
      match o.value? "I", number "n", number "L" with
      | some mark, _, _ =>
        items.map fun item => command.map fun arg => item.intercalate (arg.splitOn mark)
      | none, some n, _ => (batches n items.length items).map (command ++ ·)
      | none, none, some n =>
        (batches n lineItems.length lineItems).map fun group =>
          command ++ group.flatMap fun line => quotedWords line.toList
      | none, none, none => [command ++ items]
    let calls := if o.has "r" && items.isEmpty then [] else calls
    let empty ← openChannel (.source [])
    connect 0 empty
    setStatus 0
    let before ← process
    let statuses ← calls.mapM fun words => do
      match words with
      | name :: args =>
        let m ← get
        match Program.find m.files m.process.directory name args with
        | .ok start => inChild fuel (runStart fuel start)
        | .error missing =>
          write 2 s!"{called}: {name}: {missing.reason}\n".toList
          setStatus missing.status
      | [] => pure ()
      return (← process).status
    change fun p => { p with descriptors := before.descriptors }
    setStatus (match statuses.filter (· ≠ 0) with
      | [] => 0
      | status :: _ => if status < 126 then 123 else status)

/-- Run a script with a shell of its own: from an argument, a file or the input. -/
def runShell : Nat → String → Dialect → List String → Action Unit
  | 0, _, _, _ => return ()
  | fuel + 1, called, dialect, args => do
    let c := ShellCall.read dialect args
    let options := c.options.filter fun o => !(['c', 'i', 'l', 's'].contains o)
    let enter (name : String) (args : List String) : Action Unit := do
      change fun p => { p.child name args with options, dialect, switches := c.switches }
      if dialect = .extended then
        change fun p =>
          let more := extendedVariables.filter fun (name, _) => !p.vars.contains name
          let vars := more.foldl (fun t (name, text) => t.insert name (.ofText text)) p.vars
          let version := { Variable.blank with value := some (.ofList shellVersion) }
          { p with vars := vars.insert "BASH_VERSINFO" version }
    let reject (plain extended : String) (status : Nat) : Action Unit := do
      match dialect with
      | .plain =>
        write 2 s!"{called}: 0: {plain}\n".toList
        setStatus 2
      | .extended =>
        write 2 s!"{called}: {extended}\n".toList
        setStatus status
    if let some complaint := c.complaint then reject complaint s!"{complaint}: invalid option" 2
    else if c.options.contains 'c' then
      match c.operands with
      | [] => reject "-c requires an argument" "-c: option requires an argument" 2
      | script :: rest =>
        enter (rest.headD called) rest.tail
        runScript fuel script.toList
    else
      match if c.options.contains 's' then [] else c.operands with
      | path :: rest =>
        match (← get).files.open? ((← process).path path) with
        | .ok (.ok content) =>
          enter path rest
          runScript fuel (Text.ofBytes content.toList)
        | .ok (.error fault) | .error fault =>
          let text := s!"cannot open {path}: No such file"
          reject text s!"{path}: {fault.reason}" (if fault = .notFound then 127 else 126)
      | [] =>
        let script ← readable 0
        leaveReadable 0 []
        enter called c.operands
        runScript fuel script

end

end LayeredSets.Shell
