import LayeredSets.Shell.Field
import LayeredSets.Shell.Variables
import LayeredSets.Tool.Format
import LayeredSets.Tool.Test
import LayeredSets.Tool.Words

/-!
# Commands of the shell itself

The commands that change the state of the shell or ask about it, apart from those that run other
commands.
-/

namespace LayeredSets.Shell

/-- The commands that fail together with the shell, and whose settings stay. -/
def specialNames : List String :=
  [":", ".", "break", "continue", "eval", "exec", "exit", "export", "readonly", "return", "set",
    "shift", "times", "trap", "unset", "local"]

/-- Complain about a call of the command `name`, which then ends with a status. In the plain dialect
the status is 2, and special commands fail together with the shell. -/
def refuseAs (name plain extended : String) (status : Nat) : Action Unit := do
  complainOf name (← byDialect plain extended)
  if ← isExtended then setStatus status
  else
    setStatus 2
    if specialNames.contains name then throw .leave

def refuse (name complaint : String) : Action Unit := refuseAs name complaint complaint 1

/-- Complain about what is no name but should be one. -/
def refuseName (name key : String) : Action Unit :=
  refuseAs name s!"{key}: bad variable name" s!"\x60{key}': not a valid identifier" 1

namespace Builtin

/-- The number in the first argument. -/
def withNumber (name : String) (default : Nat) (args : List String) (act : Nat → Action Unit) :
    Action Unit :=
  match args with
  | [] => act default
  | arg :: _ =>
    match Text.decimal? arg.toList with
    | some n => act n
    | none => refuseAs name s!"Illegal number: {arg}" s!"{arg}: numeric argument required" 2

def exit (args : List String) : Action Unit := do
  let p ← process
  if p.dialect = .extended && 1 < args.length then refuse "exit" "too many arguments"
  else
    withNumber "exit" p.status args fun n => setStatus (n % 256)
  throw .leave

def return_ (args : List String) : Action Unit := do
  let p ← process
  if p.dialect = .extended && p.hidden.isNone && p.source == "" then
    refuseAs "return" "" "can only \x60return' from a function or sourced script" 2
  else
    withNumber "return" p.status args fun n => do
      setStatus n
      throw .leaveFunction

/-- Leave loops, or go on with the next round of one. Outside of loops this does nothing. -/
def jump (name : String) (leave : Nat → Jump) (args : List String) : Action Unit :=
  withNumber name 1 args fun n => do
    let p ← process
    if n = 0 then refuse name "Illegal number: 0"
    else if p.loops ≠ 0 then
      setStatus 0
      throw (leave (min n p.loops))
    else if p.dialect = .extended then
      complainOf name "only meaningful in a \x60for', \x60while', or \x60until' loop"
    setStatus 0

/-- The path of a directory after `name` has been entered from `directory`. -/
def enterDirectory (directory name : String) : String :=
  let path := if name.startsWith "/" then name else directory ++ name
  if path.endsWith "/" then path else path ++ "/"

def cd (args : List String) : Action Unit := do
  let args := if args.head? == some "--" then args.tail else args
  let home := (← valueOf? "HOME").getD ""
  let name := args.headD home
  let m ← get
  let path := enterDirectory m.process.directory name
  let fault? : Option FileFault :=
    match m.files.locate (Text.ofByteText path.toList) with
    | .error fault => some fault
    | .ok place =>
      match m.files.node? place with
      | some .directory => none
      | some (.file _) => some .notDirectory
      | none => some .notFound
  match fault? with
  | none => change fun p => { p with directory := path, status := 0 }
  | some fault => refuseAs "cd" s!"can't cd to {name}" s!"{name}: {fault.reason}" 1

/-- Name and value of an argument such as `name=value`. -/
def splitSetting (arg : String) : String × Option String :=
  let name := arg.toList.takeWhile (· != '=')
  match arg.toList.drop name.length with
  | _ :: value => (String.ofList name, some (String.ofList value))
  | [] => (arg, none)

/-- Set variables and mark them. -/
def declare (name : String) (mark : Variable → Variable) (args : List String) : Action Unit := do
  setStatus 0
  for arg in args do
    if !arg.startsWith "-" then
      let (key, value) := splitSetting arg
      if !isName key.toList then
        refuseName name (if ← isExtended then arg else key)
      else
        if let some value := value then
          if ((← process).vars.get? key).any (·.readOnly) && !(← isExtended) then
            refuse name s!"{key}: is read only"
          assign key value
        change fun p =>
          let old := (p.vars.get? key).getD .blank
          { p with vars := p.vars.insert key (mark old) }

/-- Remove a variable, or an element of a list. -/
def unsetVariable (name : String) : Action Unit := do
  let whole := String.ofList (name.toList.takeWhile (· != '['))
  if ((← process).vars.get? whole).any (·.readOnly) then
    refuseAs "unset" s!"{name}: is read only" s!"{name}: cannot unset: readonly variable" 1
  else
    match Reference.target? (← process).dialect name.toList with
    | some (⟨list, some index⟩, []) =>
      let key ← keyOf list (String.ofList index)
      changeVariable list fun v =>
        match v.value with
        | some (.elements keyed items) =>
          { v with value := some (.elements keyed (items.erase key)) }
        | _ => v
    | _ => change fun p => { p with vars := p.vars.erase name }

def unset (args : List String) : Action Unit := do
  let functions := args.head? == some "-f"
  setStatus 0
  for name in if args.head?.any (·.startsWith "-") then args.tail else args do
    if functions then change fun p => { p with functions := p.functions.erase name }
    else
      let isFunction := (← isExtended) && !(← process).vars.contains name && args.head? != some "-v"
      if isFunction then change fun p => { p with functions := p.functions.erase name }
      unsetVariable name

/-- Hide a variable until the function being run ends. -/
def hide (name : String) : Action Unit := do
  if let some hidden := (← process).hidden then
    change fun p => { p with hidden := some ((name, p.vars.get? name) :: hidden) }

/-- Hide variables until the function being run ends. -/
def local_ (args : List String) : Action Unit := do
  setStatus 0
  for arg in args do
    let (name, value) := splitSetting arg
    if (← process).hidden.isNone then refuse "local" "not in a function"
    else
      hide name
      if let some value := value then assign name value

/-- How a variable can be declared. -/
def shownVariable (name : String) (v : Variable) : String :=
  let quoted (text : String) : String :=
    let escaped := text.toList.flatMap fun c =>
      if ['"', '\\', '$', '\x60'].contains c then ['\\', c] else [c]
    "\"" ++ String.ofList escaped ++ "\""
  let letters := (if v.computed then "i" else "") ++ (if v.readOnly then "r" else "") ++
    if v.exported then "x" else ""
  let shownItems (items : List (String × String)) : String :=
    " ".intercalate (items.map fun (key, text) => s!"[{key}]=" ++ quoted text)
  let shown := if letters == "" then "-" else letters
  match v.value with
  | none => s!"declare -{shown} {name}"
  | some (.text t) => s!"declare -{shown} {name}=" ++ quoted t
  | some (.elements keyed items) =>
    let kind := if keyed then "A" else "a"
    let items := shownItems (Value.inOrder (.elements keyed items))
    s!"declare -{kind}{letters} {name}=({items}" ++ (if keyed then " )" else ")")

/-- Declare variables and mark them as the letters in front say. In a function they are hidden
until it ends, unless a letter forbids that. -/
def declareAs (name : String) (args : List String) : Action Unit := do
  let isOption (arg : String) : Bool := arg.startsWith "-" || arg.startsWith "+"
  let letters := (args.takeWhile isOption).flatMap (·.toList)
  let has (c : Char) : Bool := letters.contains c
  let names := args.dropWhile isOption
  setStatus 0
  if name == "local" && (← process).hidden.isNone then
    refuse "local" "can only be used in a function"
  else if let some c := letters.find? fun c => !"-+aAfFgiIlnrtuxp".toList.contains c then
    let usage := s!"{name}: usage: {name} [-aAfFgiIlnrtux] [name[=value] ...]" ++
      s!" or {name} -p [-aAfFilnrtux] [name ...]"
    refuseAs name "" (s!"-{c}: invalid option\n" ++ usage) 2
  else if has 'p' then
    for key in names do
      match (← process).vars.get? key with
      | some v => write 1 (shownVariable key v ++ "\n").toList
      | none => refuse name s!"{key}: not found"
  else
    for arg in names do
      let (key, value) := splitSetting arg
      if !isName key.toList then refuseName name arg
      else
        let isFresh := !has 'g' && (← process).hidden.isSome
        if isFresh then
          hide key
          change fun p => { p with vars := p.vars.erase key }
        let mark (v : Variable) : Variable :=
          let value := match v.value with
            | none => if has 'A' then some (.elements true .empty)
              else if has 'a' then some (.elements false .empty) else none
            | some value => some value
          { v with value, computed := v.computed || has 'i', exported := v.exported || has 'x' }
        change fun p =>
          { p with vars := p.vars.insert key (mark ((p.vars.get? key).getD .blank)) }
        if let some value := value then assign key value
        if has 'r' then
          change fun p =>
            let v := (p.vars.get? key).getD .blank
            { p with vars := p.vars.insert key { v with readOnly := true } }

/-- The options that have a name of their own. -/
def optionNames : List (String × Char) :=
  [("allexport", 'a'), ("errexit", 'e'), ("noglob", 'f'), ("noexec", 'n'), ("nounset", 'u'),
    ("verbose", 'v'), ("xtrace", 'x')]

/-- Further options of the extended dialect that have a name but no letter here. -/
def switchNames : List String :=
  ["pipefail", "posix", "noclobber", "monitor", "physical", "privileged", "hashall", "history",
    "histexpand", "braceexpand", "keyword", "nolog", "notify", "onecmd", "vi", "emacs", "errtrace",
    "functrace", "ignoreeof", "interactive-comments"]

def setSwitch (on : Bool) (name : String) : Action Unit :=
  change fun p =>
    let others := p.switches.filter (· != name)
    { p with switches := if on then name :: others else others }

def setOption (on : Bool) (letter : Char) : Action Unit :=
  change fun p =>
    let others := p.options.filter (· != letter)
    { p with options := if on then others ++ [letter] else others }

/-- Set the options that the letters after a sign stand for. Is there one by its name to come? -/
def setLetters (name : String) (on : Bool) (letters : List Char) : Action Bool := do
  for c in letters do
    if c != 'o' then
      if !on || "aefnuvxmbChi".toList.contains c ||
          (← isExtended) && "BEHPTkpt".toList.contains c then setOption on c
      else
        let form := "[-abefhkmnptuvxBCEHPT] [-o option-name] [--] [-] [arg ...]"
        let usage := s!"{name}: usage: {name} {form}"
        refuseAs name s!"Illegal option -{c}" (s!"-{c}: invalid option\n" ++ usage) 2
  return letters.contains 'o'

/-- Set the option with a name. -/
def setNamed (name : String) (on : Bool) (option : String) : Action Unit := do
  match optionNames.lookup option with
  | some letter => setOption on letter
  | none =>
    if (← isExtended) && switchNames.contains option then setSwitch on option
    else refuseAs name s!"Illegal option -o {option}" s!"{option}: invalid option name" 2

/-- Read options and hand on the arguments after them; `none` if there are no more arguments. -/
def readOptions (name : String) : List String → Action (Option (List String))
  | [] => return none
  | arg :: rest => do
    match arg.toList with
    | ['-', '-'] => return some rest
    | sign :: letter :: letters =>
      if sign != '-' && sign != '+' then return some (arg :: rest)
      else
        let isNamed ← setLetters name (sign == '-') (letter :: letters)
        match isNamed, rest with
        | true, option :: rest =>
          setNamed name (sign == '-') option
          readOptions name rest
        | _, rest => readOptions name rest
    | _ => return some (arg :: rest)
termination_by args => args.length

def set_ (args : List String) : Action Unit := do
  setStatus 0
  if args.isEmpty then
    let vars := (← process).vars.entries.filterMap fun (name, v) =>
      v.text?.map fun value => s!"{name}='{value}'\n"
    print "set" ("".intercalate (vars.mergeSort fun a b => !(b < a))).toList
  else if let some args ← readOptions "set" args then change fun p => { p with args }

def shift (args : List String) : Action Unit :=
  withNumber "shift" 1 args fun n => do
    if (← process).args.length < n then
      if ← isExtended then setStatus 1 else refuse "shift" "can't shift that many"
    else change fun p => { p with args := p.args.drop n, status := 0 }

/-- What `read` takes from its input, and how. -/
structure LineRules where
  /-- Do backslashes stand for themselves? -/
  raw : Bool
  /-- The character at the end of a line. -/
  ending : Char
  /-- How many characters are taken at most. -/
  most : Option Nat

/-- The line in front of a text, whether it is whole, and what follows. Backslashes quote unless
they stand for themselves. -/
def takeLine (rules : LineRules) : List Char → List Piece × Bool × List Char
  | cs => take rules.most cs
where
  take : Option Nat → List Char → List Piece × Bool × List Char
    | some 0, cs => ([], true, cs)
    | _, [] => ([], false, [])
    | most, c :: rest =>
      let next := most.map (· - 1)
      if c == rules.ending then ([], true, rest)
      else match c, rules.raw, rest with
        | '\\', false, d :: rest =>
          let (ps, whole, rest) := take next rest
          (if d == '\n' then ps else .char d .quoted :: ps, whole, rest)
        | '\\', false, [] => ([], false, [])
        | c, _, rest =>
          let (ps, whole, rest) := take next rest
          (if c == '\x00' then ps else .char c .inserted :: ps, whole, rest)

/-- Look for the line in more and more of the characters ahead, and take it. -/
def lineAhead (rules : LineRules) (channel : Nat) : Nat → Nat → Action (List Piece × Bool)
  | 0, _ => return ([], false)
  | fuel + 1, count => do
    let m ← get
    let (text, more) := m.ahead channel count
    let (line, whole, rest) := takeLine rules text
    if whole || !more then
      set (m.skip channel (text.length - rest.length))
      return (line, whole)
    else lineAhead rules channel fuel (8 * count)

/-- Take a line from a descriptor. Is it whole? -/
def lineFrom (rules : LineRules) (descriptor : Nat) : Action (List Piece × Bool) := do
  match ← channel? descriptor with
  | some channel => lineAhead rules channel 64 256
  | none => return ([], false)

def readPlainly (args : List String) : Action Unit := do
  let o := Tool.Options.read ['p'] false args
  if let some (letter, _) := o.given.find? fun (letter, _) => !(["p", "r"].contains letter) then
    refuse "read" s!"Illegal option -{letter}"
  else if o.operands.isEmpty then refuse "read" "arg count"
  else
    let (line, whole) ← lineFrom ⟨o.has "r", '\n', none⟩ 0
    let separators ← separators
    let line := line.dropWhile fun
      | .char c origin => origin == .inserted && isBlankSeparator separators c
      | _ => false
    let fields := splitLine separators o.operands.length line
    let (named, others) := o.operands.span (isName ·.toList)
    for (name, i) in named.zipIdx do
      assign name (String.ofList ((fields[i]?).getD []))
    match others with
    | name :: _ => refuse "read" s!"{name}: bad variable name"
    | [] => setStatus (if whole then 0 else 1)

/-- Read a line as the extended dialect does: also into a list, or no more than some characters. -/
def readExtended (args : List String) : Action Unit := do
  let o := Tool.Options.read "adinNptu".toList false args
  let number (letter : String) : Option Nat :=
    (o.value? letter).bind fun n => Text.decimal? n.toList
  if let some name := o.operands.find? (!isName ·.toList) then refuseName "read" name
  else
    let ending := match o.value? "d" with
      | some d => (d.toList.head?).getD '\x00'
      | none => '\n'
    let most := (number "n").or (number "N")
    let (line, whole) ← lineFrom ⟨o.has "r", ending, most⟩ ((number "u").getD 0)
    let separators ← separators
    let trimmed := line.dropWhile fun
      | .char c origin => origin == .inserted && isBlankSeparator separators c
      | _ => false
    match o.value? "a", o.operands with
    | some name, _ =>
      let fields := (fieldsOf separators trimmed).map fun field => String.ofList (field.map (·.1))
      assignElements name false (fields.zipIdx.map fun (field, i) => (toString i, field))
    | none, [] => assign "REPLY" (String.ofList (Piece.text line))
    | none, names =>
      let fields := splitLine separators names.length trimmed
      for (name, i) in names.zipIdx do
        assign name (String.ofList ((fields[i]?).getD []))
    setStatus (if whole then 0 else 1)

def read (args : List String) : Action Unit := do
  if ← isExtended then readExtended args else readPlainly args

/-- Read the lines of the input into a list. -/
def mapfile (args : List String) : Action Unit := do
  let o := Tool.Options.read "CcdnOsu".toList false args
  let number (letter : String) : Nat :=
    ((o.value? letter).bind fun n => Text.decimal? n.toList).getD 0
  let ending := match o.value? "d" with
    | some d => (d.toList.head?).getD '\x00'
    | none => '\n'
  let rec lines (fuel : Nat) (cs : List Char) : List (List Char) :=
    match fuel, cs with
    | 0, _ | _, [] => []
    | fuel + 1, cs =>
      let line := cs.takeWhile (· != ending)
      let rest := cs.drop line.length
      (line ++ if o.has "t" then [] else rest.take 1) :: lines fuel (rest.drop 1)
  let input ← readable (number "u")
  leaveReadable (number "u") []
  let items := (lines input.length input).drop (number "s")
  let items := if o.has "n" && number "n" ≠ 0 then items.take (number "n") else items
  assignElements (o.operands.headD "MAPFILE") false
    (items.zipIdx.map fun (item, i) => (toString (i + number "O"), String.ofList item))
  setStatus 0

/-- The words of the dialect that is in use. -/
def wording : Action Tool.Wording := return if ← isExtended then .extended else .plain

/-- Use a tool as a command of the shell, which reads no input: its complaints name the place in the
script. -/
def ofTool (tool : Tool.Wording → Tool.Job → Tool.Effect) (name : String) (args : List String) :
    Action Unit := do
  let origin := (← process).origin
  let failure (isExtended : Bool) (fault : FileFault) : String × Nat :=
    let reason := if isExtended then s!"write error: {fault.reason}" else s!"{name}: I/O error"
    (s!"{origin}: {name}: {reason}", 1)
  takeOutput (failure (← isExtended)) (tool (← wording) (← job false s!"{origin}: {name}" args))

def echo (args : List String) : Action Unit := do
  if ← isExtended then ofTool (fun _ => Tool.echo) "echo" args
  else
    let (args, lineBreak) := if args.head? == some "-n" then (args.tail, false) else (args, true)
    print "echo" (Tool.echoText .plain true lineBreak args)

/-- Print by a format or, in the extended dialect, set a variable to what would be printed. -/
def printf (args : List String) : Action Unit := do
  match ← isExtended, args with
  | true, "-v" :: name :: args =>
    let effect := Tool.printf .extended (← job false s!"{(← process).origin}: printf" args)
    write 2 effect.errors
    setStatus effect.status
    assign name (String.ofList effect.output)
  | _, args => ofTool Tool.printf "printf" args

/-- Compute expressions; the last one tells whether that succeeds. -/
def let_ (args : List String) : Action Unit := do
  if args.isEmpty then refuse "let" "expression expected"
  for arg in args do
    match ← tryEvaluate arg.toList with
    | .ok n => setStatus (if n = 0 then 1 else 0)
    | .error complaint => refuse "let" complaint

/-- The options that `shopt` knows. -/
def shellOptions : List String :=
  ["autocd", "cdspell", "checkwinsize", "cmdhist", "dotglob", "expand_aliases", "extglob",
    "failglob", "globstar", "inherit_errexit", "lastpipe", "nocaseglob", "nocasematch", "nullglob",
    "sourcepath", "xpg_echo"]

/-- Set options that have names only, or ask for them. -/
def shopt (args : List String) : Action Unit := do
  let letters := (args.takeWhile (·.startsWith "-")).flatMap (·.toList)
  setStatus 0
  for name in args.dropWhile (·.startsWith "-") do
    if !shellOptions.contains name && !switchNames.contains name then
      refuse "shopt" s!"{name}: invalid shell option name"
    else if letters.contains 's' then setSwitch true name
    else if letters.contains 'u' then setSwitch false name
    else if !(← process).switches.contains name then setStatus 1

/-- Send a signal to the process itself, which ends it unless the signal is zero. -/
def kill (args : List String) : Action Unit := do
  let signals := [("HUP", 1), ("INT", 2), ("QUIT", 3), ("ABRT", 6), ("KILL", 9), ("SEGV", 11),
    ("PIPE", 13), ("ALRM", 14), ("TERM", 15)]
  let number (name : String) : Nat :=
    (Text.decimal? name.toList).getD ((signals.lookup name).getD 15)
  let (signal, targets) := match args with
    | "-s" :: name :: rest => (number name, rest)
    | arg :: rest =>
      if arg.startsWith "-" then (number (String.ofList (arg.toList.drop 1)), rest)
      else (15, args)
    | [] => (15, [])
  if targets.isEmpty then
    if ← isExtended then
      write 2 ("kill: usage: kill [-s sigspec | -n signum | -sigspec] pid | jobspec ... " ++
        "or kill -l [sigspec]\n").toList
      setStatus 2
    else
      refuse "kill" ("Usage: kill [-s sigspec | -signum | -sigspec] [pid | job]... or\n" ++
        "kill -l [exitstatus]")
  else if targets.contains (toString processNumber) then
    if signal = 0 then setStatus 0
    else
      change fun p => { p with status := 128 + signal, atEnd := "" }
      throw .die
  else
    let target := targets.headD ""
    let about := if (Text.decimal? target.toList).isSome then s!"({target}) - No such process"
      else s!"{target}: arguments must be process or job IDs"
    complainOf "kill" (← byDialect "No such process" about)
    setStatus 1

/-- Wait for background commands, which have ended already, and take the status of the last. -/
def wait (args : List String) : Action Unit := do
  let jobs := (← process).jobs
  setStatus 0
  for arg in args do
    match Text.decimal? arg.toList with
    | some n =>
      let status? := if processNumber < n then jobs[n - processNumber - 1]? else none
      setStatus (status?.getD 127)
    | none =>
      refuseAs "wait" s!"Illegal number: {arg}" s!"\x60{arg}': not a pid or valid job spec" 1

/-- Take the next option out of the arguments, where `OPTIND` and an offset in the argument say. -/
def getopts (args : List String) : Action Unit := do
  match args with
  | letters :: name :: given =>
    let p ← process
    let params := if given.isEmpty then p.args else given
    let index := max 1 (((p.text? "OPTIND" none).bind fun v => Text.decimal? v.toList).getD 1)
    let isSilent := letters.startsWith ":"
    let arg := ((params[index - 1]?).getD "").toList
    let offset := if p.optionOffset = 0 then 1 else p.optionOffset
    let finish (index : Nat) : Action Unit := do
      assign "OPTIND" (toString index)
      assign name "?"
      change fun p => { p with optionOffset := 0, status := 1 }
    match arg, arg[offset]? with
    | ['-', '-'], _ => finish (index + 1)
    | '-' :: _, some c =>
      let isLast := arg.length ≤ offset + 1
      let goOn : Action Unit := do
        assign "OPTIND" (toString (if isLast then index + 1 else index))
        change fun p => { p with optionOffset := if isLast then 0 else offset + 1 }
      let withValue (value : String) (index : Nat) : Action Unit := do
        assign name c.toString
        assign "OPTARG" value
        assign "OPTIND" (toString index)
        change fun p => { p with optionOffset := 0 }
      let unknown (sign complaint : String) : Action Unit := do
        if isSilent then
          assign name sign
          assign "OPTARG" c.toString
        else
          let front := if p.dialect = .extended then s!"{p.name}: " else ""
          write 2 s!"{front}{complaint}\n".toList
          assign name "?"
          change fun p => { p with vars := p.vars.erase "OPTARG" }
        goOn
      setStatus 0
      match (letters.toList.dropWhile (· != c)), c == ':' with
      | [], _ | _, true => 
        unknown "?" (← byDialect s!"Illegal option -{c}" s!"illegal option -- {c}")
      | _ :: ':' :: _, _ =>
        if !isLast then withValue (String.ofList (arg.drop (offset + 1))) (index + 1)
        else match params[index]? with
          | some value => withValue value (index + 2)
          | none =>
            unknown ":"
              (← byDialect s!"No arg for -{c} option" s!"option requires an argument -- {c}")
      | _, _ =>
        assign name c.toString
        change fun p => { p with vars := p.vars.erase "OPTARG" }
        goOn
    | _, _ => finish index
  | _ => refuse "getopts" "Usage: getopts optstring var [arg...]"

end Builtin

/-- The commands that only the extended dialect has, or has in another form. -/
def extendedBuiltin? (name : String) : Option (List String → Action Unit) :=
  match name with
  | "local" | "declare" | "typeset" => some (Builtin.declareAs name)
  | "mapfile" | "readarray" => some Builtin.mapfile
  | "let" => some Builtin.let_
  | "shopt" => some Builtin.shopt
  | "bind" | "disown" | "enable" | "help" | "history" => some fun _ => setStatus 0
  | _ => none

/-- The command of the shell with this name. -/
def plainBuiltin? (name : String) : Option (List String → Action Unit) :=
  match name with
  | ":" | "true" | "alias" | "unalias" | "hash" | "jobs" | "times" =>
    some fun _ => setStatus 0
  | "false" => some fun _ => setStatus 1
  | "exit" => some Builtin.exit
  | "return" => some Builtin.return_
  | "break" => some (Builtin.jump name .leaveLoops)
  | "continue" => some (Builtin.jump name .nextRound)
  | "cd" | "chdir" => some Builtin.cd
  | "pwd" => some fun _ => do
    print "pwd" (((← valueOf? "PWD").getD "/") ++ "\n").toList
  | "export" => some (Builtin.declare name fun v => { v with exported := true })
  | "readonly" => some (Builtin.declare name fun v => { v with readOnly := true })
  | "unset" => some Builtin.unset
  | "local" => some Builtin.local_
  | "set" => some Builtin.set_
  | "shift" => some Builtin.shift
  | "read" => some Builtin.read
  | "echo" => some Builtin.echo
  | "printf" => some Builtin.printf
  | "test" | "[" => some (Builtin.ofTool Tool.test name)
  | "kill" => some Builtin.kill
  | "wait" => some Builtin.wait
  | "getopts" => some Builtin.getopts
  | "umask" => some fun args => print "umask" (if args.isEmpty then "0022\n" else "").toList
  | "ulimit" => some fun _ => print "ulimit" "unlimited\n".toList
  | _ => none

def builtin? (dialect : Dialect) (name : String) : Option (List String → Action Unit) :=
  match dialect with
  | .plain => plainBuiltin? name
  | .extended => (extendedBuiltin? name).or (plainBuiltin? name)

end LayeredSets.Shell
