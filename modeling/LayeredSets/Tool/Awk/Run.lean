import LayeredSets.Tool.Awk.Parser
import LayeredSets.Tool.Awk.Value

/-!
# Running pattern programs

A run goes through the records of the input, which come from the files among the arguments one after
the other. Fuel bounds how long loops go on and how deep functions call each other; what is worked
on is a state, so that a run is a function.
-/

namespace LayeredSets.Tool.Awk

/-- What a run is given. -/
structure Surroundings where
  job : Job
  environment : List (String × String)
  /-- What a shell called by a name does with an input and a command. -/
  shell : Files → List Char → String → String → Effect

/-- What a variable holds. -/
inductive Slot
  | value (v : Value)
  /-- The array with this index. -/
  | items (index : Nat)

/-- Where printed texts go. -/
inductive Sink
  | output
  | errors
  | file (id : FileId) (offset : Nat)
  | append (id : FileId)
  /-- The texts for a command, newest first. -/
  | command (texts : List (List Char))

structure State where
  shared : Table String Slot
  /-- What the parameters of the running function hold, unless it is nothing. -/
  locals : Array (Option Slot)
  arrays : Array Items
  record : Value
  fields : Array Value
  files : Files
  /-- What has not been read yet of the input, as long as it is not a source. -/
  input : List Char
  /-- What has not been read yet of the sources that are open. -/
  sources : Table (SourceKind × String) (List Char)
  /-- The source of records. -/
  current : Option String
  /-- The index of the next argument. -/
  nextArg : Nat
  /-- Has any argument been the name of a source? -/
  foundSource : Bool
  sinks : Table String Sink
  /-- What has been printed but is not out yet, newest first. -/
  waiting : List (List Char)
  /-- What is out, newest first. -/
  output : List (List Char)
  errors : List (List Char)
  status : Nat
  /-- The rules with ranges that have begun. -/
  begun : List Nat
  seed : Nat

/-- Why the statements that follow are not run. -/
inductive Stop
  | next
  | nextFile
  | leaveLoop
  | nextRound
  | exit
  | giveBack (v : Value)
  /-- The program cannot go on. -/
  | fault (complaint : List Char)

/-- What can be assigned to. -/
inductive Target
  | var (v : Variable)
  | element (array : Nat) (key : List Char)
  | field (index : Nat)

structure Context where
  surroundings : Surroundings
  program : Program

abbrev Run : Type → Type := ReaderT Context (ExceptT Stop (StateM State))

namespace Run

def job : Run Job := return (← read).surroundings.job

def fail {α : Type} (complaint : List Char) : Run α := throw (.fault complaint)

/-! ### Variables -/

def slot? (v : Variable) : Run (Option Slot) := do
  let s ← get
  match v with
  | .shared name => return s.shared.get? name
  | .parameter i => return s.locals[i]?.join

def setSlot (v : Variable) (slot : Slot) : Run Unit :=
  modify fun s =>
    match v with
    | .shared name => { s with shared := s.shared.insert name slot }
    | .parameter i => { s with locals := s.locals.setIfInBounds i (some slot) }

/-- The array that a variable holds. One that holds nothing gets a new one. -/
def arrayOf (v : Variable) : Run Nat := do
  match ← slot? v with
  | some (.items i) => return i
  | _ =>
    let i := (← get).arrays.size
    modify fun s => { s with arrays := s.arrays.push .empty }
    setSlot v (.items i)
    return i

def itemsAt (i : Nat) : Run Items := return (← get).arrays.getD i .empty

def setItems (i : Nat) (items : Items) : Run Unit :=
  modify fun s => { s with arrays := s.arrays.setIfInBounds i items }

def setting (name : String) : Run Value := do
  match (← get).shared.get? name with
  | some (.value v) => return v
  | _ => return .unset

/-- The format by which numbers become texts. -/
def numberFormat : Run (List Char) := return (← setting "CONVFMT").toText []

def textOf (v : Value) : Run (List Char) := return v.toText (← numberFormat)

def settingText (name : String) : Run (List Char) := do textOf (← setting name)

def set_ (name : String) (v : Value) : Run Unit := setSlot (.shared name) (.value v)

def count (name : String) : Run Unit := do
  set_ name (.number ((← setting name).toNumber + 1))

/-- Give up because of what the program does. -/
def runFault {α : Type} (complaint : List Char) : Run α := do
  let file ← settingText "FILENAME"
  let line ← settingText "FNR"
  let number ← settingText "NR"
  fail <| "run time error: ".toList ++ complaint ++ "\n\tFILENAME=\"".toList ++ file ++
    "\" FNR=".toList ++ line ++ " NR=".toList ++ number

/-! ### Records and fields -/

/-- The separator that a text stands for. -/
def separatorOf (cs : List Char) : Run Separator := do
  match Separator.ofText? cs with
  | some s => return s
  | none => runFault ("regular expression compile failed\n".toList ++ cs)

def splitRecord (cs : List Char) : Run (Array Value) := do
  let separator ← separatorOf (← settingText "FS")
  let lined : Bool := match separator with
    | .char c => c != '\n'
    | _ => false
  let parts := if lined && (← settingText "RS").isEmpty then
      (Text.splitAt (· == '\n') cs).flatMap separator.split
    else separator.split cs
  return (parts.map Value.ofInput).toArray

def setRecord (cs : List Char) : Run Unit := do
  let fields ← splitRecord cs
  modify fun s => { s with record := .ofInput cs, fields }

/-- Put the record together from its fields. -/
def joinFields : Run Unit := do
  let format ← numberFormat
  let separator ← settingText "OFS"
  modify fun s =>
    let texts := s.fields.toList.map (·.toText format)
    { s with record := .ofInput (texts.intersperse separator).flatten }

def setFieldCount (n : Nat) : Run Unit := do
  modify fun s =>
    let missing := Array.replicate (n - s.fields.size) (Value.text [])
    { s with fields := s.fields.extract 0 n ++ missing }
  joinFields

/-- The most fields that a record can have. -/
def fieldLimit : Nat := 1000000

/-- The index of a field. -/
def fieldIndex (v : Value) : Run Nat := do
  let n := wholeOf v.toNumber
  if n < 0 then runFault s!"negative field index ${n}".toList
  else if fieldLimit < n.toNat then runFault s!"field index ${n} too large".toList
  else return n.toNat

/-! ### Targets -/

def readVar (v : Variable) : Run Value := do
  if v = .shared "NF" then return .ofNat (← get).fields.size
  else match ← slot? v with
    | some (.value v) => return v
    | _ => return .unset

def readTarget : Target → Run Value
  | .var v => readVar v
  | .element array key => do
    let items ← itemsAt array
    match items.get? key with
    | some v => return v
    | none =>
      setItems array (items.insert key .unset)
      return .unset
  | .field 0 => return (← get).record
  | .field n => return ((← get).fields[n - 1]?).getD .unset

def writeTarget (target : Target) (v : Value) : Run Unit := do
  match target with
  | .var (.shared "NF") => setFieldCount (min (wholeOf v.toNumber).toNat fieldLimit)
  | .var x => setSlot x (.value v)
  | .element array key => setItems array ((← itemsAt array).insert key v)
  | .field 0 => setRecord (← textOf v)
  | .field n => do
    if (← get).fields.size < n then setFieldCount n
    modify fun s => { s with fields := s.fields.setIfInBounds (n - 1) v }
    joinFields

/-- A key out of its parts. -/
def keyOf (parts : List Value) : Run (List Char) := do
  match parts with
  | [v] => textOf v
  | parts =>
    let texts ← parts.mapM textOf
    return (texts.intersperse (← settingText "SUBSEP")).flatten

/-! ### Sources -/

/-- What is taken from the input at a time. -/
def inputBlock : Nat := 262144

/-- What is left of the input for others. -/
def inputLeft : Run (List Char) := do
  let whole := (← job).input
  let s ← get
  match s.sources.get? (.file, "-") with
  | none => return s.input
  | some left =>
    let taken := whole.length - left.length
    return whole.drop ((max taken 1 + inputBlock - 1) / inputBlock * inputBlock)

def print (text : List Char) : Run Unit :=
  modify fun s => { s with waiting := text :: s.waiting }

/-- Let out what has been printed. -/
def flush : Run Unit :=
  modify fun s => { s with waiting := [], output := s.waiting ++ s.output }

/-- Run a command, by a shell called by a name, and tell what it prints and its status. -/
def command (called : String) (input : List Char) (text : String) : Run Effect := do
  let e := (← read).surroundings.shell (← get).files input called text
  modify fun s => { s with errors := e.errors :: s.errors, files := e.files }
  return e

/-- Run a command on the input. -/
def commandOnInput (called text : String) : Run Effect := do
  flush
  let e ← command called (← inputLeft) text
  if !(← get).sources.contains (.file, "-") then modify fun s => { s with input := e.rest }
  return e

/-- What the shells of commands are called that are connected with the program. -/
def shellPath : String := "/bin/sh"

/-- Open a source if it is not open yet. Is there one? -/
def openSource (kind : SourceKind) (name : String) : Run (Except FileFault Unit) := do
  let s ← get
  let opened (text : List Char) : Run (Except FileFault Unit) := do
    modify fun s => { s with sources := s.sources.insert (kind, name) text }
    return .ok ()
  if s.sources.contains (kind, name) then return .ok ()
  else match kind with
    | .command =>
      opened (← commandOnInput shellPath name).output
    | .file =>
      if name == "-" then opened s.input
      else
        let job ← job
        match { job with files := s.files }.read name with
        | .ok text => opened text
        | .error fault => return .error fault

/-- The next record of an open source. -/
def takeFrom (kind : SourceKind) (name : String) : Run (Option (List Char)) := do
  let s ← get
  let text := (s.sources.get? (kind, name)).getD []
  match takeRecord (← settingText "RS") text with
  | none =>
    modify fun s => { s with sources := s.sources.insert (kind, name) [] }
    return none
  | some (record, rest) =>
    modify fun s => { s with sources := s.sources.insert (kind, name) rest }
    return some record

/-- The name that sources of the input go by. -/
def sourceName (name : List Char) : String :=
  let name := String.ofList name
  if name == "/dev/stdin" then "-" else name

/-- A setting among the arguments. -/
def settingOf? (arg : List Char) : Option (String × List Char) :=
  let name := arg.takeWhile isNameChar
  match name, arg.drop name.length with
  | c :: _, '=' :: value => if isNameStart c then some (String.ofList name, value) else none
  | _, _ => none

def assignSetting (name : String) (text : List Char) : Run Unit :=
  writeTarget (.var (.shared name)) (.ofInput (unescapeText text))

/-- The complaint about a source that cannot be opened. -/
def sourceComplaint (name : String) (fault : FileFault) : List Char :=
  s!"cannot open \"{name}\" ({fault.reason})".toList

/-- Go on to the next source among the arguments. Is there one? -/
def nextSource : Nat → Run Bool
  | 0 => return false
  | fuel + 1 => do
    let s ← get
    let begin_ (name : String) : Run Bool := do
      match ← openSource .file name with
      | .ok () =>
        modify fun s => { s with current := some name, foundSource := true }
        set_ "FNR" (.number 0)
        return true
      | .error fault => fail (sourceComplaint name fault)
    if (wholeOf (← setting "ARGC").toNumber).toNat ≤ s.nextArg then
      if s.foundSource then return false
      else
        set_ "FILENAME" (.text ['-'])
        begin_ "-"
    else
      modify fun s => { s with nextArg := s.nextArg + 1 }
      let args ← itemsAt (← arrayOf (.shared "ARGV"))
      let arg ← textOf ((args.get? (toString s.nextArg).toList).getD .unset)
      if arg.isEmpty then nextSource fuel
      else match settingOf? arg with
        | some (name, value) =>
          assignSetting name value
          nextSource fuel
        | none =>
          set_ "FILENAME" (.text arg)
          begin_ (sourceName arg)

/-- The next record of the input. -/
def nextRecord : Nat → Run (Option (List Char))
  | 0 => return none
  | fuel + 1 => do
    match (← get).current with
    | none => if ← nextSource fuel then nextRecord fuel else return none
    | some name =>
      match ← takeFrom .file name with
      | some record =>
        count "NR"
        count "FNR"
        return some record
      | none =>
        modify fun s =>
          let sources :=
            if name == "-" then s.sources else s.sources.erase (.file, name)
          { s with current := none, sources }
        nextRecord fuel

/-- How many arguments are gone through to find a record. -/
def sourceLimit : Nat := 1000000

/-! ### Sinks -/

/-- Open a sink if it is not open yet. -/
def openSink (kind : SinkKind) (name : String) : Run Sink := do
  let s ← get
  match s.sinks.get? name with
  | some sink => return sink
  | none =>
    let job ← job
    let path := job.path name
    let opened (made : Except FileFault (FileId × Files)) (sink : FileId → Sink) : Run Sink := do
      match made with
      | .ok (id, files) =>
        modify fun s => { s with files }
        return sink id
      | .error fault => fail s!"cannot open \"{name}\" for output ({fault.reason})".toList
    match kind, if name == "-" then some 1 else job.descriptor? name with
    | .command, _ =>
      flush
      return .command []
    | _, some 1 => return .output
    | _, some 2 => return .errors
    | .file, _ => opened (s.files.create path) fun id => .file id 0
    | .append, _ => opened (s.files.provide path) .append

/-- Print a text. -/
def emit (text : List Char) : Sink → Run Sink
  | .output => do
    print text
    return .output
  | .errors => do
    modify fun s => { s with errors := text :: s.errors }
    return .errors
  | .file id offset => do
    let (written, files) := (← get).files.writeAt id offset ⟨(Text.toBytes text).toArray⟩
    modify fun s => { s with files }
    return .file id (offset + written.count)
  | .append id => do
    let s ← get
    let offset := ((s.files.file? id).map (·.content.size)).getD 0
    let (_, files) := s.files.writeAt id offset ⟨(Text.toBytes text).toArray⟩
    set { s with files }
    return .append id
  | .command texts => return .command (text :: texts)

def emitAt (kind : SinkKind) (name : String) (text : List Char) : Run Unit := do
  let sink ← emit text (← openSink kind name)
  modify fun s => { s with sinks := s.sinks.insert name sink }

/-- Close a sink; a command is run on what has been printed for it. -/
def closeSink (name : String) (sink : Sink) : Run Nat := do
  modify fun s => { s with sinks := s.sinks.erase name }
  match sink with
  | .command texts =>
    let e ← command shellPath texts.reverse.flatten name
    modify fun s => { s with output := e.output :: s.output }
    return e.status
  | _ => return 0

/-- Close what a name stands for. -/
def close (name : String) : Run Int := do
  let s ← get
  match s.sinks.get? name with
  | some sink => return (← closeSink name sink)
  | none =>
    let keys := [(SourceKind.file, name), (SourceKind.command, name)]
    let found := keys.any s.sources.contains
    modify fun s => { s with sources := keys.foldl (fun t key => t.erase key) s.sources }
    return if found then 0 else -1

/-! ### Functions that need no evaluation -/

def indexIn (part : List Char) : Nat → List Char → Nat
  | n, cs =>
    if part.isPrefixOf cs then n
    else match cs with
      | [] => 0
      | _ :: rest => indexIn part (n + 1) rest

/-- The part of a text from an index on, with a length. An index before the text makes it longer. -/
def substr (cs : List Char) (first : Float) (length? : Option Float) : List Char :=
  let first := wholeOf first
  let rest := cs.drop (first - 1).toNat
  match length? with
  | none => rest
  | some length =>
    let length := wholeOf length
    rest.take (if first < 1 then length - first else length).toNat

/-- The text of a format with its values. -/
def formatted (name : String) (args : List Value) : Run (List Char × Option (List Char)) := do
  match args with
  | [] => return ([], none)
  | format :: args =>
    let numbers ← numberFormat
    let format := format.toText numbers
    let (text, fault?) := formatValues numbers (format.length + 1) 1 format args
    let inCall := s!" {name}(\"".toList ++ format ++ "\")".toList
    return (text, fault?.map fun
      | .tooFew => "not enough arguments passed to".toList ++ inCall
      | .improper n => s!"improper conversion(number {n}) in".toList ++ inCall)

/-- The functions of numbers. -/
def mathOf? (f : Builtin) (args : List Value) : Option Float :=
  let x := (args.head?.map (·.toNumber)).getD 0
  match f with
  | .sin => some x.sin
  | .cos => some x.cos
  | .atan2 => some (Float.atan2 x ((args[1]?.map (·.toNumber)).getD 0))
  | .exp => some x.exp
  | .log => some x.log
  | .sqrt => some x.sqrt
  | .int => some (truncate x)
  | _ => none

/-- A number from 0 to 1 that looks like chance. -/
def chance : Run Float := do
  let seed := ((← get).seed * 1103515245 + 12345) % (1 <<< 31)
  modify fun s => { s with seed }
  return seed.toFloat / (1 <<< 31).toFloat

end Run

open Run

mutual

def eval : Nat → Expr → Run Value
  | 0, _ => return .unset
  | fuel + 1, e => do
    match e with
    | .number x => return .number x
    | .text cs => return .text cs
    | .regex r => return .ofBool (Regex.isIn false r (← textOf (← get).record))
    | .var v => readVar v
    | .element .. | .field _ => readTarget (← targetOf fuel e)
    | .assign op target value =>
      let target ← targetOf fuel target
      let v ← eval fuel value
      let v ← match op with
        | none => pure v
        | some op => pure (op.apply (← numberFormat) (← readTarget target) v)
      writeTarget target v
      return v
    | .count up after target =>
      let target ← targetOf fuel target
      let x := (← readTarget target).toNumber
      let y := if up then x + 1 else x - 1
      writeTarget target (.number y)
      return .number (if after then y else x)
    | .unary op e => return op.apply (← eval fuel e)
    | .binary op a b =>
      let a ← eval fuel a
      let b ← eval fuel b
      return op.apply (← numberFormat) a b
    | .and a b =>
      if (← eval fuel a).isTrue then return .ofBool (← eval fuel b).isTrue
      else return .ofBool false
    | .or a b =>
      if (← eval fuel a).isTrue then return .ofBool true
      else return .ofBool (← eval fuel b).isTrue
    | .matches_ negated subject pattern =>
      let cs ← textOf (← eval fuel subject)
      let r ← patternOf fuel pattern
      return .ofBool (Regex.isIn false r cs != negated)
    | .member keys array =>
      let key ← keyOf (← evalAll fuel keys)
      return .ofBool ((← itemsAt (← arrayOf array)).contains key)
    | .choice test yes no => if (← eval fuel test).isTrue then eval fuel yes else eval fuel no
    | .call name args => call fuel name args
    | .builtin f args => builtin fuel f args
    | .next target =>
      match ← nextRecord sourceLimit with
      | none => return .number 0
      | some record =>
        receive fuel record target
        return .number 1
    | .nextFrom kind source target =>
      let name ← textOf (← eval fuel source)
      let name := if kind = .file then sourceName name else String.ofList name
      match ← openSource kind name with
      | .error _ => return .number (-1)
      | .ok () =>
        match ← takeFrom kind name with
        | none => return .number 0
        | some record =>
          receive fuel record target
          return .number 1

def evalAll : Nat → List Expr → Run (List Value)
  | 0, _ | _, [] => return []
  | fuel + 1, e :: es => do
    let v ← eval fuel e
    return v :: (← evalAll fuel es)

/-- Take a record for a target, or as the record that is worked on. -/
def receive : Nat → List Char → List Expr → Run Unit
  | 0, _, _ => return ()
  | _, record, [] => setRecord record
  | fuel + 1, record, target :: _ => do writeTarget (← targetOf fuel target) (.ofInput record)

/-- The target that an expression names. Other expressions name what no program can reach. -/
def targetOf : Nat → Expr → Run Target
  | 0, _ => return .element 0 []
  | fuel + 1, e => do
    match e with
    | .var v => return .var v
    | .element array keys =>
      let key ← keyOf (← evalAll fuel keys)
      return .element (← arrayOf array) key
    | .field index => return .field (← fieldIndex (← eval fuel index))
    | _ => return .element (← get).arrays.size []

/-- The regular expression that an operand stands for. -/
def patternOf : Nat → Expr → Run Regex
  | 0, _ => return .nothing
  | fuel + 1, e => do
    match e with
    | .regex r => return r
    | e =>
      let cs ← textOf (← eval fuel e)
      match regex? cs with
      | some r => return r
      | none => runFault ("regular expression compile failed\n".toList ++ cs)

/-- Call a function of the program. Arrays, and what may become one, are handed over themselves. -/
def call : Nat → String → List Expr → Run Value
  | 0, _, _ => return .unset
  | fuel + 1, name, args => do
    match (← read).program.functions.lookup name with
    | none => return .unset
    | some f =>
      let slots ← args.mapM fun arg => do
        match arg with
        | .var v =>
          if v = .shared "NF" then return some (.value (← readVar v))
          else match ← slot? v with
            | some slot => return some slot
            | none => return some (.items (← arrayOf v))
        | arg => return some (.value (← eval fuel arg))
      let before := (← get).locals
      let missing := Array.replicate (f.arity - slots.length) none
      modify fun s => { s with locals := (slots.take f.arity).toArray ++ missing }
      let v ← try
          run fuel f.body
          pure Value.unset
        catch stop =>
          match stop with
          | .giveBack v => pure v
          | stop => throw stop
      modify fun s => { s with locals := before }
      return v

def builtin : Nat → Builtin → List Expr → Run Value
  | 0, _, _ => return .unset
  | fuel + 1, f, args => do
    match f, args with
    | .length, [.var v] =>
      match ← slot? v with
      | some (.items i) => return .ofNat (← itemsAt i).entries.length
      | _ => return .ofNat (← textOf (← readVar v)).length
    | .length, [] => return .ofNat (← textOf (← get).record).length
    | .split, subject :: array :: separator =>
      let cs ← textOf (← eval fuel subject)
      let separator ← match separator with
        | [] => separatorOf (← settingText "FS")
        | .regex r :: _ => pure (.regex r)
        | e :: _ => separatorOf (← textOf (← eval fuel e))
      let parts := separator.split cs
      match array with
      | .var v =>
        let items := parts.zipIdx.foldl
          (fun (t : Items) (part, i) => t.insert (toString (i + 1)).toList (.ofInput part)) .empty
        setItems (← arrayOf v) items
      | _ => pure ()
      return .ofNat parts.length
    | .match_, subject :: pattern :: _ =>
      let cs ← textOf (← eval fuel subject)
      let r ← patternOf fuel pattern
      let (start, length) : Nat × Int := match Regex.find? false r (Regex.startOf cs) with
        | some m => (m.start.before.length + 1, m.text.length)
        | none => (0, -1)
      set_ "RSTART" (.ofNat start)
      set_ "RLENGTH" (.number (Float.ofInt length))
      return .ofNat start
    | .sub, pattern :: new :: target | .gsub, pattern :: new :: target =>
      let r ← patternOf fuel pattern
      let new ← textOf (← eval fuel new)
      let target ← targetOf fuel (target.headD (.field (.number 0)))
      let cs ← textOf (← readTarget target)
      let (n, text) :=
        substitute r new (f = .gsub) (2 * cs.length + 2) false (Regex.startOf cs)
      if n ≠ 0 then writeTarget target (.text text)
      return .ofNat n
    | f, args =>
      let vs ← evalAll fuel args
      let text (i : Nat) : Run (List Char) := textOf ((vs[i]?).getD .unset)
      match f, mathOf? f vs with
      | _, some x => return .number x
      | .length, _ => return .ofNat (← text 0).length
      | .substr, _ =>
        let first := (vs[1]?.map (·.toNumber)).getD 0
        return .text (substr (← text 0) first (vs[2]?.map (·.toNumber)))
      | .index, _ => return .ofNat (indexIn (← text 1) 1 (← text 0))
      | .sprintf, _ =>
        match ← formatted "sprintf" vs with
        | (text, none) => return .text text
        | (_, some complaint) => runFault complaint
      | .tolower, _ => return .text ((← text 0).map Char.toLower)
      | .toupper, _ => return .text ((← text 0).map Char.toUpper)
      | .system, _ =>
        let e ← commandOnInput "sh" (String.ofList (← text 0))
        modify fun s => { s with output := e.output :: s.output }
        return .ofNat e.status
      | .fflush, _ =>
        flush
        return .number 0
      | .close, _ => return .number (Float.ofInt (← close (String.ofList (← text 0))))
      | .rand, _ => return .number (← chance)
      | .srand, _ =>
        let before := (← get).seed
        modify fun s => { s with seed := (wholeOf ((vs.headD .unset).toNumber)).toNat }
        return .ofNat before
      | _, _ => return .number 0

def run : Nat → Stmt → Run Unit
  | 0, _ => return ()
  | fuel + 1, s => do
    match s with
    | .eval e =>
      let _ ← eval fuel e
    | .print formatted_ args sink =>
      let vs ← evalAll fuel args
      let (text, fault?) ← if formatted_ then formatted "printf" vs
        else do
          let format := (← setting "OFMT").toText []
          let record := (← get).record
          let printed := if args.isEmpty then [record] else vs
          let texts := printed.map (·.toText format)
          let line := (texts.intersperse (← settingText "OFS")).flatten
          pure (line ++ (← settingText "ORS"), none)
      match sink with
      | (kind, e) :: _ => emitAt kind (String.ofList (← textOf (← eval fuel e))) text
      | [] => print text
      if let some complaint := fault? then runFault complaint
    | .block body => runAll fuel body
    | .cond test yes no => if (← eval fuel test).isTrue then run fuel yes else run fuel no
    | .loop test step body => repeat_ fuel false test step body
    | .loopOnce body test => repeat_ fuel true test (.block []) body
    | .loopKeys key array body =>
      let keys := orderedKeys (← itemsAt (← arrayOf array))
      runKeys fuel key keys body
    | .next => throw .next
    | .nextFile => throw .nextFile
    | .leaveLoop => throw .leaveLoop
    | .nextRound => throw .nextRound
    | .exit status =>
      if let e :: _ := status then
        let n := wholeOf (← eval fuel e).toNumber
        modify fun s => { s with status := (n % 256).toNat }
      throw .exit
    | .giveBack value =>
      match value with
      | [] => throw (.giveBack .unset)
      | e :: _ => throw (.giveBack (← eval fuel e))
    | .delete array keys =>
      let i ← arrayOf array
      if keys.isEmpty then setItems i .empty
      else
        let key ← keyOf (← evalAll fuel keys)
        setItems i ((← itemsAt i).erase key)

def runAll : Nat → List Stmt → Run Unit
  | 0, _ | _, [] => return ()
  | fuel + 1, s :: rest => do
    run fuel s
    runAll fuel rest

/-- Run the body of a loop. Does the loop go on? -/
def round : Nat → Stmt → Run Bool
  | 0, _ => return false
  | fuel + 1, body => do
    try
      run fuel body
      return true
    catch stop =>
      match stop with
      | .leaveLoop => return false
      | .nextRound => return true
      | stop => throw stop

/-- Rounds of a loop, the first of which may come before the test. -/
def repeat_ : Nat → Bool → Expr → Stmt → Stmt → Run Unit
  | 0, _, _, _, _ => return ()
  | fuel + 1, untested, test, step, body => do
    let enters ← if untested then pure true else do
      let v ← eval fuel test
      pure v.isTrue
    if enters then
      if ← round fuel body then
        run fuel step
        repeat_ fuel false test step body

def runKeys : Nat → Variable → List (List Char) → Stmt → Run Unit
  | 0, _, _, _ | _, _, [], _ => return ()
  | fuel + 1, key, k :: keys, body => do
    setSlot key (.value (.ofInput k))
    if ← round fuel body then runKeys fuel key keys body

end

/-- How long a program may run. -/
def fuel : Nat := 1000000000

/-- Is the rule with this index meant for the record? -/
def isMeant (index : Nat) : Pattern → Run Bool
  | .always => return true
  | .test e => return (← eval fuel e).isTrue
  | .range first last => do
    let begins ← if (← get).begun.contains index then pure true
      else do
        let v ← eval fuel first
        pure v.isTrue
    if begins then
      let ends := (← eval fuel last).isTrue
      modify fun s =>
        let others := s.begun.erase index
        { s with begun := if ends then others else index :: others }
    return begins
  | .atStart | .atEnd => return false

/-- Try the rules on a record. -/
def runRules (rules : List (Rule × Nat)) : Run Unit :=
  rules.forM fun (rule, index) => do
    if ← isMeant index rule.pattern then run fuel rule.action

/-- Go through the records of the input. -/
def runRecords (rules : List (Rule × Nat)) : Nat → Run Unit
  | 0 => return ()
  | rounds + 1 => do
    match ← nextRecord sourceLimit with
    | none => return ()
    | some record =>
      setRecord record
      try
        runRules rules
      catch stop =>
        match stop with
        | .next => pure ()
        | .nextFile => modify fun s =>
          match s.current with
          | some name => { s with sources := s.sources.insert (.file, name) [] }
          | none => s
        | stop => throw stop
      runRecords rules rounds

/-- Run what must be run before the rest, unless the program is left. -/
def unlessLeft (before rest : Run Unit) : Run Unit := do
  try before catch stop =>
    match stop with
    | .exit => pure ()
    | stop => throw stop
  rest

/-- Run a program on the records of its input. -/
def Program.run (p : Program) : Run Unit := do
  let actions (chosen : Pattern → Bool) : List Stmt :=
    (p.rules.filter fun r => chosen r.pattern).map (·.action)
  let starts := actions fun | .atStart => true | _ => false
  let ends := actions fun | .atEnd => true | _ => false
  let reads := p.rules.any fun r => match r.pattern with
    | .atStart => false
    | _ => true
  unlessLeft
    (do
      runAll fuel starts
      if reads then runRecords p.rules.zipIdx fuel)
    (unlessLeft (runAll fuel ends) (pure ()))

/-- Close all sinks, and let out what has been printed last. -/
def closeAll : Run Unit := do
  (← get).sinks.entries.reverse.forM fun (name, sink) => do
    let _ ← closeSink name sink
  flush

/-! ### Calls -/

/-- The options of a call, and what follows them. -/
structure Call where
  separator : Option String
  settings : List String
  files : List String
  operands : List String

/-- Read the arguments of a call. -/
def Call.read : List String → Except String Call
  | [] => .ok ⟨none, [], [], []⟩
  | arg :: rest =>
    let valued (value : String) (c : Char) (call : Call) : Call :=
      match c with
      | 'F' => { call with separator := some (call.separator.getD value) }
      | 'v' => { call with settings := value :: call.settings }
      | _ => { call with files := value :: call.files }
    match arg.toList, rest with
    | ['-', '-'], rest => .ok ⟨none, [], [], rest⟩
    | ['-'], rest => .ok ⟨none, [], [], arg :: rest⟩
    | ['-', c], value :: rest =>
      if ['F', 'v', 'f'].contains c then (Call.read rest).map (valued value c)
      else .error s!"not an option: {arg}"
    | '-' :: c :: cs, rest =>
      if !(['F', 'v', 'f'].contains c) then .error s!"not an option: {arg}"
      else if cs.isEmpty then .error s!"option {arg} lacks argument"
      else (Call.read rest).map (valued (String.ofList cs) c)
    | _, rest => .ok ⟨none, [], [], arg :: rest⟩

/-- Read and run the program that a call names. -/
def runCall (x : Surroundings) : Effect :=
  let job := x.job
  let complains (text : List Char) (e : Effect) : Effect :=
    { e with errors := e.errors ++ s!"{job.name}: ".toList ++ text ++ ['\n'], status := 2 }
  match Call.read job.args with
  | .error complaint => complains complaint.toList (job.ends 0)
  | .ok call =>
    let texts := call.files.map fun name => (name, job.read name)
    let broken? := texts.findSome? fun
      | (name, .error fault) => some (sourceComplaint name fault)
      | _ => none
    let (text, operands) := if call.files.isEmpty then
        ((call.operands.headD "").toList, call.operands.drop 1)
      else
        (texts.flatMap fun (_, text) => text.toOption.getD [] ++ ['\n'], call.operands)
    match broken?, Program.parse text with
    | some complaint, _ => complains complaint (job.ends 0)
    | none, .error complaint => complains complaint.message.toList (job.ends 0)
    | none, .ok program =>
      let args := (job.name :: operands).zipIdx.foldl
        (fun (t : Items) (arg, i) => t.insert (toString i).toList (.ofInput arg.toList)) .empty
      let environment := x.environment.foldl
        (fun (t : Items) (name, text) => t.insert name.toList (.ofInput text.toList)) .empty
      let plain : List (String × Value) :=
        [("NR", .number 0), ("FNR", .number 0), ("FS", .text [' ']), ("OFS", .text [' ']),
          ("RS", .text ['\n']), ("ORS", .text ['\n']), ("SUBSEP", .text ['\x1c']),
          ("CONVFMT", .text "%.6g".toList), ("OFMT", .text "%.6g".toList),
          ("RSTART", .number 0), ("RLENGTH", .number (-1)),
          ("ARGC", .ofNat (operands.length + 1))]
      let shared : Table String Slot :=
        ⟨[("ARGV", .items 0), ("ENVIRON", .items 1)] ++ plain.map fun (name, v) => (name, .value v)⟩
      let s : State :=
        { shared, locals := #[], arrays := #[args, environment], record := .text [], fields := #[]
          files := job.files, input := job.input, sources := .empty, current := none, nextArg := 1
          foundSource := false, sinks := .empty, waiting := [], output := [], errors := []
          status := 0
          begun := []
          seed := 0 }
      let whole : Run Unit := do
        if let some separator := call.separator then
          set_ "FS" (.text (unescapeText separator.toList))
        call.settings.forM fun text =>
          match settingOf? text.toList with
          | some (name, value) => assignSetting name value
          | none => pure ()
        program.run
      let context : Context := ⟨x, program⟩
      let (result, s) := ((whole context).run).run s
      let finish : Run (List Char) := do
        closeAll
        inputLeft
      let (left, s) := ((finish context).run).run s
      let e : Effect :=
        ⟨s.output.reverse.flatten, s.errors.reverse.flatten, s.status, left.toOption.getD [],
          s.files⟩
      match result with
      | .error (.fault complaint) => complains complaint e
      | _ => e

end LayeredSets.Tool.Awk
