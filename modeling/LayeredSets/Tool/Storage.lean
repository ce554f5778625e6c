import LayeredSets.Tool.Streams

/-!
# Tools for files

Tools that make, copy, move, remove and list files, or write their input to files.
-/

namespace LayeredSets.Tool

/-- Why a file cannot be made or changed. -/
def Job.refusal (verb name : String) (fault : FileFault) : String :=
  s!"cannot {verb} '{name}': {fault.reason}"

/-- Do something about each operand in turn; complaints make the status 1. -/
def Job.forEach (job : Job) (names : List String)
    (act : Files → String → Except String Files) : Effect :=
  names.foldl
    (fun e name =>
      match act e.files name with
      | .ok files => { e with files }
      | .error complaint =>
        { e with errors := e.errors ++ s!"{job.name}: {complaint}\n".toList, status := 1 })
    (job.ends 0)

/-- The same for a tool that needs an operand, which is called `kind` when it is missing. -/
def Job.forEachOf (job : Job) (kind : String) (names : List String)
    (act : Files → String → Except String Files) : Effect :=
  if names.isEmpty then job.misused 1 s!"missing {kind}" else job.forEach names act

/-- What stands at the end of a path. -/
def Job.nodeAt (job : Job) (files : Files) (name : String) : Option Node :=
  (files.locate (job.path name)).toOption.bind files.node?

def touch (job : Job) : Effect :=
  let o := job.options "dtr"
  job.forEachOf "file operand" o.operands fun files name =>
    if o.has "c" && (job.nodeAt files name).isNone then .ok files
    else match files.provide (job.path name) with
      | .ok (_, files) => .ok files
      | .error .isDirectory => .ok files
      | .error fault => .error (Job.refusal "touch" name fault)

/-- Remove what stands at a place, and what stands below it. -/
def removeAll (files : Files) (place : Place) : Files :=
  (files.places.keys.filter (Files.isBelow place)).foldl Files.remove files

/-- Tell what was done, if the option for that is given. -/
def telling (o : Options) (text : String) (e : Effect) : Effect :=
  if o.has "v" then { e with output := e.output ++ (text ++ "\n").toList } else e

def rm (job : Job) : Effect :=
  let o := job.options ""
  let removed (files : Files) (name : String) : Except String Files :=
    match files.locate (job.path name) with
    | .error fault => if o.has "f" then .ok files else .error (Job.refusal "remove" name fault)
    | .ok place =>
      match files.node? place with
      | none => if o.has "f" then .ok files else .error (Job.refusal "remove" name .notFound)
      | some (.file _) => .ok (files.remove place)
      | some .directory =>
        if [".", ".."].contains ((name.splitOn "/").getLast?.getD "") then
          .error s!"refusing to remove '.' or '..' directory: skipping '{name}'"
        else if o.has "r" || o.has "R" then .ok (removeAll files place)
        else if !o.has "d" then .error (Job.refusal "remove" name .isDirectory)
        else if (files.namesIn place).isEmpty then .ok (files.remove place)
        else .error s!"cannot remove '{name}': Directory not empty"
  if o.operands.isEmpty && !o.has "f" then job.misused 1 "missing operand"
  else
    let e := job.forEach o.operands removed
    let gone := o.operands.filter fun name =>
      (job.nodeAt job.files name).isSome && (job.nodeAt e.files name).isNone
    gone.foldl (fun e name => telling o s!"removed '{name}'" e) e

/-- Make a directory and, if `deep`, those above it. -/
def makeDirectory (files : Files) (path : String) (deep : Bool) : Except FileFault Files := do
  let place ← match files.locate path with
    | .ok place => pure place
    | .error fault =>
      if deep then pure ((path.splitOn "/").foldl Files.enter ⟨path.startsWith "/", []⟩)
      else throw fault
  if deep then
    return (List.range (place.parts.length + 1)).foldl
      (fun files n =>
        let above : Place := { place with parts := place.parts.take n }
        if (files.node? above).isSome then files else files.put above .directory) files
  else return files.put place .directory

def mkdir (job : Job) : Effect :=
  let o := job.options "m"
  let deep := o.has "p"
  job.forEachOf "operand" o.operands fun files name => do
    match job.nodeAt files name with
    | some node =>
      if deep && node matches .directory then return files
      else throw s!"cannot create directory '{name}': File exists"
    | none =>
      match makeDirectory files (job.path name) deep with
      | .ok files => return files
      | .error fault => throw s!"cannot create directory '{name}': {fault.reason}"

def rmdir (job : Job) : Effect :=
  job.forEachOf "operand" (job.options "").operands fun files name => do
    let fails {α : Type} (reason : String) : Except String α :=
      throw s!"failed to remove '{name}': {reason}"
    match files.locate (job.path name) with
    | .error fault => fails fault.reason
    | .ok place =>
      match files.node? place with
      | none => fails FileFault.notFound.reason
      | some (.file _) => fails FileFault.notDirectory.reason
      | some .directory =>
        if (files.namesIn place).isEmpty then return files.remove place
        else fails "Directory not empty"

/-! ### Copying and moving -/

/-- A path to take something from, and the path it goes to. -/
structure Transfer where
  source : String
  target : String

/-- The transfers that operands ask for. Several sources need a directory to go to. -/
def Job.transfers (job : Job) (o : Options) : Except Effect (List Transfer) :=
  let isDirectory (name : String) : Bool :=
    match job.nodeAt job.files name with
    | some .directory => true
    | _ => false
  let base (name : String) : String :=
    let parts := (name.splitOn "/").filter (· != "")
    (parts.getLast?).getD name
  let into (directory : String) (names : List String) : List Transfer :=
    let front := if directory.endsWith "/" then directory else directory ++ "/"
    names.map fun name => ⟨name, front ++ base name⟩
  match o.value? "t", o.operands with
  | some directory, names => .ok (into directory names)
  | none, [] => .error (job.misused 1 "missing file operand")
  | none, [name] => .error (job.misused 1 s!"missing destination file operand after '{name}'")
  | none, names =>
    let target := (names.getLast?).getD ""
    if isDirectory target && !o.has "T" then .ok (into target names.dropLast)
    else if names.length = 2 then .ok [⟨names.headD "", target⟩]
    else
      let fault :=
        if (job.nodeAt job.files target).isNone then FileFault.notFound else .notDirectory
      .error (job.complains 1 s!"target '{target}': {fault.reason}")

/-- Do transfers in turn, telling about each that succeeds. -/
def Job.transfer (job : Job) (o : Options) (verb : String)
    (act : Files → Transfer → Except String Files) : Effect :=
  match job.transfers o with
  | .error effect => effect
  | .ok transfers =>
    transfers.foldl
      (fun e t =>
        match act e.files t with
        | .ok files => telling o s!"{verb}'{t.source}' -> '{t.target}'" { e with files }
        | .error complaint =>
          { e with errors := e.errors ++ s!"{job.name}: {complaint}\n".toList, status := 1 })
      (job.ends 0)

/-- The places of a transfer, the first of which has to be occupied. -/
def Job.placesOf (job : Job) (files : Files) (t : Transfer) :
    Except String ((Place × Node) × Place × Option Node) :=
  match files.locate (job.path t.source) with
  | .error fault => .error s!"cannot stat '{t.source}': {fault.reason}"
  | .ok source =>
    match files.node? source, files.locate (job.path t.target) with
    | none, _ => .error s!"cannot stat '{t.source}': {FileFault.notFound.reason}"
    | some node, .ok target => .ok ((source, node), target, files.node? target)
    | some _, .error fault =>
      .error s!"cannot create regular file '{t.target}': {fault.reason}"

/-- Put the content of one file into another. -/
def copyFile (files : Files) (f : File) (path : String) : Except FileFault Files := do
  let (id, files) ← files.create path
  let files := match files.file? id with
    | some g => files.update id { g with executable := g.executable || f.executable }
    | none => files
  return (files.writeAt id 0 f.content).2

/-- Copy everything below a directory to the same places below another. -/
def copyBelow (files : Files) (source target : Place) : Files :=
  (files.places.keys.filter (Files.isBelow source)).foldl
    (fun copied place =>
      let goal : Place :=
        ⟨target.absolute, target.parts ++ place.parts.drop source.parts.length⟩
      match files.node? place with
      | some (.file f) => (copied.add goal f).2
      | some .directory => copied.put goal .directory
      | none => copied)
    files

def cp (job : Job) : Effect :=
  let o := job.options "St"
  let deep := o.has "r" || o.has "R" || o.has "a"
  job.transfer o "" fun files t => do
    let ((source, node), target, there) ← job.placesOf files t
    match node, there with
    | .file f, there =>
      if source = target then throw s!"'{t.source}' and '{t.target}' are the same file"
      else if o.has "n" && there.isSome then return files
      else if there matches some .directory then
        throw s!"cannot overwrite directory '{t.target}' with non-directory"
      else if o.has "l" then return files.link source target
      else match copyFile files f (job.path t.target) with
        | .ok files => return files
        | .error fault => throw s!"cannot create regular file '{t.target}': {fault.reason}"
    | .directory, there =>
      if !deep then throw s!"-r not specified; omitting directory '{t.source}'"
      else if there matches some (.file _) then
        throw s!"cannot overwrite non-directory '{t.target}' with directory '{t.source}'"
      else return copyBelow files source target

def mv (job : Job) : Effect :=
  let o := job.options "St"
  job.transfer o "renamed " fun files t => do
    let ((source, node), target, there) ← (job.placesOf files t).mapError fun complaint =>
      complaint.replace "create regular file" s!"move '{t.source}' to"
    if source = target then throw s!"'{t.source}' and '{t.target}' are the same file"
    match node, there with
    | .directory, some (.file _) =>
      throw s!"cannot overwrite non-directory '{t.target}' with directory '{t.source}'"
    | .file _, some .directory =>
      throw s!"cannot overwrite directory '{t.target}' with non-directory"
    | .directory, there =>
      if Files.isBelow source target then
        throw s!"cannot move '{t.source}' to a subdirectory of itself, '{t.target}'"
      else if there.isSome && !(files.namesIn target).isEmpty then
        throw s!"cannot overwrite '{t.target}': Directory not empty"
      else return files.move source target
    | .file _, there => return if o.has "n" && there.isSome then files else files.move source target

/-- Let another path lead to a file. -/
def ln (job : Job) : Effect :=
  let o := job.options "St"
  let o := if o.operands.length = 1 then { o with operands := o.operands ++ ["."] } else o
  job.transfer o "" fun files t => do
    let kind := if o.has "s" then "symbolic" else "hard"
    match files.locate (job.path t.source), files.locate (job.path t.target) with
    | _, .error fault => throw s!"failed to create {kind} link '{t.target}': {fault.reason}"
    | .error fault, .ok _ =>
      if o.has "s" then return files else throw s!"failed to access '{t.source}': {fault.reason}"
    | .ok source, .ok target =>
      match files.node? source with
      | none =>
        if o.has "s" then return files
        else throw s!"failed to access '{t.source}': {FileFault.notFound.reason}"
      | some node =>
        if !o.has "s" && node matches .directory then
          throw s!"{t.source}: hard link not allowed for directory"
        else if (files.node? target).isSome && !o.has "f" then
          throw s!"failed to create {kind} link '{t.target}': File exists"
        else return files.link source target

/-- Give files another size. A number with a sign is added to the size. -/
def truncate (job : Job) : Effect :=
  let o := job.options "rs"
  match o.value? "s", o.operands with
  | none, _ => job.misused 1 "you must specify either '--size' or '--reference'"
  | some _, [] => job.misused 1 "missing file operand"
  | some text, names =>
    match Amount.read true text with
    | .error _ => job.complains 1 s!"Invalid number: '{text}'"
    | .ok amount =>
      job.forEach names fun files name =>
        if o.has "c" && (job.nodeAt files name).isNone then .ok files
        else match files.provide (job.path name) with
          | .error fault => .error s!"cannot open '{name}' for writing: {fault.reason}"
          | .ok (id, files) =>
            match files.file? id with
            | none => .ok files
            | some f =>
              let size := match amount.sign with
                | some '+' => f.content.size + amount.count
                | some '-' => f.content.size - amount.count
                | _ => amount.count
              let content := (Files.overwrite f.content size .empty).extract 0 size
              .ok (files.update id { f with content })

/-- Does a mode such as `+x` or `755` let a file be run? Nothing is said of other modes. -/
def runMode? (mode : String) : Option Bool :=
  let cs := mode.toList
  if cs.all Char.isDigit then some (cs.any fun c => (c.toNat - '0'.toNat) % 2 = 1)
  else if cs.contains 'x' then some (!cs.contains '-')
  else none

def chmod (job : Job) : Effect :=
  match job.args.filter fun arg => !(["-R", "-v", "-f", "-c"].contains arg) with
  | [mode] => job.misused 1 s!"missing operand after '{mode}'"
  | mode :: names =>
    job.forEach names fun files name => do
      match (files.locate (job.path name)).toOption with
      | none => throw s!"cannot access '{name}': No such file or directory"
      | some place =>
        match files.node? place, runMode? mode with
        | some (.file f), some executable => return files.put place (.file { f with executable })
        | some _, _ => return files
        | none, _ => throw s!"cannot access '{name}': No such file or directory"
  | [] => job.misused 1 "missing operand"

/-- The names in a directory, in order, without those that begin with a dot. -/
def visibleNames (files : Files) (place : Place) (all : Bool) : List String :=
  ((files.namesIn place).filter fun name => all || !name.startsWith ".").mergeSort
    fun a b => !(b < a)

def ls (job : Job) : Effect :=
  let o := job.options ""
  let names := if o.operands.isEmpty then ["."] else o.operands
  let shown (text : String) : List Char := Text.byteText (text ++ "\n")
  let found := names.map fun name =>
    let node := do
      let place ← (job.files.locate (job.path name)).toOption
      return (place, ← job.files.node? place)
    match node with
    | some (place, .directory) =>
      if o.has "d" then (shown name, [])
      else ((visibleNames job.files place (o.has "a" || o.has "A")).flatMap shown, [])
    | some (_, .file _) => (shown name, [])
    | none => ([], s!"{job.name}: cannot access '{name}': No such file or directory\n".toList)
  let errors := found.flatMap (·.2)
  { job.ends (if errors.isEmpty then 0 else 2) with output := found.flatMap (·.1), errors }

/-- Pass the input on and write it to files, or at their ends. -/
def tee (job : Job) : Effect :=
  let o := job.options ""
  let bytes : ByteArray := ⟨(Text.toBytes job.input).toArray⟩
  let leadsTo (descriptor : Nat) (name : String) : Bool := job.descriptor? name == some descriptor
  let (special, names) := o.operands.partition fun name => leadsTo 1 name || leadsTo 2 name
  let e := job.forEach names fun files name => do
    let path := job.path name
    match if o.has "a" then files.provide path else files.create path with
    | .error fault => throw s!"{name}: {fault.reason}"
    | .ok (id, files) =>
      let size := ((files.file? id).map (·.content.size)).getD 0
      return (files.writeAt id size bytes).2
  let copies (descriptor : Nat) : List Char :=
    (special.filter (leadsTo descriptor)).flatMap fun _ => job.input
  { e with
    output := job.input ++ copies 1
    errors := e.errors ++ copies 2
    rest := [] }

/-- What a format makes of a file: its size, its name, its kind. -/
def describeFile (name : String) (node : Node) : List Char → List Char
  | '%' :: c :: rest =>
    let size := match node with
      | .file f => f.content.size
      | .directory => 4096
    let kind := match node with
      | .file f =>
        if f.device then "character special file"
        else if f.content.isEmpty then "regular empty file" else "regular file"
      | .directory => "directory"
    let text := match c with
      | 's' => toString size
      | 'n' => name
      | 'F' => kind
      | 'U' | 'G' => "root"
      | 'u' | 'g' => "0"
      | '%' => "%"
      | c => s!"%{c}"
    text.toList ++ describeFile name node rest
  | c :: rest => c :: describeFile name node rest
  | [] => []

def stat (job : Job) : Effect :=
  let o := job.options "c"
  let format := (o.value? "c").getD "  File: %n\n  Size: %s\t%F"
  if o.operands.isEmpty then job.misused 1 "missing operand"
  else
    o.operands.foldl
      (fun e name =>
        match job.nodeAt job.files name with
        | some node =>
          { e with output := e.output ++ describeFile name node format.toList ++ ['\n'] }
        | none =>
          let complaint := s!"cannot statx '{name}': {FileFault.notFound.reason}"
          { e with errors := e.errors ++ s!"{job.name}: {complaint}\n".toList, status := 1 })
      (job.ends 0)

end LayeredSets.Tool
