import LayeredSets.Table
import LayeredSets.Text.Numeral

/-!
# Files

The files that a run can see, as data. A path is resolved to a place, directory by directory, and
a place holds a directory or leads to a file. A file is the same wherever it is moved to, and
whoever has it open can go on writing even when no place leads to it any more. It takes writes until
its room is used up; a device keeps nothing of what is written to it.
-/

namespace LayeredSets

/-- Why a file could not be opened, read or written. -/
inductive FileFault
  | notFound
  | notDirectory
  | isDirectory
  | noSpace
  | nameTooLong
  | nulInName
  | badDescriptor
  deriving DecidableEq, Repr

namespace FileFault

def reason : FileFault → String
  | notFound => "No such file or directory"
  | notDirectory => "Not a directory"
  | isDirectory => "Is a directory"
  | noSpace => "No space left on device"
  | nameTooLong => "File name too long"
  | nulInName => "file name contained an unexpected NUL byte"
  | badDescriptor => "Bad file descriptor"

/-- The system's number for the fault. A name with a NUL byte never reaches the system. -/
def code? : FileFault → Option Nat
  | notFound => some 2
  | notDirectory => some 20
  | isDirectory => some 21
  | noSpace => some 28
  | nameTooLong => some 36
  | nulInName => none
  | badDescriptor => some 9

def message (fault : FileFault) : String :=
  match fault.code? with
  | some code => s!"{fault.reason} (os error {code})"
  | none => fault.reason

end FileFault

structure File where
  content : ByteArray
  executable : Bool
  /-- How many more bytes the file takes, if it is bounded. -/
  room : Option Nat
  /-- A device accepts bytes and keeps none. -/
  device : Bool

inductive Node
  | directory
  | file (f : File)

/-- The components of a resolved path, below the root or from the working directory. Only a path
that leads out of the working directory has double dots, and they come first. -/
structure Place where
  absolute : Bool
  parts : List String
  deriving DecidableEq, Repr

/-- What tells a file from all others. -/
structure FileId where
  index : Nat
  deriving DecidableEq, Repr

/-- What stands at a place. -/
inductive Occupant
  | directory
  | file (id : FileId)
  deriving DecidableEq, Repr

structure Files where
  places : Table Place Occupant
  /-- Every file there has been. -/
  stored : Array File

namespace Files

/-- A regular file. -/
def regular (content : ByteArray) (executable : Bool) : Node :=
  .file ⟨content, executable, none, false⟩

/-- A device that accepts at most `room` bytes. -/
def deviceNode (room : Option Nat) : Node := .file ⟨.empty, false, room, true⟩

/-- The directories that every system has, from the root on. -/
def systemDirectories : List (List String) :=
  [[], ["bin"], ["boot"], ["dev"], ["dev", "fd"], ["dev", "pts"], ["dev", "shm"], ["etc"], ["home"],
    ["lib"], ["lib64"], ["media"], ["mnt"], ["opt"], ["proc"], ["proc", "self"],
    ["proc", "self", "fd"], ["root"], ["run"], ["sbin"], ["srv"], ["sys"],
    ["tmp"], ["usr"], ["usr", "bin"], ["usr", "include"], ["usr", "lib"], ["usr", "local"],
    ["usr", "local", "bin"], ["usr", "local", "lib"], ["usr", "sbin"], ["usr", "share"],
    ["usr", "src"], ["var"], ["var", "cache"], ["var", "lib"], ["var", "log"], ["var", "tmp"]]

/-- What every list of users begins with. -/
def usersText : String := "root:x:0:0:root:/root:/bin/bash\n"

/-- Root directories in which no files can be made. -/
def closedDirectories : List String := ["proc", "sys"]

/-- The places of the system that lead to the three descriptors every program has. -/
def descriptorPlaces : List (Place × Nat) :=
  [("stdin", 0), ("stdout", 1), ("stderr", 2)].flatMap fun (name, n) =>
    [["dev", name], ["dev", "fd", toString n], ["proc", "self", "fd", toString n]].map
      fun parts => (⟨true, parts⟩, n)

def file? (files : Files) (id : FileId) : Option File := files.stored[id.index]?

/-- The file that a place leads to. -/
def idAt? (files : Files) (place : Place) : Option FileId :=
  match files.places.get? place with
  | some (.file id) => some id
  | _ => none

def node? (files : Files) (place : Place) : Option Node :=
  match files.places.get? place with
  | none => none
  | some .directory => some .directory
  | some (.file id) => (files.file? id).map .file

/-- Change a file. -/
def update (files : Files) (id : FileId) (file : File) : Files :=
  { files with stored := files.stored.setIfInBounds id.index file }

/-- Let a place lead to a new file. -/
def add (files : Files) (place : Place) (file : File) : FileId × Files :=
  let id : FileId := ⟨files.stored.size⟩
  (id, ⟨files.places.insert place (.file id), files.stored.push file⟩)

/-- Let `node` stand at a place. A file that is there already is changed, and stays the same. -/
def put (files : Files) (place : Place) (node : Node) : Files :=
  match node, files.idAt? place with
  | .directory, _ => { files with places := files.places.insert place .directory }
  | .file f, some id => files.update id f
  | .file f, none => (files.add place f).2

def remove (files : Files) (place : Place) : Files :=
  { files with places := files.places.erase place }

/-- Let `target` lead to the file at `source` too. -/
def link (files : Files) (source target : Place) : Files :=
  match files.places.get? source with
  | some occupant => { files with places := files.places.insert target occupant }
  | none => files

/-- Is `place` in the directory `directory`, or below it? -/
def isBelow (directory place : Place) : Bool :=
  place.absolute == directory.absolute && directory.parts.isPrefixOf place.parts

/-- Move what stands at `source`, and what stands below it, to `target`. -/
def move (files : Files) (source target : Place) : Files :=
  let moved := files.places.entries.filterMap fun (place, occupant) =>
    if isBelow source place then
      some (⟨target.absolute, target.parts ++ place.parts.drop source.parts.length⟩, occupant)
    else none
  let kept := files.places.entries.filter fun (place, _) => !isBelow source place
  { files with places := moved.foldl (fun t (place, occupant) => t.insert place occupant) ⟨kept⟩ }

/-- An empty working directory in another, on a system with devices that take everything and one
that is always full. -/
def initial : Files :=
  let directories := (systemDirectories.map fun parts => ⟨true, parts⟩) ++
    [⟨false, []⟩, ⟨false, [".."]⟩]
  let devices := descriptorPlaces.map (·.1) ++
    ["null", "zero", "random", "urandom"].map fun name => ⟨true, ["dev", name]⟩
  let files : Files := ⟨⟨directories.map fun place => (place, .directory)⟩, #[]⟩
  let files := devices.foldl (fun files place => files.put place (deviceNode none)) files
  (files.put ⟨true, ["dev", "full"]⟩ (deviceNode (some 0))).put
    ⟨true, ["etc", "passwd"]⟩ (regular usersText.toUTF8 false)

/-- The names in the directory `place`. -/
def namesIn (files : Files) (place : Place) : List String :=
  files.places.keys.filterMap fun p =>
    if p.absolute = place.absolute ∧ p.parts.dropLast = place.parts ∧ p.parts ≠ [".."] then
      p.parts.getLast?
    else none

def isDirectoryAt (files : Files) (place : Place) : Bool :=
  match files.node? place with
  | some .directory => true
  | _ => false

/-- Is there a way up only by leaving the working directory? -/
def isOutermost (place : Place) : Bool := !place.absolute && place.parts.all (· == "..")

/-- One step along a path: the place named by `part` in the directory `place`. -/
def enter (place : Place) (part : String) : Place :=
  if part == "" || part == "." then place
  else if part == ".." && !isOutermost place then { place with parts := place.parts.dropLast }
  else { place with parts := place.parts ++ [part] }

/-- Follow `parts` from `place`. Every place that is left again must be a directory. -/
def walk (files : Files) (place : Place) : List String → Except FileFault Place
  | [] => .ok place
  | part :: rest =>
    match files.node? place with
    | none => .error .notFound
    | some (.file _) => .error .notDirectory
    | some .directory =>
      if 255 < part.utf8ByteSize then .error .nameTooLong else walk files (enter place part) rest

/-- The place that `path` names. It need not exist, but its directory must. -/
def locate (files : Files) (path : String) : Except FileFault Place :=
  if path.toList.contains (Char.ofNat 0) then .error .nulInName
  else if path == "" then .error .notFound
  else if 4096 ≤ path.utf8ByteSize then .error .nameTooLong
  else walk files ⟨path.startsWith "/", []⟩ (path.splitOn "/")

/-- Open `path` for writing. A missing file is made, unless the directory is closed. -/
def provide (files : Files) (path : String) : Except FileFault (FileId × Files) := do
  let place ← files.locate path
  match files.places.get? place with
  | some .directory => .error .isDirectory
  | some (.file id) => .ok (id, files)
  | none =>
    if place.absolute && place.parts.head?.any closedDirectories.contains then .error .notFound
    else .ok (files.add place ⟨.empty, false, none, false⟩)

/-- Open `path` for writing from its start. An existing file loses its content. -/
def create (files : Files) (path : String) : Except FileFault (FileId × Files) := do
  let (id, files) ← files.provide path
  match files.file? id with
  | some f => .ok (id, files.update id { f with content := .empty })
  | none => .ok (id, files)

/-- The outcome of reading a file that could be opened; a directory opens but cannot be read. -/
def open? (files : Files) (path : String) : Except FileFault (Except FileFault ByteArray) := do
  let place ← files.locate path
  match files.node? place with
  | none => .error .notFound
  | some .directory => .ok (.error .isDirectory)
  | some (.file f) => .ok (.ok f.content)

/-- Let `path` lead to a new file with this content, which can be run if the file before could. -/
def replace (files : Files) (path : String) (content : ByteArray) : Except FileFault Files := do
  let place ← files.locate path
  let executable := match files.node? place with
    | some (.file f) => f.executable
    | _ => false
  return (files.add place ⟨content, executable, none, false⟩).2

/-- The descriptor that `path` leads to. -/
def descriptor? (files : Files) (path : String) : Option Nat :=
  match files.locate path with
  | .error _ => none
  | .ok place =>
    match descriptorPlaces.lookup place, place.absolute, place.parts with
    | some n, _, _ => some n
    | none, true, ["dev", "fd", name] | none, true, ["proc", "self", "fd", name] =>
      Text.decimal? name.toList
    | none, _, _ => none

/-- `content` with `bytes` written over it from `offset` on; a gap before `offset` is zero. -/
def overwrite (content : ByteArray) (offset : Nat) (bytes : ByteArray) : ByteArray :=
  let gap := ⟨Array.replicate (offset - content.size) 0⟩
  content.extract 0 offset ++ gap ++ bytes ++ content.extract (offset + bytes.size) content.size

/-- What a write did: how many bytes were accepted, and why no more if not all were. -/
structure Written where
  count : Nat
  fault : Option FileFault

/-- Write `bytes` at `offset` of a file, as far as its room allows. -/
def writeAt (files : Files) (id : FileId) (offset : Nat) (bytes : ByteArray) : Written × Files :=
  match files.file? id with
  | none => (⟨bytes.size, none⟩, files)
  | some f =>
    let count := (f.room.map (min bytes.size)).getD bytes.size
    let content :=
      if f.device then f.content else overwrite f.content offset (bytes.extract 0 count)
    let left := { f with content, room := f.room.map (· - count) }
    (⟨count, if count < bytes.size then some .noSpace else none⟩, files.update id left)

end Files
end LayeredSets
