import LayeredSets.Session

/-!
# Command line

Runs one session on the real files and channels. What stands at the paths that the arguments name
is read before the session, and the files that the session changed are written after it.
-/

namespace LayeredSets.CommandLine

/-- The environment variable whose words follow the arguments. -/
def environmentName : String := "SETSTACK_ARGS"

/-- The paths that a session may open: its input, the files it writes, and the solvers. -/
def pathsOf (invocation : Invocation) : List String :=
  let values := invocation.commands.filterMap (·.value)
  invocation.input.toList ++ values ++
    values.filterMap (fun v => (RecordingTarget.parse v).toOption.map (·.path)) ++
    Feature.all.map Feature.package

/-- A place as a path of the system. -/
def pathOf (place : Place) : String :=
  (if place.absolute then "/" else "") ++ "/".intercalate place.parts

/-- What stands at a place of the system: a directory, a regular file or nothing that is known. -/
def nodeAt (place : Place) : IO (Option Node) := do
  let path := (← IO.currentDir) / pathOf place
  let executable := Feature.all.any fun f => place == ⟨false, [f.package]⟩
  try
    match (← path.metadata).type with
    | .dir => return some .directory
    | .file => return some (Files.regular (← IO.FS.readBinFile path) executable)
    | _ => return none
  catch _ => return none

/-- Add what stands along a path, from its first directory to its end. -/
def survey (files : Files) (path : String) : IO Files := do
  let mut files := files
  let mut place : Place := ⟨path.startsWith "/", []⟩
  for part in path.splitOn "/" do
    place := Files.enter place part
    if (files.node? place).isNone then
      if let some node ← nodeAt place then
        files := files.put place node
  return files

/-- Write the files whose content is new. -/
def save (before after : Files) : IO Unit := do
  for place in after.places.keys do
    if let some (.file f) := after.node? place then
      let changed := match before.node? place with
        | some (.file g) => g.content != f.content
        | _ => true
      if changed then
        IO.FS.writeBinFile ((← IO.currentDir) / pathOf place) f.content

/-- The host that a session with these arguments runs on. -/
def hostFor (registry : Registry) (arguments : List String) : IO Host := do
  match Invocation.parse registry arguments with
  | .error _ => return .initial
  | .ok invocation =>
    let files ← (pathsOf invocation).foldlM survey Files.initial
    let stdin ←
      if invocation.help || invocation.input.any (files.descriptor? · != some 0) then
        pure ByteArray.empty
      else (← IO.getStdin).readBinToEnd
    return { Host.initial with files, stdin }

/-- Run a session for these arguments and tell how it ended. -/
def run (arguments : List String) : IO UInt32 := do
  let environment ← IO.getEnv environmentName
  let merged := Invocation.mergeArguments arguments environment
  let host ← hostFor (.standard .none) merged
  let ended := Session.run arguments environment .none host
  save host.files ended.host.files
  IO.print ended.output
  IO.eprint ended.host.diagnostics
  return ended.status.code.toUInt32

end LayeredSets.CommandLine

def main (arguments : List String) : IO UInt32 := LayeredSets.CommandLine.run arguments
