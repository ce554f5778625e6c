import LayeredSets.Host.Basic
import LayeredSets.Shell.Run
import LayeredSets.Version.Basic

/-!
# Programs

Running another program to its end. A name with a slash is a path; any other name is looked for in
the working directory and then among the tools of the system. An executable file has to name its
interpreter.
-/

namespace LayeredSets

/-- What a program left behind when it ended. -/
structure Finished where
  output : String
  errors : String
  success : Bool
  /-- How much of the input was never read. -/
  unread : Nat

namespace Host

/-- How many steps a program may take. -/
def programSteps : Nat := 1000000

/-- The process that starts programs, with its three descriptors. -/
def starter : Shell.Process where
  name := ""
  args := []
  vars := Shell.environment
  functions := .empty
  descriptors := ⟨[(0, 0), (1, 1), (2, 2)]⟩
  directory := ""
  status := 0
  inserted := 0
  line := 1
  context := ""
  source := ""
  options := []
  loops := 0
  hidden := none
  jobs := []
  atEnd := ""
  optionOffset := 0
  dialect := .plain
  switches := []
  statuses := []

/-- The state in which a program is started on an input. -/
def machine (host : Host) (input : String) : Shell.Machine :=
  ⟨host.files, #[.source (Text.byteText input), .sink [], .sink []], starter⟩

/-- Run `program`, or find that it cannot be started. -/
def run (host : Host) (program : String) (args : List String) (input : String) :
    Option (Finished × Host) :=
  let bytes (text : String) : String := String.ofList (Text.byteText text)
  match Shell.Program.find host.files "" (bytes program) (args.map bytes) with
  | .error _ | .ok (.script ..) => none
  | .ok start =>
    let m := host.machine input
    let (_, m) := Shell.inChild programSteps (Shell.runStart programSteps start) m
    let shown (channel : Nat) : String := Text.ofByteText (m.written channel)
    some (⟨shown 1, shown 2, m.process.status == 0, (m.remaining 0).length⟩,
      { host with files := m.files })

/-- The version that `package` reports when asked, on either of its output channels. -/
def installedVersion (host : Host) (package : String) : Option String := do
  let (finished, _) ← host.run package ["--version"] ""
  if finished.success then
    (Version.ofBanner? finished.output).or (Version.ofBanner? finished.errors)
  else none

end Host
end LayeredSets
