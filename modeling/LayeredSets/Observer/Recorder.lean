import LayeredSets.Host.Basic
import LayeredSets.Host.Writer

/-!
# Recorders

A recorder writes lines to a file for one of the observers. A line is handed to its writer in parts,
none of which is divided between two blocks unless it is longer than a block. The first write that
fails is reported to the host; after it the recorder writes nothing more.
-/

namespace LayeredSets

structure Recorder where
  /-- The observer on whose behalf the file is written. -/
  observer : String
  path : String
  writer : Writer
  failed : Bool

namespace Recorder

/-- Start a recorder on the file at `path`, which loses its content. -/
def create (observer path : String) (host : Host) : Except String Recorder × Host :=
  match host.files.create path with
  | .error _ => (.error s!"cannot create {observer} file '{path}'", host)
  | .ok (file, files) => (.ok ⟨observer, path, .new file, false⟩, { host with files })

/-- Give up after `fault`, and say so. -/
def giveUp (r : Recorder) (fault : FileFault) (host : Host) : Recorder × Host :=
  ({ r with failed := true }, host.report (.writeFailed r.observer r.path fault.message))

/-- Carry on with what a write left behind. -/
def settle (r : Recorder) (written : Except FileFault Unit × Writer × Files) (host : Host) :
    Recorder × Host :=
  let r := { r with writer := written.2.1 }
  let host := { host with files := written.2.2 }
  match written.1 with
  | .ok () => (r, host)
  | .error fault => r.giveUp fault host

/-- Write a line that consists of `parts`; its line break is a part too. -/
def writeLine (r : Recorder) (parts : List String) (host : Host) : Recorder × Host :=
  if r.failed then (r, host) else r.settle (r.writer.writeAll host.files (parts ++ ["\n"])) host

/-- Hand everything to the file. The answer tells whether all of it has been written. -/
def finish (r : Recorder) (host : Host) : Bool × Recorder × Host :=
  if r.failed then (false, r, host)
  else
    let (r, host) := r.settle (r.writer.flush host.files) host
    (!r.failed, r, host)

end Recorder
end LayeredSets
