import LayeredSets.Host.Files

/-!
# Buffered writers

A writer collects text and hands it to its file in blocks. A text that the buffer has room for is
kept whole and cannot fail; any other makes the writer hand over what is pending first.
-/

namespace LayeredSets

structure Writer where
  file : FileId
  offset : Nat
  pending : ByteArray

namespace Writer

/-- The most bytes a writer holds back. -/
def capacity : Nat := 8192

def new (file : FileId) : Writer := ⟨file, 0, .empty⟩

/-- Hand `bytes` to the file. -/
def send (w : Writer) (bytes : ByteArray) (files : Files) :
    Except FileFault Unit × Nat × Writer × Files :=
  let (written, files) := files.writeAt w.file w.offset bytes
  let w := { w with offset := w.offset + written.count }
  match written.fault with
  | none => (.ok (), written.count, w, files)
  | some fault => (.error fault, written.count, w, files)

/-- Hand over everything that is pending; what the file refused stays pending. -/
def flush (w : Writer) (files : Files) : Except FileFault Unit × Writer × Files :=
  if w.pending.isEmpty then (.ok (), w, files)
  else
    let (outcome, count, w, files) := w.send w.pending files
    (outcome, { w with pending := w.pending.extract count w.pending.size }, files)

def write (w : Writer) (text : String) (files : Files) : Except FileFault Unit × Writer × Files :=
  let bytes := text.toUTF8
  let (flushed, w, files) :=
    if capacity < w.pending.size + bytes.size then w.flush files else (.ok (), w, files)
  match flushed with
  | .error fault => (.error fault, w, files)
  | .ok () =>
    if capacity ≤ bytes.size then
      let (outcome, _, w, files) := w.send bytes files
      (outcome, w, files)
    else (.ok (), { w with pending := w.pending ++ bytes }, files)

/-- Write texts one by one, up to the first that fails. -/
def writeAll (w : Writer) (files : Files) : List String → Except FileFault Unit × Writer × Files
  | [] => (.ok (), w, files)
  | text :: rest =>
    match w.write text files with
    | (.ok (), w, files) => w.writeAll files rest
    | failed => failed

end Writer
end LayeredSets
