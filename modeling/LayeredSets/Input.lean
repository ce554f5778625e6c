import LayeredSets.Host.Basic
import LayeredSets.Script.Parser
import LayeredSets.Text.Printable
import LayeredSets.Text.Utf8
import LayeredSets.Trace.Parser

/-!
# Inputs

An input is a source of bytes with a name and a format. The name alone decides how the bytes are
read unless the format is given. When an input is no longer needed its release actions run, in the
order in which they were attached.
-/

namespace LayeredSets

inductive Format
  | script
  | trace
  deriving DecidableEq, Repr

namespace Format

/-- Names with this ending are traces. -/
def traceEnding : String := ".strace"

def ofName (name : Option String) : Format :=
  if name.any fun n => traceEnding.toList.isSuffixOf n.toList then .trace else .script

def text : Format → String
  | script => "script"
  | trace => "trace"

def ofText? (text : String) : Option Format :=
  [script, trace].find? fun f => f.text == text

/-- The name of the format as an identifier. -/
def label : Format → String
  | script => "Script"
  | trace => "Trace"

end Format

/-- A text that has been read in one of the formats. -/
inductive Program
  | script (script : Script)
  | trace (trace : Trace)
  deriving DecidableEq, Repr

namespace Program

def length : Program → Nat
  | script s => s.length
  | trace t => t.length

/-- The byte of a line break. It stands in no other character. -/
def lineFeed : UInt8 := 0x0A

/-- The position behind bytes that are UTF-8. Lines are counted in bytes, and columns in the
characters of the last line. -/
def positionBehind (bytes : List UInt8) : Position :=
  let lastLine := (bytes.reverse.takeWhile (· != lineFeed)).reverse
  let width := match Text.decode lastLine with
    | .ok text => text.length
    | .error _ => 0
  ⟨bytes.count lineFeed + 1, width + 1⟩

/-- Read bytes as UTF-8, or locate the first byte that is none. -/
def decode (bytes : List UInt8) : Except ParseError (List Char) :=
  match Text.decode bytes with
  | .ok text => .ok text
  | .error bad =>
    .error ⟨positionBehind bad.before, s!"invalid UTF-8 byte 0x{Text.hexPair bad.byte}"⟩

def parse (format : Format) (text : List Char) : Except ParseError Program :=
  match format with
  | .script => script <$> Script.parse text
  | .trace => trace <$> Trace.parse text

/-- Read bytes as a program. -/
def read (format : Format) (bytes : ByteArray) : Except ParseError Program :=
  decode bytes.toList >>= parse format

end Program

/-- An open input. `source` is what is left to be read, or the reason why reading fails. -/
structure Input where
  format : Format
  name : String
  source : Except String ByteArray
  release : List (Host → Host)

namespace Input

/-- What standard input is called. -/
def stdinName : String := "<stdin>"

def ofSource (name : String) (format : Format) (source : Except String ByteArray) : Input :=
  ⟨format, name, source, []⟩

/-- Attach a release action, to run after those that are already attached. -/
def onRelease (input : Input) (action : Host → Host) : Input :=
  { input with release := input.release ++ [action] }

/-- Open the file at `path`, or standard input. -/
def open? (path : Option String) (host : Host) : Except String (Input × Host) := do
  let input ← match path with
    | none => .ok (ofSource stdinName .script (.ok host.stdin))
    | some path =>
      let opened :=
        if host.files.descriptor? path = some 0 then .ok (.ok host.stdin) else host.files.open? path
      match opened with
      | .error fault => .error s!"cannot open input '{path}': {fault.message}"
      | .ok content =>
        .ok (ofSource path (.ofName (some path)) (content.mapError FileFault.message))
  return (input.onRelease (·.report (.inputReleased input.name)),
    host.report (.inputOpened input.name input.format.text))

/-- Read everything that is left. -/
def readAll (input : Input) : Except String ByteArray × Input :=
  match input.source with
  | .ok bytes => (.ok bytes, { input with source := .ok .empty })
  | .error reason => (.error reason, input)

/-- Let go of the input. -/
def close (input : Input) (host : Host) : Host :=
  input.release.foldl (fun host action => action host) host

/-- How an input is shown. -/
def text (input : Input) : String :=
  s!"InputStream \x7b format: {input.format.label}, name: {Text.quoted input.name} \x7d"

end Input
end LayeredSets
