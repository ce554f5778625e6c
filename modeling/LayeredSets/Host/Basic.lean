import LayeredSets.Host.Files
import LayeredSets.Message
import LayeredSets.Verdict

/-!
# The host of a run

Everything around a domain that a run can see or leave a mark on: files, standard input, the text
printed for the user, the messages reported so far, and the replies prepared for questions to a
solver that is not run.
-/

namespace LayeredSets

structure Host where
  files : Files
  stdin : ByteArray
  /-- What was printed on the diagnostics channel, in order. -/
  diagnostics : String
  messages : List Message
  /-- Prepared replies to solver questions; `none` is a solver that fails. -/
  replies : List (Option Verdict)
  /-- The questions that prepared replies were asked for, in order. -/
  questions : List String
  /-- Marks left by release actions, in order. -/
  marks : List String

namespace Host

def initial : Host := ⟨Files.initial, .empty, "", [], [], [], []⟩

def report (host : Host) (message : Message) : Host :=
  { host with messages := host.messages ++ [message] }

/-- Print a line on the diagnostics channel. -/
def printLine (host : Host) (line : String) : Host :=
  { host with diagnostics := host.diagnostics ++ line ++ "\n" }

def print (host : Host) (text : String) : Host :=
  { host with diagnostics := host.diagnostics ++ text }

def mark (host : Host) (label : String) : Host := { host with marks := host.marks ++ [label] }

end Host
end LayeredSets
