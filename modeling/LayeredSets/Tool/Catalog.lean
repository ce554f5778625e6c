import LayeredSets.Tool.Exchange
import LayeredSets.Tool.Grep
import LayeredSets.Tool.Sed
import LayeredSets.Tool.Storage
import LayeredSets.Tool.Streams
import LayeredSets.Tool.Test
import LayeredSets.Tool.Words

/-!
# The tools of a system

Which tools there are, what options they know, and where they stand. Some tools run another
program, so that they belong to the shell.
-/

namespace LayeredSets.Tool

open Choice

/-- A tool whose options are checked before it runs. -/
def checked (tool : Job → Effect) (choices : List (List Choice)) : Job → Effect :=
  Usage.run ⟨choices.flatten, none, 1⟩ tool

/-- The same, a number in the place of an option being the value of a letter. -/
def checkedWithNumber (letter : Char) (tool : Job → Effect) (choices : List (List Choice)) :
    Job → Effect :=
  Usage.run ⟨choices.flatten, some letter, 1⟩ tool

/-- Sorting takes a wrong call for a serious fault. -/
def sortUsage : Usage where
  choices := List.flatten
    [[flag 'b' "ignore-leading-blanks", flag 'd' "dictionary-order", flag 'f' "ignore-case",
      flag 'g' "general-numeric-sort", flag 'i' "ignore-nonprinting", flag 'M' "month-sort",
      flag 'h' "human-numeric-sort", flag 'n' "numeric-sort", flag 'R' "random-sort",
      flag 'r' "reverse", flag 'V' "version-sort", flag 'c' "check", valued 'k' "key",
      flag 'm' "merge", valued 'o' "output", flag 's' "stable", valued 'S' "buffer-size",
      valued 't' "field-separator", valued 'T' "temporary-directory", flag 'u' "unique",
      flag 'z' "zero-terminated"],
     letters "C", names ["debug"]]
  ofNumber := none
  misused := 2

/-- The tools for text. -/
def textTools : List (String × (Job → Effect)) :=
  [("cat", checked cat
      [[flag 'A' "show-all", flag 'b' "number-nonblank", flag 'E' "show-ends", flag 'n' "number",
        flag 's' "squeeze-blank", flag 'T' "show-tabs", flag 'v' "show-nonprinting"],
       letters "etu"]),
   ("cut", checked cut
      [[valued 'b' "bytes", valued 'c' "characters", valued 'd' "delimiter", valued 'f' "fields",
        flag 's' "only-delimited", flag 'z' "zero-terminated"],
       letters "n", names ["complement", "output-delimiter"]]),
   ("fold", checkedWithNumber 'w' fold
      [[flag 'b' "bytes", flag 's' "spaces", valued 'w' "width"]]),
   ("head", checkedWithNumber 'n' head
      [[valued 'c' "bytes", valued 'n' "lines", flag 'q' "quiet", flag 'q' "silent",
        flag 'v' "verbose", flag 'z' "zero-terminated"]]),
   ("paste", checked paste
      [[valued 'd' "delimiters", flag 's' "serial", flag 'z' "zero-terminated"]]),
   ("rev", checked rev [letters "hV"]),
   ("sed", checked sed
      [[valued 'e' "expression", valued 'f' "file", valued 'l' "line-length", flag 'n' "quiet",
        flag 'n' "silent", flag 'E' "regexp-extended", flag 's' "separate", flag 'u' "unbuffered",
        flag 'z' "null-data", optional 'i' "in-place"],
       letters "r", names ["debug", "follow-symlinks", "posix", "sandbox"]]),
   ("sort", sortUsage.run sort),
   ("tac", checked tac [[flag 'b' "before", flag 'r' "regex", valued 's' "separator"]]),
   ("tail", checkedWithNumber 'n' tail
      [[valued 'c' "bytes", flag 'f' "follow", valued 'n' "lines", flag 'q' "quiet",
        flag 'q' "silent", valued 's' "sleep-interval", flag 'v' "verbose",
        flag 'z' "zero-terminated"],
       letters "F", names ["retry"]]),
   ("tee", checked tee [[flag 'a' "append", flag 'i' "ignore-interrupts"], letters "p"]),
   ("tr", checked tr
      [[flag 'c' "complement", flag 'd' "delete", flag 's' "squeeze-repeats",
        flag 't' "truncate-set1"],
       letters "C"]),
   ("uniq", checkedWithNumber 'f' uniq
      [[flag 'c' "count", flag 'd' "repeated", valued 'f' "skip-fields", flag 'i' "ignore-case",
        valued 's' "skip-chars", flag 'u' "unique", flag 'z' "zero-terminated",
        valued 'w' "check-chars"],
       letters "D"]),
   ("wc", checked wc
      [[flag 'c' "bytes", flag 'm' "chars", flag 'l' "lines", flag 'L' "max-line-length",
        flag 'w' "words"], names ["total"]])]

def searchUsage : Usage where
  choices := List.flatten
    [[flag 'E' "extended-regexp", flag 'F' "fixed-strings", flag 'G' "basic-regexp",
      flag 'P' "perl-regexp", valued 'e' "regexp", valued 'f' "file", flag 'i' "ignore-case",
      flag 'w' "word-regexp", flag 'x' "line-regexp", flag 'z' "null-data", flag 's' "no-messages",
      flag 'v' "invert-match", valued 'm' "max-count", flag 'b' "byte-offset",
      flag 'n' "line-number", flag 'H' "with-filename", flag 'h' "no-filename",
      flag 'o' "only-matching", flag 'q' "quiet", flag 'q' "silent", flag 'a' "text",
      valued 'd' "directories", valued 'D' "devices", flag 'r' "recursive",
      flag 'L' "files-without-match", flag 'l' "files-with-matches", flag 'c' "count",
      flag 'T' "initial-tab", flag 'Z' "null", valued 'B' "before-context",
      valued 'A' "after-context", valued 'C' "context", flag 'U' "binary"],
     letters "RuVyI", names ["color", "colour", "line-buffered", "label", "include", "exclude"]]
  ofNumber := some 'C'
  misused := 2

/-- The tool for searching, whose complaints show how it is called. -/
def searching (job : Job) : Effect :=
  let e := searchUsage.run grep job
  match Text.lines e.errors, e.status with
  | [complaint, hint], 2 =>
    if "Try ".toList.isPrefixOf hint && !"Usage".toList.isPrefixOf complaint then
      let usage := s!"Usage: {job.name} [OPTION]... PATTERNS [FILE]...\n".toList
      { e with errors := complaint ++ usage ++ hint }
    else e
  | _, _ => e

def listUsage : Usage where
  choices := List.flatten
    [[flag 'a' "all", flag 'A' "almost-all", flag 'd' "directory", flag 'r' "reverse",
      flag 'R' "recursive"],
     letters "1bBcCDfFgGhHiklLmnNopqQsStuUvxXZ", names ["color"]]
  ofNumber := none
  misused := 2

/-- The tools for files and words. -/
def otherTools : List (String × (Job → Effect)) :=
  [("basename", checked basename
      [[flag 'a' "multiple", valued 's' "suffix", flag 'z' "zero"]]),
   ("chmod", chmod),
   ("cp", checked cp
      [[flag 'a' "archive", flag 'f' "force", flag 'i' "interactive", flag 'l' "link",
        flag 'L' "dereference", flag 'n' "no-clobber", flag 'P' "no-dereference",
        flag 'R' "recursive", flag 's' "symbolic-link", valued 'S' "suffix",
        valued 't' "target-directory", flag 'T' "no-target-directory", flag 'u' "update",
        flag 'v' "verbose"],
       letters "bdHprxZ"]),
   ("dirname", checked dirname [[flag 'z' "zero"]]),
   ("echo", echo), ("egrep", searching), ("expr", expr), ("false", fun job => job.ends 1),
   ("fgrep", searching), ("grep", searching),
   ("ln", checked ln
      [[flag 'f' "force", flag 's' "symbolic", valued 'S' "suffix",
        valued 't' "target-directory", flag 'T' "no-target-directory", flag 'v' "verbose"],
       letters "bdFiLnPr"]),
   ("ls", listUsage.run ls),
   ("mkdir", checked mkdir
      [[valued 'm' "mode", flag 'p' "parents", flag 'v' "verbose"], letters "Z"]),
   ("mv", checked mv
      [[flag 'f' "force", flag 'i' "interactive", flag 'n' "no-clobber", valued 'S' "suffix",
        valued 't' "target-directory", flag 'T' "no-target-directory", flag 'u' "update",
        flag 'v' "verbose"],
       letters "bZ"]),
   ("printf", printf .tool),
   ("rm", checked rm
      [[flag 'f' "force", flag 'r' "recursive", flag 'd' "dir", flag 'v' "verbose"],
       letters "iIR"]),
   ("rmdir", checked rmdir [[flag 'p' "parents", flag 'v' "verbose"]]),
   ("seq", seq), ("sleep", sleep),
   ("stat", checked stat
      [[valued 'c' "format", flag 'f' "file-system", flag 'L' "dereference", flag 't' "terse"]]),
   ("sync", fun job => job.ends 0), ("test", test .tool),
   ("touch", checked touch
      [[flag 'c' "no-create", valued 'd' "date", valued 'r' "reference"], letters "afhm"]),
   ("true", fun job => job.ends 0),
   ("truncate", checked truncate
      [[flag 'c' "no-create", flag 'o' "io-blocks", valued 'r' "reference", valued 's' "size"]]),
   ("[", test .tool)]

/-- The tools that run a script or another program. -/
def starters : List String :=
  ["awk", "bash", "dash", "env", "mawk", "nawk", "nice", "nohup", "setsid", "sh", "stdbuf",
   "timeout", "xargs"]

/-- The line in which a tool tells its version. -/
def banner? (name : String) : Option String :=
  let version? := match name with
    | "awk" | "dash" | "mawk" | "nawk" | "sh" | "test" => none
    | "bash" => some "5.2.21"
    | "egrep" | "fgrep" | "grep" => some "3.11"
    | "sed" => some "4.9"
    | "xargs" => some "4.9.0"
    | "rev" | "setsid" => some "2.39.3"
    | _ => some "9.4"
  version?.map fun version => s!"{name} {version}"

/-- What a tool does that can do its work alone. -/
def find? (name : String) : Option (Job → Effect) :=
  ((textTools ++ otherTools).lookup name).map fun tool job =>
    match job.args, banner? name with
    | ["--version"], some banner =>
      { job.printsText (banner ++ "\n") with status := if name == "false" then 1 else 0 }
    | _, _ => tool job

def isKnown (name : String) : Bool := (find? name).isSome || starters.contains name

/-- The directories that tools stand in. -/
def directories : List String := ["/usr/bin/", "/bin/"]

/-- The tool that a path leads to. -/
def atPath? (path : String) : Option String :=
  let names := directories.filterMap fun d =>
    if path.startsWith d then some (String.ofList (path.toList.drop d.length)) else none
  names.find? isKnown

end LayeredSets.Tool
