import LayeredSets.Tool.Regex
import LayeredSets.Tool.Streams

/-!
# Searching lines

The `grep` tool: the lines in which an expression matches. Status 1 tells that there were none,
status 2 that something went wrong.
-/

namespace LayeredSets.Tool

namespace Grep

/-- Does the expression match in the line, as whole words or whole lines if so asked? -/
def hits (o : Options) (r : Regex) (line : List Char) : Bool :=
  let r := if o.has "x" then Regex.seq .lineStart (.seq r .lineEnd)
    else if o.has "w" then
      Regex.seq .wordEdge (.seq r .wordEdge)
    else r
  let ignoreCase := o.has "i" || o.has "y"
  Regex.isIn ignoreCase r line != (o.has "v")

/-- All matches in a line that are not empty, from left to right. -/
def allMatches (ignoreCase : Bool) (r : Regex) : Nat → Regex.Cursor → List (List Char)
  | 0, _ => []
  | fuel + 1, k =>
    match Regex.find? ignoreCase r k with
    | none => []
    | some m =>
      if m.text.isEmpty then
        if m.stop.rest.isEmpty then [] else allMatches ignoreCase r fuel m.stop.advance
      else m.text :: allMatches ignoreCase r fuel m.stop

/-- The expression that the patterns make up together. -/
def expression? (o : Options) (name : String) (patterns : List String) : Option Regex :=
  let mode := if o.has "E" || name == "egrep" then Regex.Notation.extended else .basic
  let one (p : List Char) : Option Regex :=
    if o.has "F" || name == "fgrep" then some (Regex.ofText p) else Regex.parse? mode p
  match (patterns.flatMap fun p => Text.splitAt (· == '\n') p.toList).mapM one with
  | some (r :: rs) => some (rs.foldl Regex.or r)
  | _ => none

/-- A line that is printed, either because it was asked for or because it is near such a line. -/
structure Shown where
  text : List Char
  number : Nat
  isHit : Bool

/-- The lines that are printed of those that were asked for and others around them. -/
def withContext (before after : Nat) (lines : List Shown) : List Shown :=
  let hits := (lines.filter (·.isHit)).map (·.number)
  lines.filter fun l =>
    hits.any fun n => l.number ≤ n + after && n ≤ l.number + before

/-- The numbers asked for by an option or by the option for both sides. -/
def contextOf (o : Options) (letter : String) : Nat :=
  (((o.value? letter).or (o.value? "C")).bind (Text.decimal? ·.toList)).getD 0

/-- What came of one source: what is printed, whether anything was found, and how much was read up
to the last line that was asked for. -/
structure Found where
  output : List Char
  isHit : Bool
  read : Nat

def search (o : Options) (r : Regex) (label : String) (content : List Char) : Found :=
  let lines := (Text.lines content).zipIdx.map fun (l, i) =>
    let text := Text.chomp l
    Shown.mk text (i + 1) (hits o r text)
  let hitsOf (ls : List Shown) := ls.filter (·.isHit)
  let limit := ((o.value? "m").bind (Text.decimal? ·.toList)).filter
    (· < (hitsOf lines).length)
  let last := limit.map fun n => (((hitsOf lines).take n).getLast?.map (·.number)).getD 0
  let found := match limit with
    | some n => (hitsOf lines).take n
    | none => hitsOf lines
  let lines := match last with
    | some k => lines.map fun l => { l with isHit := l.isHit && l.number ≤ k }
    | none => lines
  let before := contextOf o "B"
  let after := contextOf o "A"
  let title := (if label == "" then "(standard input)" else label) ++ "\n"
  let front (l : Shown) : String :=
    let mark := if l.isHit then ":" else "-"
    (if label == "" then "" else label ++ mark) ++
      if o.has "n" then s!"{l.number}{mark}" else ""
  let lineOf (l : Shown) : String :=
    if o.has "o" then
      let parts := allMatches (o.has "i") r (l.text.length + 1) (Regex.startOf l.text)
      if l.isHit then String.join (parts.map fun m => front l ++ String.ofList m ++ "\n") else ""
    else front l ++ String.ofList l.text ++ "\n"
  let printed := (withContext before after lines).foldl
    (fun (text, previous) l =>
      let gap := 0 < before + after && previous ≠ 0 && previous + 1 < l.number
      (text ++ (if gap then "--\n" else "") ++ lineOf l, l.number))
    ("", 0)
  let count := if label == "" then "" else label ++ ":"
  let output :=
    if o.has "q" then ""
    else if o.has "c" then s!"{count}{found.length}\n"
    else if o.has "l" then (if found.isEmpty then "" else title)
    else if o.has "L" then (if found.isEmpty then title else "")
    else printed.1
  let read := match last with
    | some k => ((Text.lines content).take k).flatten.length
    | none => content.length
  ⟨output.toList, !found.isEmpty, read⟩

end Grep

def grep (job : Job) : Effect :=
  let o := job.options "efmABC"
  let fromFiles := (o.values "f").flatMap fun name =>
    match job.read name with
    | .ok cs => (Text.lines cs).map fun l => String.ofList (Text.chomp l)
    | .error _ => []
  let given := o.values "e" ++ fromFiles
  let (patterns, names) :=
    if given.isEmpty then (o.operands.take 1, o.operands.drop 1) else (given, o.operands)
  if patterns.isEmpty then
    let lines := ["Usage: grep [OPTION]... PATTERNS [FILE]...",
      "Try 'grep --help' for more information.\n"]
    { job.ends 2 with errors := ("\n".intercalate lines).toList }
  else match Grep.expression? o job.name patterns with
    | none => job.complains 2 (Regex.complaintOf ("\n".intercalate patterns).toList)
    | some r =>
      let s := job.sources plainComplaint names
      let labelled := (2 ≤ names.length || o.has "H") && !o.has "h"
      let results := s.contents.map fun (name, content) =>
        Grep.search o r
          (if labelled then (if name == "-" then "(standard input)" else name)
            else if (o.has "l" || o.has "L") && name != "-" then name else "") content
      let isHit := results.any (·.isHit)
      let status := if isHit && (s.errors.isEmpty || o.has "q") then 0
        else if s.errors.isEmpty then 1 else 2
      let rest := match results, names.isEmpty && job.seekable with
        | [found], true => job.input.drop found.read
        | _, _ => s.rest
      ⟨results.flatMap (·.output), if o.has "s" then [] else s.errors, status, rest, job.files⟩

end LayeredSets.Tool
