import LayeredSets.Host.Files
import LayeredSets.Shell.Wildcard
import LayeredSets.Text.Bytes

/-!
# Fields

What words become once their values are put in. The characters that came from a value are split
into fields at separators; a field that is a pattern stands for the paths that fit it.
-/

namespace LayeredSets.Shell

inductive Origin
  | written
  | quoted
  | inserted
  deriving DecidableEq, Repr

inductive Piece
  | char (c : Char) (origin : Origin)
  /-- Quotes with nothing between them. -/
  | nothing
  /-- The boundary between two parameters. -/
  | boundary
  deriving DecidableEq, Repr

/-- Characters that are marked if they are quoted. -/
abbrev Marked : Type := List (Char × Bool)

namespace Piece

def ofText (origin : Origin) (cs : List Char) : List Piece := cs.map (.char · origin)

/-- The pieces of a value; in quotes even an empty one counts. -/
def ofValue (quoted : Bool) (value : String) : List Piece :=
  if quoted then
    if value == "" then [.nothing] else ofText .quoted value.toList
  else ofText .inserted value.toList

/-- The text of pieces that are not split. -/
def text (ps : List Piece) : List Char :=
  ps.filterMap fun
    | char c _ => some c
    | nothing => none
    | boundary => some ' '

/-- The pieces as a pattern. -/
def marked (ps : List Piece) : Marked :=
  ps.filterMap fun
    | char c origin => some (c, origin == .quoted)
    | nothing => none
    | boundary => some (' ', false)

end Piece

def isBlankSeparator (separators : List Char) (c : Char) : Bool :=
  separators.contains c && (c == ' ' || c == '\t' || c == '\n')

/-- The field being read, and whether the blanks before it have ended another. -/
structure Splitting where
  current : Option Marked
  pending : Bool

/-- Split pieces into fields. Blanks that separate are taken together, also with another separator
among them; any other separator ends a field of its own. -/
def splitFrom (separators : List Char) : Splitting → List Piece → List Marked
  | s, [] => s.current.toList
  | s, .nothing :: rest => splitFrom separators ⟨some (s.current.getD []), false⟩ rest
  | s, .boundary :: rest => s.current.toList ++ splitFrom separators ⟨none, false⟩ rest
  | s, .char c origin :: rest =>
    if origin == .inserted && isBlankSeparator separators c then
      s.current.toList ++ splitFrom separators ⟨none, s.pending || s.current.isSome⟩ rest
    else if origin == .inserted && separators.contains c then
      let ended := if s.current.isNone && s.pending then [] else [s.current.getD []]
      ended ++ splitFrom separators ⟨none, false⟩ rest
    else splitFrom separators ⟨some (s.current.getD [] ++ [(c, origin == .quoted)]), false⟩ rest

def fieldsOf (separators : List Char) (ps : List Piece) : List Marked :=
  splitFrom separators ⟨none, false⟩ ps

/-- The text after the separator in front of it, with the blanks around that. -/
def afterSeparator (separators : List Char) (ps : List Piece) : List Piece :=
  let skipBlanks (ps : List Piece) := ps.dropWhile fun
    | .char c origin => origin == .inserted && isBlankSeparator separators c
    | _ => false
  match skipBlanks ps with
  | .char c origin :: rest =>
    if origin == .inserted && separators.contains c then skipBlanks rest
    else .char c origin :: rest
  | rest => rest

/-- Split a line into `count` fields, the last of which keeps the separators within it. -/
def splitLine (separators : List Char) : Nat → List Piece → List (List Char)
  | 0, _ => []
  | count + 1, ps =>
    let isSeparator : Piece → Bool
      | .char c origin => origin == .inserted && separators.contains c
      | _ => false
    let isBlank : Piece → Bool
      | .char c origin => origin == .inserted && isBlankSeparator separators c
      | _ => false
    let field := Piece.text (ps.takeWhile (!isSeparator ·))
    let rest := afterSeparator separators (ps.dropWhile (!isSeparator ·))
    if count = 0 && !rest.isEmpty then [Piece.text (ps.reverse.dropWhile isBlank).reverse]
    else field :: splitLine separators count rest

/-! ### Paths that fit a pattern -/

/-- The components of a marked path. -/
def components (field : Marked) : List Marked :=
  field.foldr
    (fun m parts =>
      if m.1 == '/' then [] :: parts
      else match parts with
        | [] => [[m]]
        | part :: rest => (m :: part) :: rest)
    [[]]

/-- The names that fit one component of a path in the directory at `path`. A dot in front of a name
has to be written. -/
def namesThatFit (files : Files) (path : String) (part : Marked) : List (List Char) :=
  let ps := Wildcard.ofMarked part
  let names := match files.locate path with
    | .ok place => if files.isDirectoryAt place then files.namesIn place else []
    | .error _ => []
  let hidden := part.head?.any (·.1 == '.')
  let names := names.map Text.byteText ++ if hidden then [['.'], ['.', '.']] else []
  let fitting := names.filter fun n => (n.head? != some '.' || hidden) && Wildcard.fits ps n
  fitting.mergeSort fun a b => !Text.precedes b a

/-- The paths that begin with `front` and go on as `parts` say. -/
def pathsThatFit (files : Files) (directory : String) (front : List Char) :
    List Marked → List (List Char)
  | [] => [front]
  | part :: rest =>
    let behind (name : List Char) : List Char :=
      front ++ name ++ if rest.isEmpty then [] else ['/']
    let pathOf (cs : List Char) : String :=
      let text := Text.ofByteText cs
      if text.startsWith "/" then text else directory ++ text
    if Wildcard.isOpen (Wildcard.ofMarked part) then
      let base := pathOf front
      (namesThatFit files (if base == "" then "." else base) part).flatMap fun name =>
        pathsThatFit files directory (behind name) rest
    else
      let path := behind (part.map (·.1))
      match files.locate (pathOf path) with
      | .ok place =>
        if (files.node? place).isSome then pathsThatFit files directory path rest else []
      | .error _ => if path == ['/'] then pathsThatFit files directory path rest else []

/-- A field as it is passed on: the paths that fit it, or itself if it is no pattern or, unless
`orNothing`, if none fits. -/
def pathsOf (files : Files) (directory : String) (orNothing : Bool) (field : Marked) :
    List (List Char) :=
  let itself := field.map (·.1)
  if Wildcard.isOpen (Wildcard.ofMarked field) then
    match pathsThatFit files directory [] (components field) with
    | [] => if orNothing then [] else [itself]
    | paths => paths
  else [itself]

end LayeredSets.Shell
