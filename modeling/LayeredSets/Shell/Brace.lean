import LayeredSets.Shell.Lexer
import LayeredSets.Text.Numeral

/-!
# Alternatives in words

A word with alternatives between braces stands for several words, one for each alternative; so does
one with the ends of a range. What is quoted, and what stands in a parameter, takes no part.
-/

namespace LayeredSets.Shell

namespace Brace

/-- A word cut into what braces, commas and closing braces there are outside of quotes, and the
texts between them. -/
inductive Piece
  | text (cs : List Char)
  | opening
  | comma
  | closing
  deriving DecidableEq, Repr

def Piece.written : Piece → List Char
  | .text cs => cs
  | .opening => ['\x7b']
  | .comma => [',']
  | .closing => ['\x7d']

def pieces : Nat → List Char → List Piece
  | 0, cs => [.text cs]
  | _, [] => []
  | fuel + 1, c :: rest =>
    match c, rest with
    | '\\', d :: rest => .text [c, d] :: pieces fuel rest
    | '\x7b', rest => .opening :: pieces fuel rest
    | ',', rest => .comma :: pieces fuel rest
    | '\x7d', rest => .closing :: pieces fuel rest
    | c, rest =>
      match opened? .extended .plain (c :: rest) with
      | some (nest, length) =>
        match enclosed .extended length [nest] (c :: rest) with
        | .ok (text, rest) => .text text :: pieces fuel rest
        | .error _ => [.text (c :: rest)]
      | none => .text [c] :: pieces fuel rest

/-- The alternatives up to the brace that closes them, and the pieces after it. `depth` braces are
open within the alternative being read, which is given backwards. -/
def alternatives? : Nat → List Piece → List Piece → Option (List (List Piece) × List Piece)
  | _, _, [] => none
  | 0, current, .closing :: rest => some ([current.reverse], rest)
  | 0, current, .comma :: rest =>
    (alternatives? 0 [] rest).map fun (others, rest) => (current.reverse :: others, rest)
  | depth, current, p :: rest =>
    let depth := match p with
      | .opening => depth + 1
      | .closing => depth - 1
      | _ => depth
    alternatives? depth (p :: current) rest

/-- An end of a range: a whole number or a letter. -/
def bound? (cs : List Char) : Option (Int × Bool) :=
  match cs with
  | '-' :: digits => (Text.decimal? digits).map fun n => (-Int.ofNat n, false)
  | [c] => if c.isAlpha then some (c.toNat, true) else (Text.decimal? [c]).map fun n => (n, false)
  | digits => (Text.decimal? digits).map fun n => (n, false)

/-- The numbers from one end of a range to the other. -/
def range (low high step : Int) : List Int :=
  let step := max 1 step.natAbs
  let count := (high - low).natAbs / step + 1
  (List.range count).map fun (i : Nat) =>
    let distance := Int.ofNat (i * step)
    if low ≤ high then low + distance else low - distance

/-- The words of a range with two dots between its ends, and maybe a step. -/
def ofRange? (text : List Char) : Option (List (List Char)) := do
  let parts := ((String.ofList text).splitOn "..").map (·.toList)
  let (first, last, step) ← match parts with
    | [first, last] => some (first, last, some (1, false))
    | [first, last, step] => some (first, last, bound? step)
    | _ => none
  let (low, isLetter) ← bound? first
  let (high, isLetter') ← bound? last
  let (step, _) ← step
  if isLetter != isLetter' then none
  else
    let isPadded (cs : List Char) : Bool := 1 < cs.length && cs.head? == some '0'
    let width := if isPadded first || isPadded last then max first.length last.length else 0
    return (range low high step).map fun n =>
      if isLetter then [Char.ofNat n.toNat]
      else
        let digits := (toString n.natAbs).toList
        let sign := if n < 0 then ['-'] else []
        sign ++ List.replicate (width - sign.length - digits.length) '0' ++ digits

/-- The words that pieces stand for. -/
def expand : Nat → List Piece → List (List Char)
  | 0, ps => [ps.flatMap Piece.written]
  | _, [] => [[]]
  | fuel + 1, .opening :: rest =>
    let choices? : Option (List (List Char) × List Piece) := do
      let (alternatives, rest) ← alternatives? 0 [] rest
      match alternatives with
      | [single] => return (← ofRange? (single.flatMap Piece.written), rest)
      | several => return (several.flatMap (expand fuel), rest)
    match choices? with
    | some (choices, rest) =>
      let behind := expand fuel rest
      choices.flatMap fun front => behind.map (front ++ ·)
    | none => (expand fuel rest).map ('\x7b' :: ·)
  | fuel + 1, p :: rest => (expand fuel rest).map (p.written ++ ·)

end Brace

/-- The words that a word with alternatives stands for. -/
def alternativesOf (word : Word) : List Word :=
  if word.contains '\x7b' then
    let ps := Brace.pieces word.length word
    Brace.expand (ps.length + 1) ps
  else [word]

end LayeredSets.Shell
