import LayeredSets.Text.Bytes

/-!
# Escapes

Characters written as a backslash and a letter or a number. Which of these there are differs from
one place to another, so that they are read by rules.
-/

namespace LayeredSets.Text

/-- Which escapes a text can have, apart from single letters and octal numbers. -/
structure EscapeRules where
  /-- Octal numbers may follow a zero, and `\c` drops all that comes after it. -/
  zeroFirst : Bool
  /-- Hexadecimal numbers, for bytes and for characters. -/
  hexadecimal : Bool
  /-- Quotation marks. -/
  marks : Bool

/-- What a text becomes; `cut` tells that all that follows is dropped. -/
structure Unescaped where
  text : List Char
  cut : Bool

def isOctal (c : Char) : Bool := '0' ≤ c && c ≤ '7'

def hexValue? (c : Char) : Option Nat :=
  let c := c.toLower
  if c.isDigit then some (c.toNat - '0'.toNat)
  else if 'a' ≤ c && c ≤ 'f' then some (c.toNat - 'a'.toNat + 10)
  else none

/-- The number that hexadecimal digits spell, continuing from `n`. Other characters count zero. -/
def hexNumber (n : Nat) (cs : List Char) : Nat :=
  cs.foldl (fun n c => 16 * n + (hexValue? c).getD 0) n

def byteOfDigits (base : Nat) (digits : List Char) : Char :=
  Char.ofNat (digitsIn base digits % 256)

/-- The character that an escape letter stands for. -/
def escapeLetter? (c : Char) : Option Char :=
  match c with
  | 'a' => some '\x07'
  | 'b' => some '\x08'
  | 'f' => some '\x0c'
  | 'n' => some '\n'
  | 'r' => some '\r'
  | 't' => some '\t'
  | 'v' => some '\x0b'
  | '\\' => some '\\'
  | _ => none

/-- How many hexadecimal digits follow a letter. -/
def hexDigits? (c : Char) : Option Nat :=
  match c with
  | 'x' => some 2
  | 'u' => some 4
  | 'U' => some 8
  | _ => none

/-- What stands for the escape after a backslash, and the text after it; nothing is left if it cuts
the text short. -/
def readEscape (rules : EscapeRules) : List Char → Unescaped × List Char
  | [] => (⟨['\\'], false⟩, [])
  | c :: rest =>
    if rules.zeroFirst && c == 'c' then (⟨[], true⟩, [])
    else if isOctal c then
      let digits :=
        if rules.zeroFirst && c == '0' then (rest.take 3).takeWhile isOctal
        else ((c :: rest).take 3).takeWhile isOctal
      let taken := if rules.zeroFirst && c == '0' then digits.length else digits.length - 1
      (⟨[byteOfDigits 8 digits], false⟩, rest.drop taken)
    else
      let digits := match if rules.hexadecimal then hexDigits? c else none with
        | some count => (rest.take count).takeWhile fun c => (hexValue? c).isSome
        | none => []
      if !digits.isEmpty then
        let code := Char.ofNat (hexNumber 0 digits)
        (⟨if c == 'x' then [code] else byteText code.toString, false⟩, rest.drop digits.length)
      else if rules.hexadecimal && (c == 'e' || c == 'E') then (⟨['\x1b'], false⟩, rest)
      else if rules.marks && ['\'', '"', '?'].contains c then (⟨[c], false⟩, rest)
      else match escapeLetter? c with
        | some d => (⟨[d], false⟩, rest)
        | none => (⟨['\\', c], false⟩, rest)

/-- Read the escapes of a text. -/
def unescapeFrom (rules : EscapeRules) : Nat → List Char → Unescaped
  | 0, _ | _, [] => ⟨[], false⟩
  | fuel + 1, '\\' :: rest =>
    let (here, rest) := readEscape rules rest
    if here.cut then here
    else
      let more := unescapeFrom rules fuel rest
      { more with text := here.text ++ more.text }
  | fuel + 1, c :: rest =>
    let more := unescapeFrom rules fuel rest
    { more with text := c :: more.text }

def unescape (rules : EscapeRules) (cs : List Char) : Unescaped :=
  unescapeFrom rules cs.length cs

end LayeredSets.Text
