import LayeredSets.Table
import LayeredSets.Text.Blank
import LayeredSets.Text.Decimal
import LayeredSets.Tool.Awk.Lexer
import LayeredSets.Tool.Format

/-!
# Values of pattern programs

Texts and numbers, and how each is taken for the other. What comes from the input is a text that may
look like a number, and then it is compared as one.
-/

namespace LayeredSets.Tool.Awk

inductive Value
  | unset
  | number (x : Float)
  | text (cs : List Char)
  /-- A text of the input that looks like a number. -/
  | numeral (cs : List Char) (x : Float)

/-- Elements of an array by their keys. -/
abbrev Items : Type := Table (List Char) Value

/-- The float of a number as it is written. -/
def floatOf (negative : Bool) (n : Text.Numeral) : Float :=
  if negative then -n.toFloat else n.toFloat

/-- A number without what stands behind its point. -/
def truncate (x : Float) : Float := if x < 0 then x.ceil else x.floor

/-- What is left of `x` when `y` has been taken away as often as possible. -/
def remainder (x y : Float) : Float :=
  if y.isInf && x.isFinite then x else x - truncate (x / y) * y

/-- The largest numbers that are written as whole ones, of both signs. -/
def wholeLimits : Nat × Nat := (UInt64.size / 2, UInt64.size)

/-- A number without what stands behind its point, within the limits. -/
def wholeOf (x : Float) : Int :=
  let (below, above) := wholeLimits
  match Text.Signed.ofFloat x with
  | ⟨negative, .finite q⟩ =>
    if negative then -(min (q.num / q.den) (below - 1) : Nat)
    else (min (q.num / q.den) (above - 1) : Nat)
  | ⟨negative, _⟩ => if negative then 1 - (below : Int) else (above : Int) - 1

/-- The digits of a whole number. -/
def wholeText? (x : Float) : Option (List Char) :=
  let (below, above) := wholeLimits
  match Text.Signed.ofFloat x with
  | ⟨negative, .finite q⟩ =>
    let n := q.num / q.den
    if q.num % q.den ≠ 0 || (if negative then below else above) < n then none
    else if negative && n ≠ 0 then some ('-' :: Nat.toDigits 10 n)
    else some (Nat.toDigits 10 (min n (above - 1)))
  | _ => none

/-- A number as a text, by a format with one conversion if it is not whole. -/
def numberText (format : List Char) (x : Float) : List Char :=
  (wholeText? x).getD <|
    let before := format.takeWhile (· != '%')
    match Conversion.read (fun () => 0) (fun _ => false) (format.drop (before.length + 1)) [] with
    | none => before
    | some (c, after, _) =>
      match c.style? with
      | some style => before ++ c.withPoint style (.ofFloat x) ++ after
      | none => before ++ c.signed (wholeOf x) ++ after

namespace Value

def ofBool (b : Bool) : Value := .number (if b then 1 else 0)

def ofNat (n : Nat) : Value := .number n.toFloat

/-- A value from the input. -/
def ofInput (cs : List Char) : Value :=
  match Text.readNumeral cs with
  | some (negative, n, rest) =>
    if rest.all fun c => c == ' ' || c == '\t' || c == '\n' then .numeral cs (floatOf negative n)
    else .text cs
  | none => .text cs

def toNumber : Value → Float
  | unset => 0
  | number x | numeral _ x => x
  | text cs => (Text.readNumeral cs).elim 0 fun (negative, n, _) => floatOf negative n

def toText (format : List Char) : Value → List Char
  | unset => []
  | number x => numberText format x
  | text cs | numeral cs _ => cs

def isTrue : Value → Bool
  | unset => false
  | number x | numeral _ x => x != 0
  | text cs => !cs.isEmpty

def isText : Value → Bool
  | text _ => true
  | _ => false

/-- Does the first come before the second? Texts are compared if one of them is no number. -/
def precedes (format : List Char) (a b : Value) : Bool :=
  if a.isText || b.isText then Text.precedes (a.toText format) (b.toText format)
  else a.toNumber < b.toNumber

def same (format : List Char) (a b : Value) : Bool :=
  if a.isText || b.isText then a.toText format == b.toText format
  else a.toNumber == b.toNumber

end Value

def UnaryOp.apply (op : UnaryOp) (v : Value) : Value :=
  match op with
  | plus => .number v.toNumber
  | minus => .number (-v.toNumber)
  | not => .ofBool !v.isTrue

def BinaryOp.apply (format : List Char) (op : BinaryOp) (a b : Value) : Value :=
  let (x, y) := (a.toNumber, b.toNumber)
  match op with
  | add => .number (x + y)
  | subtract => .number (x - y)
  | multiply => .number (x * y)
  | divide => .number (x / y)
  | remainder => .number (Awk.remainder x y)
  | power => .number (Float.pow x y)
  | less => .ofBool (a.precedes format b)
  | atMost => .ofBool (a.precedes format b || a.same format b)
  | equal => .ofBool (a.same format b)
  | unequal => .ofBool !a.same format b
  | greater => .ofBool (b.precedes format a)
  | atLeast => .ofBool (b.precedes format a || a.same format b)
  | join => .text (a.toText format ++ b.toText format)

/-! ### Keys -/

/-- A number that is spread evenly over its range for different keys. -/
def keyHash (key : List Char) : Nat :=
  key.foldl (fun h c => (h ^^^ c.toNat) * 16777619 % (1 <<< 32)) 2166136261

/-- How many groups keys are sorted into: a power of two that leaves no more than twelve to each. -/
def groupCount (n : Nat) : Nat :=
  let needed := (n + 11) / 12
  if needed ≤ 64 then 64 else 1 <<< ((needed - 1).log2 + 1)

/-- The keys in the order in which loops go through them: by groups, the newest first. -/
def orderedKeys (items : Items) : List (List Char) :=
  let groups := groupCount items.entries.length
  let keyed := items.keys.map fun key => (keyHash key % groups, key)
  (keyed.mergeSort fun a b => a.1 ≤ b.1).map (·.2)

/-! ### Formats -/

/-- Why a format cannot be followed to its end. -/
inductive FormatFault
  | tooFew
  | improper (number : Nat)

/-- Print values by a format: what has been printed, and why no more; `number` counts the
conversions. Numbers are made texts by the format `numbers`. -/
def formatValues (numbers : List Char) :
    Nat → Nat → List Char → List Value → List Char × Option FormatFault
  | 0, _, _, _ | _, _, [], _ => ([], none)
  | fuel + 1, number, '%' :: '%' :: rest, args =>
    let (text, fault) := formatValues numbers fuel number rest args
    ('%' :: text, fault)
  | fuel + 1, number, '%' :: rest, args =>
    let isSize (c : Char) : Bool := ['h', 'l', 'L', 'j', 't', 'z', 'q'].contains c
    match Conversion.read (fun v : Value => wholeOf v.toNumber) isSize rest args with
    | none => ([], some (.improper number))
    | some (c, rest, args) =>
      let isKnown : Bool := c.style?.isSome || "dicosuxX".toList.contains c.letter
      match isKnown, args with
      | false, _ => ([], some (.improper number))
      | true, [] => ([], some .tooFew)
      | true, v :: args =>
        let whole := wholeOf v.toNumber
        let here := match c.letter, c.style?, v with
          | _, some style, v => c.withPoint style (.ofFloat v.toNumber)
          | 's', _, v => c.string (v.toText numbers)
          | 'c', _, .text cs => c.pad [cs.headD '\x00']
          | 'c', _, _ => c.pad [Char.ofNat (Conversion.word whole % 256)]
          | 'd', _, _ | 'i', _, _ => c.signed whole
          | _, _, _ => c.unsigned (Conversion.word whole)
        let (text, fault) := formatValues numbers fuel (number + 1) rest args
        (here ++ text, fault)
  | fuel + 1, number, c :: rest, args =>
    let (text, fault) := formatValues numbers fuel number rest args
    (c :: text, fault)

/-! ### Parts of texts -/

/-- What stands between records or fields. -/
inductive Separator
  /-- Runs of blanks and line breaks, which count for nothing at either end. -/
  | blanks
  | char (c : Char)
  /-- Nothing: every character is a part. -/
  | nothing
  | regex (r : Regex)

/-- The separator that a text stands for, unless it is no regular expression. -/
def Separator.ofText? (cs : List Char) : Option Separator :=
  match cs with
  | [] => some .nothing
  | [' '] => some .blanks
  | [c] => some (.char c)
  | cs => (regex? cs).map .regex

/-- The parts of a text between matches. -/
def splitMatches (r : Regex) : Nat → Regex.Cursor → List (List Char)
  | 0, k => [k.rest]
  | fuel + 1, k =>
    match Regex.find? false r k with
    | none => [k.rest]
    | some m =>
      if m.text.isEmpty then [k.rest]
      else m.start.since k :: splitMatches r fuel { m.stop with groups := [] }

def Separator.split (s : Separator) (cs : List Char) : List (List Char) :=
  let isBlank (c : Char) : Bool := c == ' ' || c == '\t' || c == '\n'
  if cs.isEmpty then []
  else match s with
    | blanks => (Text.splitAt isBlank cs).filter (!·.isEmpty)
    | char c => Text.splitAt (· == c) cs
    | nothing => cs.map fun c => [c]
    | regex r => splitMatches r cs.length (Regex.startOf cs)

/-- The first record of a text and what follows it, if there is one. No separator stands for blank
lines. -/
def takeRecord (separator : List Char) (cs : List Char) : Option (List Char × List Char) :=
  match separator with
  | [c] =>
    if cs.isEmpty then none
    else
      let record := cs.takeWhile (· != c)
      some (record, cs.drop (record.length + 1))
  | [] =>
    let cs := cs.dropWhile (· == '\n')
    if cs.isEmpty then none
    else
      let lines := ((Text.lines cs).takeWhile (· != ['\n'])).flatten
      some (Text.chomp lines, (cs.drop lines.length).dropWhile (· == '\n'))
  | pattern =>
    if cs.isEmpty then none
    else
      let start := Regex.startOf cs
      match (regex? pattern).bind fun r => Regex.find? false r start with
      | some m =>
        if m.text.isEmpty then some (cs, []) else some (m.start.since start, m.stop.rest)
      | none => some (cs, [])

/-! ### Substitution -/

/-- What takes the place of a match: an ampersand stands for the match. -/
def replacement (found : List Char) : List Char → List Char
  | '\\' :: '&' :: rest => '&' :: replacement found rest
  | '\\' :: '\\' :: rest => '\\' :: replacement found rest
  | '&' :: rest => found ++ replacement found rest
  | c :: rest => c :: replacement found rest
  | [] => []

/-- Replace the first match from `k` on, or all of them: how many there were, and what follows `k`
then. Right behind a match no empty one counts. -/
def substitute (r : Regex) (new : List Char) (all : Bool) :
    Nat → Bool → Regex.Cursor → Nat × List Char
  | 0, _, k => (0, k.rest)
  | fuel + 1, behind, k =>
    let step (k : Regex.Cursor) : Nat × List Char :=
      match k.rest with
      | [] => (0, [])
      | c :: _ =>
        let (n, text) := substitute r new all fuel false { k.advance with groups := [] }
        (n, c :: text)
    match Regex.find? false r k with
    | none => (0, k.rest)
    | some m =>
      let before := m.start.since k
      if m.text.isEmpty && behind && before.isEmpty then step k
      else
        let here := before ++ replacement m.text new
        if !all then (1, here ++ m.stop.rest)
        else
          let (n, text) :=
            if m.text.isEmpty then step m.stop
            else substitute r new all fuel true { m.stop with groups := [] }
          (n + 1, here ++ text)

end LayeredSets.Tool.Awk
