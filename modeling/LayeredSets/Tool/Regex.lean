import LayeredSets.Text.CharClass

/-!
# Regular expressions

Regular expressions as line tools use them, in the basic and in the extended notation. A match is
the leftmost one, and the longest of those; groups remember what they matched.
-/

namespace LayeredSets

inductive Regex
  | nothing
  | char (c : Char)
  | any
  | oneOf (members : CharClass)
  | lineStart
  | lineEnd
  | wordStart
  | wordEnd
  | wordEdge
  | group (index : Nat) (body : Regex)
  /-- The text of an earlier group once more. -/
  | again (index : Nat)
  | seq (first second : Regex)
  | or (first second : Regex)
  | repeated (body : Regex) (least : Nat) (most : Option Nat)
  deriving DecidableEq, Repr

namespace Regex

/-- A place in a text: what stands before it, nearest first, what follows, and the groups matched
so far. -/
structure Cursor where
  before : List Char
  rest : List Char
  groups : List (Nat × List Char)

namespace Cursor

def isWordChar (c : Char) : Bool := c.isAlphanum || c == '_'

def advance (k : Cursor) : Cursor :=
  match k.rest with
  | [] => k
  | c :: rest => { k with before := c :: k.before, rest }

def wordBefore (k : Cursor) : Bool := k.before.head?.any isWordChar

def wordAfter (k : Cursor) : Bool := k.rest.head?.any isWordChar

/-- The text between two places. -/
def since (k start : Cursor) : List Char :=
  (k.before.take (k.before.length - start.before.length)).reverse

/-- Keep the first of the places that are the same. -/
def distinct (ks : List Cursor) : List Cursor :=
  ks.foldr (fun k others => k :: others.filter (·.before.length != k.before.length)) []

end Cursor

def same (ignoreCase : Bool) (c d : Char) : Bool :=
  c == d || ignoreCase && c.toLower == d.toLower

/-- The test of an expression that matches single characters. -/
def single? (ignoreCase : Bool) : Regex → Option (Char → Bool)
  | char c => some (same ignoreCase c)
  | any => some fun _ => true
  | oneOf members => some fun c =>
    members.contains c || ignoreCase && (members.contains c.toLower || members.contains c.toUpper)
  | _ => none

/-- The places after one character that passes a test. -/
def stepIf (p : Char → Bool) (k : Cursor) : List Cursor :=
  match k.rest with
  | c :: _ => if p c then [k.advance] else []
  | [] => []

/-- The places after repeated steps, those after more steps first. -/
def repeats (step : Cursor → List Cursor) : Nat → Nat → Option Nat → Cursor → List Cursor
  | 0, least, _, k => if least = 0 then [k] else []
  | fuel + 1, least, most, k =>
    let stop := if least = 0 then [k] else []
    if most = some 0 then stop
    else
      let more := (step k).flatMap fun k' =>
        if k'.before.length = k.before.length && least = 0 then []
        else repeats step fuel (least - 1) (most.map (· - 1)) k'
      Cursor.distinct (more ++ stop)

/-- The places after as many characters as pass a test, from the last of them on. -/
def run (p : Char → Bool) : Nat → Nat → Cursor → List Cursor
  | 0, least, k => if least = 0 then [k] else []
  | bound + 1, least, k =>
    let stop := if least = 0 then [k] else []
    match k.rest with
    | c :: _ => if p c then run p bound (least - 1) k.advance ++ stop else stop
    | [] => stop

/-- All places where a match that begins at `k` can end. -/
def ends (ignoreCase : Bool) : Regex → Cursor → List Cursor
  | nothing, k => [k]
  | char c, k => stepIf (same ignoreCase c) k
  | any, k => stepIf (fun _ => true) k
  | oneOf members, k => stepIf (((single? ignoreCase (oneOf members)).getD fun _ => false) ·) k
  | lineStart, k => if k.before.isEmpty then [k] else []
  | lineEnd, k => if k.rest.isEmpty then [k] else []
  | wordStart, k => if !k.wordBefore && k.wordAfter then [k] else []
  | wordEnd, k => if k.wordBefore && !k.wordAfter then [k] else []
  | wordEdge, k => if k.wordBefore != k.wordAfter then [k] else []
  | group index body, k =>
    (ends ignoreCase body k).map fun k' =>
      { k' with groups := (index, k'.since k) :: k'.groups.filter (·.1 != index) }
  | again index, k =>
    let text := (k.groups.lookup index).getD []
    if text.isPrefixOf k.rest then [text.foldl (fun k _ => k.advance) k] else []
  | seq first second, k =>
    Cursor.distinct ((ends ignoreCase first k).flatMap (ends ignoreCase second))
  | or first second, k => Cursor.distinct (ends ignoreCase first k ++ ends ignoreCase second k)
  | repeated body least most, k =>
    match single? ignoreCase body with
    | some p => run p (most.getD k.rest.length) least k
    | none => repeats (ends ignoreCase body) (k.rest.length + least + 1) least most k

/-- The longest match that begins at `k`. -/
def matchAt? (ignoreCase : Bool) (r : Regex) (k : Cursor) : Option Cursor :=
  (ends ignoreCase r k).foldl
    (fun best k => match best with
      | some b => if b.before.length < k.before.length then some k else some b
      | none => some k)
    none

/-- A match in a text: where it begins and where it ends. -/
structure Match where
  start : Cursor
  stop : Cursor

def Match.text (m : Match) : List Char := m.stop.since m.start

/-- The leftmost match at `k` or after it. -/
def find? (ignoreCase : Bool) (r : Regex) (k : Cursor) : Option Match :=
  (List.range (k.rest.length + 1)).foldl
    (fun (found : Option Match × Cursor) _ =>
      match found with
      | (some m, k) => (some m, k)
      | (none, k) => ((matchAt? ignoreCase r k).map (⟨k, ·⟩), k.advance))
    (none, k) |>.1

def startOf (text : List Char) : Cursor := ⟨[], text, []⟩

def isIn (ignoreCase : Bool) (r : Regex) (text : List Char) : Bool :=
  (find? ignoreCase r (startOf text)).isSome

/-! ### Notation -/

/-- The two notations. In the extended one the operators stand bare, in the basic one some of them
follow a backslash. -/
inductive Notation
  | basic
  | extended
  deriving DecidableEq, Repr

inductive Symbol
  | literal (c : Char)
  | atom (r : Regex)
  | opening
  | closing
  | bar
  | star
  | plus
  | question
  /-- Bounds of a repetition. -/
  | bounds (least : Nat) (most : Option Nat)
  | caret
  | dollar
  deriving DecidableEq, Repr

def wordClass (negated : Bool) : Regex :=
  oneOf ⟨negated, [('0', '9'), ('A', 'Z'), ('_', '_'), ('a', 'z')]⟩

def spaceClass (negated : Bool) : Regex := oneOf ⟨negated, [('\t', '\r'), (' ', ' ')]⟩

/-- The bounds up to a closing brace. -/
def bounds? (mode : Notation) (cs : List Char) : Option (Symbol × List Char) :=
  let body := cs.takeWhile fun c => c.isDigit || c == ','
  let rest := cs.dropWhile fun c => c.isDigit || c == ','
  let number (cs : List Char) : Nat := cs.foldl (fun n c => n * 10 + (c.toNat - '0'.toNat)) 0
  let least := body.takeWhile (· != ',')
  let most := match body.dropWhile (· != ',') with
    | [] => some (number least)
    | [_] => none
    | _ :: most => some (number most)
  let closed := match mode, rest with
    | .extended, '\x7d' :: rest => some rest
    | .basic, '\\' :: '\x7d' :: rest => some rest
    | _, _ => none
  if body.isEmpty then none else closed.map (.bounds (number least) most, ·)

/-- What a backslash and the character after it stand for. -/
def escaped (mode : Notation) (c : Char) : Symbol :=
  let operator (s : Symbol) := if mode = .basic then s else .literal c
  match c with
  | '(' => operator .opening
  | ')' => operator .closing
  | '|' => operator .bar
  | '+' => operator .plus
  | '?' => operator .question
  | 'w' => .atom (wordClass false)
  | 'W' => .atom (wordClass true)
  | 's' => .atom (spaceClass false)
  | 'S' => .atom (spaceClass true)
  | 'b' => .atom wordEdge
  | '<' => .atom wordStart
  | '>' => .atom wordEnd
  | 'n' => .literal '\n'
  | 't' => .literal '\t'
  | c => if c.isDigit && c != '0' then .atom (again (c.toNat - '0'.toNat)) else .literal c

def bare (mode : Notation) (c : Char) : Symbol :=
  let operator (s : Symbol) := if mode = .extended then s else .literal c
  match c with
  | '(' => operator .opening
  | ')' => operator .closing
  | '|' => operator .bar
  | '+' => operator .plus
  | '?' => operator .question
  | '*' => .star
  | '.' => .atom any
  | '^' => .caret
  | '$' => .dollar
  | c => .literal c

/-- The symbols of an expression. -/
def symbols (mode : Notation) : Nat → List Char → Option (List Symbol)
  | _, [] => some []
  | 0, _ => none
  | fuel + 1, c :: rest =>
    let go (s : Symbol) (rest : List Char) := (symbols mode fuel rest).map (s :: ·)
    match c, rest with
    | '\\', [] => none
    | '\\', '\x7b' :: rest =>
      if mode = .basic then do
        let (s, rest) ← bounds? mode rest
        go s rest
      else go (.literal '\x7b') rest
    | '\\', d :: rest => go (escaped mode d) rest
    | '[', rest => do
      let (members, rest) ← CharClass.parse? ['^'] rest
      go (.atom (oneOf members)) rest
    | '\x7b', rest =>
      if mode = .extended then
        match bounds? mode rest with
        | some (s, rest) => go s rest
        | none => go (.literal c) rest
      else go (.literal c) rest
    | c, rest => go (bare mode c) rest

/-- Apply the repetitions that follow an expression. -/
def repetitions (r : Regex) : List Symbol → Regex × List Symbol
  | .star :: rest => repetitions (repeated r 0 none) rest
  | .plus :: rest => repetitions (repeated r 1 none) rest
  | .question :: rest => repetitions (repeated r 0 (some 1)) rest
  | .bounds least most :: rest => repetitions (repeated r least most) rest
  | rest => (r, rest)

/-- Is a dollar sign before these symbols an anchor? -/
def endsHere (mode : Notation) : List Symbol → Bool
  | [] | .closing :: _ | .bar :: _ => true
  | _ => mode = .extended

mutual

/-- Alternatives up to a closing parenthesis or the end; `index` is that of the next group. -/
def alternatives (mode : Notation) :
    Nat → Nat → List Symbol → Option (Regex × Nat × List Symbol)
  | 0, _, _ => none
  | fuel + 1, index, ss => do
    let (first, index, rest) ← sequence mode fuel index true ss
    match rest with
    | .bar :: rest =>
      let (second, index, rest) ← alternatives mode fuel index rest
      return (or first second, index, rest)
    | rest => return (first, index, rest)

/-- What stands between bars; `isFirst` says that nothing came before. -/
def sequence (mode : Notation) :
    Nat → Nat → Bool → List Symbol → Option (Regex × Nat × List Symbol)
  | 0, _, _, _ => none
  | fuel + 1, index, isFirst, ss =>
    let go (r : Regex) (index : Nat) (rest : List Symbol) := do
      let (r, rest) := repetitions r rest
      let (others, index, rest) ← sequence mode fuel index false rest
      return (seq r others, index, rest)
    match ss with
    | [] | .closing :: _ | .bar :: _ => some (nothing, index, ss)
    | .literal c :: rest => go (char c) index rest
    | .atom r :: rest => go r index rest
    | .opening :: rest => do
      let (body, after, rest) ← alternatives mode fuel (index + 1) rest
      match rest with
      | .closing :: rest => go (group index body) after rest
      | _ => none
    | .caret :: rest =>
      if isFirst || mode = .extended then do
        let (others, index, rest) ← sequence mode fuel index true rest
        return (seq lineStart others, index, rest)
      else go (char '^') index rest
    | .dollar :: rest =>
      if endsHere mode rest then go lineEnd index rest else go (char '$') index rest
    | .star :: rest => go (if isFirst then char '*' else nothing) index rest
    | .plus :: rest => go (char '+') index rest
    | .question :: rest => go (char '?') index rest
    | .bounds .. :: rest => go nothing index rest

end

/-- Read an expression. -/
def parse? (mode : Notation) (text : List Char) : Option Regex := do
  let ss ← symbols mode text.length text
  match ← alternatives mode (2 * ss.length + 2) 1 ss with
  | (r, _, []) => return r
  | _ => none

/-- How many groups an expression has. -/
def groupCount : Regex → Nat
  | group _ body => 1 + groupCount body
  | seq a b | or a b => groupCount a + groupCount b
  | repeated body _ _ => groupCount body
  | _ => 0

/-- Why an expression cannot be read. -/
def complaintOf (text : List Char) : String :=
  if text == ['['] then "Invalid regular expression"
  else if text.contains '[' && !text.contains ']' then "Unmatched [, [^, [:, [., or [="
  else if text.getLast? == some '\\' then "Trailing backslash"
  else if text.contains '(' then "Unmatched ( or \\("
  else if text.contains ')' then "Unmatched ) or \\)"
  else if text.contains '\x7b' then "Unmatched \\\x7b"
  else if text.contains '[' then "Invalid range end"
  else "Invalid regular expression"

/-- An expression that matches a text as it stands. -/
def ofText (text : List Char) : Regex := text.foldr (fun c r => seq (char c) r) nothing

end Regex
end LayeredSets
