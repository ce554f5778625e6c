import LayeredSets.Shell.Tree
import LayeredSets.Text.Escape
import LayeredSets.Text.Numeral

/-!
# Arithmetic

Integer expressions with variables, on words of 64 bits with a sign. An expression is read into a
tree, which is then evaluated; assignments change the variables on the way. In the extended dialect
a variable can hold an expression, be an element of a list, and be stepped up or down.
-/

namespace LayeredSets.Shell

inductive Arithmetic
  | number (n : Int)
  | parameter (target : Target)
  | unary (op : String) (a : Arithmetic)
  | binary (op : String) (a b : Arithmetic)
  | choice (condition a b : Arithmetic)
  /-- Assign the value of `a`, combined with the old one by `op` if there is one. -/
  | assign (target : Target) (op : Option String) (a : Arithmetic)
  /-- Add to a variable; the value is the old one if `after`, and otherwise the new one. -/
  | step (target : Target) (change : Int) (after : Bool)
  deriving Repr

namespace Arithmetic

/-! ### Reading -/

/-- Why an expression has no value. -/
inductive Fault
  | noOperand
  | notClosed
  | noAlternative
  /-- There is more than an expression. -/
  | leftOver
  | badNumber (digits : List Char)
  | divisionByZero
  /-- A variable with a text that is no number. -/
  | illegalNumber (text : String)
  deriving DecidableEq, Repr

inductive Symbol
  | number (n : Int)
  | name (target : Target)
  | op (o : String)
  deriving DecidableEq, Repr

/-- A symbol, and the text that begins with it. -/
structure Lexeme where
  symbol : Symbol
  tail : List Char
  deriving DecidableEq, Repr

/-- Every operator, the longer ones first. -/
def operators (dialect : Dialect) : List String :=
  (if dialect = .extended then ["**", "++", "--", ","] else []) ++
  ["<<=", ">>=", "<<", ">>", "<=", ">=", "==", "!=", "&&", "||", "+=", "-=", "*=", "/=", "%=", "&=",
    "^=", "|=", "+", "-", "*", "/", "%", "<", ">", "=", "!", "~", "&", "^", "|", "?", ":", "(", ")"]

/-- A number: decimal, octal after a zero, hexadecimal after `0x`. -/
def number? (cs : List Char) : Option Int :=
  match cs with
  | '0' :: x :: digits =>
    if x == 'x' || x == 'X' then
      if digits.isEmpty || digits.any fun c => (Text.hexValue? c).isNone then none
      else some (Text.hexNumber 0 digits)
    else if (x :: digits).all Text.isOctal then some (Text.digitsIn 8 (x :: digits))
    else none
  | [] => none
  | cs => if cs.all Char.isDigit then some (Text.digitsIn 10 cs) else none

/-- The value of a digit in bases up to 62. -/
def digitValue? (base : Nat) (c : Char) : Option Nat :=
  let value? :=
    if c.isDigit then some (c.toNat - '0'.toNat)
    else if c.isLower then some (c.toNat - 'a'.toNat + 10)
    else if c.isUpper then some (c.toNat - 'A'.toNat + if base ≤ 36 then 10 else 36)
    else none
  value?.filter (· < base)

/-- A number that may name its base before its digits. -/
def basedNumber? (cs : List Char) : Option Int :=
  match cs.takeWhile (· != '#'), cs.dropWhile (· != '#') with
  | base, '#' :: digits => do
    let base ← Text.decimal? base
    if digits.isEmpty || base < 2 || 62 < base then none
    else
      let values ← digits.mapM (digitValue? base)
      return Int.ofNat (values.foldl (fun n d => n * base + d) 0)
  | _, _ => number? cs

def largest : Int := 9223372036854775807

/-- The value as a word of 64 bits with a sign. -/
def wrap (n : Int) : Int := Int.bmod n UInt64.size

/-- The lexemes of an expression. In the plain dialect, numbers that are too large count as the
largest one. -/
def lexemes (dialect : Dialect) : Nat → List Char → Except Fault (List Lexeme)
  | 0, cs => if cs.isEmpty then .ok [] else .error .leftOver
  | fuel + 1, cs =>
    match cs with
    | [] => .ok []
    | c :: rest => do
      let isDigit (c : Char) : Bool :=
        c.isAlphanum || dialect = .extended && (c == '#' || c == '_' || c == '@')
      if c == ' ' || c == '\t' || c == '\n' then lexemes dialect fuel rest
      else if c.isDigit then
        let digits := cs.takeWhile isDigit
        let n ← match dialect with
          | .plain => ((number? digits).map (min · largest)).elim (.error .leftOver) .ok
          | .extended => ((basedNumber? digits).map wrap).elim (.error (.badNumber digits)) .ok
        return ⟨.number n, cs⟩ :: (← lexemes dialect fuel (cs.dropWhile isDigit))
      else if isNameStart c then
        let name := cs.takeWhile isNameChar
        let after := cs.drop name.length
        let index := (after.drop 1).takeWhile (· != ']')
        if dialect = .extended && after.head? == some '[' then
          return ⟨.name ⟨String.ofList name, some index⟩, cs⟩ ::
            (← lexemes dialect fuel (after.drop (index.length + 2)))
        else return ⟨.name ⟨String.ofList name, none⟩, cs⟩ :: (← lexemes dialect fuel after)
      else
        let o := ((operators dialect).find? fun o => o.toList.isPrefixOf cs).getD c.toString
        return ⟨.op o, cs⟩ :: (← lexemes dialect fuel (cs.drop o.length))

/-- How tightly a binary operator binds, the loosest first. -/
def level (o : String) : Nat :=
  match o with
  | "||" => 1
  | "&&" => 2
  | "|" => 3
  | "^" => 4
  | "&" => 5
  | "==" | "!=" => 6
  | "<" | ">" | "<=" | ">=" => 7
  | "<<" | ">>" => 8
  | "+" | "-" => 9
  | "*" | "/" | "%" => 10
  | "**" => 11
  | _ => 0

/-- The operator that an assignment combines values by; `none` within if it just assigns. -/
def assignment? (o : String) : Option (Option String) :=
  if o == "=" then some none
  else if ["<<=", ">>=", "+=", "-=", "*=", "/=", "%=", "&=", "^=", "|="].contains o then
    some (some (String.ofList o.toList.dropLast))
  else none

/-- Readers of lexemes fail with a fault, and with the lexemes from which on nothing could be
read. -/
abbrev Reader : Type → Type := Except (Fault × List Lexeme)

mutual

/-- Expressions of which only the last one counts. -/
def sequence (dialect : Dialect) : Nat → List Lexeme → Reader (Arithmetic × List Lexeme)
  | 0, ls => throw (.noOperand, ls)
  | fuel + 1, ls => do
    let (a, rest) ← whole dialect fuel ls
    match dialect, rest with
    | .extended, ⟨.op ",", _⟩ :: rest =>
      let (b, rest) ← sequence dialect fuel rest
      return (binary "," a b, rest)
    | _, rest => return (a, rest)

/-- An assignment or a choice. -/
def whole (dialect : Dialect) : Nat → List Lexeme → Reader (Arithmetic × List Lexeme)
  | 0, ls => throw (.noOperand, ls)
  | fuel + 1, ls => do
    match ls with
    | ⟨.name target, _⟩ :: ⟨.op o, _⟩ :: rest =>
      match assignment? o with
      | some combined =>
        let (a, rest) ← whole dialect fuel rest
        return (assign target combined a, rest)
      | none => choiceOf dialect fuel ls
    | ls => choiceOf dialect fuel ls

def choiceOf (dialect : Dialect) : Nat → List Lexeme → Reader (Arithmetic × List Lexeme)
  | 0, ls => throw (.noOperand, ls)
  | fuel + 1, ls => do
    let (condition, rest) ← binaryOf dialect fuel 1 ls
    match rest with
    | ⟨.op "?", _⟩ :: rest =>
      let (a, rest) ← whole dialect fuel rest
      match rest with
      | ⟨.op ":", _⟩ :: rest =>
        let (b, rest) ← choiceOf dialect fuel rest
        return (choice condition a b, rest)
      | rest => throw (.noAlternative, rest)
    | rest => return (condition, rest)

/-- What is made with operators that bind at least as tightly as `least`. -/
def binaryOf (dialect : Dialect) : Nat → Nat → List Lexeme → Reader (Arithmetic × List Lexeme)
  | 0, _, ls => throw (.noOperand, ls)
  | fuel + 1, least, ls => do
    let (left, rest) ← unaryOf dialect fuel ls
    more dialect fuel least left rest

def more (dialect : Dialect) :
    Nat → Nat → Arithmetic → List Lexeme → Reader (Arithmetic × List Lexeme)
  | 0, _, _, ls => throw (.noOperand, ls)
  | fuel + 1, least, left, ls =>
    match ls with
    | ⟨.op o, _⟩ :: rest =>
      if level o = 0 || level o < least then return (left, ls)
      else do
        let (right, rest) ← binaryOf dialect fuel (if o == "**" then level o else level o + 1) rest
        more dialect fuel least (binary o left right) rest
    | ls => return (left, ls)

def unaryOf (dialect : Dialect) : Nat → List Lexeme → Reader (Arithmetic × List Lexeme)
  | 0, ls => throw (.noOperand, ls)
  | fuel + 1, ls => do
    match ls with
    | ⟨.number n, _⟩ :: rest => return (number n, rest)
    | ⟨.name target, _⟩ :: ⟨.op "++", _⟩ :: rest => return (step target 1 true, rest)
    | ⟨.name target, _⟩ :: ⟨.op "--", _⟩ :: rest => return (step target (-1) true, rest)
    | ⟨.name target, _⟩ :: rest => return (parameter target, rest)
    | ⟨.op "++", _⟩ :: ⟨.name target, _⟩ :: rest => return (step target 1 false, rest)
    | ⟨.op "--", _⟩ :: ⟨.name target, _⟩ :: rest => return (step target (-1) false, rest)
    | ⟨.op "(", _⟩ :: rest =>
      match ← sequence dialect fuel rest with
      | (a, ⟨.op ")", _⟩ :: rest) => return (a, rest)
      | (_, rest) => throw (.notClosed, rest)
    | ⟨.op o, _⟩ :: rest =>
      if ["!", "~", "+", "-"].contains o then
        let (a, rest) ← unaryOf dialect fuel rest
        return (unary o a, rest)
      else throw (.noOperand, ls)
    | [] => throw (.noOperand, [])

end

/-- A fault in an expression, and the text where it was found. -/
structure Failure where
  fault : Fault
  token : List Char
  deriving DecidableEq, Repr

/-- Read an expression. In the extended dialect, nothing at all counts as zero. -/
def parse (dialect : Dialect) (text : List Char) : Except Failure Arithmetic :=
  match lexemes dialect (text.length + 1) text with
  | .error fault => .error ⟨fault, []⟩
  | .ok ls =>
    let failure (fault : Fault) (rest : List Lexeme) : Failure :=
      ⟨fault, ((rest.head?.or ls.getLast?).map (·.tail)).getD []⟩
    if ls.isEmpty && dialect = .extended then .ok (number 0)
    else match sequence dialect (16 * ls.length + 16) ls with
      | .ok (a, []) => .ok a
      | .ok (_, rest) => .error (failure .leftOver rest)
      | .error (fault, rest) => .error (failure fault rest)

/-- How a fault in an expression is put in the plain dialect. -/
def plainMessage (text : List Char) : Fault → String
  | .illegalNumber n => s!"Illegal number: {n}"
  | fault =>
    let reason := match fault with
      | .noOperand => "expecting primary"
      | .notClosed => "expecting ')'"
      | .noAlternative => "expecting ':'"
      | .divisionByZero => "division by zero"
      | _ => "expecting EOF"
    s!"arithmetic expression: {reason}: \"{String.ofList text}\""

/-- How a fault in an expression is put in the extended dialect. -/
def extendedMessage (text : List Char) (f : Failure) : String :=
  let text := text.dropWhile (· == ' ')
  let about (shown token : List Char) (reason : String) : String :=
    s!"{String.ofList shown}: {reason} (error token is \"{String.ofList token}\")"
  let afterDivision :=
    ((text.reverse.takeWhile fun c => c != '/' && c != '%').reverse).dropWhile (· == ' ')
  match f.fault with
  | .noOperand => about text f.token "syntax error: operand expected"
  | .notClosed => about text f.token "missing \x60)'"
  | .noAlternative => about text f.token "\x60:' expected for conditional expression"
  | .divisionByZero => about text afterDivision "division by 0"
  | .badNumber digits => about digits digits "value too great for base"
  | .leftOver | .illegalNumber _ => about text f.token "syntax error in expression"

/-! ### Evaluation -/

def ofBool (b : Bool) : Int := if b then 1 else 0

/-- A bitwise operation on words. -/
def bits (f : UInt64 → UInt64 → UInt64) (a b : Int) : Int :=
  let word (n : Int) : UInt64 := UInt64.ofNat (n % UInt64.size).toNat
  wrap (f (word a) (word b)).toNat

/-- A power, with as many doublings of the exponent as it has digits in base two. -/
def power (a : Int) (n : Nat) : Int :=
  if n = 0 then 1
  else
    let half := power (wrap (a * a)) (n / 2)
    if n % 2 = 0 then half else wrap (a * half)

/-- The value of an operator; division by zero has none. -/
def valueOf? (o : String) (a b : Int) : Option Int :=
  match o with
  | "+" => some (wrap (a + b))
  | "-" => some (wrap (a - b))
  | "*" => some (wrap (a * b))
  | "/" => if b = 0 then none else some (wrap (a.tdiv b))
  | "%" => if b = 0 then none else some (wrap (a.tmod b))
  | "<" => some (ofBool (a < b))
  | ">" => some (ofBool (b < a))
  | "<=" => some (ofBool (a ≤ b))
  | ">=" => some (ofBool (b ≤ a))
  | "==" => some (ofBool (a = b))
  | "!=" => some (ofBool (a ≠ b))
  | "&" => some (bits (· &&& ·) a b)
  | "|" => some (bits (· ||| ·) a b)
  | "^" => some (bits (· ^^^ ·) a b)
  | "<<" => some (wrap (a * Int.ofNat (1 <<< (b % 64).toNat)))
  | ">>" => some (a >>> (b % 64).toNat)
  | "**" => some (power a b.toNat)
  | "," => some b
  | _ => some 0

/-- What an expression can find out about variables. -/
structure Scope where
  dialect : Dialect
  /-- The text of a variable, or of its element with a key. -/
  text : String → Option String → String
  /-- Does a variable have elements with any texts for keys? -/
  isKeyed : String → Bool

/-- The variables and elements that an expression has set, newest first. -/
abbrev Settings : Type := List ((String × Option String) × Int)

mutual

/-- The key of the element that is meant, if it is one. -/
def keyOf (scope : Scope) : Nat → Target → Settings → Except Failure (Option String × Settings)
  | 0, _, s => .ok (none, s)
  | fuel + 1, target, s => do
    match target.index with
    | none => return (none, s)
    | some index =>
      if scope.isKeyed target.name then return (some (String.ofList index), s)
      else
        let (n, s) ← eval scope fuel (← parse scope.dialect index) s
        return (some (toString n), s)

/-- The value of a variable that may have been set before. -/
def valueAt (scope : Scope) :
    Nat → String × Option String → Settings → Except Failure (Int × Settings)
  | 0, _, s => .ok (0, s)
  | fuel + 1, (name, key), s => do
    let text := scope.text name key
    let plainly (sign : Int) (digits : List Char) : Except Failure (Int × Settings) :=
      match number? digits with
      | some n => .ok (wrap (sign * n), s)
      | none => .error ⟨.illegalNumber text, []⟩
    match s.lookup (name, key), scope.dialect with
    | some n, _ => return (n, s)
    | none, .extended =>
      let (n, _) ← eval scope fuel (← parse .extended text.toList) s
      return (n, s)
    | none, .plain =>
      match text.toList.filter (· != ' ') with
      | [] => return (0, s)
      | '-' :: digits => plainly (-1) digits
      | digits => plainly 1 digits

/-- The value of an expression. -/
def eval (scope : Scope) : Nat → Arithmetic → Settings → Except Failure (Int × Settings)
  | 0, _, s => .ok (0, s)
  | fuel + 1, a, s => do
    let apply (o : String) (n m : Int) : Except Failure Int :=
      (valueOf? o n m).elim (.error ⟨.divisionByZero, []⟩) .ok
    match a with
    | number n => return (wrap n, s)
    | parameter target =>
      let (key, s) ← keyOf scope fuel target s
      valueAt scope fuel (target.name, key) s
    | unary o a =>
      let (n, s) ← eval scope fuel a s
      let n := match o with
        | "!" => ofBool (n = 0)
        | "~" => -n - 1
        | "-" => wrap (-n)
        | _ => n
      return (n, s)
    | binary "&&" a b =>
      let (n, s) ← eval scope fuel a s
      if n = 0 then return (0, s)
      let (m, s) ← eval scope fuel b s
      return (ofBool (m ≠ 0), s)
    | binary "||" a b =>
      let (n, s) ← eval scope fuel a s
      if n ≠ 0 then return (1, s)
      let (m, s) ← eval scope fuel b s
      return (ofBool (m ≠ 0), s)
    | binary o a b =>
      let (n, s) ← eval scope fuel a s
      let (m, s) ← eval scope fuel b s
      return (← apply o n m, s)
    | choice c a b =>
      let (n, s) ← eval scope fuel c s
      if n ≠ 0 then eval scope fuel a s else eval scope fuel b s
    | assign target o a =>
      let (n, s) ← eval scope fuel a s
      let (key, s) ← keyOf scope fuel target s
      match o with
      | none => return (n, ((target.name, key), n) :: s)
      | some o =>
        let (old, s) ← valueAt scope fuel (target.name, key) s
        let n ← apply o old n
        return (n, ((target.name, key), n) :: s)
    | step target change after =>
      let (key, s) ← keyOf scope fuel target s
      let (old, s) ← valueAt scope fuel (target.name, key) s
      let new := wrap (old + change)
      return (if after then old else new, ((target.name, key), new) :: s)

end

/-- How deep expressions may stand in each other. -/
def depth : Nat := 10000

/-- The value of an expression, and the variables it sets. -/
def value (scope : Scope) (text : List Char) : Except Failure (Int × Settings) := do
  eval scope depth (← parse scope.dialect text) []

end Arithmetic
end LayeredSets.Shell
