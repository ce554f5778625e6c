import LayeredSets.Text.Escape
import LayeredSets.Text.Numeral

/-!
# Decimal notation of fractions

A quotient of natural numbers written with a given number of digits, after the point or in all, and
decimal notation read as a quotient. What does not fit is rounded, a half to the even neighbour.
-/

namespace LayeredSets.Text

/-- `num / den` as a whole number. A half goes to the even neighbour. -/
def roundDiv (num den : Nat) : Nat :=
  let (whole, left) := (num / den, num % den)
  if den < 2 * left || (2 * left = den && whole % 2 = 1) then whole + 1 else whole

/-- A number that is not negative. -/
structure Fraction where
  num : Nat
  den : Nat
  den_pos : 0 < den := by decide

namespace Fraction

def ofNat (n : Nat) : Fraction := { num := n, den := 1 }

def tenTo (n : Nat) : Nat := Nat.pow 10 n

theorem tenTo_pos (n : Nat) : 0 < tenTo n := Nat.pow_pos (by decide)

/-- The fraction times a power of ten. -/
def shift (q : Fraction) (exponent : Int) : Fraction :=
  if exponent < 0 then
    ⟨q.num, q.den * tenTo exponent.natAbs, Nat.mul_pos q.den_pos (tenTo_pos _)⟩
  else { q with num := q.num * tenTo exponent.natAbs }

/-- The fraction times a power of two. -/
def double (q : Fraction) (exponent : Int) : Fraction :=
  if exponent < 0 then
    ⟨q.num, q.den <<< exponent.natAbs, by
      rw [Nat.shiftLeft_eq]
      exact Nat.mul_pos q.den_pos (Nat.two_pow_pos _)⟩
  else { q with num := q.num <<< exponent.natAbs }

def round (q : Fraction) : Nat := roundDiv q.num q.den

/-- The fraction with no more than `bits` binary digits. -/
def toBits (bits : Nat) (q : Fraction) : Fraction :=
  if q.num = 0 then q
  else
    let exponent := (bits : Int) - (q.num.log2 - q.den.log2 : Int)
    let exponent := if (q.double exponent).round.log2 < bits then exponent else exponent - 1
    (ofNat (q.double exponent).round).double (-exponent)

/-- The exponent of the first digit. -/
def exponent (q : Fraction) : Int :=
  if q.num = 0 then 0
  else
    let length (n : Nat) : Int := (Nat.toDigits 10 n).length
    let guess := length q.num - length q.den
    let scaled := q.shift (-guess)
    if scaled.den ≤ scaled.num then guess else guess - 1

/-- The first `count` digits as a number, and the exponent of the first of them. -/
def leading (count : Nat) (q : Fraction) : Nat × Int :=
  let e := q.exponent
  let digits := (q.shift (count - 1 - e)).round
  if digits = tenTo count then (tenTo (count - 1), e + 1) else (digits, e)

end Fraction

/-- The digits of a number, at least `count` of them. -/
def digitsOf (count n : Nat) : List Char :=
  let digits := Nat.toDigits 10 n
  List.replicate (count - digits.length) '0' ++ digits

/-- The first of some digits with a point behind it, if others follow or if `pointed`. -/
def withPoint (pointed : Bool) (whole : Nat) (digits : List Char) : List Char :=
  digits.take whole ++
    if whole < digits.length || pointed then '.' :: digits.drop whole else []

/-- With `places` digits after the point. -/
def positional (pointed : Bool) (places : Nat) (q : Fraction) : List Char :=
  let digits := digitsOf (places + 1) (q.shift places).round
  withPoint pointed (digits.length - places) digits

/-- An exponent with its sign, in at least two digits. -/
def exponentText (mark : Char) (e : Int) : List Char :=
  mark :: (if e < 0 then '-' else '+') :: digitsOf 2 e.natAbs

/-- With one digit before the point and `places` after it, times a power of ten. -/
def scientific (mark : Char) (pointed : Bool) (places : Nat) (q : Fraction) : List Char :=
  let (digits, e) := q.leading (places + 1)
  withPoint pointed 1 (digitsOf (places + 1) digits) ++ exponentText mark e

/-- Without the zeros at the end of what follows the point. -/
def withoutZeros (cs : List Char) : List Char :=
  if cs.contains '.' then
    match (cs.reverse.dropWhile (· == '0')) with
    | '.' :: rest => rest.reverse
    | rest => rest.reverse
  else cs

/-- With `count` digits in all, in the shorter of both ways. Zeros at the end are left out unless
`pointed`. -/
def general (mark : Char) (pointed : Bool) (count : Nat) (q : Fraction) : List Char :=
  let count := max 1 count
  let (digits, e) := q.leading count
  let trim (cs : List Char) : List Char := if pointed then cs else withoutZeros cs
  if e < -4 || (count : Int) ≤ e then
    trim (withPoint pointed 1 (digitsOf count digits)) ++ exponentText mark e
  else trim (positional pointed (count - 1 - e).toNat q)

/-- How large a number is, whatever its sign. -/
inductive Magnitude
  | finite (q : Fraction)
  | infinite
  /-- The result of an operation that has none. -/
  | undefined

/-- A number with its sign. -/
structure Signed where
  negative : Bool
  magnitude : Magnitude

/-- A float as a number with its sign. -/
def Signed.ofFloat (x : Float) : Signed :=
  let bits := x.toBits.toNat
  let exponent := (bits >>> 52) % 2048
  let field := bits % (1 <<< 52)
  let negative : Bool := bits >>> 63 = 1
  if x.isNaN then ⟨true, .undefined⟩
  else if exponent = 2047 then ⟨negative, .infinite⟩
  else
    let mantissa := if exponent = 0 then field else field + (1 <<< 52)
    let q := (Fraction.ofNat mantissa).double ((max exponent 1 : Nat) - (1075 : Int))
    ⟨negative, .finite q⟩

/-- The ways of writing a number with a point. -/
inductive Style
  | positional
  | scientific
  | general
  deriving DecidableEq, Repr

/-- A magnitude with a number of digits that is the number of places or, in the general style, that
of all digits. In capitals if `upper`. -/
def Magnitude.text (n : Style) (upper pointed : Bool) (digits : Nat) (m : Magnitude) :
    List Char :=
  let mark := if upper then 'E' else 'e'
  let cased (name : String) : List Char := (if upper then name.toUpper else name).toList
  match m, n with
  | .infinite, _ => cased "inf"
  | .undefined, _ => cased "nan"
  | .finite q, .positional => positional pointed digits q
  | .finite q, .scientific => scientific mark pointed digits q
  | .finite q, .general => general mark pointed digits q

/-! ### Reading -/

/-- A number without its sign, as it is written: digits and the power of ten that multiplies them,
or a word. -/
inductive Numeral
  | decimal (digits : Nat) (exponent : Int)
  | infinite
  | undefined

namespace Numeral

/-- No number has an exponent beyond this one. -/
def exponentLimit : Int := 5000

/-- The magnitude with no more than `bits` binary digits. -/
def magnitude (bits : Nat) : Numeral → Magnitude
  | infinite => .infinite
  | undefined => .undefined
  | decimal digits e => .finite (((Fraction.ofNat digits).shift e).toBits bits)

def toFloat : Numeral → Float
  | infinite => 1.0 / 0.0
  | undefined => 0.0 / 0.0
  | decimal digits e => Float.ofScientific digits (e < 0) e.natAbs

end Numeral

/-- A sign in front of a text, and the text without it. -/
def takeSign : List Char → Bool × List Char
  | '-' :: rest => (true, rest)
  | '+' :: rest => (false, rest)
  | cs => (false, cs)

/-- The exponent in front of a text, and what follows it. -/
def takeExponent (cs : List Char) : Int × List Char :=
  match cs with
  | [] => (0, [])
  | e :: after =>
    let (negative, after) := takeSign after
    let digits := after.takeWhile Char.isDigit
    match if e == 'e' || e == 'E' then decimal? digits else none with
    | some n => (if negative then -(n : Int) else n, after.drop digits.length)
    | none => (0, cs)

/-- The numeral in front of a text, and what follows it. There must be a digit before or after the
point. -/
def takeNumeral? (cs : List Char) : Option (Numeral × List Char) :=
  let whole := cs.takeWhile Char.isDigit
  let rest := cs.drop whole.length
  let (part, rest) := match rest with
    | '.' :: after => (after.takeWhile Char.isDigit, after.dropWhile Char.isDigit)
    | _ => ([], rest)
  (decimal? (whole ++ part)).map fun digits =>
    let (e, rest) := takeExponent rest
    let e := e - part.length
    if Numeral.exponentLimit < e && digits ≠ 0 then (.infinite, rest)
    else if e < -Numeral.exponentLimit - part.length then (.decimal 0 0, rest)
    else (.decimal digits e, rest)

/-- The number in front of a text, which blanks and a sign may precede: is it negative, its numeral,
and what follows it. It may also be hexadecimal, or one of the words for what is no number. -/
def readNumeral (cs : List Char) : Option (Bool × Numeral × List Char) :=
  let isBlank (c : Char) : Bool := c == ' ' || '	' ≤ c && c ≤ '
'
  let (negative, cs) := takeSign (cs.dropWhile isBlank)
  let words := [("infinity", Numeral.infinite), ("inf", .infinite), ("nan", .undefined)]
  match words.find? fun (word, _) => word.toList.isPrefixOf (cs.map Char.toLower), cs with
  | some (word, n), _ => some (negative, n, cs.drop word.length)
  | none, '0' :: x :: digits =>
    let hexadecimal :=
      if x == 'x' || x == 'X' then digits.takeWhile fun c => (hexValue? c).isSome else []
    if hexadecimal.isEmpty then (takeNumeral? cs).map (negative, ·)
    else some (negative, .decimal (hexNumber 0 hexadecimal) 0, digits.drop hexadecimal.length)
  | none, cs => (takeNumeral? cs).map (negative, ·)

end LayeredSets.Text
