/-!
# Numerals

Decimal digits and the numbers they spell. `decimal?` reads a run of digits as a natural number,
`unsigned?` reads a bounded number with an optional plus sign, and `hexPair` writes one byte.
-/

namespace LayeredSets.Text

/-- The number spelled by a list of decimal digits, continuing from `acc`. -/
def decimalFrom (acc : Nat) : List Char → Nat
  | [] => acc
  | c :: rest => decimalFrom (10 * acc + (c.toNat - '0'.toNat)) rest

/-- The number spelled by `cs`, which must be one or more decimal digits. -/
def decimal? (cs : List Char) : Option Nat :=
  if cs.isEmpty || cs.any (!·.isDigit) then none else some (decimalFrom 0 cs)

/-- A number below `limit`, in decimal digits that a plus sign may precede. -/
def unsigned? (limit : Nat) (text : String) : Option Nat :=
  let digits := match text.toList with
    | '+' :: rest => rest
    | cs => cs
  (decimal? digits).filter (· < limit)

def hexDigit (n : Nat) : Char := ((Nat.toDigits 16 n)[0]?).getD '0'

/-- Two lower case hexadecimal digits. -/
def hexPair (byte : UInt8) : String :=
  String.ofList [hexDigit (byte.toNat / 16), hexDigit (byte.toNat % 16)]

/-- `text` after as many blanks as bring it to `width` characters. -/
def padStart (width : Nat) (text : String) : String :=
  String.ofList (List.replicate (width - text.length) ' ') ++ text

/-- `text` before as many blanks as bring it to `width` characters. -/
def padEnd (width : Nat) (text : String) : String :=
  text ++ String.ofList (List.replicate (width - text.length) ' ')

end LayeredSets.Text
