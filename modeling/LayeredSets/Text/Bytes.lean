import LayeredSets.Text.Utf8

/-!
# Texts of bytes

Programs read and write bytes, whatever these encode. Here such data is a list of characters with
one character for each byte, so that it can be handled as text and nothing is lost.
-/

namespace LayeredSets.Text

/-- One character for each byte. -/
def ofBytes (bytes : List UInt8) : List Char := bytes.map fun b => Char.ofNat b.toNat

def toBytes (cs : List Char) : List UInt8 := cs.map fun c => UInt8.ofNat c.toNat

theorem toBytes_ofBytes (bytes : List UInt8) : toBytes (ofBytes bytes) = bytes := by
  have byte (b : UInt8) : UInt8.ofNat (Char.ofNat b.toNat).toNat = b := by
    have isValid : b.toNat.isValidChar := Or.inl (by have := b.toNat_lt; omega)
    have kept : (Char.ofNat b.toNat).toNat = b.toNat := by
      rw [Char.ofNat, dif_pos isValid]
      rfl
    rw [kept, UInt8.ofNat_toNat]
  simp [toBytes, ofBytes, Function.comp_def, byte]

/-- The bytes of a text, as characters. -/
def byteText (text : String) : List Char := ofBytes text.toUTF8.toList

/-- The text that characters for bytes encode, as far as it can be read. -/
def ofByteText (cs : List Char) : String := String.ofList (decodeLossy (toBytes cs))

/-- A text cut after every line break. Only the last line may lack one. -/
def lines : List Char → List (List Char)
  | [] => []
  | c :: rest =>
    if c == '\n' then ['\n'] :: lines rest
    else match lines rest with
      | [] => [[c]]
      | line :: more => (c :: line) :: more

/-- A line without its line break. -/
def chomp (line : List Char) : List Char :=
  match line.reverse with
  | '\n' :: rest => rest.reverse
  | _ => line

theorem flatten_lines (cs : List Char) : (lines cs).flatten = cs := by
  induction cs with
  | nil => rfl
  | cons c rest ih =>
    rw [lines]
    split
    · simp_all
    · split
      · rename_i h
        simp_all
      · rename_i h
        simp_all

/-- Does the first text come before the second, by the codes of their characters? -/
def precedes (a b : List Char) : Bool := a.lex b fun x y => x.toNat < y.toNat

/-- Characters written as a number in base 10 or below. -/
def digitsIn (base : Nat) (cs : List Char) : Nat :=
  cs.foldl (fun n c => n * base + (c.toNat - '0'.toNat)) 0

end LayeredSets.Text
