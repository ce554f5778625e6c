/-!
# Blank characters

`Char.isBlank` is the Unicode property `White_Space`. On top of it stand the two ways blanks are
used here: `trim` drops them at both ends of a text and `words` splits a text at them.
-/

namespace LayeredSets.Text

/-- The code points with the property `White_Space`, as inclusive ranges. -/
def blankRanges : List (Nat × Nat) :=
  [(0x09, 0x0D), (0x20, 0x20), (0x85, 0x85), (0xA0, 0xA0), (0x1680, 0x1680), (0x2000, 0x200A),
   (0x2028, 0x2029), (0x202F, 0x202F), (0x205F, 0x205F), (0x3000, 0x3000)]

def isBlank (c : Char) : Bool :=
  blankRanges.any fun (low, high) => low ≤ c.toNat && c.toNat ≤ high

def trimStart (cs : List Char) : List Char := cs.dropWhile isBlank

def trimEnd (cs : List Char) : List Char := (cs.reverse.dropWhile isBlank).reverse

def trim (text : String) : String := String.ofList (trimEnd (trimStart text.toList))

/-- Cut a list at every element that satisfies `p`; the cuts themselves are dropped, so there is
always one piece more than there are cuts. -/
def splitAt (p : α → Bool) : List α → List (List α)
  | [] => [[]]
  | a :: rest =>
    if p a then [] :: splitAt p rest
    else match splitAt p rest with
      | [] => [[a]]
      | piece :: pieces => (a :: piece) :: pieces

/-- The maximal runs of characters that are not blank. -/
def words (text : String) : List String :=
  ((splitAt isBlank text.toList).filter (!·.isEmpty)).map String.ofList

/-- The pieces of `text` between its line breaks. -/
def pieces (text : String) (cut : Char) : List String :=
  (splitAt (· == cut) text.toList).map String.ofList

theorem isBlank_of_isWhitespace {c : Char} (h : c.isWhitespace) : isBlank c := by
  simp only [Char.isWhitespace, Bool.or_eq_true, decide_eq_true_eq] at h
  rcases h with ((rfl | rfl) | rfl) | rfl <;> decide

@[simp] theorem splitAt_ne_nil (p : α → Bool) (l : List α) : splitAt p l ≠ [] := by
  cases l with
  | nil => simp [splitAt]
  | cons a rest =>
    rw [splitAt]
    split
    · simp
    · split <;> simp

end LayeredSets.Text
