import LayeredSets.Text.Blank
import LayeredSets.Text.Numeral
import LayeredSets.Token.Basic

/-!
# From text to tokens

A text is first cut into pieces, each the longest that can be read at its place: blanks, line
breaks, comments, tokens, and what is none of these. The pieces spell the text. The tokens are then
the pieces that matter, each with the position that it starts at; the first piece that is no part
of the language is an error.
-/

namespace LayeredSets

inductive Piece
  | blank (c : Char)
  | lineBreak
  /-- A number sign and what follows it on its line. -/
  | comment (body : List Char)
  | word (name : List Char)
  | number (digits : List Char)
  | symbol (c : Char)
  | equals
  | arrow
  /-- A character that begins nothing. -/
  | stray (c : Char)
  deriving DecidableEq, Repr

namespace Piece

/-- The characters of a piece. -/
def spelling : Piece → List Char
  | blank c => [c]
  | lineBreak => ['\n']
  | comment body => '#' :: body
  | word name => name
  | number digits => digits
  | symbol c => [c]
  | equals => ['=', '=']
  | arrow => ['-', '>']
  | stray c => [c]

def symbols : List Char := [';', ':', '=', '|', '&', '-', '!', '(', ')', '{', '}', ',', '.']

def isWordStart (c : Char) : Bool := c.isAlpha || c == '_'

def isWordChar (c : Char) : Bool := c.isAlphanum || c == '_'

/-- The piece at the front of the text `c :: rest`, and the text after it. -/
def first (c : Char) (rest : List Char) : Piece × List Char :=
  if c = '\n' then (lineBreak, rest)
  else if Text.isBlank c then (blank c, rest)
  else if c = '#' then (comment (rest.takeWhile (· != '\n')), rest.dropWhile (· != '\n'))
  else if c.isDigit then (number (c :: rest.takeWhile Char.isDigit), rest.dropWhile Char.isDigit)
  else if isWordStart c then (word (c :: rest.takeWhile isWordChar), rest.dropWhile isWordChar)
  else if c = '=' ∧ rest.head? = some '=' then (equals, rest.tail)
  else if c = '-' ∧ rest.head? = some '>' then (arrow, rest.tail)
  else if symbols.contains c then (symbol c, rest)
  else (stray c, rest)

theorem eq_cons_tail {α : Type} {l : List α} {a : α} (h : l.head? = some a) : l = a :: l.tail := by
  cases l with
  | nil => simp at h
  | cons b l => simp_all

/-- Nothing is lost between a text and its first piece. -/
theorem spelling_first (c : Char) (rest : List Char) :
    (first c rest).1.spelling ++ (first c rest).2 = c :: rest := by
  unfold first
  repeat' split
  all_goals try simp_all [spelling]
  all_goals
    rename_i h
    exact (eq_cons_tail h.2).symm

theorem spelling_ne_nil (c : Char) (rest : List Char) : (first c rest).1.spelling ≠ [] := by
  unfold first
  repeat' split
  all_goals simp [spelling]

theorem length_first_le (c : Char) (rest : List Char) :
    (first c rest).2.length ≤ rest.length := by
  have h := congrArg List.length (spelling_first c rest)
  have hne : 0 < (first c rest).1.spelling.length := List.length_pos_iff.2 (spelling_ne_nil c rest)
  simp only [List.length_append, List.length_cons] at h
  omega

/-- All pieces of a text. -/
def split : List Char → List Piece
  | [] => []
  | c :: rest => (first c rest).1 :: split (first c rest).2
termination_by cs => cs.length
decreasing_by exact Nat.lt_succ_of_le (length_first_le c rest)

/-- The pieces spell the text. -/
theorem flatMap_spelling_split (cs : List Char) : (split cs).flatMap spelling = cs := by
  fun_induction split cs with
  | case1 => rfl
  | case2 c rest ih => rw [List.flatMap_cons, ih, spelling_first]

end Piece

/-- Put a token in front of the tokens of what follows. -/
def Tokens.cons (token : Token) (position : Position) (rest : Tokens) : Tokens :=
  { rest with items := ⟨token, position⟩ :: rest.items }

/-- The tokens of the pieces from `position` on. Line breaks become tokens if `keepBreaks`, and
then only the first of several; `muted` says that one would be dropped here. -/
def Tokens.ofPieces (keepBreaks : Bool) (muted : Bool) (position : Position) :
    List Piece → Except ParseError Tokens
  | [] => .ok ⟨[], position⟩
  | piece :: rest =>
    let after := position.after piece.spelling
    let token (t : Token) := (cons t position ·) <$> ofPieces keepBreaks false after rest
    match piece with
    | .blank _ | .comment _ => ofPieces keepBreaks muted after rest
    | .lineBreak =>
      if keepBreaks && !muted then
        (cons .lineBreak position ·) <$> ofPieces keepBreaks true after rest
      else ofPieces keepBreaks muted after rest
    | .word name => token (.word (String.ofList name))
    | .number digits =>
      let value := Text.decimalFrom 0 digits
      if value < UInt64.size then token (.number (UInt64.ofNat value))
      else .error ⟨position, s!"number {String.ofList digits} is too large"⟩
    | .symbol c => token (.symbol c)
    | .equals => token .equals
    | .arrow => token .arrow
    | .stray c => .error ⟨position, "unexpected character '" ++ c.toString ++ "'"⟩

/-- The tokens of a text, with or without its line breaks. Line breaks at the start are dropped. -/
def tokenize (text : List Char) (keepBreaks : Bool) : Except ParseError Tokens :=
  Tokens.ofPieces keepBreaks true .start (Piece.split text)

end LayeredSets
