/-!
# Tokens

The words of both input formats, and the positions at which they stand. Lines and columns count
from one, columns in characters.
-/

namespace LayeredSets

structure Position where
  line : Nat
  column : Nat
  deriving DecidableEq, Repr

namespace Position

def start : Position := ⟨1, 1⟩

/-- The position after a character. -/
def next (p : Position) (c : Char) : Position :=
  if c = '\n' then ⟨p.line + 1, 1⟩ else ⟨p.line, p.column + 1⟩

/-- The position after some characters. -/
def after (p : Position) (cs : List Char) : Position := cs.foldl next p

@[simp] theorem after_nil (p : Position) : p.after [] = p := rfl

@[simp] theorem after_append (p : Position) (cs ds : List Char) :
    p.after (cs ++ ds) = (p.after cs).after ds := List.foldl_append

end Position

/-- What is wrong with an input, and where. -/
structure ParseError where
  position : Position
  detail : String
  deriving DecidableEq, Repr

def ParseError.message (e : ParseError) : String :=
  s!"({e.position.line}:{e.position.column}) Parse error: {e.detail}"

inductive Token
  | word (name : String)
  | number (value : UInt64)
  /-- One character of punctuation. -/
  | symbol (c : Char)
  | equals
  | arrow
  /-- One or more line breaks, where they matter. -/
  | lineBreak
  deriving DecidableEq, Repr

/-- How a token is shown in errors. -/
def Token.display : Token → String
  | word name => s!"'{name}'"
  | number value => s!"'{value}'"
  | symbol c => "'" ++ c.toString ++ "'"
  | equals => "'=='"
  | arrow => "'->'"
  | lineBreak => "end of line"

structure Located where
  token : Token
  position : Position
  deriving DecidableEq, Repr

/-- The tokens of a text, and the position at its end. -/
structure Tokens where
  items : List Located
  stop : Position
  deriving DecidableEq, Repr

end LayeredSets
