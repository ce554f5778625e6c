import LayeredSets.Token.Basic

/-!
# Reading tokens

The tokens that are still to be read serve as the state of a parser. A parser that takes at least
one token returns what is left together with the proof that it is shorter, so that a grammar can be
followed by recursion on the tokens.
-/

namespace LayeredSets

namespace Tokens

def size (ts : Tokens) : Nat := ts.items.length

/-- Tokens that are left over from `ts` once some have been taken. -/
abbrev Rest (ts : Tokens) : Type := { rest : Tokens // rest.size < ts.size }

/-- Tokens that are left over from `ts`, which may be all. -/
abbrev Tail (ts : Tokens) : Type := { rest : Tokens // rest.size ≤ ts.size }

theorem shorter_trans {a b c : Tokens} (h₁ : b.size < a.size) (h₂ : c.size < b.size) :
    c.size < a.size :=
  Nat.lt_trans h₂ h₁

theorem shorter_of_le {a b c : Tokens} (h₁ : b.size < a.size) (h₂ : c.size ≤ b.size) :
    c.size < a.size :=
  Nat.lt_of_le_of_lt h₂ h₁

theorem le_of_shorter {a b c : Tokens} (h₁ : b.size < a.size) (h₂ : c.size ≤ b.size) :
    c.size ≤ a.size :=
  Nat.le_of_lt (shorter_of_le h₁ h₂)

def peek? (ts : Tokens) : Option Token := ts.items.head?.map (·.token)

/-- The position of the next token, or of the end. -/
def position (ts : Tokens) : Position := (ts.items.head?.map (·.position)).getD ts.stop

/-- The next token as it is shown in errors. -/
def found (ts : Tokens) : String := (ts.peek?.map Token.display).getD "end of input"

def unexpected (ts : Tokens) (wanted : String) : ParseError :=
  ⟨ts.position, s!"expected {wanted}, found {ts.found}"⟩

/-- The next token and the tokens after it. -/
def next? (ts : Tokens) : Option (Token × ts.Rest) :=
  match ts with
  | ⟨[], _⟩ => none
  | ⟨item :: items, stop⟩ => some (item.token, ⟨⟨items, stop⟩, Nat.lt_succ_self _⟩)

/-- Take the next token if `p` makes something of it. -/
def takeIf? {α : Type} (p : Token → Option α) (ts : Tokens) : Option (α × ts.Rest) := do
  let (token, rest) ← ts.next?
  let a ← p token
  return (a, rest)

/-- Take the next token, which `p` must make something of. -/
def take {α : Type} (p : Token → Option α) (wanted : String) (ts : Tokens) :
    Except ParseError (α × ts.Rest) :=
  match ts.takeIf? p with
  | some result => .ok result
  | none => .error (ts.unexpected wanted)

def eat? (token : Token) (ts : Tokens) : Option ts.Rest :=
  (ts.takeIf? fun t => if t = token then some () else none).map (·.2)

def expect (token : Token) (ts : Tokens) : Except ParseError ts.Rest :=
  match ts.eat? token with
  | some rest => .ok rest
  | none => .error (ts.unexpected token.display)

/-- Take any word that is not reserved. -/
def name (reserved : List String) (wanted : String) (ts : Tokens) :
    Except ParseError (String × ts.Rest) :=
  ts.take
    (fun
      | .word w => if reserved.contains w then none else some w
      | _ => none)
    wanted

def number? (ts : Tokens) : Option (UInt64 × ts.Rest) :=
  ts.takeIf? fun
    | .number n => some n
    | _ => none

def number (wanted : String) (ts : Tokens) : Except ParseError (UInt64 × ts.Rest) :=
  match ts.number? with
  | some result => .ok result
  | none => .error (ts.unexpected wanted)

/-- Take a bit width: a positive number below `2 ^ 32`. -/
def width (ts : Tokens) : Except ParseError (UInt32 × ts.Rest) := do
  let (bits, rest) ← ts.number "a bit width"
  if 0 < bits ∧ bits.toNat < UInt32.size then return (bits.toUInt32, rest)
  else .error ⟨ts.position, s!"invalid bit width {bits}"⟩

end Tokens
end LayeredSets
