import LayeredSets.Token.Cursor
import LayeredSets.Token.Lexer
import LayeredSets.Trace.Tree

/-!
# Parsing traces

    trace := [step] (BREAK [step])*
    step  := HANDLE "=" "declare" NAME WIDTH | HANDLE "=" definition
           | query ["->" ("true" | "false")] | "release" HANDLE

Any word can be a handle, except that a line that begins with the name of a query or with `release`
is no assignment.
-/

namespace LayeredSets.Trace

open Tokens (shorter_trans shorter_of_le le_of_shorter)

def handle (ts : Tokens) : Except ParseError (String × ts.Rest) := ts.name [] "a handle"

def handlePair (ts : Tokens) : Except ParseError (String × String × ts.Rest) := do
  let (a, ⟨ts₁, h₁⟩) ← handle ts
  let (b, ⟨ts₂, h₂⟩) ← handle ts₁
  return (a, b, ⟨ts₂, shorter_trans h₁ h₂⟩)

/-- As many numbers as there are. -/
def numbers (ts : Tokens) : List UInt64 × ts.Tail :=
  match ts.number? with
  | none => ([], ⟨ts, Nat.le_refl _⟩)
  | some (value, ⟨ts₁, h₁⟩) =>
    let (values, ⟨ts₂, h₂⟩) := numbers ts₁
    (value :: values, ⟨ts₂, le_of_shorter h₁ h₂⟩)
termination_by ts.size

/-- The answer recorded with a query, if there is one. -/
def expectation (ts : Tokens) : Except ParseError (Option Bool × ts.Tail) :=
  match ts.eat? .arrow with
  | none => return (none, ⟨ts, Nat.le_refl _⟩)
  | some ⟨ts₁, h₁⟩ => do
    let (answer, ⟨ts₂, h₂⟩) ← ts₁.take
      (fun
        | .word "true" => some true
        | .word "false" => some false
        | _ => none)
      "'true' or 'false'"
    return (some answer, ⟨ts₂, by omega⟩)

/-- A definition whose operation `word` has been read from `start`, leaving `ts`. -/
def definition (word : String) (start ts : Tokens) :
    Except ParseError (Definition × ts.Tail) := do
  match word with
  | "top" => return (.top, ⟨ts, Nat.le_refl _⟩)
  | "bottom" => return (.bottom, ⟨ts, Nat.le_refl _⟩)
  | "const" =>
    let (var, ⟨ts₁, h₁⟩) ← handle ts
    let (value, ⟨ts₂, h₂⟩) ← ts₁.number "a value"
    return (.const var value, ⟨ts₂, by omega⟩)
  | "single" =>
    let (values, rest) := numbers ts
    return (.single values, rest)
  | "compl" =>
    let (a, ⟨ts₁, h₁⟩) ← handle ts
    return (.compl a, ⟨ts₁, by omega⟩)
  | "eqvar" => pair .eqvar
  | "union" => pair .union
  | "inter" => pair .inter
  | "diff" => pair .diff
  | "exists" => pair .exists
  | other => .error ⟨start.position, s!"unknown trace operation '{other}'"⟩
where
  pair (make : String → String → Definition) : Except ParseError (Definition × ts.Tail) := do
    let (a, b, ⟨ts₁, h₁⟩) ← handlePair ts
    return (make a b, ⟨ts₁, by omega⟩)

/-- The declaration of `target`, after its keyword. -/
def declaration (target : String) (ts : Tokens) : Except ParseError (Op × ts.Rest) := do
  let (name, ⟨ts₁, h₁⟩) ← handle ts
  let (bits, ⟨ts₂, h₂⟩) ← ts₁.width
  return (.declare target name bits, ⟨ts₂, shorter_trans h₁ h₂⟩)

/-- What is assigned to `target`. -/
def assignment (target : String) (ts : Tokens) : Except ParseError (Op × ts.Rest) := do
  let (word, ⟨ts₁, h₁⟩) ← handle ts
  if word = "declare" then
    let (o, ⟨ts₂, h₂⟩) ← declaration target ts₁
    return (o, ⟨ts₂, shorter_trans h₁ h₂⟩)
  else
    let (d, ⟨ts₂, h₂⟩) ← definition word ts ts₁
    return (.define target d, ⟨ts₂, shorter_of_le h₁ h₂⟩)

/-- An operation whose first word has been read. -/
def opAfter (word : String) (ts : Tokens) : Except ParseError (Op × ts.Rest) := do
  match word with
  | "empty" =>
    let (a, ⟨ts₁, h₁⟩) ← handle ts
    let (expected, ⟨ts₂, h₂⟩) ← expectation ts₁
    return (.query (.empty a) expected, ⟨ts₂, shorter_of_le h₁ h₂⟩)
  | "equal" =>
    let (a, b, ⟨ts₁, h₁⟩) ← handlePair ts
    let (expected, ⟨ts₂, h₂⟩) ← expectation ts₁
    return (.query (.equal a b) expected, ⟨ts₂, shorter_of_le h₁ h₂⟩)
  | "subset" =>
    let (a, b, ⟨ts₁, h₁⟩) ← handlePair ts
    let (expected, ⟨ts₂, h₂⟩) ← expectation ts₁
    return (.query (.subset a b) expected, ⟨ts₂, shorter_of_le h₁ h₂⟩)
  | "release" =>
    let (a, rest) ← handle ts
    return (.release a, rest)
  | target =>
    let ⟨ts₁, h₁⟩ ← ts.expect (.symbol '=')
    let (o, ⟨ts₂, h₂⟩) ← assignment target ts₁
    return (o, ⟨ts₂, shorter_trans h₁ h₂⟩)

def op (ts : Tokens) : Except ParseError (Op × ts.Rest) := do
  let (word, ⟨ts₁, h₁⟩) ← handle ts
  let (o, ⟨ts₂, h₂⟩) ← opAfter word ts₁
  return (o, ⟨ts₂, shorter_trans h₁ h₂⟩)

/-- The end of a step's line. -/
def lineEnd (ts : Tokens) : Except ParseError ts.Tail :=
  if ts.items.isEmpty then return ⟨ts, Nat.le_refl _⟩
  else do
    let ⟨rest, h⟩ ← ts.expect .lineBreak
    return ⟨rest, Nat.le_of_lt h⟩

def steps (ts : Tokens) : Except ParseError Trace :=
  if ts.items.isEmpty then return []
  else
    match ts.eat? .lineBreak with
    | some ⟨rest, _h⟩ => steps rest
    | none => do
      let (o, ⟨ts₁, _h₁⟩) ← op ts
      let ⟨ts₂, _h₂⟩ ← lineEnd ts₁
      let others ← steps ts₂
      return ⟨ts.position.line, o⟩ :: others
termination_by ts.size

/-- Read a trace. -/
def parse (text : List Char) : Except ParseError Trace := do
  let ts ← tokenize text true
  steps ts

end LayeredSets.Trace
