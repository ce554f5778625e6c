import LayeredSets.Script.Tree
import LayeredSets.Token.Cursor
import LayeredSets.Token.Lexer

/-!
# Parsing scripts

    program   := statement*
    statement := "var" NAME ":" WIDTH ";" | "let" NAME "=" expr ";"
               | ("print" | "assert") query ";"
    query     := "empty" "(" expr ")" | ("equal" | "subset") "(" expr "," expr ")"
    expr      := term (("|" | "-") term)*
    term      := unary ("&" unary)*
    unary     := "!" unary | atom
    atom      := "(" expr ")" | "top" | "bottom" | "{" [NUMBER ("," NUMBER)*] "}"
               | "exists" NAME "." unary | NAME ["==" (NUMBER | NAME)]

There is one function for each rule. The next token always decides which alternative can still
succeed, so nothing is ever taken back and an error stands at the first token that does not fit.
-/

namespace LayeredSets

namespace Script

def name (wanted : String) (ts : Tokens) : Except ParseError (String × ts.Rest) :=
  ts.name keywords wanted

/-- The values of a point after the first, up to its end. -/
def moreValues (ts : Tokens) : Except ParseError (List UInt64 × ts.Tail) :=
  match ts.eat? (.symbol ',') with
  | none => return ([], ⟨ts, Nat.le_refl _⟩)
  | some ⟨ts₁, h₁⟩ => do
    let (value, ⟨ts₂, h₂⟩) ← ts₁.number "a value"
    let (values, ⟨ts₃, h₃⟩) ← moreValues ts₂
    return (value :: values, ⟨ts₃, by omega⟩)
termination_by ts.size

/-- The values of a point, after its opening brace. -/
def values (ts : Tokens) : Except ParseError (List UInt64 × ts.Rest) :=
  match ts.eat? (.symbol '}') with
  | some rest => return ([], rest)
  | none => do
    let (value, ⟨ts₁, h₁⟩) ← ts.number "a value"
    let (values, ⟨ts₂, h₂⟩) ← moreValues ts₁
    let ⟨ts₃, h₃⟩ ← ts₂.expect (.symbol '}')
    return (value :: values, ⟨ts₃, by omega⟩)

/-- An expression that begins with a name. -/
def named (ts : Tokens) : Except ParseError (Expr × ts.Rest) := do
  let (left, ⟨ts₁, h₁⟩) ← name "a set expression" ts
  match ts₁.eat? .equals with
  | none => return (.name left, ⟨ts₁, h₁⟩)
  | some ⟨ts₂, h₂⟩ =>
    match ts₂.number? with
    | some (value, ⟨ts₃, h₃⟩) => return (.equalsValue left value, ⟨ts₃, by omega⟩)
    | none =>
      let (right, ⟨ts₃, h₃⟩) ← name "a value or variable name" ts₂
      return (.equalsVar left right, ⟨ts₃, by omega⟩)

mutual

def expr (ts : Tokens) : Except ParseError (Expr × ts.Rest) := do
  let (left, ⟨ts₁, h₁⟩) ← term ts
  let (e, ⟨ts₂, h₂⟩) ← moreTerms left ts₁
  return (e, ⟨ts₂, by omega⟩)
termination_by (ts.size, 4)

/-- The rest of an expression that has begun with `left`. -/
def moreTerms (left : Expr) (ts : Tokens) : Except ParseError (Expr × ts.Tail) :=
  match ts.eat? (.symbol '|') with
  | some ⟨ts₁, h₁⟩ => do
    let (right, ⟨ts₂, h₂⟩) ← term ts₁
    let (e, ⟨ts₃, h₃⟩) ← moreTerms (.union left right) ts₂
    return (e, ⟨ts₃, by omega⟩)
  | none =>
    match ts.eat? (.symbol '-') with
    | some ⟨ts₁, h₁⟩ => do
      let (right, ⟨ts₂, h₂⟩) ← term ts₁
      let (e, ⟨ts₃, h₃⟩) ← moreTerms (.difference left right) ts₂
      return (e, ⟨ts₃, by omega⟩)
    | none => return (left, ⟨ts, Nat.le_refl _⟩)
termination_by (ts.size, 0)

def term (ts : Tokens) : Except ParseError (Expr × ts.Rest) := do
  let (left, ⟨ts₁, h₁⟩) ← unary ts
  let (e, ⟨ts₂, h₂⟩) ← moreUnaries left ts₁
  return (e, ⟨ts₂, by omega⟩)
termination_by (ts.size, 3)

/-- The rest of a term that has begun with `left`. -/
def moreUnaries (left : Expr) (ts : Tokens) : Except ParseError (Expr × ts.Tail) :=
  match ts.eat? (.symbol '&') with
  | some ⟨ts₁, h₁⟩ => do
    let (right, ⟨ts₂, h₂⟩) ← unary ts₁
    let (e, ⟨ts₃, h₃⟩) ← moreUnaries (.intersect left right) ts₂
    return (e, ⟨ts₃, by omega⟩)
  | none => return (left, ⟨ts, Nat.le_refl _⟩)
termination_by (ts.size, 0)

def unary (ts : Tokens) : Except ParseError (Expr × ts.Rest) :=
  match ts.eat? (.symbol '!') with
  | some ⟨ts₁, h₁⟩ => do
    let (e, ⟨ts₂, h₂⟩) ← unary ts₁
    return (.complement e, ⟨ts₂, by omega⟩)
  | none => atom ts
termination_by (ts.size, 2)

def atom (ts : Tokens) : Except ParseError (Expr × ts.Rest) :=
  match ts.next? with
  | some (.symbol '(', ⟨ts₁, h₁⟩) => do
    let (e, ⟨ts₂, h₂⟩) ← expr ts₁
    let ⟨ts₃, h₃⟩ ← ts₂.expect (.symbol ')')
    return (e, ⟨ts₃, by omega⟩)
  | some (.symbol '{', ⟨ts₁, h₁⟩) => do
    let (values, ⟨ts₂, h₂⟩) ← values ts₁
    return (.point values, ⟨ts₂, by omega⟩)
  | some (.word "top", rest) => return (.top, rest)
  | some (.word "bottom", rest) => return (.bottom, rest)
  | some (.word "exists", ⟨ts₁, h₁⟩) => do
    let (var, ⟨ts₂, h₂⟩) ← name "a variable name" ts₁
    let ⟨ts₃, h₃⟩ ← ts₂.expect (.symbol '.')
    let (body, ⟨ts₄, h₄⟩) ← unary ts₃
    return (.exists var body, ⟨ts₄, by omega⟩)
  | _ => named ts
termination_by (ts.size, 1)

end

/-- Two expressions in parentheses, with a comma between them. -/
def pair (ts : Tokens) : Except ParseError (Expr × Expr × ts.Rest) := do
  let ⟨ts₁, h₁⟩ ← ts.expect (.symbol '(')
  let (a, ⟨ts₂, h₂⟩) ← expr ts₁
  let ⟨ts₃, h₃⟩ ← ts₂.expect (.symbol ',')
  let (b, ⟨ts₄, h₄⟩) ← expr ts₃
  let ⟨ts₅, h₅⟩ ← ts₄.expect (.symbol ')')
  return (a, b, ⟨ts₅, by omega⟩)

def query (ts : Tokens) : Except ParseError (Query × ts.Rest) :=
  match ts.next? with
  | some (.word "empty", ⟨ts₁, h₁⟩) => do
    let ⟨ts₂, h₂⟩ ← ts₁.expect (.symbol '(')
    let (a, ⟨ts₃, h₃⟩) ← expr ts₂
    let ⟨ts₄, h₄⟩ ← ts₃.expect (.symbol ')')
    return (.empty a, ⟨ts₄, by omega⟩)
  | some (.word "equal", ⟨ts₁, h₁⟩) => do
    let (a, b, ⟨ts₂, h₂⟩) ← pair ts₁
    return (.equal a b, ⟨ts₂, by omega⟩)
  | some (.word "subset", ⟨ts₁, h₁⟩) => do
    let (a, b, ⟨ts₂, h₂⟩) ← pair ts₁
    return (.subset a b, ⟨ts₂, by omega⟩)
  | _ => .error (ts.unexpected "'empty', 'equal' or 'subset'")

/-- A statement without its semicolon. -/
def command (ts : Tokens) : Except ParseError (Command × ts.Rest) :=
  match ts.next? with
  | some (.word "var", ⟨ts₁, h₁⟩) => do
    let (var, ⟨ts₂, h₂⟩) ← name "a variable name" ts₁
    let ⟨ts₃, h₃⟩ ← ts₂.expect (.symbol ':')
    let (bits, ⟨ts₄, h₄⟩) ← ts₃.width
    return (.var var bits, ⟨ts₄, by omega⟩)
  | some (.word "let", ⟨ts₁, h₁⟩) => do
    let (set, ⟨ts₂, h₂⟩) ← name "a set name" ts₁
    let ⟨ts₃, h₃⟩ ← ts₂.expect (.symbol '=')
    let (e, ⟨ts₄, h₄⟩) ← expr ts₃
    return (.define set e, ⟨ts₄, by omega⟩)
  | some (.word "print", ⟨ts₁, h₁⟩) => do
    let (q, ⟨ts₂, h₂⟩) ← query ts₁
    return (.print q, ⟨ts₂, by omega⟩)
  | some (.word "assert", ⟨ts₁, h₁⟩) => do
    let (q, ⟨ts₂, h₂⟩) ← query ts₁
    return (.assert q, ⟨ts₂, by omega⟩)
  | _ => .error (ts.unexpected "a statement")

def statement (ts : Tokens) : Except ParseError (Statement × ts.Rest) := do
  let (c, ⟨ts₁, h₁⟩) ← command ts
  let ⟨ts₂, h₂⟩ ← ts₁.expect (.symbol ';')
  return (⟨ts.position.line, c⟩, ⟨ts₂, by omega⟩)

def statements (ts : Tokens) : Except ParseError Script :=
  if ts.items.isEmpty then return []
  else do
    let (first, ⟨rest, _h⟩) ← statement ts
    let others ← statements rest
    return first :: others
termination_by ts.size

/-- Read a script. -/
def parse (text : List Char) : Except ParseError Script := do
  let ts ← tokenize text false
  statements ts

end Script
end LayeredSets
