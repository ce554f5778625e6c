import LayeredSets.Text.Decimal
import LayeredSets.Tool.Awk.Tree

/-!
# Lexemes of pattern programs

A program as a list of lexemes with the lines they stand on. A slash begins a regular expression
where no operand stands before it, and is an operator elsewhere.
-/

namespace LayeredSets.Tool.Awk

inductive Token
  | number (x : Float)
  | text (cs : List Char)
  | regex (cs : List Char)
  | word (name : String)
  /-- A name with an opening parenthesis right behind it. -/
  | call (name : String)
  | op (name : String)
  | lineEnd
  deriving BEq

structure Lexeme where
  token : Token
  line : Nat
  /-- How it is written. -/
  written : String

/-- Why a program cannot be read. -/
inductive Complaint
  | unexpected (line : Nat) (written : String)
  | missing (line : Nat) (wanted written : String)
  | strangeChar (line : Nat) (c : Char)
  | runaway (line : Nat) (kind : String) (text : List Char)
  | undefinedFunction (line : Nat) (name : String)
  | wrongCount (line : Nat) (name : String)
  /-- A statement that may not stand here. -/
  | improper (line : Nat) (name : String)
  | outside (line : Nat) (statement place : String)

def Complaint.message : Complaint → String
  | unexpected line written => s!"line {line}: syntax error at or near {written}"
  | missing line wanted written => s!"line {line}: missing {wanted} near {written}"
  | strangeChar line c => s!"{line}: unexpected character '{c}'"
  | runaway line kind text => s!"line {line}: runaway {kind} {String.ofList (text.take 11)} ..."
  | undefinedFunction line name => s!"line {line}: function {name} never defined"
  | wrongCount line name => s!"line {line}: wrong number of arguments in call to {name}"
  | improper line name => s!"line {line}: improper use of {name}"
  | outside line statement place => s!"line {line}: {statement} outside {place}"

/-- Operators, longer ones before those they begin with. -/
def operators : List String :=
  ["+=", "-=", "*=", "/=", "%=", "^=", "==", "<=", ">=", "!=", "!~", "&&", "||", "++", "--", ">>",
    "\x7b", "\x7d", "(", ")", "[", "]", ";", ",", "+", "-", "*", "/", "%", "^", "!", ">", "<", "|",
    "?", ":", "~", "$", "="]

def keywords : List String :=
  ["BEGIN", "END", "function", "if", "else", "while", "for", "do", "break", "continue",
    "next", "nextfile", "exit", "return", "delete", "in", "getline", "print", "printf"]

def builtin? (name : String) : Option Builtin :=
  [("length", Builtin.length), ("substr", .substr), ("index", .index), ("split", .split),
    ("sub", .sub), ("gsub", .gsub), ("match", .match_), ("sprintf", .sprintf), ("sin", .sin),
    ("cos", .cos), ("atan2", .atan2), ("exp", .exp), ("log", .log), ("sqrt", .sqrt),
    ("int", .int), ("rand", .rand), ("srand", .srand), ("tolower", .tolower),
    ("toupper", .toupper), ("system", .system), ("close", .close),
    ("fflush", .fflush)].lookup name

/-- Does this token end an operand, so that a slash behind it divides? -/
def Token.endsOperand : Token → Bool
  | number _ | text _ | regex _ => true
  | word name => !keywords.contains name
  | op name => [")", "]", "$", "++", "--"].contains name
  | call _ | lineEnd => false

def isNameStart (c : Char) : Bool := c.isAlpha || c == '_'

def isNameChar (c : Char) : Bool := c.isAlphanum || c == '_'

/-- The escapes of texts between quotation marks. -/
def textEscapes : Text.EscapeRules := ⟨false, true, true⟩

def unescapeText (cs : List Char) : List Char := (Text.unescape textEscapes cs).text

/-- A regular expression with no other escapes than those of characters with a meaning of their own;
`inside` tells that a bracket is open. -/
def plainPattern : Nat → Bool → List Char → List Char
  | _, _, [] | 0, _, _ => []
  | fuel + 1, inside, '\\' :: rest =>
    let (u, after) := Text.readEscape textEscapes rest
    let isSpecial (c : Char) : Bool := ".[]()*+?|^$\\\x7b\x7d".toList.contains c
    let here := match u.text with
      | ['\\', c] => if inside || c.isAlphanum then [c] else ['\\', c]
      | [c] => if !inside && isSpecial c then ['\\', c] else [c]
      | cs => cs
    here ++ plainPattern fuel inside after
  | fuel + 1, inside, c :: rest =>
    let inside := if inside then c != ']' else c == '['
    c :: plainPattern fuel inside rest

/-- Read a regular expression. -/
def regex? (cs : List Char) : Option Regex :=
  Regex.parse? .extended (plainPattern cs.length false cs)

/-- A text up to an unescaped mark, and what follows the mark. Marks between brackets do not count
if `bracketed`; no line is left. -/
def upTo (mark : Char) (bracketed : Bool) : Bool → List Char → Option (List Char × List Char)
  | _, [] | _, '\n' :: _ => none
  | inside, '\\' :: c :: rest =>
    (upTo mark bracketed inside rest).map fun (cs, after) => ('\\' :: c :: cs, after)
  | inside, c :: rest =>
    if c == mark && !inside then some ([], rest)
    else
      let inside := if inside then c != ']' else bracketed && c == '['
      (upTo mark bracketed inside rest).map fun (cs, after) => (c :: cs, after)

/-- The lexemes of a program from `line` on; `before` is the token that came last. Another line end
follows the last line. -/
def lexemes : Nat → Nat → Option Token → List Char → Except Complaint (List Lexeme)
  | _, line, _, [] | 0, line, _, _ => .ok [⟨.lineEnd, line, "end of line"⟩]
  | fuel + 1, line, before, c :: rest =>
    let go (token : Token) (written : String) (after : List Char) :
        Except Complaint (List Lexeme) := do
      let next := if token == .lineEnd then line + 1 else line
      return ⟨token, line, written⟩ :: (← lexemes fuel next (some token) after)
    if c == ' ' || c == '\t' || c == '\r' then lexemes fuel line before rest
    else if c == '\n' then go .lineEnd "end of line" rest
    else if c == '#' then lexemes fuel line before (rest.dropWhile (· != '\n'))
    else if c == '\\' && rest.head? == some '\n' then lexemes fuel (line + 1) before (rest.drop 1)
    else if c == '"' then
      match upTo '"' false false rest with
      | some (cs, after) => go (.text (unescapeText cs)) (String.ofList ('"' :: cs ++ ['"'])) after
      | none => .error (.runaway line "string constant" (c :: rest))
    else if c == '/' && !before.any Token.endsOperand then
      match upTo '/' true false rest with
      | some (cs, after) => go (.regex cs) (String.ofList ('/' :: cs ++ ['/'])) after
      | none => .error (.runaway line "regular expression" (c :: rest))
    else if isNameStart c then
      let name := (c :: rest).takeWhile isNameChar
      let after := (c :: rest).drop name.length
      let text := String.ofList name
      if after.head? == some '(' && !keywords.contains text && (builtin? text).isNone then
        go (.call text) text after
      else go (.word text) text after
    else
      match Text.takeNumeral? (c :: rest) with
      | some (n, after) =>
        let written := (c :: rest).take (rest.length + 1 - after.length)
        go (.number n.toFloat) (String.ofList written) after
      | none =>
        match operators.find? fun o => o.toList.isPrefixOf (c :: rest) with
        | some o => go (.op o) o ((c :: rest).drop o.length)
        | none => if c == '&' then go (.op "&") "&" rest else .error (.strangeChar line c)

end LayeredSets.Tool.Awk
