import LayeredSets.Shell.Lexer
import LayeredSets.Text.Escape

/-!
# Words

A word as its parts: texts, parameters, commands and expressions whose values are put in. What is
quoted is neither split into fields nor read as a pattern.
-/

namespace LayeredSets.Shell

inductive Part
  | text (cs : List Char) (quoted : Bool)
  /-- Quotes with nothing between them, which make a field all the same. -/
  | nothing
  /-- What stands in the braces of a parameter, or its name alone. -/
  | parameter (inner : List Char) (quoted : Bool)
  /-- A script between parentheses or, if `ticked`, between ticks. -/
  | command (script : List Char) (ticked quoted : Bool)
  | arithmetic (expression : List Char) (quoted : Bool)
  /-- A path under which the output of a script is read, or under which its input is written. -/
  | path (script : List Char) (isRead : Bool)
  deriving DecidableEq, Repr

/-- How the characters of a text are to be understood. -/
inductive Mode
  | plain
  | quoted
  /-- A word in the braces of a quoted parameter. -/
  | braced
  /-- In a document quotation marks stand for themselves. -/
  | document
  deriving DecidableEq, Repr

namespace Part

/-- The text before what closes `nest`, and the text after that. -/
def split (dialect : Dialect) (nest : Nest) (cs : List Char) : List Char × List Char :=
  match enclosed dialect 0 [nest] cs with
  | .ok (inner, rest) => (inner.take (inner.length - (nest.closing?.getD "").length), rest)
  | .error _ => (cs, [])

/-- A script between ticks, with the backslashes dropped that the ticks made necessary. -/
def untick (mode : Mode) : List Char → List Char
  | '\\' :: c :: rest =>
    if c == '$' || c == tick || c == '\\' || c == '"' && mode ≠ .plain then c :: untick mode rest
    else '\\' :: c :: untick mode rest
  | c :: rest => c :: untick mode rest
  | [] => []

/-- The parameters that have a sign for a name. -/
def isSign (c : Char) : Bool := ['@', '*', '#', '?', '-', '$', '!'].contains c

/-- The part that a dollar sign begins, and the text after it. -/
def substitution (dialect : Dialect) (quoted : Bool) (cs : List Char) : Part × List Char :=
  match cs with
  | '(' :: '(' :: rest =>
    let (inner, rest) := split dialect (.arithmetic 0) rest
    (arithmetic inner quoted, rest)
  | '(' :: rest =>
    let (inner, rest) := split dialect (.parens 0 true) rest
    (command inner false quoted, rest)
  | '\x7b' :: rest =>
    let (inner, rest) := split dialect (.braces quoted) rest
    (parameter inner quoted, rest)
  | c :: rest =>
    if isNameStart c then
      let name := (c :: rest).takeWhile isNameChar
      (parameter name quoted, (c :: rest).drop name.length)
    else if c.isDigit || isSign c then (parameter [c] quoted, rest)
    else (text ['$'] quoted, c :: rest)
  | [] => (text ['$'] quoted, [])

/-- The escapes between quotes that follow a dollar sign. -/
def quoteEscapes : Text.EscapeRules := ⟨false, true, true⟩

/-- The part that quotes with escapes make. -/
def ofEscaped (inner : List Char) : Part :=
  if inner.isEmpty then nothing else text (Text.unescape quoteEscapes inner).text true

/-- The parts of a text. -/
def read (dialect : Dialect) : Nat → Mode → List Char → List Part
  | 0, _, _ | _, _, [] => []
  | fuel + 1, mode, c :: rest =>
    let quoted : Bool := mode ≠ .plain
    if c == '\\' then
      match rest with
      | [] => [text [c] true]
      | d :: after =>
        if d == '\n' then read dialect fuel mode after
        else if mode = .plain || d == '$' || d == tick || d == '\\' ||
            d == '"' && mode ≠ .document || d == '\x7d' && mode = .braced then
          text [d] true :: read dialect fuel mode after
        else text [c] true :: read dialect fuel mode rest
    else if c == '\'' && mode = .plain then
      let (inner, rest) := split dialect .single rest
      (if inner.isEmpty then nothing else text inner true) :: read dialect fuel mode rest
    else if c == '"' && mode = .plain then
      let (inner, rest) := split dialect .double rest
      (if inner.isEmpty then [nothing] else read dialect fuel .quoted inner) ++
        read dialect fuel mode rest
    else if c == '"' && mode ≠ .document then read dialect fuel mode rest
    else if c == '$' then
      match dialect, mode, rest with
      | .extended, .plain, '\'' :: rest =>
        let (inner, rest) := split dialect .escaped rest
        ofEscaped inner :: read dialect fuel mode rest
      | .extended, .plain, '"' :: rest => read dialect fuel mode ('"' :: rest)
      | _, _, rest =>
        let (part, rest) := substitution dialect quoted rest
        part :: read dialect fuel mode rest
    else if c == tick then
      let (inner, rest) := split dialect .ticks rest
      command (untick mode inner) true quoted :: read dialect fuel mode rest
    else text [c] quoted :: read dialect fuel mode rest

/-- The parts of a text; a tilde in front of a path stands for the home directory. -/
def ofText (dialect : Dialect) (mode : Mode) (cs : List Char) : List Part :=
  let read := read dialect cs.length mode
  match mode, cs with
  | .plain, '~' :: rest =>
    if rest.head?.all (· == '/') then parameter "HOME".toList true :: read rest else read cs
  | .plain, c :: '(' :: rest =>
    if dialect = .extended && (c == '<' || c == '>') then
      let (inner, rest) := split dialect (.parens 0 true) rest
      path inner (c == '<') :: read rest
    else read cs
  | _, _ => read cs

end Part

end LayeredSets.Shell
