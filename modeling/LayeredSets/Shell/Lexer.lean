import LayeredSets.Shell.Tree
import LayeredSets.Text.Bytes

/-!
# Tokens of scripts

A script is cut into words, operators and line breaks. Within quotes, and within what is
substituted, operators and blanks belong to the word.
-/

namespace LayeredSets.Shell

/-- What a part of a word is enclosed by. A plain word ends before a blank or an operator. -/
inductive Nest
  | plain
  /-- A pattern in a condition, in which so many parentheses are open. -/
  | pattern (depth : Nat)
  | single
  /-- Quotes in which a backslash begins an escape. -/
  | escaped
  | double
  /-- Commands in parentheses. Those of patterns do not count, so it is kept how many choices by
  patterns are open, and whether a command may begin here. -/
  | parens (choices : Nat) (begins : Bool)
  /-- An expression to be computed, in which so many parentheses are open. -/
  | arithmetic (depth : Nat)
  /-- A parameter in braces, which may stand between double quotes. -/
  | braces (quoted : Bool)
  | ticks
  deriving DecidableEq, Repr

inductive Token
  | word (raw : Word)
  | op (o : String)
  | lineBreak
  /-- A number right before a redirection. -/
  | descriptor (n : Nat)
  | document (body : List Char) (expands : Bool)
  /-- An expression between double parentheses. -/
  | calculation (expression : List Char)
  /-- The script cannot be read any further, because something is not closed. -/
  | broken (nest : Nest)
  deriving DecidableEq, Repr

/-- The token as it is written. -/
def Token.written : Token → String
  | .word raw => String.ofList raw
  | .op o => o
  | .lineBreak => "newline"
  | .descriptor n => toString n
  | .document .. => "<<"
  | .calculation _ => "(("
  | .broken _ => "end of file"

structure Placed where
  token : Token
  line : Nat
  deriving DecidableEq, Repr

/-- The character that encloses a command to be substituted. -/
def tick : Char := '\x60'

def isBlankChar (c : Char) : Bool := c == ' ' || c == '\t'

/-- Does the character end a plain word? -/
def endsWord (c : Char) : Bool :=
  isBlankChar c || ['\n', ';', '&', '|', '<', '>', '(', ')'].contains c

/-- Does the character end a word in `nest`? -/
def Nest.endsAt (nest : Nest) (c : Char) : Bool :=
  match nest with
  | .plain => endsWord c
  | .pattern 0 => endsWord c && c != '|' && c != '('
  | _ => false

/-- Can what stands in the dialect's quotes for escapes open within `nest`? -/
def Nest.takesEscapes (dialect : Dialect) (nest : Nest) : Bool :=
  dialect = .extended && match nest with
    | .double | .braces true | .arithmetic _ => false
    | _ => true

/-- What opens within `nest` at the front of a text, and how long its opening is. -/
def opened? (dialect : Dialect) (nest : Nest) : List Char → Option (Nest × Nat)
  | '$' :: '\'' :: _ => if nest.takesEscapes dialect then some (.escaped, 2) else none
  | '$' :: '(' :: '(' :: _ => some (.arithmetic 0, 3)
  | '$' :: '(' :: _ => some (.parens 0 true, 2)
  | '$' :: '\x7b' :: _ => some (.braces (nest = .double || nest = .braces true), 2)
  | '(' :: _ =>
    match nest with
    | .parens .. => some (.parens 0 true, 1)
    | _ => none
  | '"' :: _ =>
    match nest with
    | .arithmetic _ => none
    | _ => some (.double, 1)
  | '\'' :: _ =>
    match nest with
    | .double | .braces true | .arithmetic _ => none
    | _ => some (.single, 1)
  | c :: _ => if c == tick then some (.ticks, 1) else none
  | [] => none

/-- What closes `nest`, if anything does here. -/
def Nest.closing? : Nest → Option String
  | .plain | .pattern _ => none
  | .single | .escaped => some "'"
  | .double => some "\""
  | .parens choices _ => if choices = 0 then some ")" else none
  | .arithmetic depth => if depth = 0 then some "))" else none
  | .braces _ => some "\x7d"
  | .ticks => some "\x60"

/-- The length of what closes `nest` at the front of a text. -/
def Nest.closed? (nest : Nest) (cs : List Char) : Option Nat :=
  (nest.closing?.filter fun closing => closing.toList.isPrefixOf cs).map (·.length)

/-- The words after which a command may begin. -/
def openers : List String := ["!", "do", "elif", "else", "if", "then", "until", "while", "\x7b"]

/-- What becomes of `nest` by the text at its front, and how much of that is done with. -/
def Nest.after (nest : Nest) (cs : List Char) : Nest × Nat :=
  match nest, cs with
  | .parens choices begins, c :: _ =>
    if isBlankChar c then (nest, 1)
    else if endsWord c then (.parens choices true, 1)
    else
      let word := String.ofList (cs.takeWhile (!endsWord ·))
      if !begins then (nest, 1)
      else if word == "case" then (.parens (choices + 1) false, word.length)
      else if word == "esac" then (.parens (choices - 1) false, word.length)
      else if openers.contains word then (nest, word.length)
      else (.parens choices false, 1)
  | .arithmetic depth, '(' :: _ => (.arithmetic (depth + 1), 1)
  | .arithmetic depth, ')' :: _ => (.arithmetic (depth - 1), 1)
  | .pattern depth, '(' :: _ => (.pattern (depth + 1), 1)
  | .pattern depth, ')' :: _ => (.pattern (depth - 1), 1)
  | nest, _ => (nest, 1)

/-- What is wrong if `nest` is not closed. -/
def Nest.complaint : Nest → String
  | .plain | .pattern _ | .single | .escaped | .double => "Unterminated quoted string"
  | .parens .. => "end of file unexpected (expecting \")\")"
  | .arithmetic _ => "Missing '))'"
  | .braces _ => "Missing '\x7d'"
  | .ticks => "EOF in backquote substitution"

/-- The text up to where all of `nests`, the innermost first, are closed, and the text after it;
or the innermost that is not closed at all. `taken` characters in front belong to an opening and are
not looked at again. -/
def enclosed (dialect : Dialect) :
    Nat → List Nest → List Char → Except Nest (List Char × List Char)
  | 0, [], cs => .ok ([], cs)
  | 0, [.plain], [] | 0, [.pattern _], [] | _ + 1, [], [] => .ok ([], [])
  | _, nest :: _, [] => .error nest
  | taken, nests, c :: rest =>
    let keep (taken : Nat) (nests : List Nest) :=
      (enclosed dialect taken nests rest).map fun (text, rest) => (c :: text, rest)
    match taken, nests with
    | taken + 1, nests => keep taken nests
    | 0, [] => .ok ([], c :: rest)
    | 0, nest :: outer =>
      if nest.endsAt c then .ok ([], c :: rest)
      else if c == '\\' && nest ≠ .single then keep 1 (nest :: outer)
      else match nest.closed? (c :: rest) with
        | some length => keep (length - 1) outer
        | none =>
          if nest = .single || nest = .escaped || nest = .ticks then keep 0 (nest :: outer)
          else match opened? dialect nest (c :: rest) with
            | some (inner, length) => keep (length - 1) (inner :: (nest.after ['x']).1 :: outer)
            | none =>
              let (nest, length) := nest.after (c :: rest)
              keep (length - 1) (nest :: outer)

/-- Every operator, the longer ones first. -/
def operators (dialect : Dialect) : List String :=
  (if dialect = .extended then ["&>>", "<<<", ";;&", "&>", "|&", ";&"] else []) ++
  ["<<-", "&&", "||", ";;", "<<", ">>", "<&", ">&", "<>", ">|", "|", "&", ";", "<", ">", "(", ")"]

/-- A word without its quotes, as far as the end of a document needs it. -/
def unquoted : List Char → List Char
  | '\\' :: c :: rest => c :: unquoted rest
  | c :: rest => if c == '\'' || c == '"' then unquoted rest else c :: unquoted rest
  | [] => []

/-- A document that is still to come: its last line, and whether tabs in front are dropped. -/
structure Awaited where
  closing : Word
  stripped : Bool

/-- The lines of a document, and the text after its last line. -/
def readDocument (awaited : Awaited) : List (List Char) → List Char × List (List Char)
  | [] => ([], [])
  | line :: rest =>
    let line := if awaited.stripped then line.dropWhile (· == '\t') else line
    if Text.chomp line == unquoted awaited.closing then ([], rest)
    else
      let (body, rest) := readDocument awaited rest
      (line ++ body, rest)

/-- Read the documents that begin on the next line. -/
def readDocuments : List Awaited → List (List Char) → List Token × List (List Char)
  | [], lines => ([], lines)
  | a :: others, lines =>
    let (body, lines) := readDocument a lines
    let (tokens, lines) := readDocuments others lines
    let isQuoted := a.closing.any fun c => c == '\'' || c == '"' || c == '\\'
    (.document body (!isQuoted) :: tokens, lines)

/-- What the tokens to come depend on. -/
structure Reading where
  line : Nat
  /-- The documents that begin on the next line. -/
  awaited : List Awaited
  /-- Is the next word the last line of a document, and are the tabs in it dropped? -/
  closing : Option Bool
  /-- Is a condition between double brackets being read, and is a pattern to come in it? -/
  inCondition : Bool
  wantsPattern : Bool

/-- Does a word end before the value of a setting? -/
def isOpenSetting (raw : Word) : Bool :=
  match raw.reverse with
  | '=' :: '+' :: name | '=' :: name =>
    name.reverse.head?.any isNameStart && (name.reverse.takeWhile (· != '[')).all isNameChar
  | _ => false

/-- The word at the front of a text. In the extended dialect it can be the output of commands that
is read like a file, and the elements of a list belong to the name before them. -/
def wordAhead (dialect : Dialect) (wantsPattern : Bool) (cs : List Char) :
    Except Nest (Word × List Char) := do
  let begun := if wantsPattern then Nest.pattern 0 else .plain
  if dialect = .plain then enclosed dialect 0 [.plain] cs
  else match cs with
    | '<' :: '(' :: _ | '>' :: '(' :: _ => enclosed dialect 2 [.parens 0 true, .plain] cs
    | cs =>
      let (raw, rest) ← enclosed dialect 0 [begun] cs
      match rest with
      | '(' :: _ =>
        if isOpenSetting raw then
          let (list, rest) ← enclosed dialect 1 [.parens 0 true] rest
          return (raw ++ list, rest)
        else return (raw, rest)
      | rest => return (raw, rest)

/-- Are as many parentheses closed as are opened, and none too early? -/
def isBalanced (cs : List Char) : Bool :=
  let depth := cs.foldl
    (fun depth c =>
      depth.bind fun n =>
        if c == '(' then some (n + 1) else if c == ')' then (if n = 0 then none else some (n - 1))
        else some n)
    (some 0)
  depth = some 0

/-- The expression between double parentheses at the front of a text, and what follows. Commands in
parentheses of their own look the same up to their end. -/
def calculation? (dialect : Dialect) : List Char → Option (Except Nest (Word × List Char))
  | '(' :: '(' :: rest =>
    if dialect = .plain then none
    else match enclosed dialect 0 [.arithmetic 0] rest with
      | .error nest => some (.error nest)
      | .ok (inner, rest) =>
        let expression := inner.take (inner.length - 2)
        if isBalanced expression then some (.ok (expression, rest)) else none
  | _ => none

/-- The tokens of a text, and the documents in it. -/
def lex (dialect : Dialect) : Nat → Reading → List Char → List Placed × List Token
  | 0, _, _ | _, _, [] => ([], [])
  | fuel + 1, r, c :: rest =>
    let put (token : Token) (more : List Placed × List Token) :=
      (⟨token, r.line⟩ :: more.1, more.2)
    if isBlankChar c then lex dialect fuel r rest
    else if c == '#' then lex dialect fuel r (rest.dropWhile (· != '\n'))
    else if c == '\n' then
      let (documents, lines) := readDocuments r.awaited (Text.lines rest)
      let after := lines.flatten
      let passed := rest.count '\n' - after.count '\n'
      let next := { r with line := r.line + 1 + passed, awaited := [], closing := none }
      let (tokens, more) := lex dialect fuel next after
      (⟨.lineBreak, r.line⟩ :: tokens, documents ++ more)
    else match c, rest with
      | '\\', '\n' :: rest => lex dialect fuel { r with line := r.line + 1 } rest
      | _, _ =>
        let calculation := if r.inCondition then none else calculation? dialect (c :: rest)
        let operator :=
          if dialect = .extended && [['<', '('], ['>', '(']].contains (c :: rest.take 1) ||
              r.wantsPattern then none
          else (operators dialect).find? fun o => o.toList.isPrefixOf (c :: rest)
        match calculation, operator with
        | some (.error nest), _ => ([⟨.broken nest, r.line⟩], [])
        | some (.ok (expression, rest)), _ =>
          put (.calculation expression)
            (lex dialect fuel { r with line := r.line + expression.count '\n' } rest)
        | none, some o =>
          let closing := if o == "<<" then some false else if o == "<<-" then some true else none
          put (.op o) (lex dialect fuel { r with closing } ((c :: rest).drop o.length))
        | none, none =>
          match wordAhead dialect r.wantsPattern (c :: rest) with
          | .error nest => ([⟨.broken nest, r.line⟩], [])
          | .ok (raw, rest) =>
            let isDescriptor :=
              raw.all Char.isDigit && rest.head?.any fun c => c == '<' || c == '>'
            let text := String.ofList raw
            let next : Reading :=
              { line := r.line + raw.count '\n'
                awaited := match r.closing with
                  | some stripped => r.awaited ++ [⟨raw, stripped⟩]
                  | none => r.awaited
                closing := none
                inCondition :=
                  dialect = .extended && (text == "[[" || r.inCondition && text != "]]")
                wantsPattern := r.inCondition && ["=~", "=", "==", "!="].contains text }
            put (if isDescriptor then .descriptor (Text.digitsIn 10 raw) else .word raw)
              (lex dialect fuel next rest)

/-- Put each document in the place of the word that names its last line. -/
def attach : List Placed → List Token → List Placed
  | op :: word :: rest, document :: documents =>
    if op.token = .op "<<" || op.token = .op "<<-" then
      op :: ⟨document, word.line⟩ :: attach rest documents
    else op :: attach (word :: rest) (document :: documents)
  | tokens, _ => tokens

/-- The tokens of a script whose first line has the number `line`. -/
def tokens (dialect : Dialect) (line : Nat) (script : List Char) : List Placed :=
  let (placed, documents) := lex dialect (script.length + 1) ⟨line, [], none, false, false⟩ script
  attach placed documents

end LayeredSets.Shell
