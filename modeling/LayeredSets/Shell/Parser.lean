import LayeredSets.Shell.Lexer
import LayeredSets.Text.Blank

/-!
# Parsing scripts of commands

    list     := and-or ((";" | "&" | BREAK) and-or)*
    and-or   := pipeline (("&&" | "||") pipeline)*
    pipeline := ["!"] command (("|" | "|&") command)*
    command  := compound redirection* | NAME "(" ")" command | simple

The words that begin and end compound commands count as such only where a command can begin.
-/

namespace LayeredSets.Shell

/-- What is wrong with a script. -/
inductive SyntaxComplaint
  /-- Something is not closed. -/
  | broken (nest : Nest)
  /-- A token, or the end of the script, where something else is wanted. -/
  | unexpected (token : Option Token) (wanted : Option String)
  | badName (kind : String)
  /-- A fault in a condition, near a token. -/
  | inCondition (complaint : Option String) (near : Option Token)
  | notCounted (expression : Word)
  deriving DecidableEq, Repr

/-- A fault and its line, which is zero for the end of the script. -/
structure SyntaxFault where
  line : Nat
  complaint : SyntaxComplaint

namespace Parser

/-- The words that have a meaning of their own where a command can begin. -/
def reserved : List String :=
  ["!", "case", "do", "done", "elif", "else", "esac", "fi", "for", "if", "in", "then", "until",
    "while", "\x7b", "\x7d"]

/-- How a token is named in complaints. -/
def Token.shown : Token → String
  | .word raw =>
    let text := String.ofList raw
    if reserved.contains text then "\"" ++ text ++ "\"" else "word"
  | .op o =>
    if ["<", ">", ">>", "<<", "<<-", "<&", ">&", "<>", ">|"].contains o then "redirection"
    else "\"" ++ o ++ "\""
  | .lineBreak => "newline"
  | .descriptor _ | .document .. => "redirection"
  | .calculation _ => "\"(\""
  | .broken _ => "end of file"

/-- The line on which the first token has been read. -/
def lineOf (ts : List Placed) : Nat :=
  match ts with
  | [] => 0
  | t :: _ => if t.token = .lineBreak then t.line + 1 else t.line

def unexpected {α : Type} (ts : List Placed) (wanted : Option String) : Except SyntaxFault α :=
  match ts with
  | ⟨.broken nest, line⟩ :: _ => .error ⟨line, .broken nest⟩
  | ts => .error ⟨lineOf ts, .unexpected (ts.head?.map (·.token)) wanted⟩

def isWord (text : String) (ts : List Placed) : Bool :=
  match ts with
  | ⟨.word raw, _⟩ :: _ => String.ofList raw == text
  | _ => false

def isOp (o : String) (ts : List Placed) : Bool :=
  match ts with
  | ⟨.op p, _⟩ :: _ => p == o
  | _ => false

def skipBreaks (ts : List Placed) : List Placed := ts.dropWhile (·.token = .lineBreak)

/-- Take a word that ends a part of a compound command. -/
def closeWith (text : String) (ts : List Placed) : Except SyntaxFault (List Placed) :=
  let ts := skipBreaks ts
  if isWord text ts then .ok ts.tail else unexpected ts (some text)

def closers : List String := ["then", "else", "elif", "fi", "do", "done", "esac", "\x7d"]

def redirectionKind? (o : String) : Option (RedirectionKind × Nat) :=
  match o with
  | "<<<" => some (.line, 0)
  | "&>" => some (.write, 1)
  | "&>>" => some (.append, 1)
  | "<" => some (.read, 0)
  | ">" | ">|" => some (.write, 1)
  | ">>" => some (.append, 1)
  | "<>" => some (.readWrite, 0)
  | "<&" => some (.duplicate, 0)
  | ">&" => some (.duplicate, 1)
  | _ => none

/-- A redirection at the front of the tokens, if there is one. It may stand for several. -/
def redirection? (ts : List Placed) :
    Option (Except SyntaxFault (List Redirection × List Placed)) :=
  let (given, ts) := match ts with
    | ⟨.descriptor n, _⟩ :: rest => (some n, rest)
    | ts => (none, ts)
  match ts with
  | ⟨.op o, _⟩ :: ⟨.document body expands, _⟩ :: rest =>
    if o == "<<" || o == "<<-" then
      some (.ok ([⟨given.getD 0, .document expands, body⟩], rest))
    else none
  | ⟨.op o, _⟩ :: rest =>
    if o == "<<" || o == "<<-" then
      match rest with
      | ⟨.word _, _⟩ :: rest => some (.ok ([⟨given.getD 0, .document false, []⟩], rest))
      | rest => some (unexpected rest none)
    else match redirectionKind? o, rest with
    | some (kind, usual), ⟨.word target, _⟩ :: rest =>
      let others : List Redirection := if o.startsWith "&" then [⟨2, .duplicate, ['1']⟩] else []
      some (.ok (⟨given.getD usual, kind, target⟩ :: others, rest))
    | some _, rest => some (unexpected rest none)
    | none, _ => none
  | _ => none

def redirections : Nat → List Placed → Except SyntaxFault (List Redirection × List Placed)
  | 0, ts => .ok ([], ts)
  | fuel + 1, ts =>
    match redirection? ts with
    | none => .ok ([], ts)
    | some result => do
      let (first, ts) ← result
      let (others, ts) ← redirections fuel ts
      return (first ++ others, ts)

/-- Can a command begin here? -/
def begins (ts : List Placed) : Bool :=
  match ts with
  | ⟨.word raw, _⟩ :: _ => !closers.contains (String.ofList raw)
  | ⟨.op o, _⟩ :: _ => o == "(" || (redirectionKind? o).isSome || o == "<<" || o == "<<-"
  | ⟨.descriptor _, _⟩ :: _ | ⟨.broken _, _⟩ :: _ => true
  | _ => false

/-- Does a list of commands end here? -/
def ends (ts : List Placed) : Bool :=
  match ts with
  | [] => true
  | ⟨.word raw, _⟩ :: _ => closers.contains (String.ofList raw)
  | ⟨.op o, _⟩ :: _ => [")", ";;", ";&", ";;&"].contains o
  | _ => false

/-- The setting that a word makes. -/
def setting? (dialect : Dialect) (raw : Word) : Option Setting :=
  let name := raw.takeWhile isNameChar
  let target (index : Option Word) : Target := ⟨String.ofList name, index⟩
  if !isName name then none
  else match raw.drop name.length, dialect with
    | '=' :: value, _ => some ⟨target none, false, value⟩
    | '+' :: '=' :: value, .extended => some ⟨target none, true, value⟩
    | '[' :: rest, .extended =>
      let index := rest.takeWhile (· != ']')
      match rest.drop index.length with
      | ']' :: '=' :: value => some ⟨target (some index), false, value⟩
      | ']' :: '+' :: '=' :: value => some ⟨target (some index), true, value⟩
      | _ => none
    | _, _ => none

/-- The settings, words and redirections of a simple command. -/
def simpleParts (dialect : Dialect) : Nat → Bool → List Placed →
    Except SyntaxFault ((List Setting × List Word × List Redirection) × List Placed)
  | 0, _, ts => .ok (([], [], []), ts)
  | fuel + 1, isFirst, ts =>
    match redirection? ts with
    | some result => do
      let (first, ts) ← result
      let ((settings, words, others), ts) ← simpleParts dialect fuel isFirst ts
      return ((settings, words, first ++ others), ts)
    | none =>
      match ts with
      | ⟨.word raw, _⟩ :: rest => do
        match if isFirst then setting? dialect raw else none with
        | some s =>
          let ((settings, words, rs), ts) ← simpleParts dialect fuel true rest
          return ((s :: settings, words, rs), ts)
        | none =>
          let ((settings, words, rs), ts) ← simpleParts dialect fuel false rest
          return ((settings, raw :: words, rs), ts)
      | ts => .ok (([], [], []), ts)

/-- Words up to the end of a line or a semicolon. -/
def wordsOfEach : List Placed → List Word × List Placed
  | ⟨.word raw, _⟩ :: rest =>
    let (ws, rest) := wordsOfEach rest
    (raw :: ws, rest)
  | ts => ([], ts)

/-- The patterns of a branch, up to its parenthesis. -/
def patterns : Nat → List Placed → Except SyntaxFault (List Word × List Placed)
  | 0, _ | _, [] => unexpected [] (some ")")
  | fuel + 1, t :: rest =>
    let raw := match t.token with
      | .word raw => raw
      | _ => []
    if isOp "|" rest then do
      let (ws, rest) ← patterns fuel rest.tail
      return (raw :: ws, rest)
    else if isOp ")" rest then .ok ([raw], rest.tail)
    else unexpected rest (some ")")

/-! ### Conditions -/

/-- The word at the front of tokens in a condition. -/
def conditionWord? : List Placed → Option (Word × List Placed)
  | ⟨.word raw, _⟩ :: rest => some (raw, rest)
  | ⟨.descriptor n, _⟩ :: rest => some ((toString n).toList, rest)
  | _ => none

def faultNear {α : Type} (complaint : Option String) (ts : List Placed) : Except SyntaxFault α :=
  match ts with
  | ⟨.broken nest, line⟩ :: _ => .error ⟨line, .broken nest⟩
  | ts => .error ⟨lineOf ts, .inCondition complaint (ts.head?.map (·.token))⟩

/-- The operators between two words of a condition. -/
def conditionOperators : List String :=
  ["=", "==", "!=", "=~", "-eq", "-ne", "-lt", "-le", "-gt", "-ge", "-nt", "-ot", "-ef"]

/-- The operators before a word of a condition. -/
def conditionTests : List String :=
  "abcdefghknoprstuvwxzGLNORS".toList.map fun c => "-" ++ c.toString

mutual

def eitherCondition : Nat → List Placed → Except SyntaxFault (Condition × List Placed)
  | 0, ts => faultNear none ts
  | fuel + 1, ts => do
    let (first, rest) ← bothConditions fuel ts
    if isOp "||" (skipBreaks rest) then
      let (second, rest) ← eitherCondition fuel (skipBreaks rest).tail
      return (.either first second, rest)
    else return (first, rest)

def bothConditions : Nat → List Placed → Except SyntaxFault (Condition × List Placed)
  | 0, ts => faultNear none ts
  | fuel + 1, ts => do
    let (first, rest) ← singleCondition fuel (skipBreaks ts)
    if isOp "&&" (skipBreaks rest) then
      let (second, rest) ← bothConditions fuel (skipBreaks rest).tail
      return (.both first second, rest)
    else return (first, rest)

def singleCondition : Nat → List Placed → Except SyntaxFault (Condition × List Placed)
  | 0, ts => faultNear none ts
  | fuel + 1, ts => do
    if isWord "!" ts then
      let (c, rest) ← singleCondition fuel ts.tail
      return (.negate c, rest)
    else if isOp "(" ts then
      let (c, rest) ← eitherCondition fuel ts.tail
      let rest := skipBreaks rest
      if isOp ")" rest then return (c, rest.tail)
      else
        let found := (rest.head?.map (·.token.written)).getD "EOF"
        faultNear (some s!"unexpected token \x60{found}', expected \x60)'") rest
    else match conditionWord? ts with
      | none => faultNear none ts
      | some (left, rest) =>
        if isWord "]]" ts then faultNear none ts
        else if conditionTests.contains (String.ofList left) && !isOperator rest then
          match conditionWord? rest with
          | some (word, after) =>
            if isWord "]]" rest then
              faultNear (some "unexpected argument \x60]]' to conditional unary operator") rest
            else return (.unary (String.ofList left) word, after)
          | none => faultNear (some "conditional unary operator expected") rest
        else if isOperator rest then
          let op := (rest.head?.map (·.token.written)).getD ""
          match conditionWord? rest.tail with
          | some (right, after) =>
            if isWord "]]" rest.tail then
              faultNear (some "unexpected argument \x60]]' to conditional binary operator")
                rest.tail
            else return (.binary op left right, after)
          | none => faultNear (some "unexpected token in conditional expression") rest.tail
        else if (conditionWord? rest).isSome && !isWord "]]" rest then
          faultNear (some "conditional binary operator expected") rest
        else return (.unary "-n" left, rest)
where
  isOperator (ts : List Placed) : Bool :=
    isOp "<" ts || isOp ">" ts || conditionOperators.any fun o => isWord o ts

end

/-- The condition up to its closing brackets. -/
def condition (ts : List Placed) : Except SyntaxFault (Condition × List Placed) := do
  let (c, rest) ← eitherCondition (4 * ts.length + 4) ts
  let rest := skipBreaks rest
  if isWord "]]" rest then return (c, rest.tail)
  else if rest.isEmpty then faultNear (some "unexpected EOF while looking for \x60]]'") rest
  else faultNear (some "syntax error in conditional expression") rest

/-! ### Commands -/

variable (dialect : Dialect)

mutual

/-- Commands up to something that no command can begin with. -/
def list : Nat → List Placed → Except SyntaxFault (Command × List Placed)
  | 0, ts => unexpected ts none
  | fuel + 1, ts =>
    match skipBreaks ts with
    | [] => .ok (.nothing, [])
    | ts => do
      let (first, ts) ← andOr fuel ts
      listAfter fuel first ts

def listAfter : Nat → Command → List Placed → Except SyntaxFault (Command × List Placed)
  | 0, _, ts => unexpected ts none
  | fuel + 1, first, ts =>
    let (first, rest, separated) :=
      if isOp "&" ts then (Command.background first, skipBreaks ts.tail, true)
      else if isOp ";" ts then (first, skipBreaks ts.tail, true)
      else (first, skipBreaks ts, (skipBreaks ts).length != ts.length)
    if separated && !ends rest then do
      let (others, ts) ← list fuel rest
      return (.sequence first others, ts)
    else .ok (first, rest)

def andOr : Nat → List Placed → Except SyntaxFault (Command × List Placed)
  | 0, ts => unexpected ts none
  | fuel + 1, ts => do
    let (first, ts) ← pipeline fuel ts
    andOrAfter fuel first ts

def andOrAfter : Nat → Command → List Placed → Except SyntaxFault (Command × List Placed)
  | 0, _, ts => unexpected ts none
  | fuel + 1, first, ts =>
    if isOp "&&" ts then do
      let (second, ts) ← pipeline fuel (skipBreaks ts.tail)
      andOrAfter fuel (.both first second) ts
    else if isOp "||" ts then do
      let (second, ts) ← pipeline fuel (skipBreaks ts.tail)
      andOrAfter fuel (.either first second) ts
    else .ok (first, ts)

def pipeline : Nat → List Placed → Except SyntaxFault (Command × List Placed)
  | 0, ts => unexpected ts none
  | fuel + 1, ts =>
    let ofCommands : List Command → Command
      | [c] => c
      | cs => .pipe cs
    if isWord "!" ts then do
      let (cs, ts) ← piped fuel ts.tail
      return (.negate (ofCommands cs), ts)
    else do
      let (cs, ts) ← piped fuel ts
      return (ofCommands cs, ts)

def piped : Nat → List Placed → Except SyntaxFault (List Command × List Placed)
  | 0, ts => unexpected ts none
  | fuel + 1, ts => do
    let (first, rest) ← command fuel ts
    if isOp "|" rest || isOp "|&" rest then
      let first := if isOp "|" rest then first
        else .redirected (lineOf ts) first [⟨2, .duplicate, ['1']⟩]
      let (others, rest) ← piped fuel (skipBreaks rest.tail)
      return (first :: others, rest)
    else return ([first], rest)

/-- A compound command with its redirections. -/
def command : Nat → List Placed → Except SyntaxFault (Command × List Placed)
  | 0, ts => unexpected ts none
  | fuel + 1, ts => do
    let line := (ts.head?.map (·.line)).getD 0
    match ← compound? fuel ts with
    | (some c, ts) =>
      let (rs, ts) ← redirections ts.length ts
      return (if rs.isEmpty then c else .redirected line c rs, ts)
    | (none, ts) => simple fuel ts

def compound? : Nat → List Placed → Except SyntaxFault (Option Command × List Placed)
  | 0, ts => unexpected ts none
  | fuel + 1, ts => do
    if isOp "(" ts then
      let (c, ts) ← list fuel ts.tail
      if isOp ")" ts then return (some (.subshell c), ts.tail) else unexpected ts (some ")")
    else if isWord "\x7b" ts then
      let (c, ts) ← list fuel ts.tail
      return (some c, ← closeWith "\x7d" ts)
    else if isWord "if" ts then
      let (c, ts) ← choice fuel ts.tail
      return (some c, ts)
    else if isWord "while" ts || isWord "until" ts then
      let (condition, rest) ← list fuel ts.tail
      let (body, rest) ← list fuel (← closeWith "do" rest)
      return (some (.loop (isWord "until" ts) condition body), ← closeWith "done" rest)
    else if isWord "for" ts then
      let (c, ts) ← each fuel ts.tail
      return (some c, ts)
    else if isWord "case" ts then
      let (c, ts) ← byPattern fuel ts.tail
      return (some c, ts)
    else match dialect, ts with
      | .extended, ⟨.calculation e, line⟩ :: rest => return (some (.calculation line e), rest)
      | .extended, ⟨.word raw, line⟩ :: rest =>
        if raw == ['[', '['] then
          let (c, rest) ← condition rest
          return (some (.condition line c), rest)
        else if raw == "function".toList then
          match rest with
          | ⟨.word name, _⟩ :: ⟨.op "(", _⟩ :: ⟨.op ")", _⟩ :: rest
          | ⟨.word name, _⟩ :: rest =>
            let (body, rest) ← command fuel (skipBreaks rest)
            return (some (.define (String.ofList name) body), rest)
          | rest => unexpected rest none
        else return (none, ts)
      | _, _ => return (none, ts)

/-- A choice, after its first word. -/
def choice : Nat → List Placed → Except SyntaxFault (Command × List Placed)
  | 0, ts => unexpected ts none
  | fuel + 1, ts => do
    let (condition, ts) ← list fuel ts
    let (a, ts) ← list fuel (← closeWith "then" ts)
    if isWord "elif" ts then
      let (b, ts) ← choice fuel ts.tail
      return (.choice condition a b, ts)
    else if isWord "else" ts then
      let (b, ts) ← list fuel ts.tail
      return (.choice condition a b, ← closeWith "fi" ts)
    else return (.choice condition a .nothing, ← closeWith "fi" ts)

/-- A repetition over words, after its first word. -/
def each : Nat → List Placed → Except SyntaxFault (Command × List Placed)
  | 0, ts => unexpected ts none
  | fuel + 1, ts =>
    match ts with
    | ⟨.calculation e, line⟩ :: rest => do
      let rest := skipBreaks (if isOp ";" rest then rest.tail else rest)
      let (body, rest) ← list fuel (← closeWith "do" rest)
      let rest ← closeWith "done" rest
      match Text.splitAt (· == ';') e with
      | [start, condition, step] => return (.counted line start condition step body, rest)
      | _ => throw ⟨line, .notCounted e⟩
    | ⟨.word name, line⟩ :: rest =>
      if !isName name then .error ⟨line, .badName "for loop variable"⟩
      else do
        let (words, rest) :=
          if isWord "in" (skipBreaks rest) then
            let (ws, rest) := wordsOfEach (skipBreaks rest).tail
            (some ws, rest)
          else (none, rest)
        let rest := skipBreaks (if isOp ";" rest then rest.tail else rest)
        let (body, rest) ← list fuel (← closeWith "do" rest)
        return (.each (String.ofList name) words body, ← closeWith "done" rest)
    | ts =>
      match dialect with
      | .plain => .error ⟨lineOf ts, .badName "for loop variable"⟩
      | .extended => unexpected ts none

/-- A choice by patterns, after its first word. -/
def byPattern : Nat → List Placed → Except SyntaxFault (Command × List Placed)
  | 0, ts => unexpected ts none
  | fuel + 1, ts =>
    match ts with
    | ⟨.word subject, _⟩ :: rest => do
      let rest := skipBreaks rest
      if !isWord "in" rest then unexpected rest (some "in")
      else
        let (branches, rest) ← branches fuel (skipBreaks rest.tail)
        return (.cases subject branches, rest)
    | ts => unexpected ts (some "word")

def branches : Nat → List Placed →
    Except SyntaxFault (List (List Word × Command × BranchEnd) × List Placed)
  | 0, ts => unexpected ts none
  | fuel + 1, ts => do
    if isWord "esac" ts then return ([], ts.tail)
    else
      let (ps, ts) ← patterns ts.length (if isOp "(" ts then ts.tail else ts)
      let ts := skipBreaks ts
      let (body, ts) ← if ends ts then pure (.nothing, ts) else list fuel ts
      let ts := skipBreaks ts
      let ending? : Option BranchEnd := if isOp ";;" ts then some .leave
        else if isOp ";&" ts then some .fall
        else if isOp ";;&" ts then some .goOn
        else none
      match ending? with
      | some ending =>
        let (others, ts) ← branches fuel (skipBreaks ts.tail)
        return ((ps, body, ending) :: others, ts)
      | none =>
        if isWord "esac" ts then return ([(ps, body, .leave)], ts.tail)
        else unexpected ts (some ";;")

/-- A command without structure, or the definition of a function. -/
def simple : Nat → List Placed → Except SyntaxFault (Command × List Placed)
  | 0, ts => unexpected ts none
  | fuel + 1, ts =>
    match ts with
    | ⟨.word name, line⟩ :: ⟨.op "(", opening⟩ :: rest =>
      if (setting? dialect name).isSome then
        return (.simple line ((setting? dialect name).toList) [] [], ⟨.op "(", opening⟩ :: rest)
      else if !isOp ")" rest then unexpected rest (some ")")
      else if !isName name && dialect = .plain then .error ⟨line, .badName "function name"⟩
      else do
        let (body, ts) ← command fuel (skipBreaks rest.tail)
        return (.define (String.ofList name) body, ts)
    | ts =>
      if isWord "!" ts || isWord "in" ts then unexpected ts none
      else if begins ts then do
        let line := (ts.head?.map (·.line)).getD 0
        let ((settings, words, rs), rest) ← simpleParts dialect ts.length true ts
        if rest.length = ts.length then unexpected ts none
        else return (.simple line settings words rs, rest)
      else unexpected ts none

end

/-- The commands up to the end of a line. -/
def line : Nat → List Placed → Except SyntaxFault (Command × List Placed)
  | 0, ts => unexpected ts none
  | fuel + 1, ts => do
    let (first, ts) ← andOr dialect fuel ts
    let isEnded := isOp "&" ts || isOp ";" ts
    let first := if isOp "&" ts then Command.background first else first
    match if isEnded then ts.tail else ts with
    | [] => return (first, [])
    | ⟨.lineBreak, _⟩ :: rest => return (first, rest)
    | rest =>
      if isEnded then
        let (others, rest) ← line fuel rest
        return (.sequence first others, rest)
      else unexpected rest none

/-- The commands of a script, line by line, up to the first line that cannot be read. -/
def program : Nat → List Placed → List Command × Option SyntaxFault
  | 0, _ => ([], none)
  | fuel + 1, ts =>
    match skipBreaks ts with
    | [] => ([], none)
    | ts =>
      match line dialect (20 * ts.length + 20) ts with
      | .error fault => ([], some fault)
      | .ok (c, ts) =>
        let (cs, fault) := program fuel ts
        (c :: cs, fault)

/-- How a fault is put in the plain dialect. -/
def plainMessage : SyntaxComplaint → String
  | .broken nest => s!"Syntax error: {nest.complaint}"
  | .badName kind => s!"Syntax error: Bad {kind}"
  | .unexpected token? wanted =>
    let shown := (token?.map Token.shown).getD "end of file"
    let hint := match wanted with
      | some "word" => " (expecting word)"
      | some w => s!" (expecting \"{w}\")"
      | none => ""
    s!"Syntax error: {shown} unexpected{hint}"
  | .inCondition .. | .notCounted _ => "Syntax error: word unexpected"

/-- A text between quotation marks that open and close. -/
def cited (text : String) : String := s!"\x60{text}'"

/-- How a fault is put in the extended dialect; `source` is the line it is in. -/
def extendedMessages (source : String) : SyntaxComplaint → List String
  | .broken nest =>
    let closing := ((nest.closing?.bind (·.toList.head?)).getD ')').toString
    [s!"unexpected EOF while looking for matching {cited closing}"]
  | .unexpected none _ => ["syntax error: unexpected end of file"]
  | .unexpected (some token) _ =>
    [s!"syntax error near unexpected token {cited token.written}", cited source]
  | .badName kind => [s!"syntax error: bad {kind}"]
  | .inCondition complaint none => complaint.toList ++ ["syntax error: unexpected end of file"]
  | .inCondition complaint (some token) =>
    complaint.toList ++ [s!"syntax error near {cited token.written}", cited source]
  | .notCounted e =>
    let written := cited (s!"(({String.ofList e}))")
    ["syntax error: arithmetic expression required", s!"syntax error: {written}"]

end Parser

/-- Put a fault at the end of a script that begins on `line` on the last line of the script. -/
def SyntaxFault.placed (dialect : Dialect) (line : Nat) (script : List Char)
    (fault : SyntaxFault) : SyntaxFault :=
  let isAtEnd : Bool := match dialect, fault.complaint with
    | .plain, .broken _ | _, .broken (.parens ..) => true
    | _, _ => fault.line == 0
  if isAtEnd then { fault with line := line + script.count '\n' }
  else match dialect, fault.complaint with
    | .extended, .unexpected (some .lineBreak) _ => { fault with line := fault.line - 1 }
    | _, _ => fault

/-- What a shell says about a fault in a script that begins on `line`. -/
def SyntaxFault.messages (dialect : Dialect) (line : Nat) (script : List Char)
    (fault : SyntaxFault) : List String :=
  match dialect with
  | .plain => [Parser.plainMessage fault.complaint]
  | .extended =>
    let source := ((Text.lines script)[fault.line - line]?).getD []
    Parser.extendedMessages (String.ofList (Text.chomp source)) fault.complaint

/-- Read a script whose first line has the number `line`. -/
def parse (dialect : Dialect) (line : Nat) (script : List Char) :
    List Command × Option SyntaxFault :=
  let ts := tokens dialect line script
  let (cs, fault) := Parser.program dialect (ts.length + 1) ts
  (cs, fault.map (·.placed dialect line script))

/-- The commands of a substitution. Between parentheses nothing but commands may stand; between
ticks, what follows a list of commands is passed over. -/
def Parser.substituted (dialect : Dialect) (ticked : Bool) (ts : List Placed) :
    Except SyntaxFault Command := do
  let ts := skipBreaks ts
  let (commands, rest) ←
    if ends ts then Except.ok (Command.nothing, ts) else list dialect (20 * ts.length + 20) ts
  if ticked || isOp ")" rest then return commands else unexpected rest (some ")")

/-- Read the script of a substitution that begins on `line`. -/
def parseSubstituted (dialect : Dialect) (ticked : Bool) (line : Nat) (script : List Char) :
    Except SyntaxFault Command :=
  let closing := if ticked then [] else [⟨.op ")", line + script.count '\n'⟩]
  (Parser.substituted dialect ticked (tokens dialect line script ++ closing)).mapError
    (·.placed dialect line script)

end LayeredSets.Shell
