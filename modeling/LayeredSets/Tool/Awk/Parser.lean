import LayeredSets.Tool.Awk.Lexer

/-!
# Reading pattern programs

Operators bind by levels, the loosest first; texts are joined by standing next to each other. In the
arguments of a print statement a `>` names the sink.
-/

namespace LayeredSets.Tool.Awk

/-- What the statements that are read belong to. -/
inductive Scope
  /-- A rule for the start or for the end. -/
  | edge
  | record
  | function
  deriving DecidableEq, Repr

structure Source where
  rest : List Lexeme
  /-- The line after the last. -/
  lastLine : Nat
  /-- The parameters of the function that is being read. -/
  params : List String
  /-- The functions that are called. -/
  called : List String
  scope : Scope
  /-- How many loops the statements are in. -/
  loops : Nat
  /-- How many parentheses are open. -/
  depth : Nat

abbrev Reader : Type → Type := StateT Source (Except Complaint)

namespace Reader

/-- The tokens that come next, `count` of them. -/
def ahead (count : Nat) : Reader (List Token) := return ((← get).rest.take count).map (·.token)

def peek : Reader (Option Token) := return (← ahead 1).head?

def advance : Reader Unit := modify fun s => { s with rest := s.rest.tail }

def line : Reader Nat := do
  let s ← get
  return (s.rest.head?.map (·.line)).getD s.lastLine

/-- Give up at the next lexeme. -/
def unexpected {α : Type} : Reader α := do
  let s ← get
  match s.rest with
  | [] => throw (.missing s.lastLine "\x7d" "end of file")
  | l :: _ =>
    let ends : Bool := match l.token with
      | .lineEnd => true
      | .op name => name == ";" || name == "\x7d"
      | _ => false
    throw (if ends && s.depth ≠ 0 then .missing l.line ")" l.written
      else .unexpected l.line l.written)

/-- Is this operator next? Then go on behind it. -/
def accept (o : String) : Reader Bool := do
  match ← peek with
  | some (.op name) =>
    if name == o then
      advance
      return true
    else return false
  | _ => return false

/-- Is this word next? Then go on behind it. -/
def acceptWord (word : String) : Reader Bool := do
  match ← peek with
  | some (.word name) =>
    if name == word then
      advance
      return true
    else return false
  | _ => return false

def expect (o : String) : Reader Unit := do
  if !(← accept o) then unexpected

/-- Read something that stands behind an open parenthesis. -/
def inParens {α : Type} (read : Reader α) : Reader α := do
  modify fun s => { s with depth := s.depth + 1 }
  let a ← read
  modify fun s => { s with depth := s.depth - 1 }
  return a

/-- Go on behind the line ends that come next or, if `all`, behind semicolons too. -/
def skipBreaks (all : Bool) : Reader Unit := modify fun s =>
  { s with rest := s.rest.dropWhile fun l =>
      match l.token with
      | .lineEnd => true
      | .op ";" => all
      | _ => false }

def variable_ (name : String) : Reader Variable := do
  let params := (← get).params
  return if params.contains name then .parameter (params.idxOf name) else .shared name

/-- The name that comes next, which is that of a variable. -/
def name : Reader String := do
  match ← peek with
  | some (.word name) =>
    if keywords.contains name || (builtin? name).isSome then unexpected
    else
      advance
      return name
  | _ => unexpected

end Reader

open Reader

/-- A binary operator by how tightly it binds; a `>` is none if `plain`. -/
def binaryOp? (plain : Bool) (o : String) : Option (Nat × (Expr → Expr → Expr)) :=
  match o with
  | "||" => some (1, .or)
  | "&&" => some (2, .and)
  | "~" => some (4, .matches_ false)
  | "!~" => some (4, .matches_ true)
  | "<" => some (5, .binary .less)
  | "<=" => some (5, .binary .atMost)
  | "==" => some (5, .binary .equal)
  | "!=" => some (5, .binary .unequal)
  | ">=" => if plain then none else some (5, .binary .atLeast)
  | ">" => if plain then none else some (5, .binary .greater)
  | "+" => some (7, .binary .add)
  | "-" => some (7, .binary .subtract)
  | "*" => some (8, .binary .multiply)
  | "/" => some (8, .binary .divide)
  | "%" => some (8, .binary .remainder)
  | _ => none

/-- How tightly the operator for members binds, and the joining of texts. -/
def memberLevel : Nat := 3

def joinLevel : Nat := 6

/-- The operator of an assignment, apart from the setting. -/
def assignment? (o : String) : Option (Option BinaryOp) :=
  match o with
  | "=" => some none
  | "+=" => some (some .add)
  | "-=" => some (some .subtract)
  | "*=" => some (some .multiply)
  | "/=" => some (some .divide)
  | "%=" => some (some .remainder)
  | "^=" => some (some .power)
  | _ => none

/-- Can an operand begin with this token that is joined to what stands before it? -/
def beginsJoined : Token → Bool
  | .number _ | .text _ | .regex _ | .call _ => true
  | .word name => !keywords.contains name
  | .op name => ["(", "$", "++", "--"].contains name
  | .lineEnd => false

/-- Can the expression be assigned to? -/
def Expr.isTarget : Expr → Bool
  | .var _ | .element .. | .field _ => true
  | _ => false

/-- Does a simple statement end before this token? -/
def endsStatement : Option Token → Bool
  | none | some .lineEnd => true
  | some (.op name) => [";", "\x7d", ">", ">>", "|"].contains name
  | _ => false

mutual

def expr (plain : Bool) : Nat → Reader Expr
  | 0 => unexpected
  | fuel + 1 => do
    let test ← operand plain fuel 0
    if ← accept "?" then
      skipBreaks false
      let yes ← expr plain fuel
      skipBreaks false
      expect ":"
      skipBreaks false
      return .choice test yes (← expr plain fuel)
    else return test

/-- What operators that bind at least as tightly as `least` hold together. -/
def operand (plain : Bool) : Nat → Nat → Reader Expr
  | 0, _ => unexpected
  | fuel + 1, least => do
    let left ← unary plain fuel
    more plain fuel least left

def more (plain : Bool) : Nat → Nat → Expr → Reader Expr
  | 0, _, _ => unexpected
  | fuel + 1, least, left => do
    let token? ← peek
    let binary? : Option (Nat × (Expr → Expr → Expr)) := match token? with
      | some (.op o) => (binaryOp? plain o).filter fun (level, _) => least ≤ level
      | _ => none
    match binary?, token? with
    | some (level, combine), _ =>
      advance
      if level ≤ 2 then skipBreaks false
      let right ← operand plain fuel (level + 1)
      more plain fuel least (combine left right)
    | none, some (.word "in") =>
      if least ≤ memberLevel then
        advance
        let array ← variable_ (← name)
        more plain fuel least (.member [left] array)
      else return left
    | none, some token =>
      if least ≤ joinLevel && beginsJoined token then
        let right ← operand plain fuel (joinLevel + 1)
        more plain fuel least (.binary .join left right)
      else return left
    | none, none => return left

def unary (plain : Bool) : Nat → Reader Expr
  | 0 => unexpected
  | fuel + 1 => do
    if ← accept "!" then return .unary .not (← unary plain fuel)
    else if ← accept "-" then return .unary .minus (← unary plain fuel)
    else if ← accept "+" then return .unary .plus (← unary plain fuel)
    else
      let base ← assigned plain fuel
      let e ← if ← accept "^" then
          pure (.binary .power base (← unary plain fuel))
        else pure base
      piped fuel e

/-- Records from the command that an expression names. -/
def piped : Nat → Expr → Reader Expr
  | 0, _ => unexpected
  | fuel + 1, e => do
    match ← ahead 2 with
    | [.op "|", .word "getline"] =>
      advance
      advance
      let target ← optionalTarget fuel
      piped fuel (.nextFrom .command e target)
    | _ => return e

/-- A target with its counting or its assignment, or any other operand. -/
def assigned (plain : Bool) : Nat → Reader Expr
  | 0 => unexpected
  | fuel + 1 => do
    let e ← primary fuel
    match e.isTarget, ← peek with
    | true, some (.op "++") =>
      advance
      return .count true false e
    | true, some (.op "--") =>
      advance
      return .count false false e
    | true, some (.op o) =>
      match assignment? o with
      | some op =>
        advance
        skipBreaks false
        return .assign op e (← expr plain fuel)
      | none => return e
    | _, _ => return e

/-- The target that a record is read into, if there is one. -/
def optionalTarget : Nat → Reader (List Expr)
  | 0 => unexpected
  | fuel + 1 => do
    let isTarget := match ← peek with
      | some (.op "$") => true
      | some (.word name) => !keywords.contains name && (builtin? name).isNone
      | _ => false
    if isTarget then return [← primary fuel] else return []

def primary : Nat → Reader Expr
  | 0 => unexpected
  | fuel + 1 => do
    match ← peek with
    | some (.number x) =>
      advance
      return .number x
    | some (.text cs) =>
      advance
      return .text cs
    | some (.regex cs) =>
      match regex? cs with
      | some r =>
        advance
        return .regex r
      | none => unexpected
    | some (.op "$") =>
      advance
      if ← accept "-" then return .field (.unary .minus (← primary fuel))
      else return .field (← primary fuel)
    | some (.op "++") =>
      advance
      return .count true true (← primary fuel)
    | some (.op "--") =>
      advance
      return .count false true (← primary fuel)
    | some (.op "(") =>
      match ← grouping fuel with
      | [e] => return e
      | keys =>
        if ← acceptWord "in" then return .member keys (← variable_ (← name))
        else unexpected
    | some (.call name) =>
      advance
      modify fun s => { s with called := name :: s.called }
      return .call name (← grouping fuel)
    | some (.word "getline") =>
      advance
      let target ← optionalTarget fuel
      if ← accept "<" then
        return .nextFrom .file (← primary fuel) target
      else return .next target
    | some (.word word) =>
      match builtin? word with
      | some f =>
        advance
        match f, ← peek with
        | _, some (.op "(") =>
          let at_ ← line
          let args ← grouping fuel
          let (least, most) := f.arity
          if args.length < least || most < args.length then throw (.wrongCount at_ word)
          return .builtin f args
        | .length, _ => return .builtin f []
        | _, _ => unexpected
      | none =>
        let v ← variable_ (← name)
        if ← accept "[" then
          let keys ← exprs false fuel
          expect "]"
          return .element v keys
        else return .var v
    | _ => unexpected

/-- Expressions between parentheses. -/
def grouping : Nat → Reader (List Expr)
  | 0 => unexpected
  | fuel + 1 => do
    expect "("
    inParens do
      skipBreaks false
      if ← accept ")" then return []
      let es ← exprs false fuel
      skipBreaks false
      expect ")"
      return es

/-- One expression or more, with commas between them. -/
def exprs (plain : Bool) : Nat → Reader (List Expr)
  | 0 => unexpected
  | fuel + 1 => do
    let e ← expr plain fuel
    if ← accept "," then
      skipBreaks false
      return e :: (← exprs plain fuel)
    else return [e]

end

/-- The arguments of a print statement, which may stand between parentheses. -/
def printArgs (fuel : Nat) : Reader (List Expr) := do
  let s ← get
  match (grouping fuel).run s with
  | .ok (args, after) =>
    if endsStatement (after.rest.head?.map (·.token)) then
      set after
      return args
    else exprs true fuel
  | .error _ => if endsStatement (← peek) then return [] else exprs true fuel

def printStmt (fuel : Nat) (formatted : Bool) : Reader Stmt := do
  let args ← printArgs fuel
  if ← accept ">" then return .print formatted args [(.file, ← expr true fuel)]
  else if ← accept ">>" then return .print formatted args [(.append, ← expr true fuel)]
  else if ← accept "|" then return .print formatted args [(.command, ← expr true fuel)]
  else return .print formatted args []

/-- An expression, unless the statement ends here. -/
def optionalExpr (fuel : Nat) : Reader (List Expr) := do
  if endsStatement (← peek) then return [] else return [← expr false fuel]

/-- A statement that is one word, which only the scope of records has. -/
def forRecords (name : String) (s : Stmt) : Reader Stmt := do
  if (← get).scope = .record then return s else throw (.improper (← line) name)

/-- A statement that is one word, which only loops have. -/
def forLoops (name : String) (s : Stmt) : Reader Stmt := do
  if (← get).loops = 0 then throw (.outside (← line) s!"{name} statement" "of loop") else return s

/-- A statement that no other stands in. -/
def simpleStmt (fuel : Nat) : Reader Stmt := do
  if ← acceptWord "print" then printStmt fuel false
  else if ← acceptWord "printf" then printStmt fuel true
  else if ← acceptWord "next" then forRecords "next" .next
  else if ← acceptWord "nextfile" then forRecords "nextfile" .nextFile
  else if ← acceptWord "break" then forLoops "break" .leaveLoop
  else if ← acceptWord "continue" then forLoops "continue" .nextRound
  else if ← acceptWord "exit" then return .exit (← optionalExpr fuel)
  else if ← acceptWord "return" then
    if (← get).scope ≠ .function then throw (.outside (← line) "return" "function body")
    return .giveBack (← optionalExpr fuel)
  else if ← acceptWord "delete" then
    let v ← variable_ (← name)
    if ← accept "[" then
      let keys ← exprs false fuel
      expect "]"
      return .delete v keys
    else return .delete v []
  else return .eval (← expr false fuel)

/-- The end of a simple statement. -/
def stmtEnd : Reader Unit := do
  match ← peek with
  | some (.op ";") | some .lineEnd => advance
  | some (.op "\x7d") | none => return ()
  | _ => unexpected

mutual

def stmt : Nat → Reader Stmt
  | 0 => unexpected
  | fuel + 1 => do
    if ← accept "\x7b" then return .block (← stmts fuel)
    else if ← accept ";" then return .block []
    else if ← acceptWord "if" then
      let test ← condition fuel
      let yes ← stmt fuel
      let s ← get
      skipBreaks true
      if ← acceptWord "else" then
        skipBreaks false
        return .cond test yes (← stmt fuel)
      else
        set s
        return .cond test yes (.block [])
    else if ← acceptWord "while" then
      let test ← condition fuel
      return .loop test (.block []) (← body fuel)
    else if ← acceptWord "do" then
      let repeated ← body fuel
      skipBreaks true
      if !(← acceptWord "while") then unexpected
      let test ← condition fuel
      return .loopOnce repeated test
    else if ← acceptWord "for" then loop fuel
    else
      let s ← simpleStmt fuel
      stmtEnd
      return s

/-- The body of a loop. -/
def body : Nat → Reader Stmt
  | 0 => unexpected
  | fuel + 1 => do
    skipBreaks false
    modify fun s => { s with loops := s.loops + 1 }
    let s ← stmt fuel
    modify fun s => { s with loops := s.loops - 1 }
    return s

/-- A test between parentheses. -/
def condition : Nat → Reader Expr
  | 0 => unexpected
  | fuel + 1 => do
    match ← grouping fuel with
    | [test] =>
      match ← peek with
      | some .lineEnd => skipBreaks false
      | _ => pure ()
      return test
    | _ => unexpected

/-- A loop behind its first word. -/
def loop : Nat → Reader Stmt
  | 0 => unexpected
  | fuel + 1 => do
    expect "("
    match ← ahead 4 with
    | [.word key, .word "in", .word array, .op ")"] =>
      modify fun s => { s with rest := s.rest.drop 4 }
      let key ← variable_ key
      let array ← variable_ array
      return .loopKeys key array (← body fuel)
    | _ =>
      let first ← if ← accept ";" then pure (.block []) else do
        let s ← simpleStmt fuel
        expect ";"
        pure s
      skipBreaks false
      let test ← if ← accept ";" then pure (.number 1) else do
        let e ← expr false fuel
        expect ";"
        pure e
      skipBreaks false
      let step ← if ← accept ")" then pure (.block []) else inParens do
        let s ← simpleStmt fuel
        expect ")"
        pure s
      return .block [first, .loop test step (← body fuel)]

/-- Statements up to a closing brace. -/
def stmts : Nat → Reader (List Stmt)
  | 0 => unexpected
  | fuel + 1 => do
    skipBreaks true
    match ← peek with
    | none => unexpected
    | some (.op "\x7d") =>
      advance
      return []
    | _ =>
      let s ← stmt fuel
      return s :: (← stmts fuel)

end

/-- The names of the parameters of a function. -/
def params : Nat → Reader (List String)
  | 0 => unexpected
  | fuel + 1 => do
    if ← accept ")" then return []
    let p ← name
    if ← accept "," then skipBreaks false
    return p :: (← params fuel)

/-- Statements between braces. -/
def action (scope : Scope) (fuel : Nat) : Reader Stmt := do
  expect "\x7b"
  modify fun s => { s with scope }
  return .block (← stmts fuel)

def function (fuel : Nat) : Reader (String × Function) := do
  let name ← match ← peek with
    | some (.call name) | some (.word name) => pure name
    | _ => unexpected
  advance
  expect "("
  let params ← inParens (params fuel)
  skipBreaks false
  modify fun s => { s with params }
  let body ← action .function fuel
  modify fun s => { s with params := [] }
  return (name, ⟨params.length, body⟩)

/-- The action of a rule without one. -/
def printRecord : Stmt := .print false [] []

def rule (fuel : Nat) : Reader Rule := do
  if ← acceptWord "BEGIN" then return ⟨.atStart, ← action .edge fuel⟩
  else if ← acceptWord "END" then return ⟨.atEnd, ← action .edge fuel⟩
  else
    let pattern ← match ← peek with
      | some (.op "\x7b") => pure Pattern.always
      | _ => do
        let first ← expr false fuel
        if ← accept "," then
          skipBreaks false
          pure (.range first (← expr false fuel))
        else pure (.test first)
    match ← peek with
    | some (.op "\x7b") => return ⟨pattern, ← action .record fuel⟩
    | some (.op ";") | some .lineEnd | none => return ⟨pattern, printRecord⟩
    | _ => unexpected

def program : Nat → Reader Program
  | 0 => unexpected
  | fuel + 1 => do
    skipBreaks true
    if (← peek).isNone then return ⟨[], []⟩
    else if ← acceptWord "function" then
      let f ← function fuel
      let p ← program fuel
      return { p with functions := f :: p.functions }
    else
      let r ← rule fuel
      let p ← program fuel
      return { p with rules := r :: p.rules }

/-- Read a program, all of whose functions must be defined. -/
def Program.parse (cs : List Char) : Except Complaint Program := do
  let lastLine := 2 + cs.count '\n'
  let ls ← lexemes cs.length 1 none cs
  let (p, s) ← (program (12 * ls.length + 40)).run ⟨ls, lastLine, [], [], .edge, 0, 0⟩
  match s.called.reverse.find? fun name => (p.functions.lookup name).isNone with
  | some name => throw (.undefinedFunction lastLine name)
  | none => return p

end LayeredSets.Tool.Awk
