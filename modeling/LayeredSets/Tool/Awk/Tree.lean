import LayeredSets.Tool.Regex

/-!
# Programs of patterns and actions

The language of `awk`: rules that are tried on every record of the input, each with a pattern and an
action. Expressions have texts and numbers for values, which are turned into each other as needed.
-/

namespace LayeredSets.Tool.Awk

/-- A variable: one of the whole program, or a parameter of the function that is running. -/
inductive Variable
  | shared (name : String)
  | parameter (index : Nat)
  deriving DecidableEq, Repr

inductive BinaryOp
  | add | subtract | multiply | divide | remainder | power
  | less | atMost | equal | unequal | greater | atLeast
  /-- The texts of both, one after the other. -/
  | join
  deriving DecidableEq, Repr

inductive UnaryOp
  | plus | minus | not
  deriving DecidableEq, Repr

/-- The functions that there are in every program. -/
inductive Builtin
  | length | substr | index | split | sub | gsub | match_ | sprintf
  | sin | cos | atan2 | exp | log | sqrt | int | rand | srand
  | tolower | toupper | system | close | fflush
  deriving DecidableEq, Repr

/-- How many arguments a function has, at least and at most. -/
def Builtin.arity : Builtin → Nat × Nat
  | length => (0, 1)
  | substr => (2, 3)
  | index | match_ | atan2 => (2, 2)
  | split | sub | gsub => (2, 3)
  | sprintf => (1, 1000)
  | sin | cos | exp | log | sqrt | int | tolower | toupper | system | close => (1, 1)
  | rand => (0, 0)
  | srand | fflush => (0, 1)

/-- Where a record can be read from, other than the input of the program. -/
inductive SourceKind
  | file
  /-- The output of a command. -/
  | command
  deriving DecidableEq, Repr

inductive Expr
  | number (x : Float)
  | text (cs : List Char)
  | regex (r : Regex)
  | var (v : Variable)
  | element (array : Variable) (keys : List Expr)
  | field (index : Expr)
  | assign (op : Option BinaryOp) (target value : Expr)
  /-- Count up or down; the value is that before or that after. -/
  | count (up after : Bool) (target : Expr)
  | unary (op : UnaryOp) (e : Expr)
  | binary (op : BinaryOp) (a b : Expr)
  | and (a b : Expr)
  | or (a b : Expr)
  | matches_ (negated : Bool) (subject pattern : Expr)
  | member (keys : List Expr) (array : Variable)
  | choice (test yes no : Expr)
  | call (name : String) (args : List Expr)
  | builtin (f : Builtin) (args : List Expr)
  /-- Read the next record, into a target or as the record that is worked on. -/
  | next (target : List Expr)
  | nextFrom (kind : SourceKind) (source : Expr) (target : List Expr)

/-- Where printing goes. -/
inductive SinkKind
  | file
  /-- The end of a file. -/
  | append
  /-- The input of a command. -/
  | command
  deriving DecidableEq, Repr

inductive Stmt
  | eval (e : Expr)
  /-- Print values or, if `formatted`, the values behind a format. -/
  | print (formatted : Bool) (args : List Expr) (sink : List (SinkKind × Expr))
  | block (body : List Stmt)
  | cond (test : Expr) (yes no : Stmt)
  /-- A loop with what is done after each round. -/
  | loop (test : Expr) (step body : Stmt)
  /-- A loop that runs its body before the first test. -/
  | loopOnce (body : Stmt) (test : Expr)
  | loopKeys (key array : Variable) (body : Stmt)
  | next
  | nextFile
  | leaveLoop
  | nextRound
  | exit (status : List Expr)
  | giveBack (value : List Expr)
  | delete (array : Variable) (keys : List Expr)

/-- When the action of a rule is run. -/
inductive Pattern
  | atStart
  | atEnd
  | always
  | test (e : Expr)
  | range (first last : Expr)

structure Rule where
  pattern : Pattern
  action : Stmt

structure Function where
  /-- How many parameters it has. -/
  arity : Nat
  body : Stmt

structure Program where
  rules : List Rule
  functions : List (String × Function)

end LayeredSets.Tool.Awk
