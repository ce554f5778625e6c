/-!
# Command trees

What a script is made of. Words are kept as they are written, quotes and all, and are expanded only
when their command is run. There are two dialects: the plain one, and an extended one with lists,
conditions, computations and more ways of putting in values.
-/

namespace LayeredSets.Shell

inductive Dialect
  | plain
  | extended
  deriving DecidableEq, Repr

/-- A word as it is written. -/
abbrev Word : Type := List Char

inductive RedirectionKind
  | read
  | write
  | append
  | readWrite
  | duplicate
  /-- A document that stands in the script itself. -/
  | document (expands : Bool)
  /-- A word as a line of its own. -/
  | line
  deriving DecidableEq, Repr

structure Redirection where
  descriptor : Nat
  kind : RedirectionKind
  target : Word
  deriving DecidableEq, Repr

/-- What is given a value: a variable, or an element of a list. -/
structure Target where
  name : String
  index : Option Word
  deriving DecidableEq, Repr

/-- A value that a variable is set to, or that is put behind the one it has. In parentheses stand
the elements of a list. -/
structure Setting where
  target : Target
  appends : Bool
  value : Word
  deriving DecidableEq, Repr

/-- What is asked between double brackets. -/
inductive Condition
  | unary (op : String) (word : Word)
  | binary (op : String) (left right : Word)
  | negate (c : Condition)
  | both (a b : Condition)
  | either (a b : Condition)
  deriving Repr

/-- What follows a branch that has been run. -/
inductive BranchEnd
  | leave
  /-- The next branch is run, whatever its patterns are. -/
  | fall
  /-- The patterns of the other branches are tried. -/
  | goOn
  deriving DecidableEq, Repr

/-- A command; lines are those that complaints name. -/
inductive Command
  | nothing
  | simple (line : Nat) (settings : List Setting) (words : List Word)
      (redirections : List Redirection)
  /-- Commands each of which reads what the one before it prints. -/
  | pipe (commands : List Command)
  | negate (c : Command)
  | both (a b : Command)
  | either (a b : Command)
  | sequence (a b : Command)
  | background (c : Command)
  | redirected (line : Nat) (c : Command) (redirections : List Redirection)
  | subshell (c : Command)
  | choice (condition a b : Command)
  /-- Repeat `body` as long as `condition` succeeds, or until it does. -/
  | loop (untilSuccess : Bool) (condition body : Command)
  /-- Repeat `body` for each of the words, or of the parameters. -/
  | each (name : String) (words : Option (List Word)) (body : Command)
  /-- Repeat `body` as long as an expression is not zero. -/
  | counted (line : Nat) (start condition step : Word) (body : Command)
  | cases (subject : Word) (branches : List (List Word × Command × BranchEnd))
  | define (name : String) (body : Command)
  | condition (line : Nat) (c : Condition)
  | calculation (line : Nat) (expression : Word)

def isNameStart (c : Char) : Bool := c.isAlpha || c == '_'

def isNameChar (c : Char) : Bool := c.isAlphanum || c == '_'

def isName (cs : List Char) : Bool :=
  cs.head?.any isNameStart && cs.all isNameChar

end LayeredSets.Shell
