/-!
# Scripts

A script declares variables, names sets and asks questions about them. Names are resolved only when
the script runs.

Printed, every operation is put in parentheses, so that the text reads back as the same tree.
-/

namespace LayeredSets

inductive Expr
  | top
  | bottom
  | name (name : String)
  | equalsValue (var : String) (value : UInt64)
  | equalsVar (a b : String)
  | point (values : List UInt64)
  | union (a b : Expr)
  | intersect (a b : Expr)
  | difference (a b : Expr)
  | complement (a : Expr)
  | exists (var : String) (body : Expr)
  deriving DecidableEq, Repr

inductive Query
  | empty (a : Expr)
  | equal (a b : Expr)
  | subset (a b : Expr)
  deriving DecidableEq, Repr

inductive Command
  | var (name : String) (bits : UInt32)
  | define (name : String) (expr : Expr)
  | print (query : Query)
  | assert (query : Query)
  deriving DecidableEq, Repr

structure Statement where
  /-- The line of the statement's first token. -/
  line : Nat
  command : Command
  deriving DecidableEq, Repr

abbrev Script : Type := List Statement

namespace Script

/-- Words that cannot be used as names. -/
def keywords : List String :=
  ["var", "let", "print", "assert", "empty", "equal", "subset", "top", "bottom", "exists"]

end Script

def Expr.text : Expr → String
  | top => "top"
  | bottom => "bottom"
  | name n => n
  | equalsValue var value => s!"{var} == {value}"
  | equalsVar a b => s!"{a} == {b}"
  | point values => "\x7b" ++ ", ".intercalate (values.map toString) ++ "\x7d"
  | union a b => s!"({a.text} | {b.text})"
  | intersect a b => s!"({a.text} & {b.text})"
  | difference a b => s!"({a.text} - {b.text})"
  | complement a => s!"!({a.text})"
  | .exists var body => s!"(exists {var} . {body.text})"

def Query.text : Query → String
  | empty a => s!"empty({a.text})"
  | equal a b => s!"equal({a.text}, {b.text})"
  | subset a b => s!"subset({a.text}, {b.text})"

end LayeredSets
