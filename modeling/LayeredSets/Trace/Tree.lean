/-!
# Traces

A trace replays calls on a domain, one step a line. Its handles are names of its own: each step
that makes a variable or a set gives it a name, and later steps refer to it by that.
-/

namespace LayeredSets.Trace

/-- How a set is made. -/
inductive Definition
  | top
  | bottom
  | const (var : String) (value : UInt64)
  | eqvar (a b : String)
  | single (values : List UInt64)
  | union (a b : String)
  | inter (a b : String)
  | diff (a b : String)
  | compl (a : String)
  | exists (set var : String)
  deriving DecidableEq, Repr

inductive Query
  | empty (set : String)
  | equal (a b : String)
  | subset (a b : String)
  deriving DecidableEq, Repr

inductive Op
  | declare (target name : String) (bits : UInt32)
  | define (target : String) (definition : Definition)
  /-- A question, with the answer that is expected if one was recorded. -/
  | query (query : Query) (expected : Option Bool)
  | release (handle : String)
  deriving DecidableEq, Repr

structure Step where
  line : Nat
  op : Op
  deriving DecidableEq, Repr

def Query.text : Query → String
  | empty set => s!"empty {set}"
  | equal a b => s!"equal {a} {b}"
  | subset a b => s!"subset {a} {b}"

end LayeredSets.Trace

namespace LayeredSets

abbrev Trace : Type := List Trace.Step

end LayeredSets
