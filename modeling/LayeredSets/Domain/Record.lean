import LayeredSets.Domain.Basic
import LayeredSets.Text.Json

/-!
# Records of calls

The text and the JSON form of a call and of the reply to it, as they stand in logs and printouts.
-/

namespace LayeredSets

/-- What a successful call returned. -/
inductive Reply
  | var (var : VarId)
  | set (set : SetId)
  | bool (answer : Bool)
  | unit
  deriving DecidableEq, Repr

def Answer.reply : (k : Answer) → k.Value → Reply
  | .var, v => .var v
  | .set, s => .set s
  | .bool, b => .bool b
  | .unit, () => .unit

/-- The outcome of a call as an onlooker sees it. -/
abbrev Outcome : Type := Except DomainError Reply

def Reply.text : Reply → String
  | .var v => v.text
  | .set s => s.text
  | .bool b => toString b
  | .unit => "ok"

def Reply.json : Reply → Text.Json
  | .var v => .object [("var", .number v.index.toNat)]
  | .set s => .object [("set", .number s.index.toNat)]
  | .bool b => .object [("bool", .bool b)]
  | .unit => .string "unit"

namespace Call

variable {k : Answer}

/-- The name of the operation. -/
def kind : Call k → String
  | declare .. => "declare"
  | top => "top"
  | bottom => "bottom"
  | varEqConst .. => "var_eq_const"
  | varEqVar .. => "var_eq_var"
  | singleton .. => "singleton"
  | union .. => "union"
  | intersect .. => "intersect"
  | difference .. => "difference"
  | complement .. => "complement"
  | .exists .. => "exists"
  | isEmpty .. => "is_empty"
  | equal .. => "equal"
  | subset .. => "subset"
  | release .. => "release"

/-- The arguments, each as text. -/
def arguments : Call k → List String
  | declare name bits => [name, toString bits]
  | top | bottom => []
  | varEqConst var value => [var.text, toString value]
  | varEqVar a b => [a.text, b.text]
  | singleton point => ["[" ++ ", ".intercalate (point.map toString) ++ "]"]
  | union a b | intersect a b | difference a b | equal a b | subset a b => [a.text, b.text]
  | complement a => [a.text]
  | .exists set var => [set.text, var.text]
  | isEmpty set | release set => [set.text]

def text (call : Call k) : String := call.kind ++ "(" ++ ", ".intercalate call.arguments ++ ")"

/-- The arguments as members of a JSON object. -/
def jsonArguments : Call k → List (String × Text.Json)
  | declare name bits => [("name", .string name), ("bits", .number bits.toNat)]
  | top | bottom => []
  | varEqConst var value => [("var", .number var.index.toNat), ("value", .number value.toNat)]
  | varEqVar a b => [("a", .number a.index.toNat), ("b", .number b.index.toNat)]
  | singleton point => [("point", .array (point.map fun value => .number value.toNat))]
  | union a b | intersect a b | difference a b | equal a b | subset a b =>
    [("a", .number a.index.toNat), ("b", .number b.index.toNat)]
  | complement a => [("a", .number a.index.toNat)]
  | .exists set var => [("set", .number set.index.toNat), ("var", .number var.index.toNat)]
  | isEmpty set | release set => [("set", .number set.index.toNat)]

/-- The members of the JSON object that stands for the call. -/
def jsonMembers (call : Call k) : List (String × Text.Json) :=
  ("op", .string call.kind) :: call.jsonArguments

def json (call : Call k) : Text.Json := .object call.jsonMembers

end Call

/-- The member of a log record that tells the outcome. -/
def outcomeMember : Outcome → String × Text.Json
  | .ok reply => ("reply", reply.json)
  | .error e => ("error", .string e.message)

end LayeredSets
