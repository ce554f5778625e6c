import LayeredSets.Smt.Solver
import Mathlib.Tactic

/-!
# The language of solvers

The part of SMT-LIB that speaks of truth values and bit vectors: which commands a text consists of,
which terms have a sort, what a term comes to if the constants have certain values, and when a
script has a model. A text outside of this part is not read at all, so nothing is assumed of a
solver that is given one.
-/

namespace LayeredSets.SmtLib

/-! ## Text -/

inductive Sexp
  | atom (word : String)
  | list (items : List Sexp)

def isLineBreak (c : Char) : Bool := c == '\n' || c == '\r'

def isSpace (c : Char) : Bool := c == ' ' || c == '\t' || isLineBreak c

/-- Drop the comments, which go from a semicolon to the end of the line. -/
def uncomment : (inside : Bool) → List Char → List Char
  | _, [] => []
  | true, c :: cs => if isLineBreak c then c :: uncomment false cs else uncomment true cs
  | false, c :: cs => if c == ';' then uncomment true cs else c :: uncomment false cs

/-- The word that was being read ends here. -/
def endWord (items : List Sexp) (word : List Char) : List Sexp :=
  if word.isEmpty then items else items ++ [.atom (String.ofList word)]

/-- Read expressions. `outer` holds what has been read of the lists that are open around the
innermost one, `items` what has been read of that one, and `word` what has been read of a word. Texts
with quotation marks are left out. -/
def readFrom : (outer : List (List Sexp)) → (items : List Sexp) → (word : List Char) →
    List Char → Option (List Sexp)
  | outer, items, word, [] => if outer.isEmpty then some (endWord items word) else none
  | outer, items, word, c :: cs =>
    if isSpace c then readFrom outer (endWord items word) [] cs
    else if c == '(' then readFrom (endWord items word :: outer) [] [] cs
    else if c == ')' then
      match outer with
      | [] => none
      | before :: outer => readFrom outer (before ++ [.list (endWord items word)]) [] cs
    else if c == '"' || c == '|' then none
    else readFrom outer items (word ++ [c]) cs

def readText (text : String) : Option (List Sexp) := readFrom [] [] [] (uncomment false text.toList)

/-! ## Terms -/

inductive Term
  | constant (value : Bool)
  | symbol (name : String)
  | literal (value width : Nat)
  | equal (a b : Term)
  | or (a b : Term)
  | and (a b : Term)
  | xor (a b : Term)
  | not (a : Term)
  | exists (name : String) (width : Nat) (body : Term)
  deriving DecidableEq

/-- A number as it is printed, without leading zeros. -/
def numeral? (word : String) : Option Nat :=
  let n := Nat.ofDigitChars 10 word.toList 0
  if toString n = word then some n else none

/-- A letter and digits. No reserved word and no name of a function is of this form. -/
def isSymbol (word : String) : Bool :=
  match word.toList with
  | c :: d :: ds => c.isAlpha && d.isDigit && ds.all Char.isDigit
  | _ => false

/-- The width of a sort of bit vectors. -/
def width? : Sexp → Option Nat
  | .list [.atom mark, .atom sort, .atom width] =>
    if mark = "_" ∧ sort = "BitVec" then numeral? width else none
  | _ => none

/-- The one symbol that a quantifier binds, and its width. -/
def binder? : Sexp → Option (String × Nat)
  | .list [.list [.atom name, sort]] => do return (name, ← width? sort)
  | _ => none

def Term.literal? : Sexp → Sexp → Option Term
  | .atom value, .atom width =>
    match value.toList with
    | 'b' :: 'v' :: digits => do
      return .literal (← numeral? (String.ofList digits)) (← numeral? width)
    | _ => none
  | _, _ => none

def Term.connective? (word : String) : Option (Term → Term → Term) :=
  if word = "=" then some .equal
  else if word = "or" then some .or
  else if word = "and" then some .and
  else if word = "xor" then some .xor
  else none

def Term.read? : Sexp → Option Term
  | .atom word =>
    if word = "true" then some (.constant true)
    else if word = "false" then some (.constant false)
    else if isSymbol word then some (.symbol word)
    else none
  | .list [.atom word, a] => if word = "not" then do return .not (← Term.read? a) else none
  | .list [.atom word, a, b] =>
    if word = "_" then Term.literal? a b
    else if word = "exists" then do
      let (name, width) ← binder? a
      return .exists name width (← Term.read? b)
    else do return (← Term.connective? word) (← Term.read? a) (← Term.read? b)
  | _ => none

/-- The term that a whole text says. -/
def Term.ofText? (text : String) : Option Term := do
  match ← readText text with
  | [s] => Term.read? s
  | _ => none

inductive Ty
  | bool
  | bits (width : Nat)
  deriving DecidableEq

/-- The sort of a term, where the symbols in scope stand for bit vectors of these widths. -/
def Term.sort? (scope : String → Option Nat) : Term → Option Ty
  | constant _ => some .bool
  | symbol name => (scope name).map .bits
  | literal value width => if 0 < width ∧ value < 2 ^ width then some (.bits width) else none
  | equal a b =>
    match a.sort? scope, b.sort? scope with
    | some s, some t => if s = t then some .bool else none
    | _, _ => none
  | or a b | and a b | xor a b =>
    if a.sort? scope = some .bool ∧ b.sort? scope = some .bool then some .bool else none
  | not a => if a.sort? scope = some .bool then some .bool else none
  | «exists» name width body =>
    if isSymbol name ∧ 0 < width ∧
      body.sort? (Function.update scope name (some width)) = some .bool then some .bool else none

def Term.free : Term → Set String
  | constant _ | literal _ _ => ∅
  | symbol name => {name}
  | equal a b | or a b | and a b | xor a b => a.free ∪ b.free
  | not a => a.free
  | «exists» name _ body => body.free \ {name}

inductive Value
  | bool (value : Bool)
  | bits (width : Nat) (value : BitVec width)

open Classical in
/-- What a term comes to, where the symbols stand for these values. -/
noncomputable def Term.eval (values : String → Value) : Term → Value
  | constant value => .bool value
  | symbol name => values name
  | literal value width => .bits width (BitVec.ofNat width value)
  | equal a b => .bool (decide (a.eval values = b.eval values))
  | or a b => .bool (decide (a.eval values = .bool true ∨ b.eval values = .bool true))
  | and a b => .bool (decide (a.eval values = .bool true ∧ b.eval values = .bool true))
  | xor a b => .bool (decide (Xor (a.eval values = .bool true) (b.eval values = .bool true)))
  | not a => .bool (decide (a.eval values ≠ .bool true))
  | «exists» name width body =>
    .bool (decide (∃ x : BitVec width,
      body.eval (Function.update values name (.bits width x)) = .bool true))

/-! ## Scripts -/

/-- Constants with the widths of the bit vectors that they stand for. -/
abbrev Constants : Type := List (String × Nat)

def Constants.scope (constants : Constants) (name : String) : Option Nat := constants.lookup name

/-- The constants have values of their sorts, which are these numbers. -/
def Constants.Gives (constants : Constants) (values : String → Value) (numbers : List Nat) : Prop :=
  List.Forall₂ (fun n c => ∃ x : BitVec c.2, values c.1 = .bits c.2 x ∧ x.toNat = n)
    numbers constants

/-- The models of a formula, as far as the constants are concerned. -/
def Term.models (t : Term) (constants : Constants) : Set (List Nat) :=
  {numbers | ∃ values, constants.Gives values numbers ∧ t.eval values = .bool true}

/-- What a script asks: can the constants have values such that all that is asserted is true? -/
structure Problem where
  constants : Constants
  asserted : List Term
  deriving DecidableEq

def Problem.Satisfiable (p : Problem) : Prop :=
  ∃ values numbers, p.constants.Gives values numbers ∧
    ∀ t ∈ p.asserted, t.eval values = .bool true

inductive Command
  | declareConst (name : String) (width : Nat)
  | assert (t : Term)
  | checkSat
  | exit

def Command.read? : Sexp → Option Command
  | .list [.atom word] =>
    if word = "check-sat" then some .checkSat else if word = "exit" then some .exit else none
  | .list [.atom word, t] => if word = "assert" then do return .assert (← Term.read? t) else none
  | .list [.atom word, .atom name, sort] =>
    if word = "declare-const" then do return .declareConst name (← width? sort) else none
  | _ => none

/-- Go on with more commands. A constant must be declared before it is used and only once, and what
is asserted must be a formula. The one question comes last. -/
def Problem.ofCommands? (p : Problem) : List Command → Option Problem
  | [.checkSat, .exit] => some p
  | .declareConst name width :: commands =>
    if isSymbol name ∧ 0 < width ∧ p.constants.scope name = none then
      ofCommands? { p with constants := p.constants ++ [(name, width)] } commands
    else none
  | .assert t :: commands =>
    if t.sort? p.constants.scope = some .bool then
      ofCommands? { p with asserted := p.asserted ++ [t] } commands
    else none
  | _ => none

def Problem.read? (text : String) : Option Problem := do
  let items ← readText text
  let commands ← items.mapM Command.read?
  ofCommands? ⟨[], []⟩ commands

/-- The solver answers every question, and rightly so. -/
def Decides (solver : Solver) : Prop :=
  ∀ text p host, Problem.read? text = some p →
    (p.Satisfiable → (solver.ask text host).1 = .ok .sat) ∧
      (¬ p.Satisfiable → (solver.ask text host).1 = .ok .unsat)

end LayeredSets.SmtLib
