import LayeredSets.Proofs.Script.Complete
import LayeredSets.Proofs.Token.Words
import LayeredSets.Script.Tree

/-!
# Printed expressions and queries

What is printed for an expression has the tokens of an operand that means the expression. Every
operation is printed in parentheses, but for a comparison, which is an operand as it stands.
-/

namespace LayeredSets

/-- All names in an expression. -/
def Expr.names : Expr → List String
  | top | bottom | point _ => []
  | name n => [n]
  | equalsValue var _ => [var]
  | equalsVar a b => [a, b]
  | union a b | intersect a b | difference a b => a.names ++ b.names
  | complement a => a.names
  | .exists var body => var :: body.names

def Query.names : Query → List String
  | empty a => a.names
  | equal a b | subset a b => a.names ++ b.names

namespace Script

/-- A name that can be read back: it has the form of a name and is not reserved. -/
def IsIdentifier (name : String) : Prop := isName name = true ∧ name ∉ keywords

open Tokens

/-- An operand that stands alone. -/
def Derivation.alone (d : Derivation .unary) : Derivation .expr := .expr (.term d .noUnaries) .noTerms

section

variable {a b : List Char} {tokens tokens' : List Token} {rest : List Char}

/-- Something in parentheses. -/
theorem lexes_group (ha : ∀ rest, Stops rest → Lexes a tokens rest) (rest : List Char) :
    Lexes ('(' :: (a ++ [')'])) (.symbol '(' :: (tokens ++ [.symbol ')'])) rest :=
  have hclose : Lexes [')'] [.symbol ')'] rest :=
    Lexes.lastSymbol (by decide) (by decide) (by decide)
  ((ha _ (stops_cons (by decide) _)).append hclose).symbol (by decide) (by decide) (by decide)

/-- Two operands with a symbol between them, which may be a minus sign. -/
theorem lexes_binary {c : Char} (hc : c ∈ Piece.symbols)
    (ha : ∀ rest, Stops rest → Lexes a tokens rest)
    (hb : ∀ rest, Stops rest → Lexes b tokens' rest) (rest : List Char) (hrest : Stops rest) :
    Lexes (a ++ ' ' :: c :: ' ' :: b) (tokens ++ .symbol c :: tokens') rest :=
  (ha _ (stops_cons (by decide) _)).append ((hb rest hrest).symbol_blank hc).blank

end

theorem exists_printed (e : Expr) (hnames : ∀ n ∈ e.names, IsIdentifier n) :
    ∃ d : Derivation .unary, d.meaning = e ∧
      ∀ rest, Stops rest → Lexes e.text.toList d.tokens rest := by
  induction e with
  | top =>
    refine ⟨.unary .top, rfl, fun rest hrest => ?_⟩
    exact Lexes.lastWord (by decide +kernel) hrest
  | bottom =>
    refine ⟨.unary .bottom, rfl, fun rest hrest => ?_⟩
    exact Lexes.lastWord (by decide +kernel) hrest
  | name n =>
    obtain ⟨hname, hfree⟩ := hnames n (by simp [Expr.names])
    refine ⟨.unary (.name ⟨n, hfree⟩), rfl, fun rest hrest => ?_⟩
    exact Lexes.lastWord hname hrest
  | equalsValue var value =>
    obtain ⟨hvar, hfree⟩ := hnames var (by simp [Expr.names])
    refine ⟨.unary (.equalsValue ⟨var, hfree⟩ value), rfl, fun rest hrest => ?_⟩
    have hequals :=
      (Lexes.lastNumber value hrest).blank.equals.blank.word hvar (stops_cons (by decide) _)
    simpa [Expr.text, toString_self, Derivation.tokens, String.toList_append] using hequals
  | equalsVar a b =>
    obtain ⟨ha, hafree⟩ := hnames a (by simp [Expr.names])
    obtain ⟨hb, hbfree⟩ := hnames b (by simp [Expr.names])
    refine ⟨.unary (.equalsVar ⟨a, hafree⟩ ⟨b, hbfree⟩), rfl, fun rest hrest => ?_⟩
    have hequals :=
      (Lexes.lastWord hb hrest).blank.equals.blank.word ha (stops_cons (by decide) _)
    simpa [Expr.text, toString_self, Derivation.tokens, String.toList_append] using hequals
  | point values =>
    refine ⟨.unary (.point values), rfl, fun rest hrest => ?_⟩
    have hclose : Lexes ['}'] [.symbol '}'] rest :=
      Lexes.lastSymbol (by decide) (by decide) (by decide)
    have htext : (Expr.point values).text.toList =
        '{' :: ((", ".intercalate (values.map toString)).toList ++ ['}']) := by
      simp [Expr.text, String.toList_append]
    rw [htext]
    refine Lexes.symbol (by decide) (by decide) (by decide) ?_
    cases values with
    | nil => simpa [Derivation.listTokens] using hclose
    | cons value values => exact hclose.numbers value values (stops_cons (by decide) _)
  | union a b iha ihb =>
    obtain ⟨da, rfl, ha⟩ := iha fun n hn => hnames n (by simp [Expr.names, hn])
    obtain ⟨db, rfl, hb⟩ := ihb fun n hn => hnames n (by simp [Expr.names, hn])
    refine ⟨.unary (.group (.expr (.term da .noUnaries)
      (.union (.term db .noUnaries) .noTerms))), rfl, fun rest _ => ?_⟩
    have h := lexes_group (lexes_binary (show '|' ∈ Piece.symbols by decide) ha hb) rest
    simpa [Expr.text, toString_self, Derivation.tokens, String.toList_append] using h
  | intersect a b iha ihb =>
    obtain ⟨da, rfl, ha⟩ := iha fun n hn => hnames n (by simp [Expr.names, hn])
    obtain ⟨db, rfl, hb⟩ := ihb fun n hn => hnames n (by simp [Expr.names, hn])
    refine ⟨.unary (.group (.expr (.term da (.intersect db .noUnaries)) .noTerms)), rfl,
      fun rest _ => ?_⟩
    have h := lexes_group (lexes_binary (show '&' ∈ Piece.symbols by decide) ha hb) rest
    simpa [Expr.text, toString_self, Derivation.tokens, String.toList_append] using h
  | difference a b iha ihb =>
    obtain ⟨da, rfl, ha⟩ := iha fun n hn => hnames n (by simp [Expr.names, hn])
    obtain ⟨db, rfl, hb⟩ := ihb fun n hn => hnames n (by simp [Expr.names, hn])
    refine ⟨.unary (.group (.expr (.term da .noUnaries)
      (.difference (.term db .noUnaries) .noTerms))), rfl, fun rest _ => ?_⟩
    have h := lexes_group (lexes_binary (show '-' ∈ Piece.symbols by decide) ha hb) rest
    simpa [Expr.text, toString_self, Derivation.tokens, String.toList_append] using h
  | complement a ih =>
    obtain ⟨d, rfl, h⟩ := ih fun n hn => hnames n (by simpa [Expr.names] using hn)
    refine ⟨.complement (.unary (.group d.alone)), rfl, fun rest _ => ?_⟩
    have hnot := (lexes_group h rest).symbol (c := '!') (by decide) (by decide) (by decide)
    simpa [Expr.text, toString_self, Derivation.tokens, Derivation.alone, String.toList_append] using hnot
  | «exists» var body ih =>
    obtain ⟨hvar, hfree⟩ := hnames var (by simp [Expr.names])
    obtain ⟨d, rfl, h⟩ := ih fun n hn => hnames n (by simp [Expr.names, hn])
    let quantified : Derivation .unary := .unary (.exists ⟨var, hfree⟩ d)
    refine ⟨.unary (.group quantified.alone), rfl, fun rest _ => ?_⟩
    have hinner (rest : List Char) (hrest : Stops rest) :
        Lexes ("exists".toList ++ ' ' :: (var.toList ++ ' ' :: '.' :: ' ' :: d.meaning.text.toList))
          quantified.tokens rest :=
      have hdot := ((h rest hrest).blank.symbol (c := '.') (by decide) (by decide) (by decide)).blank
      (hdot.word hvar (stops_cons (by decide) _)).blank.word (by decide +kernel)
        (stops_cons (by decide) _)
    have hgroup := lexes_group hinner rest
    simpa [Expr.text, toString_self, Derivation.tokens, Derivation.alone, String.toList_append] using hgroup

/-- Two operands in parentheses, with a comma between them. -/
theorem lexes_pair {a b : List Char} {tokens tokens' : List Token}
    (ha : ∀ rest, Stops rest → Lexes a tokens rest)
    (hb : ∀ rest, Stops rest → Lexes b tokens' rest) (rest : List Char) :
    Lexes ('(' :: (a ++ ',' :: ' ' :: (b ++ [')'])))
      (.symbol '(' :: (tokens ++ .symbol ',' :: (tokens' ++ [.symbol ')']))) rest :=
  have hclose : Lexes [')'] [.symbol ')'] rest :=
    Lexes.lastSymbol (by decide) (by decide) (by decide)
  have hright := ((hb _ (stops_cons (by decide) _)).append hclose).blank
  ((ha _ (stops_cons (by decide) _)).append
    (hright.symbol (by decide) (by decide) (by decide))).symbol (by decide) (by decide) (by decide)

theorem exists_printed_query (q : Query) (hnames : ∀ n ∈ q.names, IsIdentifier n)
    (rest : List Char) : ∃ d : QueryDerivation, d.meaning = q ∧ Lexes q.text.toList d.tokens rest := by
  cases q with
  | empty a =>
    obtain ⟨d, rfl, h⟩ := exists_printed a hnames
    refine ⟨.empty d.alone, rfl, ?_⟩
    have hquery := (lexes_group h rest).word (show isName "empty" by decide +kernel)
      (stops_cons (by decide) _)
    simpa [Query.text, toString_self, QueryDerivation.tokens, Derivation.tokens, Derivation.alone,
      String.toList_append] using hquery
  | equal a b =>
    obtain ⟨da, rfl, ha⟩ := exists_printed a fun n hn => hnames n (by simp [Query.names, hn])
    obtain ⟨db, rfl, hb⟩ := exists_printed b fun n hn => hnames n (by simp [Query.names, hn])
    refine ⟨.equal da.alone db.alone, rfl, ?_⟩
    have hquery := (lexes_pair ha hb rest).word (show isName "equal" by decide +kernel)
      (stops_cons (by decide) _)
    simpa [Query.text, toString_self, QueryDerivation.tokens, Derivation.tokens, Derivation.alone,
      String.toList_append] using hquery
  | subset a b =>
    obtain ⟨da, rfl, ha⟩ := exists_printed a fun n hn => hnames n (by simp [Query.names, hn])
    obtain ⟨db, rfl, hb⟩ := exists_printed b fun n hn => hnames n (by simp [Query.names, hn])
    refine ⟨.subset da.alone db.alone, rfl, ?_⟩
    have hquery := (lexes_pair ha hb rest).word (show isName "subset" by decide +kernel)
      (stops_cons (by decide) _)
    simpa [Query.text, toString_self, QueryDerivation.tokens, Derivation.tokens, Derivation.alone,
      String.toList_append] using hquery

/-! ## Statements on a line -/

/-- A line with the tokens of a statement is read as the statement. -/
theorem StatementDerivation.parse_line (d : StatementDerivation) {text : List Char}
    (h : Lexes text d.tokens []) : parse text = .ok [⟨1, d.meaning⟩] := by
  obtain ⟨ts, htokens, hitems, hlines⟩ := h.tokenize
  have hprogram : ProgramDerivation.tokens [d] = ts.items.map (·.token) := by
    rw [hitems]
    exact List.append_nil _
  have hline : (ts.items.head?.map (·.position.line)).getD 0 = 1 := by
    cases heq : ts.items with
    | nil => exact absurd (by rw [← hitems, heq]; rfl) d.tokens_ne_nil
    | cons item items => exact hlines item (by simp [heq])
  rw [parse, htokens]
  change statements ts = _
  rw [ProgramDerivation.parses [d] ts hprogram, ProgramDerivation.script, hline]
  rfl

theorem parse_print (q : Query) (hnames : ∀ n ∈ q.names, IsIdentifier n) :
    parse ("print " ++ q.text ++ ";").toList = .ok [⟨1, .print q⟩] := by
  obtain ⟨d, rfl, h⟩ := exists_printed_query q hnames [';']
  refine (StatementDerivation.print d).parse_line ?_
  have hend : Lexes [';'] [.symbol ';'] [] := Lexes.lastSymbol (by decide) (by decide) (by decide)
  have hprint := (h.append hend).blank.word (show isName "print" by decide +kernel)
    (stops_cons (by decide) _)
  simpa [StatementDerivation.tokens, StatementDerivation.body, String.toList_append] using hprint

theorem parse_define (name : String) (e : Expr) (hname : IsIdentifier name)
    (hnames : ∀ n ∈ e.names, IsIdentifier n) :
    parse ("let " ++ name ++ " = " ++ e.text ++ ";").toList = .ok [⟨1, .define name e⟩] := by
  obtain ⟨d, rfl, h⟩ := exists_printed e hnames
  obtain ⟨hword, hfree⟩ := hname
  refine (StatementDerivation.define ⟨name, hfree⟩ d.alone).parse_line ?_
  have hend : Lexes [';'] [.symbol ';'] [] := Lexes.lastSymbol (by decide) (by decide) (by decide)
  have hright := ((h [';'] (stops_cons (by decide) _)).append hend).symbol_blank
    (show '=' ∈ Piece.symbols by decide)
  have hlet := (hright.blank.word hword (stops_cons (by decide) _)).blank.word
    (show isName "let" by decide +kernel) (stops_cons (by decide) _)
  simpa [StatementDerivation.tokens, StatementDerivation.body, Derivation.tokens, Derivation.alone,
    String.toList_append] using hlet

end Script
end LayeredSets
