import LayeredSets.Proofs.Action
import LayeredSets.Proofs.Script.Grammar
import LayeredSets.Proofs.Token.Takes
import LayeredSets.Proofs.Script.Complete
import Mathlib

/-!
# Exactly the grammar is accepted

Whatever a function of the parser makes of the tokens that it takes, these tokens have a derivation
by the rule of the same name, and what is made of them is its meaning. The induction goes along the
calls of the parser. So a text is read as a script exactly if its tokens have a derivation, and then
as what the derivation means.
-/

namespace LayeredSets.Script

open Tokens

/-- Tokens that are taken are derived by the rule, with this meaning. -/
def Rule.Derives (r : Rule) (ts : Tokens) (meaning : r.Meaning) (rest : Tokens) : Prop :=
  ∃ d : Derivation r, d.meaning = meaning ∧ ts.Takes d.tokens rest

section

variable {ts : Tokens}

theorem takes_name {wanted word : String} {rest : ts.Rest} (h : name wanted ts = .ok (word, rest)) :
    ∃ n : Name, n.word = word ∧ ts.Takes [.word n.word] rest.1 :=
  have ⟨hfree, htakes⟩ := takes_of_name h
  ⟨⟨word, hfree⟩, rfl, htakes⟩

theorem takes_moreValues (ts : Tokens) :
    ∀ values rest, moreValues ts = .ok (values, rest) →
      ts.Takes (Derivation.moreTokens values) rest.1 := by
  fun_induction moreValues ts with
  | case1 ts heat =>
    rintro _ _ ⟨⟩
    exact Takes.refl ts
  | case2 ts ts₁ h₁ heat ih =>
    intro values rest h
    obtain ⟨⟨value, ts₂, h₂⟩, hvalue, h⟩ := bind_eq_ok h
    obtain ⟨⟨more, ts₃, h₃⟩, hmore, h⟩ := bind_eq_ok h
    obtain ⟨rfl, rfl⟩ := Prod.mk.inj (Except.ok.inj h)
    exact (takes_of_eat heat).cons ((takes_of_number hvalue).cons (ih ts₂ h₂ more ⟨ts₃, h₃⟩ hmore))

theorem takes_values {values : List UInt64} {rest : ts.Rest}
    (h : Script.values ts = .ok (values, rest)) :
    ts.Takes (Derivation.listTokens values ++ [.symbol '}']) rest.1 := by
  rw [Script.values] at h
  split at h
  · next heat =>
    obtain ⟨rfl, rfl⟩ := Prod.mk.inj (Except.ok.inj h)
    exact takes_of_eat heat
  · obtain ⟨⟨value, ts₁, h₁⟩, hvalue, h⟩ := bind_eq_ok h
    obtain ⟨⟨more, ts₂, h₂⟩, hmore, h⟩ := bind_eq_ok h
    obtain ⟨⟨ts₃, h₃⟩, hclose, h⟩ := bind_eq_ok h
    obtain ⟨rfl, rfl⟩ := Prod.mk.inj (Except.ok.inj h)
    exact (takes_of_number hvalue).cons ((takes_moreValues ts₁ more _ hmore).append
      (takes_of_expect hclose))

theorem derives_named {e : Expr} {rest : ts.Rest} (h : named ts = .ok (e, rest)) :
    Rule.atom.Derives ts e rest.1 := by
  obtain ⟨⟨left, ts₁, h₁⟩, hleft, h⟩ := bind_eq_ok h
  obtain ⟨n, rfl, hn⟩ := takes_name hleft
  simp only at h
  split at h
  · obtain ⟨rfl, rfl⟩ := Prod.mk.inj (Except.ok.inj h)
    exact ⟨.name n, rfl, hn⟩
  · next ts₂ h₂ heat =>
    have hequals := takes_of_eat heat
    split at h
    · next value ts₃ h₃ hvalue =>
      obtain ⟨rfl, rfl⟩ := Prod.mk.inj (Except.ok.inj h)
      exact ⟨.equalsValue n value, rfl, hn.cons (hequals.cons (takes_of_number? hvalue))⟩
    · obtain ⟨⟨right, ts₃, h₃⟩, hright, h⟩ := bind_eq_ok h
      obtain ⟨m, rfl, hm⟩ := takes_name hright
      obtain ⟨rfl, rfl⟩ := Prod.mk.inj (Except.ok.inj h)
      exact ⟨.equalsVar n m, rfl, hn.cons (hequals.cons hm)⟩

end

/-- All rules for expressions at once. -/
theorem derives_all :
    (∀ ts e rest, expr ts = .ok (e, rest) → Rule.expr.Derives ts e rest.1) ∧
    (∀ left ts e rest, moreTerms left ts = .ok (e, rest) →
      ∃ f, f left = e ∧ Rule.terms.Derives ts f rest.1) ∧
    (∀ ts e rest, term ts = .ok (e, rest) → Rule.term.Derives ts e rest.1) ∧
    (∀ left ts e rest, moreUnaries left ts = .ok (e, rest) →
      ∃ f, f left = e ∧ Rule.unaries.Derives ts f rest.1) ∧
    (∀ ts e rest, unary ts = .ok (e, rest) → Rule.unary.Derives ts e rest.1) ∧
    (∀ ts e rest, atom ts = .ok (e, rest) → Rule.atom.Derives ts e rest.1) := by
  apply expr.mutual_induct
  case case1 =>
    intro ts ihterm ihmore e rest h
    rw [expr] at h
    obtain ⟨⟨left, ts₁, h₁⟩, hterm, h⟩ := bind_eq_ok h
    obtain ⟨⟨e', ts₂, h₂⟩, hmore, h⟩ := bind_eq_ok h
    obtain ⟨rfl, rfl⟩ := Prod.mk.inj (Except.ok.inj h)
    obtain ⟨first, rfl, hfirst⟩ := ihterm left _ hterm
    obtain ⟨_, rfl, more, rfl, hrest⟩ := ihmore _ ts₁ h₁ e' _ hmore
    exact ⟨.expr first more, rfl, hfirst.append hrest⟩
  case case2 =>
    intro left ts ts₁ h₁ heat ihterm ihmore e rest h
    rw [moreTerms, heat] at h
    obtain ⟨⟨right, ts₂, h₂⟩, hterm, h⟩ := bind_eq_ok h
    obtain ⟨⟨e', ts₃, h₃⟩, hmore, h⟩ := bind_eq_ok h
    obtain ⟨rfl, rfl⟩ := Prod.mk.inj (Except.ok.inj h)
    obtain ⟨next, rfl, hnext⟩ := ihterm right _ hterm
    obtain ⟨_, rfl, more, rfl, hrest⟩ := ihmore _ ts₂ h₂ e' _ hmore
    exact ⟨_, rfl, .union next more, rfl, (takes_of_eat heat).cons (hnext.append hrest)⟩
  case case3 =>
    intro left ts hbar ts₁ h₁ heat ihterm ihmore e rest h
    rw [moreTerms, hbar, heat] at h
    obtain ⟨⟨right, ts₂, h₂⟩, hterm, h⟩ := bind_eq_ok h
    obtain ⟨⟨e', ts₃, h₃⟩, hmore, h⟩ := bind_eq_ok h
    obtain ⟨rfl, rfl⟩ := Prod.mk.inj (Except.ok.inj h)
    obtain ⟨next, rfl, hnext⟩ := ihterm right _ hterm
    obtain ⟨_, rfl, more, rfl, hrest⟩ := ihmore _ ts₂ h₂ e' _ hmore
    exact ⟨_, rfl, .difference next more, rfl, (takes_of_eat heat).cons (hnext.append hrest)⟩
  case case4 =>
    intro left ts hbar hminus e rest h
    rw [moreTerms, hbar, hminus] at h
    obtain ⟨rfl, rfl⟩ := Prod.mk.inj (Except.ok.inj h)
    exact ⟨id, rfl, .noTerms, rfl, Takes.refl ts⟩
  case case5 =>
    intro ts ihunary ihmore e rest h
    rw [term] at h
    obtain ⟨⟨left, ts₁, h₁⟩, hunary, h⟩ := bind_eq_ok h
    obtain ⟨⟨e', ts₂, h₂⟩, hmore, h⟩ := bind_eq_ok h
    obtain ⟨rfl, rfl⟩ := Prod.mk.inj (Except.ok.inj h)
    obtain ⟨first, rfl, hfirst⟩ := ihunary left _ hunary
    obtain ⟨_, rfl, more, rfl, hrest⟩ := ihmore _ ts₁ h₁ e' _ hmore
    exact ⟨.term first more, rfl, hfirst.append hrest⟩
  case case6 =>
    intro left ts ts₁ h₁ heat ihunary ihmore e rest h
    rw [moreUnaries, heat] at h
    obtain ⟨⟨right, ts₂, h₂⟩, hunary, h⟩ := bind_eq_ok h
    obtain ⟨⟨e', ts₃, h₃⟩, hmore, h⟩ := bind_eq_ok h
    obtain ⟨rfl, rfl⟩ := Prod.mk.inj (Except.ok.inj h)
    obtain ⟨next, rfl, hnext⟩ := ihunary right _ hunary
    obtain ⟨_, rfl, more, rfl, hrest⟩ := ihmore _ ts₂ h₂ e' _ hmore
    exact ⟨_, rfl, .intersect next more, rfl, (takes_of_eat heat).cons (hnext.append hrest)⟩
  case case7 =>
    intro left ts hand e rest h
    rw [moreUnaries, hand] at h
    obtain ⟨rfl, rfl⟩ := Prod.mk.inj (Except.ok.inj h)
    exact ⟨id, rfl, .noUnaries, rfl, Takes.refl ts⟩
  case case8 =>
    intro ts ts₁ h₁ heat ihunary e rest h
    rw [unary, heat] at h
    obtain ⟨⟨e', ts₂, h₂⟩, hunary, h⟩ := bind_eq_ok h
    obtain ⟨rfl, rfl⟩ := Prod.mk.inj (Except.ok.inj h)
    obtain ⟨operand, rfl, hoperand⟩ := ihunary e' _ hunary
    exact ⟨.complement operand, rfl, (takes_of_eat heat).cons hoperand⟩
  case case9 =>
    intro ts hnot ihatom e rest h
    rw [unary, hnot] at h
    obtain ⟨operand, rfl, hoperand⟩ := ihatom e rest h
    exact ⟨.unary operand, rfl, hoperand⟩
  case case10 =>
    intro ts ts₁ h₁ hnext ihexpr e rest h
    rw [atom, hnext] at h
    obtain ⟨⟨e', ts₂, h₂⟩, hexpr, h⟩ := bind_eq_ok h
    obtain ⟨⟨ts₃, h₃⟩, hclose, h⟩ := bind_eq_ok h
    obtain ⟨rfl, rfl⟩ := Prod.mk.inj (Except.ok.inj h)
    obtain ⟨inner, rfl, hinner⟩ := ihexpr e' _ hexpr
    exact ⟨.group inner, rfl,
      (takes_of_next hnext).cons (hinner.append (takes_of_expect hclose))⟩
  case case11 =>
    intro ts ts₁ h₁ hnext e rest h
    rw [atom, hnext] at h
    obtain ⟨⟨values, ts₂, h₂⟩, hvalues, h⟩ := bind_eq_ok h
    obtain ⟨rfl, rfl⟩ := Prod.mk.inj (Except.ok.inj h)
    exact ⟨.point values, rfl, (takes_of_next hnext).cons (takes_values hvalues)⟩
  case case12 =>
    intro ts rest hnext e rest' h
    rw [atom, hnext] at h
    obtain ⟨rfl, rfl⟩ := Prod.mk.inj (Except.ok.inj h)
    exact ⟨.top, rfl, takes_of_next hnext⟩
  case case13 =>
    intro ts rest hnext e rest' h
    rw [atom, hnext] at h
    obtain ⟨rfl, rfl⟩ := Prod.mk.inj (Except.ok.inj h)
    exact ⟨.bottom, rfl, takes_of_next hnext⟩
  case case14 =>
    intro ts ts₁ h₁ hnext ihunary e rest h
    rw [atom, hnext] at h
    obtain ⟨⟨var, ts₂, h₂⟩, hvar, h⟩ := bind_eq_ok h
    obtain ⟨⟨ts₃, h₃⟩, hdot, h⟩ := bind_eq_ok h
    obtain ⟨⟨body, ts₄, h₄⟩, hbody, h⟩ := bind_eq_ok h
    obtain ⟨rfl, rfl⟩ := Prod.mk.inj (Except.ok.inj h)
    obtain ⟨n, rfl, hn⟩ := takes_name hvar
    obtain ⟨operand, rfl, hoperand⟩ := ihunary ts₂ h₂ ts₃ h₃ body _ hbody
    exact ⟨.exists n operand, rfl,
      (takes_of_next hnext).cons (hn.cons ((takes_of_expect hdot).cons hoperand))⟩
  case case15 =>
    intro ts hgroup hpoint htop hbottom hexists e rest h
    rw [atom] at h
    split at h
    · next heq => exact (hgroup _ _ heq).elim
    · next heq => exact (hpoint _ _ heq).elim
    · next heq => exact (htop _ heq).elim
    · next heq => exact (hbottom _ heq).elim
    · next heq => exact (hexists _ _ heq).elim
    · exact derives_named h

section

variable {ts : Tokens}

theorem derives_expr {e : Expr} {rest : ts.Rest} (h : expr ts = .ok (e, rest)) :
    Rule.expr.Derives ts e rest.1 :=
  derives_all.1 ts e rest h

theorem derives_pair {a b : Expr} {rest : ts.Rest} (h : pair ts = .ok (a, b, rest)) :
    ∃ a' b' : Derivation .expr, a'.meaning = a ∧ b'.meaning = b ∧
      ts.Takes (.symbol '(' :: (a'.tokens ++ .symbol ',' :: (b'.tokens ++ [.symbol ')']))) rest.1 := by
  obtain ⟨⟨ts₁, h₁⟩, hopen, h⟩ := bind_eq_ok h
  obtain ⟨⟨a, ts₂, h₂⟩, ha, h⟩ := bind_eq_ok h
  obtain ⟨⟨ts₃, h₃⟩, hcomma, h⟩ := bind_eq_ok h
  obtain ⟨⟨b, ts₄, h₄⟩, hb, h⟩ := bind_eq_ok h
  obtain ⟨⟨ts₅, h₅⟩, hclose, h⟩ := bind_eq_ok h
  obtain ⟨rfl, hresult⟩ := Prod.mk.inj (Except.ok.inj h)
  obtain ⟨rfl, rfl⟩ := Prod.mk.inj hresult
  obtain ⟨a', rfl, htakes⟩ := derives_expr ha
  obtain ⟨b', rfl, htakes'⟩ := derives_expr hb
  exact ⟨a', b', rfl, rfl, (takes_of_expect hopen).cons (htakes.append
    ((takes_of_expect hcomma).cons (htakes'.append (takes_of_expect hclose))))⟩

theorem derives_query {q : Query} {rest : ts.Rest} (h : query ts = .ok (q, rest)) :
    ∃ d : QueryDerivation, d.meaning = q ∧ ts.Takes d.tokens rest.1 := by
  rw [query] at h
  split at h
  · next ts₁ h₁ hnext =>
    obtain ⟨⟨ts₂, h₂⟩, hopen, h⟩ := bind_eq_ok h
    obtain ⟨⟨a, ts₃, h₃⟩, ha, h⟩ := bind_eq_ok h
    obtain ⟨⟨ts₄, h₄⟩, hclose, h⟩ := bind_eq_ok h
    obtain ⟨rfl, rfl⟩ := Prod.mk.inj (Except.ok.inj h)
    obtain ⟨a', rfl, htakes⟩ := derives_expr ha
    exact ⟨.empty a', rfl, (takes_of_next hnext).cons ((takes_of_expect hopen).cons
      (htakes.append (takes_of_expect hclose)))⟩
  · next ts₁ h₁ hnext =>
    obtain ⟨⟨a, b, ts₂, h₂⟩, hpair, h⟩ := bind_eq_ok h
    obtain ⟨rfl, rfl⟩ := Prod.mk.inj (Except.ok.inj h)
    obtain ⟨a', b', rfl, rfl, htakes⟩ := derives_pair hpair
    exact ⟨.equal a' b', rfl, (takes_of_next hnext).cons htakes⟩
  · next ts₁ h₁ hnext =>
    obtain ⟨⟨a, b, ts₂, h₂⟩, hpair, h⟩ := bind_eq_ok h
    obtain ⟨rfl, rfl⟩ := Prod.mk.inj (Except.ok.inj h)
    obtain ⟨a', b', rfl, rfl, htakes⟩ := derives_pair hpair
    exact ⟨.subset a' b', rfl, (takes_of_next hnext).cons htakes⟩
  · cases h

theorem derives_command {c : Command} {rest : ts.Rest} (h : command ts = .ok (c, rest)) :
    ∃ d : StatementDerivation, d.meaning = c ∧ ts.Takes d.body rest.1 := by
  rw [command] at h
  split at h
  · next ts₁ h₁ hnext =>
    obtain ⟨⟨var, ts₂, h₂⟩, hvar, h⟩ := bind_eq_ok h
    obtain ⟨⟨ts₃, h₃⟩, hcolon, h⟩ := bind_eq_ok h
    obtain ⟨⟨bits, ts₄, h₄⟩, hbits, h⟩ := bind_eq_ok h
    obtain ⟨rfl, rfl⟩ := Prod.mk.inj (Except.ok.inj h)
    obtain ⟨n, rfl, hn⟩ := takes_name hvar
    obtain ⟨hpositive, htakes⟩ := takes_of_width hbits
    exact ⟨.var n bits hpositive, rfl,
      (takes_of_next hnext).cons (hn.cons ((takes_of_expect hcolon).cons htakes))⟩
  · next ts₁ h₁ hnext =>
    obtain ⟨⟨set, ts₂, h₂⟩, hset, h⟩ := bind_eq_ok h
    obtain ⟨⟨ts₃, h₃⟩, hequals, h⟩ := bind_eq_ok h
    obtain ⟨⟨e, ts₄, h₄⟩, he, h⟩ := bind_eq_ok h
    obtain ⟨rfl, rfl⟩ := Prod.mk.inj (Except.ok.inj h)
    obtain ⟨n, rfl, hn⟩ := takes_name hset
    obtain ⟨e', rfl, htakes⟩ := derives_expr he
    exact ⟨.define n e', rfl,
      (takes_of_next hnext).cons (hn.cons ((takes_of_expect hequals).cons htakes))⟩
  · next ts₁ h₁ hnext =>
    obtain ⟨⟨q, ts₂, h₂⟩, hquery, h⟩ := bind_eq_ok h
    obtain ⟨rfl, rfl⟩ := Prod.mk.inj (Except.ok.inj h)
    obtain ⟨q', rfl, htakes⟩ := derives_query hquery
    exact ⟨.print q', rfl, (takes_of_next hnext).cons htakes⟩
  · next ts₁ h₁ hnext =>
    obtain ⟨⟨q, ts₂, h₂⟩, hquery, h⟩ := bind_eq_ok h
    obtain ⟨rfl, rfl⟩ := Prod.mk.inj (Except.ok.inj h)
    obtain ⟨q', rfl, htakes⟩ := derives_query hquery
    exact ⟨.assert q', rfl, (takes_of_next hnext).cons htakes⟩
  · cases h

theorem derives_statement {s : Statement} {rest : ts.Rest} (h : statement ts = .ok (s, rest)) :
    ∃ d : StatementDerivation, s = ⟨ts.position.line, d.meaning⟩ ∧ ts.Takes d.tokens rest.1 := by
  obtain ⟨⟨c, ts₁, h₁⟩, hcommand, h⟩ := bind_eq_ok h
  obtain ⟨⟨ts₂, h₂⟩, hsemicolon, h⟩ := bind_eq_ok h
  obtain ⟨rfl, rfl⟩ := Prod.mk.inj (Except.ok.inj h)
  obtain ⟨d, rfl, htakes⟩ := derives_command hcommand
  exact ⟨d, rfl, htakes.append (takes_of_expect hsemicolon)⟩

end

/-- The statements that are read have a derivation. -/
theorem derives_statements (ts : Tokens) :
    ∀ script, statements ts = .ok script →
      ∃ program : ProgramDerivation, program.tokens = ts.items.map (·.token) := by
  fun_induction statements ts with
  | case1 ts hempty =>
    intro script _
    rw [List.isEmpty_iff] at hempty
    exact ⟨[], by rw [hempty]; rfl⟩
  | case2 ts hitems ih =>
    intro script h
    obtain ⟨⟨first, rest, hrest⟩, hfirst, h⟩ := bind_eq_ok h
    obtain ⟨others, hothers, h⟩ := bind_eq_ok h
    obtain ⟨d, _, htakes⟩ := derives_statement hfirst
    obtain ⟨program, hprogram⟩ := ih rest hrest others hothers
    exact ⟨d :: program, by rw [htakes.map_token, ← hprogram]; rfl⟩

/-! ## Texts -/

/-- A text with tokens is read if and only if a program spells them, and then there is one such
program, and it gives the script. Any other text fails as its first part that is no token does. -/
theorem parse_exact (text : List Char) :
    (∀ e, tokenize text false = .error e → parse text = .error e) ∧
    ∀ ts, tokenize text false = .ok ts →
      ((∃ script, parse text = .ok script) ↔
        ∃ program : ProgramDerivation, program.tokens = ts.items.map (·.token)) ∧
      ∀ program : ProgramDerivation, program.tokens = ts.items.map (·.token) →
        parse text = .ok (program.script ts.items) ∧
        ∀ program' : ProgramDerivation, program'.tokens = ts.items.map (·.token) →
          program' = program := by
  refine ⟨fun e htokens => ?_, fun ts htokens => ?_⟩
  · rw [parse, htokens]
    rfl
  have hparse : parse text = statements ts := by
    rw [parse, htokens]
    rfl
  refine ⟨⟨?_, ?_⟩, fun program hprogram => ⟨?_, fun program' hprogram' => ?_⟩⟩
  · rintro ⟨script, hscript⟩
    exact derives_statements ts script (hparse ▸ hscript)
  · rintro ⟨program, hprogram⟩
    exact ⟨_, hparse.trans (program.parses ts hprogram)⟩
  · exact hparse.trans (program.parses ts hprogram)
  · exact program'.tokens_inj program (hprogram'.trans hprogram.symm)

/-- The second of two statements begins on the second line, and a question mark begins no token. -/
theorem parse_exact_sample :
    parse "var x:3;\nassert empty(!x==1|\x7b0,5\x7d-(top));".toList =
        .ok [⟨1, .var "x" 3⟩, ⟨2, .assert (.empty (.difference
          (.union (.complement (.equalsValue "x" 1)) (.point [0, 5])) .top))⟩] ∧
      parse "print ?".toList = .error ⟨⟨1, 7⟩, "unexpected character '?'"⟩ := by
  let x : Name := ⟨"x", by decide⟩
  let whole : Derivation .term := .term (.unary .top) .noUnaries
  let group : Derivation .term := .term (.unary (.group (.expr whole .noTerms))) .noUnaries
  let point : Derivation .term := .term (.unary (.point [0, 5])) .noUnaries
  let first : Derivation .term := .term (.complement (.unary (.equalsValue x 1))) .noUnaries
  let e : Derivation .expr := .expr first (.union point (.difference group .noTerms))
  let program : ProgramDerivation := [.var x 3 (by decide), .assert (.empty e)]
  have hpieces : Piece.split "var x:3;\nassert empty(!x==1|\x7b0,5\x7d-(top));".toList =
      [.word ['v', 'a', 'r'], .blank ' ', .word ['x'], .symbol ':', .number ['3'], .symbol ';',
        .lineBreak, .word ['a', 's', 's', 'e', 'r', 't'], .blank ' ',
        .word ['e', 'm', 'p', 't', 'y'], .symbol '(', .symbol '!', .word ['x'], .equals,
        .number ['1'], .symbol '|', .symbol '{', .number ['0'], .symbol ',', .number ['5'],
        .symbol '}', .symbol '-', .symbol '(', .word ['t', 'o', 'p'], .symbol ')', .symbol ')',
        .symbol ';'] := by
    cbv
  obtain ⟨ts, htokens, hprogram, hscript⟩ :
      ∃ ts, tokenize "var x:3;\nassert empty(!x==1|\x7b0,5\x7d-(top));".toList false = .ok ts ∧
        program.tokens = ts.items.map (·.token) ∧
        program.script ts.items = [⟨1, .var "x" 3⟩, ⟨2, .assert (.empty (.difference
          (.union (.complement (.equalsValue "x" 1)) (.point [0, 5])) .top))⟩] := by
    rw [tokenize, hpieces]
    exact ⟨_, rfl, rfl, rfl⟩
  have hparse := ((parse_exact _).2 ts htokens).2 program hprogram
  exact ⟨hscript ▸ hparse.1, (parse_exact _).1 _ (by cbv)⟩

end LayeredSets.Script
