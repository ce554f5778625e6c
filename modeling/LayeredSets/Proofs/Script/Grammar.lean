import LayeredSets.Script.Parser
import Mathlib.Tactic

/-!
# The grammar of scripts

Derivations as trees, with one constructor for each way to apply a rule of the grammar. A derivation
spells tokens, and it means a syntax tree: parentheses leave no node, and what is repeated in a rule
is folded from the left. The grammar is unambiguous: tokens have one derivation at most.
-/

namespace LayeredSets.Script

/-- A word that is not reserved. -/
structure Name where
  word : String
  free : word ∉ keywords

@[ext] theorem Name.ext {a b : Name} (h : a.word = b.word) : a = b := by
  cases a
  cases b
  cases h
  rfl

/-- The rules for expressions. What is repeated in `expr` and in `term` has a rule of its own, by
which there is nothing more or one more and what follows it. -/
inductive Rule
  | expr
  | terms
  | term
  | unaries
  | unary
  | atom

inductive Derivation : Rule → Type
  | expr (first : Derivation .term) (more : Derivation .terms) : Derivation .expr
  | noTerms : Derivation .terms
  | union (next : Derivation .term) (more : Derivation .terms) : Derivation .terms
  | difference (next : Derivation .term) (more : Derivation .terms) : Derivation .terms
  | term (first : Derivation .unary) (more : Derivation .unaries) : Derivation .term
  | noUnaries : Derivation .unaries
  | intersect (next : Derivation .unary) (more : Derivation .unaries) : Derivation .unaries
  | complement (operand : Derivation .unary) : Derivation .unary
  | unary (operand : Derivation .atom) : Derivation .unary
  | group (inner : Derivation .expr) : Derivation .atom
  | top : Derivation .atom
  | bottom : Derivation .atom
  | point (values : List UInt64) : Derivation .atom
  | exists (var : Name) (body : Derivation .unary) : Derivation .atom
  | name (name : Name) : Derivation .atom
  | equalsValue (var : Name) (value : UInt64) : Derivation .atom
  | equalsVar (a b : Name) : Derivation .atom

/-- What a derivation of the rule means. What follows a first operand continues it. -/
@[reducible] def Rule.Meaning : Rule → Type
  | terms | unaries => Expr → Expr
  | _ => Expr

namespace Derivation

/-- Numbers with commas in front of them. -/
def moreTokens (values : List UInt64) : List Token :=
  values.flatMap fun value => [.symbol ',', .number value]

/-- Numbers with commas between them. -/
def listTokens : List UInt64 → List Token
  | [] => []
  | value :: values => .number value :: moreTokens values

def tokens : {r : Rule} → Derivation r → List Token
  | _, expr first more => first.tokens ++ more.tokens
  | _, noTerms => []
  | _, union next more => .symbol '|' :: (next.tokens ++ more.tokens)
  | _, difference next more => .symbol '-' :: (next.tokens ++ more.tokens)
  | _, term first more => first.tokens ++ more.tokens
  | _, noUnaries => []
  | _, intersect next more => .symbol '&' :: (next.tokens ++ more.tokens)
  | _, complement operand => .symbol '!' :: operand.tokens
  | _, unary operand => operand.tokens
  | _, group inner => .symbol '(' :: (inner.tokens ++ [.symbol ')'])
  | _, top => [.word "top"]
  | _, bottom => [.word "bottom"]
  | _, point values => .symbol '{' :: (listTokens values ++ [.symbol '}'])
  | _, .exists var body => .word "exists" :: .word var.word :: .symbol '.' :: body.tokens
  | _, name n => [.word n.word]
  | _, equalsValue var value => [.word var.word, .equals, .number value]
  | _, equalsVar a b => [.word a.word, .equals, .word b.word]

def meaning : {r : Rule} → Derivation r → r.Meaning
  | _, expr first more => more.meaning first.meaning
  | _, noTerms => id
  | _, union next more => fun left => more.meaning (.union left next.meaning)
  | _, difference next more => fun left => more.meaning (.difference left next.meaning)
  | _, term first more => more.meaning first.meaning
  | _, noUnaries => id
  | _, intersect next more => fun left => more.meaning (.intersect left next.meaning)
  | _, complement operand => .complement operand.meaning
  | _, unary operand => operand.meaning
  | _, group inner => inner.meaning
  | _, top => .top
  | _, bottom => .bottom
  | _, point values => .point values
  | _, .exists var body => .exists var.word body.meaning
  | _, name n => .name n.word
  | _, equalsValue var value => .equalsValue var.word value
  | _, equalsVar a b => .equalsVar a.word b.word

end Derivation

/-- A derivation of `query`. -/
inductive QueryDerivation
  | empty (a : Derivation .expr)
  | equal (a b : Derivation .expr)
  | subset (a b : Derivation .expr)

namespace QueryDerivation

def tokens : QueryDerivation → List Token
  | empty a => .word "empty" :: .symbol '(' :: (a.tokens ++ [.symbol ')'])
  | equal a b =>
    .word "equal" :: .symbol '(' :: (a.tokens ++ .symbol ',' :: (b.tokens ++ [.symbol ')']))
  | subset a b =>
    .word "subset" :: .symbol '(' :: (a.tokens ++ .symbol ',' :: (b.tokens ++ [.symbol ')']))

def meaning : QueryDerivation → Query
  | empty a => .empty a.meaning
  | equal a b => .equal a.meaning b.meaning
  | subset a b => .subset a.meaning b.meaning

end QueryDerivation

/-- A derivation of `statement`. -/
inductive StatementDerivation
  | var (name : Name) (bits : UInt32) (positive : 0 < bits)
  | define (name : Name) (e : Derivation .expr)
  | print (query : QueryDerivation)
  | assert (query : QueryDerivation)

namespace StatementDerivation

/-- The tokens before the semicolon. -/
def body : StatementDerivation → List Token
  | var name bits _ => [.word "var", .word name.word, .symbol ':', .number bits.toUInt64]
  | define name e => .word "let" :: .word name.word :: .symbol '=' :: e.tokens
  | print query => .word "print" :: query.tokens
  | assert query => .word "assert" :: query.tokens

def tokens (d : StatementDerivation) : List Token := d.body ++ [.symbol ';']

def meaning : StatementDerivation → Command
  | var name bits _ => .var name.word bits
  | define name e => .define name.word e.meaning
  | print query => .print query.meaning
  | assert query => .assert query.meaning

end StatementDerivation

/-- A derivation of `program`. -/
abbrev ProgramDerivation : Type := List StatementDerivation

namespace ProgramDerivation

def tokens (program : ProgramDerivation) : List Token := program.flatMap (·.tokens)

/-- The statements of a program that is spelled by `items`, each with the line of its first
token. -/
def script : ProgramDerivation → List Located → Script
  | [], _ => []
  | d :: program, items =>
    ⟨(items.head?.map (·.position.line)).getD 0, d.meaning⟩ ::
      script program (items.drop d.tokens.length)

end ProgramDerivation

/-! ## Unambiguity -/

/-- A token that would continue what the rule has derived. -/
def Rule.Continues : Rule → Token → Prop
  | expr, t | terms, t => t = .equals ∨ t = .symbol '&' ∨ t = .symbol '|' ∨ t = .symbol '-'
  | term, t | unaries, t => t = .equals ∨ t = .symbol '&'
  | unary, t | atom, t => t = .equals

/-- What stands after a derivation does not continue it. -/
def Rule.Ends (r : Rule) (rest : List Token) : Prop := ∀ t, rest.head? = some t → ¬ r.Continues t

section

variable {rest rest' : List Token}

namespace Rule

theorem Ends.mono {r r' : Rule} (h : r.Ends rest) (hr : ∀ t, r'.Continues t → r.Continues t) :
    r'.Ends rest :=
  fun t ht hc => h t ht (hr t hc)

theorem ends_cons {r : Rule} {t : Token} (h : ¬ r.Continues t) : r.Ends (t :: rest) := by
  rintro _ ⟨⟩
  exact h

theorem Ends.ne_cons {r : Rule} {t : Token} (h : r.Ends rest) (ht : r.Continues t)
    (more : List Token) : rest ≠ t :: more := by
  rintro rfl
  exact h t rfl ht

end Rule

theorem Name.word_ne (n : Name) {w : String} (h : w ∈ keywords) : n.word ≠ w := by
  rintro rfl
  exact n.free h

theorem Name.ne_word (n : Name) {w : String} (h : w ∈ keywords) : w ≠ n.word := (n.word_ne h).symm

namespace Derivation

/-- A term ends where the terms after it begin, if there are any. -/
theorem ends_terms (more : Derivation .terms) (h : Rule.terms.Ends rest) :
    Rule.term.Ends (more.tokens ++ rest) := by
  cases more with
  | noTerms => exact h.mono fun t ht => ht.elim .inl fun h => .inr (.inl h)
  | union | difference => exact Rule.ends_cons (by simp [Rule.Continues])

theorem ends_unaries (more : Derivation .unaries) (h : Rule.unaries.Ends rest) :
    Rule.unary.Ends (more.tokens ++ rest) := by
  cases more with
  | noUnaries => exact h.mono fun _ ht => .inl ht
  | intersect => exact Rule.ends_cons (by simp [Rule.Continues])

theorem moreTokens_append_inj {values values' : List UInt64}
    (h : moreTokens values ++ .symbol '}' :: rest = moreTokens values' ++ .symbol '}' :: rest') :
    values = values' ∧ rest = rest' := by
  induction values generalizing values' with
  | nil => cases values' <;> simp_all [moreTokens]
  | cons value values ih =>
    cases values' with
    | nil => simp [moreTokens] at h
    | cons value' values' =>
      simp only [moreTokens, List.flatMap_cons, List.cons_append, List.nil_append, List.cons.injEq,
        Token.number.injEq, true_and] at h
      obtain ⟨rfl, rfl⟩ := ih h.2
      exact ⟨by rw [h.1], rfl⟩

theorem listTokens_append_inj {values values' : List UInt64}
    (h : listTokens values ++ .symbol '}' :: rest = listTokens values' ++ .symbol '}' :: rest') :
    values = values' ∧ rest = rest' := by
  cases values with
  | nil => cases values' <;> simp_all [listTokens]
  | cons value values =>
    cases values' with
    | nil => simp [listTokens] at h
    | cons value' values' =>
      simp only [listTokens, List.cons_append, List.cons.injEq, Token.number.injEq] at h
      obtain ⟨rfl, rfl⟩ := moreTokens_append_inj h.2
      exact ⟨by rw [h.1], rfl⟩

/-- What the tokens of a derivation are followed by does not matter, as long as it does not continue
them. -/
theorem tokens_append_inj {r : Rule} (d d' : Derivation r)
    (h : d.tokens ++ rest = d'.tokens ++ rest') (hr : r.Ends rest) (hr' : r.Ends rest') :
    d = d' ∧ rest = rest' := by
  induction d generalizing rest rest' with
  | expr first more ih ih' =>
    cases d' with
    | expr first' more' =>
      rw [tokens, tokens, List.append_assoc, List.append_assoc] at h
      obtain ⟨rfl, hmore⟩ := ih first' h (ends_terms more hr) (ends_terms more' hr')
      obtain ⟨rfl, rfl⟩ := ih' more' hmore hr hr'
      exact ⟨rfl, rfl⟩
  | noTerms =>
    cases d' with
    | noTerms => exact ⟨rfl, h⟩
    | union => exact absurd h (hr.ne_cons (.inr (.inr (.inl rfl))) _)
    | difference => exact absurd h (hr.ne_cons (.inr (.inr (.inr rfl))) _)
  | union next more ih ih' =>
    cases d' with
    | noTerms => exact absurd h.symm (hr'.ne_cons (.inr (.inr (.inl rfl))) _)
    | union next' more' =>
      rw [tokens, tokens, List.cons_append, List.cons_append, List.append_assoc,
        List.append_assoc] at h
      obtain ⟨rfl, hmore⟩ :=
        ih next' (List.cons.inj h).2 (ends_terms more hr) (ends_terms more' hr')
      obtain ⟨rfl, rfl⟩ := ih' more' hmore hr hr'
      exact ⟨rfl, rfl⟩
    | difference => simp [tokens] at h
  | difference next more ih ih' =>
    cases d' with
    | noTerms => exact absurd h.symm (hr'.ne_cons (.inr (.inr (.inr rfl))) _)
    | union => simp [tokens] at h
    | difference next' more' =>
      rw [tokens, tokens, List.cons_append, List.cons_append, List.append_assoc,
        List.append_assoc] at h
      obtain ⟨rfl, hmore⟩ :=
        ih next' (List.cons.inj h).2 (ends_terms more hr) (ends_terms more' hr')
      obtain ⟨rfl, rfl⟩ := ih' more' hmore hr hr'
      exact ⟨rfl, rfl⟩
  | term first more ih ih' =>
    cases d' with
    | term first' more' =>
      rw [tokens, tokens, List.append_assoc, List.append_assoc] at h
      obtain ⟨rfl, hmore⟩ := ih first' h (ends_unaries more hr) (ends_unaries more' hr')
      obtain ⟨rfl, rfl⟩ := ih' more' hmore hr hr'
      exact ⟨rfl, rfl⟩
  | noUnaries =>
    cases d' with
    | noUnaries => exact ⟨rfl, h⟩
    | intersect => exact absurd h (hr.ne_cons (.inr rfl) _)
  | intersect next more ih ih' =>
    cases d' with
    | noUnaries => exact absurd h.symm (hr'.ne_cons (.inr rfl) _)
    | intersect next' more' =>
      rw [tokens, tokens, List.cons_append, List.cons_append, List.append_assoc,
        List.append_assoc] at h
      obtain ⟨rfl, hmore⟩ :=
        ih next' (List.cons.inj h).2 (ends_unaries more hr) (ends_unaries more' hr')
      obtain ⟨rfl, rfl⟩ := ih' more' hmore hr hr'
      exact ⟨rfl, rfl⟩
  | complement operand ih =>
    cases d' with
    | complement operand' =>
      obtain ⟨rfl, rfl⟩ := ih operand' (List.cons.inj h).2 hr hr'
      exact ⟨rfl, rfl⟩
    | unary operand' => cases operand' <;> simp [tokens] at h
  | unary operand ih =>
    cases d' with
    | complement operand' => cases operand <;> simp [tokens] at h
    | unary operand' =>
      obtain ⟨rfl, rfl⟩ := ih operand' h hr hr'
      exact ⟨rfl, rfl⟩
  | group inner ih =>
    cases d' with
    | group inner' =>
      simp only [tokens, List.cons_append, List.append_assoc, List.cons.injEq, true_and] at h
      obtain ⟨rfl, hrest⟩ := ih inner' h (Rule.ends_cons (by simp [Rule.Continues]))
        (Rule.ends_cons (by simp [Rule.Continues]))
      exact ⟨rfl, (List.cons.inj hrest).2⟩
    | _ => simp [tokens] at h
  | point values =>
    cases d' with
    | point values' =>
      simp only [tokens, List.cons_append, List.append_assoc, List.cons.injEq, true_and] at h
      obtain ⟨rfl, rfl⟩ := listTokens_append_inj h
      exact ⟨rfl, rfl⟩
    | _ => simp [tokens] at h
  | top =>
    cases d' with
    | top => exact ⟨rfl, (List.cons.inj h).2⟩
    | name | equalsValue | equalsVar =>
      exact absurd (Token.word.inj (List.cons.inj h).1) (Name.ne_word _ (by decide))
    | _ => simp [tokens] at h
  | bottom =>
    cases d' with
    | bottom => exact ⟨rfl, (List.cons.inj h).2⟩
    | name | equalsValue | equalsVar =>
      exact absurd (Token.word.inj (List.cons.inj h).1) (Name.ne_word _ (by decide))
    | _ => simp [tokens] at h
  | «exists» var body ih =>
    cases d' with
    | «exists» var' body' =>
      simp only [tokens, List.cons_append, List.cons.injEq, Token.word.injEq, true_and] at h
      obtain ⟨rfl, rfl⟩ := ih body' h.2 hr hr'
      obtain rfl := Name.ext h.1
      exact ⟨rfl, rfl⟩
    | name | equalsValue | equalsVar =>
      exact absurd (Token.word.inj (List.cons.inj h).1) (Name.ne_word _ (by decide))
    | _ => simp [tokens] at h
  | name n =>
    cases d' with
    | name n' =>
      obtain ⟨hword, rfl⟩ := List.cons.inj h
      obtain rfl := Name.ext (Token.word.inj hword)
      exact ⟨rfl, rfl⟩
    | equalsValue | equalsVar => exact absurd (List.cons.inj h).2 (hr.ne_cons rfl _)
    | top | bottom | «exists» =>
      exact absurd (Token.word.inj (List.cons.inj h).1) (Name.word_ne _ (by decide))
    | _ => simp [tokens] at h
  | equalsValue var value =>
    cases d' with
    | name => exact absurd (List.cons.inj h).2.symm (hr'.ne_cons rfl _)
    | equalsValue var' value' =>
      simp only [tokens, List.cons_append, List.nil_append, List.cons.injEq, Token.word.injEq,
        Token.number.injEq, true_and] at h
      obtain rfl := Name.ext h.1
      exact ⟨by rw [h.2.1], h.2.2⟩
    | top | bottom | «exists» =>
      exact absurd (Token.word.inj (List.cons.inj h).1) (Name.word_ne _ (by decide))
    | _ => simp [tokens] at h
  | equalsVar a b =>
    cases d' with
    | name => exact absurd (List.cons.inj h).2.symm (hr'.ne_cons rfl _)
    | equalsVar a' b' =>
      simp only [tokens, List.cons_append, List.nil_append, List.cons.injEq, Token.word.injEq,
        true_and] at h
      obtain rfl := Name.ext h.1
      obtain rfl := Name.ext h.2.1
      exact ⟨rfl, h.2.2⟩
    | top | bottom | «exists» =>
      exact absurd (Token.word.inj (List.cons.inj h).1) (Name.word_ne _ (by decide))
    | _ => simp [tokens] at h

end Derivation

theorem QueryDerivation.tokens_append_inj (d d' : QueryDerivation)
    (h : d.tokens ++ rest = d'.tokens ++ rest') : d = d' ∧ rest = rest' := by
  have hclose {more : List Token} : Rule.expr.Ends (.symbol ')' :: more) :=
    Rule.ends_cons (by simp [Rule.Continues])
  have hcomma {more : List Token} : Rule.expr.Ends (.symbol ',' :: more) :=
    Rule.ends_cons (by simp [Rule.Continues])
  cases d with
  | empty a =>
    cases d' with
    | empty a' =>
      simp only [tokens, List.cons_append, List.append_assoc, List.cons.injEq, true_and] at h
      obtain ⟨rfl, hrest⟩ := a.tokens_append_inj a' h hclose hclose
      exact ⟨rfl, (List.cons.inj hrest).2⟩
    | _ => simp [tokens] at h
  | equal a b =>
    cases d' with
    | equal a' b' =>
      simp only [tokens, List.cons_append, List.append_assoc, List.cons.injEq, true_and] at h
      obtain ⟨rfl, hb⟩ := a.tokens_append_inj a' h hcomma hcomma
      obtain ⟨rfl, hrest⟩ := b.tokens_append_inj b' (List.cons.inj hb).2 hclose hclose
      exact ⟨rfl, (List.cons.inj hrest).2⟩
    | _ => simp [tokens] at h
  | subset a b =>
    cases d' with
    | subset a' b' =>
      simp only [tokens, List.cons_append, List.append_assoc, List.cons.injEq, true_and] at h
      obtain ⟨rfl, hb⟩ := a.tokens_append_inj a' h hcomma hcomma
      obtain ⟨rfl, hrest⟩ := b.tokens_append_inj b' (List.cons.inj hb).2 hclose hclose
      exact ⟨rfl, (List.cons.inj hrest).2⟩
    | _ => simp [tokens] at h

theorem StatementDerivation.tokens_append_inj (d d' : StatementDerivation)
    (h : d.tokens ++ rest = d'.tokens ++ rest') : d = d' ∧ rest = rest' := by
  rw [tokens, tokens, List.append_assoc, List.append_assoc] at h
  cases d with
  | var name bits positive =>
    cases d' with
    | var name' bits' positive' =>
      simp only [body, List.cons_append, List.nil_append, List.cons.injEq, Token.word.injEq,
        Token.number.injEq, true_and] at h
      obtain ⟨hname, hbits, rfl⟩ := h
      obtain rfl := Name.ext hname
      have hback := congrArg UInt64.toUInt32 hbits
      rw [UInt32.toUInt32_toUInt64, UInt32.toUInt32_toUInt64] at hback
      subst hback
      exact ⟨rfl, rfl⟩
    | _ => simp [body] at h
  | define name e =>
    cases d' with
    | define name' e' =>
      simp only [body, List.cons_append, List.nil_append, List.cons.injEq, Token.word.injEq,
        true_and] at h
      obtain ⟨hname, he⟩ := h
      obtain rfl := Name.ext hname
      obtain ⟨rfl, hrest⟩ := e.tokens_append_inj e' he
        (Rule.ends_cons (by simp [Rule.Continues])) (Rule.ends_cons (by simp [Rule.Continues]))
      exact ⟨rfl, (List.cons.inj hrest).2⟩
    | _ => simp [body] at h
  | print query =>
    cases d' with
    | print query' =>
      obtain ⟨rfl, hrest⟩ := query.tokens_append_inj query' (List.cons.inj h).2
      exact ⟨rfl, (List.cons.inj hrest).2⟩
    | _ => simp [body] at h
  | assert query =>
    cases d' with
    | assert query' =>
      obtain ⟨rfl, hrest⟩ := query.tokens_append_inj query' (List.cons.inj h).2
      exact ⟨rfl, (List.cons.inj hrest).2⟩
    | _ => simp [body] at h

theorem StatementDerivation.tokens_ne_nil (d : StatementDerivation) : d.tokens ≠ [] := by
  simp [tokens]

/-- Tokens have one derivation at most. -/
theorem ProgramDerivation.tokens_inj (program program' : ProgramDerivation)
    (h : program.tokens = program'.tokens) : program = program' := by
  induction program generalizing program' with
  | nil =>
    cases program' with
    | nil => rfl
    | cons d' program' => simp [tokens, d'.tokens_ne_nil] at h
  | cons d program ih =>
    cases program' with
    | nil => simp [tokens, d.tokens_ne_nil] at h
    | cons d' program' =>
      rw [tokens, tokens, List.flatMap_cons, List.flatMap_cons] at h
      obtain ⟨rfl, hrest⟩ := d.tokens_append_inj d' h
      rw [ih program' hrest]

end

end LayeredSets.Script
