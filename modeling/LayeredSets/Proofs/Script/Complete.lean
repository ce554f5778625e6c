import LayeredSets.Proofs.Script.Grammar
import LayeredSets.Proofs.Token.Takes

/-!
# The grammar is followed by the parser

Where tokens begin with what a derivation spells, and what stands after it does not continue it, the
function of the rule takes exactly these tokens and returns the meaning. The induction is on the
derivation.
-/

namespace LayeredSets.Script

open Tokens

/-- The function of the rule stops before `rest`, and makes this of the tokens before it. -/
def Rule.Parses (ts : Tokens) : (r : Rule) → r.Meaning → Tokens → Prop
  | expr, e, rest => ∃ h, Script.expr ts = .ok (e, ⟨rest, h⟩)
  | terms, f, rest => ∀ left, ∃ h, moreTerms left ts = .ok (f left, ⟨rest, h⟩)
  | term, e, rest => ∃ h, Script.term ts = .ok (e, ⟨rest, h⟩)
  | unaries, f, rest => ∀ left, ∃ h, moreUnaries left ts = .ok (f left, ⟨rest, h⟩)
  | unary, e, rest => ∃ h, Script.unary ts = .ok (e, ⟨rest, h⟩)
  | atom, e, rest => ∃ h, Script.atom ts = .ok (e, ⟨rest, h⟩)

section

variable {ts rest : Tokens}

/-- What stands after the tokens of the rule does not continue them. -/
def Rule.EndsAt (r : Rule) (rest : Tokens) : Prop := r.Ends (rest.items.map (·.token))

theorem Rule.EndsAt.eat_eq_none {r : Rule} {t : Token} (h : r.EndsAt rest) (ht : r.Continues t) :
    rest.eat? t = none := by
  rw [eat_eq_none_iff, peek?, ← List.head?_map]
  exact fun hpeek => h t hpeek ht

theorem Rule.endsAt_of_takes {r : Rule} {t : Token} {more : List Token}
    (h : ts.Takes (t :: more) rest) (ht : ¬ r.Continues t) : r.EndsAt ts := by
  rw [EndsAt, h.map_token]
  exact ends_cons ht

theorem Derivation.endsAt_terms {mid : Tokens} (more : Derivation .terms)
    (h : mid.Takes more.tokens rest) (hends : Rule.terms.EndsAt rest) : Rule.term.EndsAt mid := by
  rw [Rule.EndsAt, h.map_token]
  exact more.ends_terms hends

theorem Derivation.endsAt_unaries {mid : Tokens} (more : Derivation .unaries)
    (h : mid.Takes more.tokens rest) (hends : Rule.unaries.EndsAt rest) :
    Rule.unary.EndsAt mid := by
  rw [Rule.EndsAt, h.map_token]
  exact more.ends_unaries hends

theorem Derivation.atom_eat_eq_none (d : Derivation .atom) (h : ts.Takes d.tokens rest) :
    ts.eat? (.symbol '!') = none := by
  rw [eat_eq_none_iff, peek?, ← List.head?_map, h.map_token]
  cases d <;> simp [tokens]

/-! ## Points and names -/

theorem Name.parses (n : Name) (h : ts.Takes [.word n.word] rest) (wanted : String) :
    Script.name wanted ts = .ok (n.word, ⟨rest, h.shorter⟩) :=
  h.name n.free wanted

theorem parses_moreValues (values : List UInt64) (h : ts.Takes (Derivation.moreTokens values) rest)
    (hrest : rest.eat? (.symbol ',') = none) :
    ∃ h, moreValues ts = .ok (values, ⟨rest, h⟩) := by
  induction values generalizing ts with
  | nil =>
    obtain rfl := Takes.nil_iff.mp h
    rw [moreValues, hrest]
    exact ⟨Nat.le_refl _, rfl⟩
  | cons value values ih =>
    obtain ⟨ts₁, hcomma, hvalues⟩ := Takes.cons_iff.mp h
    obtain ⟨ts₂, hvalue, hmore⟩ := Takes.cons_iff.mp hvalues
    obtain ⟨hle, heq⟩ := ih hmore
    rw [moreValues, hcomma.eat]
    simp only [hvalue.number, bind, Except.bind, heq]
    exact ⟨h.shorter.le, rfl⟩

theorem parses_values (values : List UInt64)
    (h : ts.Takes (Derivation.listTokens values ++ [.symbol '}']) rest) :
    ∃ h, Script.values ts = .ok (values, ⟨rest, h⟩) := by
  cases values with
  | nil =>
    have hclose : ts.Takes [.symbol '}'] rest := h
    rw [Script.values, hclose.eat]
    exact ⟨_, rfl⟩
  | cons value values =>
    obtain ⟨ts₁, hvalue, hvalues⟩ := Takes.cons_iff.mp h
    obtain ⟨ts₂, hmore, hclose⟩ := Takes.append_iff.mp hvalues
    have hopen : ts.eat? (.symbol '}') = none := by
      rw [eat_eq_none_iff, hvalue.peek]
      simp
    have hend : ts₂.eat? (.symbol ',') = none := by
      rw [eat_eq_none_iff, hclose.peek]
      simp
    obtain ⟨hle, heq⟩ := parses_moreValues values hmore hend
    rw [Script.values, hopen]
    simp only [hvalue.number, bind, Except.bind, heq, hclose.expect]
    exact ⟨h.shorter, rfl⟩

/-- The tokens that begin an atom other than a name. -/
def openings : List Token :=
  [.symbol '(', .symbol '{', .word "top", .word "bottom", .word "exists"]

/-- An atom that begins with none of these is read by `named`. -/
theorem atom_eq_named (h : ∀ t ∈ openings, ts.peek? ≠ some t) : atom ts = named ts := by
  rw [atom]
  split
  · next hnext => exact absurd (takes_of_next hnext).peek (h _ (by decide))
  · next hnext => exact absurd (takes_of_next hnext).peek (h _ (by decide))
  · next hnext => exact absurd (takes_of_next hnext).peek (h _ (by decide))
  · next hnext => exact absurd (takes_of_next hnext).peek (h _ (by decide))
  · next hnext => exact absurd (takes_of_next hnext).peek (h _ (by decide))
  · rfl

theorem Name.atom_eq (n : Name) (h : ts.Takes [.word n.word] rest) : atom ts = named ts := by
  refine atom_eq_named fun t ht hpeek => ?_
  obtain rfl := Option.some.inj (h.peek.symm.trans hpeek)
  simp only [openings, List.mem_cons, Token.word.injEq, reduceCtorEq, false_or, List.not_mem_nil,
    or_false] at ht
  rcases ht with hword | hword | hword
  · exact n.word_ne (by decide) hword
  · exact n.word_ne (by decide) hword
  · exact n.word_ne (by decide) hword

end

/-! ## Expressions -/

theorem Derivation.parses {r : Rule} (d : Derivation r) {ts rest : Tokens}
    (h : ts.Takes d.tokens rest) (hends : r.EndsAt rest) : r.Parses ts d.meaning rest := by
  induction d generalizing ts rest with
  | expr first more ih ih' =>
    obtain ⟨mid, hfirst, hmore⟩ := Takes.append_iff.mp h
    obtain ⟨hlt, hterm⟩ := ih hfirst (more.endsAt_terms hmore hends)
    obtain ⟨hle, hterms⟩ := ih' hmore hends first.meaning
    rw [Rule.Parses, Script.expr]
    simp only [bind, Except.bind, hterm, hterms]
    exact ⟨by omega, rfl⟩
  | noTerms =>
    obtain rfl := Takes.nil_iff.mp h
    intro left
    rw [moreTerms, hends.eat_eq_none (.inr (.inr (.inl rfl))),
      hends.eat_eq_none (.inr (.inr (.inr rfl)))]
    exact ⟨Nat.le_refl _, rfl⟩
  | union next more ih ih' =>
    intro left
    obtain ⟨ts₁, hbar, hnext⟩ := Takes.cons_iff.mp h
    obtain ⟨ts₂, hnext, hmore⟩ := Takes.append_iff.mp hnext
    obtain ⟨hlt, hterm⟩ := ih hnext (more.endsAt_terms hmore hends)
    obtain ⟨hle, hterms⟩ := ih' hmore hends (.union left next.meaning)
    rw [moreTerms, hbar.eat]
    simp only [bind, Except.bind, hterm, hterms]
    exact ⟨h.shorter.le, rfl⟩
  | difference next more ih ih' =>
    intro left
    obtain ⟨ts₁, hminus, hnext⟩ := Takes.cons_iff.mp h
    obtain ⟨ts₂, hnext, hmore⟩ := Takes.append_iff.mp hnext
    obtain ⟨hlt, hterm⟩ := ih hnext (more.endsAt_terms hmore hends)
    obtain ⟨hle, hterms⟩ := ih' hmore hends (.difference left next.meaning)
    have hbar : ts.eat? (.symbol '|') = none := by
      rw [eat_eq_none_iff, hminus.peek]
      simp
    rw [moreTerms, hbar, hminus.eat]
    simp only [bind, Except.bind, hterm, hterms]
    exact ⟨h.shorter.le, rfl⟩
  | term first more ih ih' =>
    obtain ⟨mid, hfirst, hmore⟩ := Takes.append_iff.mp h
    obtain ⟨hlt, hunary⟩ := ih hfirst (more.endsAt_unaries hmore hends)
    obtain ⟨hle, hunaries⟩ := ih' hmore hends first.meaning
    rw [Rule.Parses, Script.term]
    simp only [bind, Except.bind, hunary, hunaries]
    exact ⟨by omega, rfl⟩
  | noUnaries =>
    obtain rfl := Takes.nil_iff.mp h
    intro left
    rw [moreUnaries, hends.eat_eq_none (.inr rfl)]
    exact ⟨Nat.le_refl _, rfl⟩
  | intersect next more ih ih' =>
    intro left
    obtain ⟨ts₁, hand, hnext⟩ := Takes.cons_iff.mp h
    obtain ⟨ts₂, hnext, hmore⟩ := Takes.append_iff.mp hnext
    obtain ⟨hlt, hunary⟩ := ih hnext (more.endsAt_unaries hmore hends)
    obtain ⟨hle, hunaries⟩ := ih' hmore hends (.intersect left next.meaning)
    rw [moreUnaries, hand.eat]
    simp only [bind, Except.bind, hunary, hunaries]
    exact ⟨h.shorter.le, rfl⟩
  | complement operand ih =>
    obtain ⟨ts₁, hnot, hoperand⟩ := Takes.cons_iff.mp h
    obtain ⟨hlt, hunary⟩ := ih hoperand hends
    rw [Rule.Parses, Script.unary, hnot.eat]
    simp only [bind, Except.bind, hunary]
    exact ⟨h.shorter, rfl⟩
  | unary operand ih =>
    rw [Rule.Parses, Script.unary, operand.atom_eat_eq_none h]
    exact ih h hends
  | group inner ih =>
    obtain ⟨ts₁, hopen, hinner⟩ := Takes.cons_iff.mp h
    obtain ⟨ts₂, hinner, hclose⟩ := Takes.append_iff.mp hinner
    obtain ⟨hlt, hexpr⟩ := ih hinner (Rule.endsAt_of_takes hclose (by simp [Rule.Continues]))
    rw [Rule.Parses, Script.atom, hopen.next]
    simp only [bind, Except.bind, hexpr, hclose.expect]
    exact ⟨h.shorter, rfl⟩
  | top =>
    rw [Rule.Parses, Script.atom, Takes.next h]
    exact ⟨_, rfl⟩
  | bottom =>
    rw [Rule.Parses, Script.atom, Takes.next h]
    exact ⟨_, rfl⟩
  | point values =>
    obtain ⟨ts₁, hopen, hvalues⟩ := Takes.cons_iff.mp h
    obtain ⟨hlt, hvalues⟩ := parses_values values hvalues
    rw [Rule.Parses, Script.atom, hopen.next]
    simp only [bind, Except.bind, hvalues]
    exact ⟨h.shorter, rfl⟩
  | «exists» var body ih =>
    obtain ⟨ts₁, hexists, hvar⟩ := Takes.cons_iff.mp h
    obtain ⟨ts₂, hvar, hdot⟩ := Takes.cons_iff.mp hvar
    obtain ⟨ts₃, hdot, hbody⟩ := Takes.cons_iff.mp hdot
    obtain ⟨hlt, hunary⟩ := ih hbody hends
    rw [Rule.Parses, Script.atom, hexists.next]
    simp only [bind, Except.bind, var.parses hvar, hdot.expect, hunary]
    exact ⟨h.shorter, rfl⟩
  | name n =>
    have hname : ts.Takes [.word n.word] rest := h
    rw [Rule.Parses, n.atom_eq hname, named, n.parses hname]
    simp only [bind, Except.bind]
    rw [hends.eat_eq_none rfl]
    exact ⟨_, rfl⟩
  | equalsValue var value =>
    obtain ⟨ts₁, hvar, hequals⟩ := Takes.cons_iff.mp h
    obtain ⟨ts₂, hequals, hvalue⟩ := Takes.cons_iff.mp hequals
    rw [Rule.Parses, var.atom_eq hvar, named, var.parses hvar]
    simp only [bind, Except.bind]
    rw [hequals.eat]
    simp only
    rw [hvalue.number?]
    exact ⟨h.shorter, rfl⟩
  | equalsVar a b =>
    obtain ⟨ts₁, ha, hequals⟩ := Takes.cons_iff.mp h
    obtain ⟨ts₂, hequals, hb⟩ := Takes.cons_iff.mp hequals
    rw [Rule.Parses, a.atom_eq ha, named, a.parses ha]
    simp only [bind, Except.bind]
    rw [hequals.eat]
    simp only
    rw [hb.number?_word, b.parses hb]
    exact ⟨h.shorter, rfl⟩

/-! ## Queries and statements -/

section

variable {ts rest : Tokens}

theorem Derivation.parses_expr {mid : Tokens} (d : Derivation .expr) {t : Token}
    (h : ts.Takes d.tokens rest) (hrest : rest.Takes [t] mid) (ht : ¬ Rule.expr.Continues t) :
    ∃ h, Script.expr ts = .ok (d.meaning, ⟨rest, h⟩) :=
  d.parses h (Rule.endsAt_of_takes hrest ht)

theorem parses_pair (a b : Derivation .expr)
    (h : ts.Takes (.symbol '(' :: (a.tokens ++ .symbol ',' :: (b.tokens ++ [.symbol ')']))) rest) :
    pair ts = .ok (a.meaning, b.meaning, ⟨rest, h.shorter⟩) := by
  obtain ⟨ts₁, hopen, ha⟩ := Takes.cons_iff.mp h
  obtain ⟨ts₂, ha, hcomma⟩ := Takes.append_iff.mp ha
  obtain ⟨ts₃, hcomma, hb⟩ := Takes.cons_iff.mp hcomma
  obtain ⟨ts₄, hb, hclose⟩ := Takes.append_iff.mp hb
  obtain ⟨_, ha⟩ := a.parses_expr ha hcomma (by simp [Rule.Continues])
  obtain ⟨_, hb⟩ := b.parses_expr hb hclose (by simp [Rule.Continues])
  rw [pair]
  simp only [bind, Except.bind, hopen.expect, ha, hcomma.expect, hb, hclose.expect]
  rfl

theorem QueryDerivation.parses (d : QueryDerivation) (h : ts.Takes d.tokens rest) :
    ∃ h, query ts = .ok (d.meaning, ⟨rest, h⟩) := by
  cases d with
  | empty a =>
    obtain ⟨ts₁, hempty, hopen⟩ := Takes.cons_iff.mp h
    obtain ⟨ts₂, hopen, ha⟩ := Takes.cons_iff.mp hopen
    obtain ⟨ts₃, ha, hclose⟩ := Takes.append_iff.mp ha
    obtain ⟨_, ha⟩ := a.parses_expr ha hclose (by simp [Rule.Continues])
    rw [query, hempty.next]
    simp only [bind, Except.bind, hopen.expect, ha, hclose.expect]
    exact ⟨h.shorter, rfl⟩
  | equal a b =>
    obtain ⟨ts₁, hequal, hpair⟩ := Takes.cons_iff.mp h
    rw [query, hequal.next]
    simp only [bind, Except.bind, parses_pair a b hpair]
    exact ⟨h.shorter, rfl⟩
  | subset a b =>
    obtain ⟨ts₁, hsubset, hpair⟩ := Takes.cons_iff.mp h
    rw [query, hsubset.next]
    simp only [bind, Except.bind, parses_pair a b hpair]
    exact ⟨h.shorter, rfl⟩

/-- The statement ends at a semicolon. -/
theorem StatementDerivation.parses_command {mid : Tokens} (d : StatementDerivation)
    (h : ts.Takes d.body mid) (hend : mid.Takes [.symbol ';'] rest) :
    ∃ h, command ts = .ok (d.meaning, ⟨mid, h⟩) := by
  cases d with
  | var name bits positive =>
    obtain ⟨ts₁, hvar, hname⟩ := Takes.cons_iff.mp h
    obtain ⟨ts₂, hname, hcolon⟩ := Takes.cons_iff.mp hname
    obtain ⟨ts₃, hcolon, hbits⟩ := Takes.cons_iff.mp hcolon
    rw [command, hvar.next]
    simp only [bind, Except.bind, name.parses hname, hcolon.expect, hbits.width positive]
    exact ⟨h.shorter, rfl⟩
  | define name e =>
    obtain ⟨ts₁, hlet, hname⟩ := Takes.cons_iff.mp h
    obtain ⟨ts₂, hname, hequals⟩ := Takes.cons_iff.mp hname
    obtain ⟨ts₃, hequals, he⟩ := Takes.cons_iff.mp hequals
    obtain ⟨_, he⟩ := e.parses_expr he hend (by simp [Rule.Continues])
    rw [command, hlet.next]
    simp only [bind, Except.bind, name.parses hname, hequals.expect, he]
    exact ⟨h.shorter, rfl⟩
  | print q =>
    obtain ⟨ts₁, hprint, hquery⟩ := Takes.cons_iff.mp h
    obtain ⟨_, hquery⟩ := q.parses hquery
    rw [command, hprint.next]
    simp only [bind, Except.bind, hquery]
    exact ⟨h.shorter, rfl⟩
  | assert q =>
    obtain ⟨ts₁, hassert, hquery⟩ := Takes.cons_iff.mp h
    obtain ⟨_, hquery⟩ := q.parses hquery
    rw [command, hassert.next]
    simp only [bind, Except.bind, hquery]
    exact ⟨h.shorter, rfl⟩

theorem StatementDerivation.parses (d : StatementDerivation) (h : ts.Takes d.tokens rest) :
    ∃ h, statement ts = .ok (⟨ts.position.line, d.meaning⟩, ⟨rest, h⟩) := by
  obtain ⟨mid, hbody, hsemicolon⟩ := Takes.append_iff.mp h
  obtain ⟨hlt, hcommand⟩ := d.parses_command hbody hsemicolon
  rw [statement]
  simp only [bind, Except.bind, hcommand, hsemicolon.expect]
  exact ⟨Nat.lt_trans hsemicolon.shorter hlt, rfl⟩

end

/-- What a program spells is read as the program. -/
theorem ProgramDerivation.parses (program : ProgramDerivation) (ts : Tokens)
    (h : program.tokens = ts.items.map (·.token)) :
    statements ts = .ok (program.script ts.items) := by
  induction program generalizing ts with
  | nil =>
    have hitems : ts.items = [] := List.map_eq_nil_iff.mp h.symm
    rw [statements, hitems]
    rfl
  | cons d program ih =>
    obtain ⟨_ | ⟨item, items⟩, others, hitems, (hd : _ = d.tokens), hothers⟩ :=
      List.map_eq_append_iff.mp h.symm
    · exact absurd hd.symm d.tokens_ne_nil
    have htakes : ts.Takes d.tokens ⟨others, ts.stop⟩ := ⟨item :: items, hd, by rw [← hitems]⟩
    obtain ⟨_, hstatement⟩ := d.parses htakes
    have hdrop : ts.items.drop d.tokens.length = others := by
      rw [hitems, ← hd, List.length_map, List.drop_left]
    have hcons : ts.items.isEmpty = false := by rw [hitems]; rfl
    have hline : ts.position.line = (ts.items.head?.map (·.position.line)).getD 0 := by
      rw [Tokens.position, hitems]
      rfl
    rw [statements, hcons]
    simp only [bind, Except.bind, hstatement, ih ⟨others, ts.stop⟩ hothers.symm]
    rw [script, hdrop, hline]
    rfl

end LayeredSets.Script
