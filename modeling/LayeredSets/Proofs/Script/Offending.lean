import LayeredSets.Proofs.Script.Complete
import LayeredSets.Proofs.Script.Exact
import LayeredSets.Proofs.Token.Lookahead
import Mathlib

/-!
# Where scripts go wrong

Each function of the parser takes what its rule derives, or fails at the first token with which no
derivation goes on. So the error of a text that is no script stands at the first token that does not
fit.
-/

namespace LayeredSets.Script

open Tokens

/-- What the rule derives, whatever it means. -/
def Rule.phrase (r : Rule) : Phrase Expr := fun tokens _ => ∃ d : Derivation r, d.tokens = tokens

/-- Every rule derives something. -/
theorem Rule.productive_phrase (r : Rule) : r.phrase.Productive := by
  let whole : Derivation .term := .term (.unary .top) .noUnaries
  cases r with
  | expr => exact ⟨_, .top, by decide, .expr whole .noTerms, rfl⟩
  | terms => exact ⟨_, .top, by decide, .noTerms, rfl⟩
  | term => exact ⟨_, .top, by decide, whole, rfl⟩
  | unaries => exact ⟨_, .top, by decide, .noUnaries, rfl⟩
  | unary => exact ⟨_, .top, by decide, .unary .top, rfl⟩
  | atom => exact ⟨_, .top, by decide, .top, rfl⟩

/-! ## Names and points -/

theorem predicts_scriptName (wanted : String) (ts : Tokens) :
    Predicts (reader (name wanted)) (fun tokens word => ∃ n : Name, n.word = word ∧
      tokens = [.word n.word]) ts := by
  refine (predicts_name (by decide) wanted ts).mono ?_
  rintro _ word ⟨rfl, hfree⟩
  exact ⟨⟨word, hfree⟩, rfl, rfl⟩

/-- Numbers with commas in front of them. -/
def morePhrase : Phrase (List UInt64) := fun tokens values => tokens = Derivation.moreTokens values

theorem predicts_moreValues (ts : Tokens) : Predicts (reader moreValues) morePhrase ts := by
  fun_induction moreValues ts with
  | case1 ts heat =>
    refine ((Predicts.pure []).mono ?_).congr fun ts' hpeek => ?_
    · rintro _ _ ⟨rfl, rfl⟩
      rfl
    · rw [reader_apply, moreValues, eat_eq_none hpeek heat]
      rfl
  | case2 ts ts₁ h₁ heat ih =>
    have hmore : Predicts
        (do let value ← reader (Tokens.number "a value"); let values ← reader moreValues
            return value :: values) _ ts₁ :=
      (predicts_number "a value" ts₁).bind (M := fun value => morePhrase.andThen fun values =>
          .nothing (value :: values))
        (fun _ => ⟨[], _, by simp, [], [], [], rfl, rfl, rfl, rfl⟩)
        fun value rest h =>
          (ih rest (left_of_reader h)).andThen fun values _ => .pure (value :: values)
    refine .first (takes_of_eat heat) hmore (fun htakes => ?_) ?_
    · rw [reader_apply, moreValues, htakes.eat]
      simp only [reader_apply, bind_apply, pure_apply, bind_assoc, pure_bind]
    · rintro _ _ ⟨value, _, _, rfl, rfl, values, _, _, rfl, rfl, rfl, rfl⟩
      simp [morePhrase, Derivation.moreTokens]

/-- The values of a point go on as long as there are commas, up to the brace. -/
theorem predicts_values (ts : Tokens) :
    Predicts (reader Script.values)
      (fun tokens values => tokens = Derivation.listTokens values ++ [.symbol '}']) ts := by
  by_cases hclose : ts.peek? = some (.symbol '}')
  · refine .next hclose (fun _ => .pure []) (fun htakes => ?_) ?_
    · rw [reader_apply, Script.values, htakes.eat]
      rfl
    · rintro _ _ ⟨rfl, rfl⟩
      rfl
  · have hvalues : Predicts
        (do let value ← reader (Tokens.number "a value"); let values ← reader moreValues
            token (.symbol '}'); return value :: values) _ ts :=
      (predicts_number "a value" ts).andThen fun value _ =>
        (predicts_moreValues _).andThen fun values _ =>
          (predicts_token (by decide) _).andThen fun _ _ => .pure (value :: values)
    refine (hvalues.mono ?_).congr fun ts' hpeek => ?_
    · rintro _ _ ⟨value, _, _, rfl, rfl, values, _, _, rfl, rfl, _, _, _, rfl, rfl, rfl, rfl⟩
      simp [Derivation.listTokens]
    · rw [reader_apply, Script.values, eat_eq_none hpeek (eat_eq_none_iff.mpr hclose)]
      simp only [reader_apply, token_apply, bind_apply, pure_apply, bind_assoc, pure_bind]

/-- What may be compared with the name that an expression begins with. -/
def operand (left : String) : Reader Expr := fun ts =>
  match ts.number? with
  | some (value, rest) => .ok (.equalsValue left value, rest.1)
  | none =>
    (do let right ← reader (name "a value or variable name"); return Expr.equalsVar left right :
      Reader Expr) ts

/-- What may stand behind that name. -/
def afterName (left : String) : Reader Expr := fun ts =>
  match ts.eat? .equals with
  | none => .ok (.name left, ts)
  | some rest => operand left rest.1

theorem reader_named :
    reader named = (do let left ← reader (name "a set expression"); afterName left) := by
  funext ts
  simp only [reader_apply, bind_apply, named, afterName, operand, bind_assoc, pure_bind]
  refine bind_congr fun (left, ⟨ts₁, h₁⟩) => ?_
  cases hequals : ts₁.eat? .equals with
  | none => rfl
  | some rest =>
    cases hnumber : rest.1.number? with
    | some result =>
      simp only [hnumber]
      rfl
    | none => simp only [hnumber, bind_assoc, pure_bind, pure_apply]

theorem predicts_operand (left : String) (ts : Tokens) :
    Predicts (operand left) (fun tokens _ => (∃ value, tokens = [.number value]) ∨
      ∃ n : Name, tokens = [.word n.word]) ts := by
  cases hnumber : ts.number? with
  | some result =>
    obtain ⟨value, rest⟩ := result
    refine .first (takes_of_number? hnumber) (.pure (.equalsValue left value)) (fun htakes => ?_) ?_
    · rw [operand, htakes.number?]
      rfl
    · rintro _ _ ⟨rfl, -⟩
      exact .inl ⟨value, rfl⟩
  | none =>
    have hname := (predicts_scriptName "a value or variable name" ts).andThen fun right _ =>
      Predicts.pure (Expr.equalsVar left right)
    refine (hname.mono ?_).congr fun ts' hpeek => ?_
    · rintro _ _ ⟨_, _, _, rfl, ⟨n, rfl, rfl⟩, rfl, -⟩
      exact .inr ⟨n, rfl⟩
    · rw [operand, number?_eq_none hpeek hnumber]

theorem predicts_afterName (left : String) (ts : Tokens) :
    Predicts (afterName left) (fun tokens _ => tokens = [] ∨
      (∃ value, tokens = [.equals, .number value]) ∨
      ∃ n : Name, tokens = [.equals, .word n.word]) ts := by
  cases hequals : ts.eat? .equals with
  | some rest =>
    have hoperand := predicts_operand left rest.1
    refine .first (takes_of_eat hequals) hoperand (fun htakes => ?_) ?_
    · rw [afterName, htakes.eat]
    · rintro _ _ (⟨value, rfl⟩ | ⟨n, rfl⟩)
      · exact .inr (.inl ⟨value, rfl⟩)
      · exact .inr (.inr ⟨n, rfl⟩)
  | none =>
    refine ((Predicts.pure (.name left)).mono ?_).congr fun ts' hpeek => ?_
    · rintro _ _ ⟨rfl, -⟩
      exact .inl rfl
    · rw [afterName, eat_eq_none hpeek hequals]
      rfl

theorem predicts_named (ts : Tokens) : Predicts (reader named) (Rule.phrase .atom) ts := by
  rw [reader_named]
  refine ((predicts_scriptName _ ts).andThen fun left _ => predicts_afterName left _).mono ?_
  rintro _ _ ⟨_, _, _, rfl, ⟨n, rfl, rfl⟩, rfl | ⟨value, rfl⟩ | ⟨m, rfl⟩⟩
  · exact ⟨.name n, rfl⟩
  · exact ⟨.equalsValue n value, rfl⟩
  · exact ⟨.equalsVar n m, rfl⟩

/-! ## Expressions -/

/-- All rules for expressions at once. -/
theorem predicts_all :
    (∀ ts, Predicts (reader expr) (Rule.phrase .expr) ts) ∧
    (∀ left ts, Predicts (reader (moreTerms left)) (Rule.phrase .terms) ts) ∧
    (∀ ts, Predicts (reader term) (Rule.phrase .term) ts) ∧
    (∀ left ts, Predicts (reader (moreUnaries left)) (Rule.phrase .unaries) ts) ∧
    (∀ ts, Predicts (reader unary) (Rule.phrase .unary) ts) ∧
    (∀ ts, Predicts (reader atom) (Rule.phrase .atom) ts) := by
  apply expr.mutual_induct
  case case1 =>
    intro ts ihterm ihmore
    have hexpr : reader expr = (do let left ← reader term; reader (moreTerms left)) := by
      funext ts
      simp only [reader_apply, bind_apply, expr, bind_assoc, pure_bind]
    rw [hexpr]
    have hnext := ihterm.bind (fun _ => Rule.productive_phrase .terms) fun left rest h =>
      ihmore left rest (left_of_reader h)
    refine hnext.mono ?_
    rintro _ _ ⟨_, _, _, rfl, ⟨first, rfl⟩, more, rfl⟩
    exact ⟨.expr first more, rfl⟩
  case case2 =>
    intro left ts ts₁ h₁ heat ihterm ihmore
    have hnext := ihterm.bind (fun _ => Rule.productive_phrase .terms) fun right rest h =>
      ihmore right rest (left_of_reader h)
    refine .first (takes_of_eat heat) hnext (fun htakes => ?_) ?_
    · rw [reader_apply, moreTerms, htakes.eat]
      simp only [reader_apply, bind_apply, bind_assoc, pure_bind]
    · rintro _ _ ⟨_, _, _, rfl, ⟨next, rfl⟩, more, rfl⟩
      exact ⟨.union next more, rfl⟩
  case case3 =>
    intro left ts hbar ts₁ h₁ heat ihterm ihmore
    have hnext := ihterm.bind (fun _ => Rule.productive_phrase .terms) fun right rest h =>
      ihmore right rest (left_of_reader h)
    refine .first (takes_of_eat heat) hnext (fun {ts'} _ htakes => ?_) ?_
    · have hbar : ts'.eat? (.symbol '|') = none := by
        rw [eat_eq_none_iff, htakes.peek]
        simp
      rw [reader_apply, moreTerms, hbar, htakes.eat]
      simp only [reader_apply, bind_apply, bind_assoc, pure_bind]
    · rintro _ _ ⟨_, _, _, rfl, ⟨next, rfl⟩, more, rfl⟩
      exact ⟨.difference next more, rfl⟩
  case case4 =>
    intro left ts hbar hminus
    refine ((Predicts.pure left).mono ?_).congr fun ts' hpeek => ?_
    · rintro _ _ ⟨rfl, -⟩
      exact ⟨.noTerms, rfl⟩
    · rw [reader_apply, moreTerms, eat_eq_none hpeek hbar, eat_eq_none hpeek hminus]
      rfl
  case case5 =>
    intro ts ihunary ihmore
    have hterm : reader term = (do let left ← reader unary; reader (moreUnaries left)) := by
      funext ts
      simp only [reader_apply, bind_apply, term, bind_assoc, pure_bind]
    rw [hterm]
    have hnext := ihunary.bind (fun _ => Rule.productive_phrase .unaries) fun left rest h =>
      ihmore left rest (left_of_reader h)
    refine hnext.mono ?_
    rintro _ _ ⟨_, _, _, rfl, ⟨first, rfl⟩, more, rfl⟩
    exact ⟨.term first more, rfl⟩
  case case6 =>
    intro left ts ts₁ h₁ heat ihunary ihmore
    have hnext := ihunary.bind (fun _ => Rule.productive_phrase .unaries) fun right rest h =>
      ihmore right rest (left_of_reader h)
    refine .first (takes_of_eat heat) hnext (fun htakes => ?_) ?_
    · rw [reader_apply, moreUnaries, htakes.eat]
      simp only [reader_apply, bind_apply, bind_assoc, pure_bind]
    · rintro _ _ ⟨_, _, _, rfl, ⟨next, rfl⟩, more, rfl⟩
      exact ⟨.intersect next more, rfl⟩
  case case7 =>
    intro left ts hand
    refine ((Predicts.pure left).mono ?_).congr fun ts' hpeek => ?_
    · rintro _ _ ⟨rfl, -⟩
      exact ⟨.noUnaries, rfl⟩
    · rw [reader_apply, moreUnaries, eat_eq_none hpeek hand]
      rfl
  case case8 =>
    intro ts ts₁ h₁ heat ihunary
    have hoperand := ihunary.andThen fun e _ => Predicts.pure e.complement
    refine .first (takes_of_eat heat) hoperand (fun htakes => ?_) ?_
    · rw [reader_apply, unary, htakes.eat]
      simp only [reader_apply, bind_apply, pure_apply, bind_assoc, pure_bind]
    · rintro _ _ ⟨_, _, _, rfl, ⟨operand, rfl⟩, rfl, -⟩
      exact ⟨.complement operand, by simp [Derivation.tokens]⟩
  case case9 =>
    intro ts hnot ihatom
    refine (ihatom.mono ?_).congr fun ts' hpeek => ?_
    · rintro _ _ ⟨operand, rfl⟩
      exact ⟨.unary operand, rfl⟩
    · rw [reader_apply, unary, eat_eq_none hpeek hnot]
      rfl
  case case10 =>
    intro ts ts₁ h₁ hnext ihexpr
    have hinner := ihexpr.andThen fun e _ =>
      (predicts_token (t := .symbol ')') (by decide) _).andThen fun _ _ => Predicts.pure e
    refine .first (takes_of_next hnext) hinner (fun htakes => ?_) ?_
    · rw [reader_apply, atom, htakes.next]
      simp only [reader_apply, token_apply, bind_apply, pure_apply, bind_assoc, pure_bind]
    · rintro _ _ ⟨_, _, _, rfl, ⟨inner, rfl⟩, _, _, _, rfl, rfl, rfl, -⟩
      exact ⟨.group inner, rfl⟩
  case case11 =>
    intro ts ts₁ h₁ hnext
    have hvalues := (predicts_values ts₁).andThen fun values _ => Predicts.pure (Expr.point values)
    refine .first (takes_of_next hnext) hvalues (fun htakes => ?_) ?_
    · rw [reader_apply, atom, htakes.next]
      simp only [reader_apply, bind_apply, pure_apply, bind_assoc, pure_bind]
    · rintro _ _ ⟨values, _, _, rfl, rfl, rfl, -⟩
      exact ⟨.point values, by simp [Derivation.tokens]⟩
  case case12 =>
    intro ts rest hnext
    refine .first (takes_of_next hnext) (.pure .top) (fun htakes => ?_) ?_
    · rw [reader_apply, atom, htakes.next]
      rfl
    · rintro _ _ ⟨rfl, -⟩
      exact ⟨.top, rfl⟩
  case case13 =>
    intro ts rest hnext
    refine .first (takes_of_next hnext) (.pure .bottom) (fun htakes => ?_) ?_
    · rw [reader_apply, atom, htakes.next]
      rfl
    · rintro _ _ ⟨rfl, -⟩
      exact ⟨.bottom, rfl⟩
  case case14 =>
    intro ts ts₁ h₁ hnext ihunary
    have hproductive (var : String) :
        (Phrase.andThen (fun tokens (_ : Unit) => tokens = [.symbol '.']) fun _ =>
          Rule.unary.phrase.andThen fun body => Phrase.nothing (Expr.exists var body)).Productive :=
      .andThen ⟨_, (), by decide, rfl⟩ fun _ =>
        (Rule.productive_phrase .unary).andThen fun _ => Phrase.productive_nothing _
    have hbody (var : String) {ts₂ : Tokens} (h₂ : ts₂.size < ts₁.size) :=
      (predicts_token (t := .symbol '.') (by decide) ts₂).bind
        (fun _ => (Rule.productive_phrase .unary).andThen fun _ => Phrase.productive_nothing _)
        fun _ ts₃ h => (ihunary ts₂ h₂ ts₃ (shorter_of_token h)).andThen fun body _ =>
          Predicts.pure (Expr.exists var body)
    have hvar := (predicts_scriptName "a variable name" ts₁).bind hproductive fun var ts₂ h =>
      hbody var (left_of_reader h)
    refine .first (takes_of_next hnext) hvar (fun htakes => ?_) ?_
    · rw [reader_apply, atom, htakes.next]
      simp only [reader_apply, token_apply, bind_apply, pure_apply, bind_assoc, pure_bind]
    · rintro _ _ ⟨_, _, _, rfl, ⟨var, rfl, rfl⟩, _, _, _, rfl, rfl, _, _, _, rfl,
        ⟨body, rfl⟩, rfl, -⟩
      exact ⟨.exists var body, by simp [Derivation.tokens]⟩
  case case15 =>
    intro ts hgroup hpoint htop hbottom hexists
    have hnamed : ∀ t ∈ openings, ts.peek? ≠ some t := by
      intro t ht hpeek
      obtain ⟨rest, htakes⟩ := exists_takes hpeek
      simp only [openings, List.mem_cons, List.not_mem_nil, or_false] at ht
      rcases ht with rfl | rfl | rfl | rfl | rfl
      · exact hgroup _ _ htakes.next
      · exact hpoint _ _ htakes.next
      · exact htop _ htakes.next
      · exact hbottom _ htakes.next
      · exact hexists _ _ htakes.next
    refine (predicts_named ts).congr fun ts' hpeek => ?_
    rw [reader_apply, reader_apply, atom_eq_named (by rwa [hpeek])]

theorem predicts_expr (ts : Tokens) : Predicts (reader expr) (Rule.phrase .expr) ts :=
  predicts_all.1 ts

/-! ## Queries and statements -/

/-- A pair, with its two expressions in one. -/
def pairReader : Reader (Expr × Expr) := do
  token (.symbol '(')
  let a ← reader expr
  token (.symbol ',')
  let b ← reader expr
  token (.symbol ')')
  return (a, b)

theorem predicts_pair (ts : Tokens) :
    Predicts pairReader (fun tokens _ => ∃ a b : Derivation .expr,
      tokens = .symbol '(' :: (a.tokens ++ .symbol ',' :: (b.tokens ++ [.symbol ')']))) ts := by
  have hpair : Predicts pairReader _ ts :=
    (predicts_token (by decide) ts).andThen fun _ _ =>
      (predicts_expr _).andThen fun a _ =>
        (predicts_token (by decide) _).andThen fun _ _ =>
          (predicts_expr _).andThen fun b _ =>
            (predicts_token (by decide) _).andThen fun _ _ => .pure (a, b)
  refine hpair.mono ?_
  rintro _ _ ⟨_, _, _, rfl, rfl, _, _, _, rfl, ⟨a, rfl⟩, _, _, _, rfl, rfl, _, _, _, rfl, ⟨b, rfl⟩,
    _, _, _, rfl, rfl, rfl, -⟩
  exact ⟨a, b, rfl⟩

/-- Tokens of a query, whatever it means. -/
def queryPhrase : Phrase Query := fun tokens _ => ∃ d : QueryDerivation, d.tokens = tokens

theorem predicts_query (ts : Tokens) : Predicts (reader query) queryPhrase ts := by
  by_cases hempty : ts.peek? = some (.word "empty")
  · have harguments (rest : Tokens) :=
      (predicts_token (t := .symbol '(') (by decide) rest).andThen fun _ _ =>
        (predicts_expr _).andThen fun a _ =>
          (predicts_token (t := .symbol ')') (by decide) _).andThen fun _ _ =>
            Predicts.pure (Query.empty a)
    refine .next hempty harguments (fun htakes => ?_) ?_
    · rw [reader_apply, query, htakes.next]
      simp only [reader_apply, token_apply, bind_apply, pure_apply, bind_assoc, pure_bind]
    · rintro _ _ ⟨_, _, _, rfl, rfl, _, _, _, rfl, ⟨a, rfl⟩, _, _, _, rfl, rfl, rfl, -⟩
      exact ⟨.empty a, rfl⟩
  by_cases hequal : ts.peek? = some (.word "equal")
  · have harguments (rest : Tokens) :=
      (predicts_pair rest).andThen fun r _ => Predicts.pure (Query.equal r.1 r.2)
    refine .next hequal harguments (fun htakes => ?_) ?_
    · rw [reader_apply, query, htakes.next]
      simp only [pairReader, pair, reader_apply, token_apply, bind_apply, pure_apply, bind_assoc,
        pure_bind]
    · rintro _ _ ⟨_, _, _, rfl, ⟨a, b, rfl⟩, rfl, -⟩
      exact ⟨.equal a b, by simp [QueryDerivation.tokens]⟩
  by_cases hsubset : ts.peek? = some (.word "subset")
  · have harguments (rest : Tokens) :=
      (predicts_pair rest).andThen fun r _ => Predicts.pure (Query.subset r.1 r.2)
    refine .next hsubset harguments (fun htakes => ?_) ?_
    · rw [reader_apply, query, htakes.next]
      simp only [pairReader, pair, reader_apply, token_apply, bind_apply, pure_apply, bind_assoc,
        pure_bind]
    · rintro _ _ ⟨_, _, _, rfl, ⟨a, b, rfl⟩, rfl, -⟩
      exact ⟨.subset a b, by simp [QueryDerivation.tokens]⟩
  · let all : Derivation .expr := .expr (.term (.unary .top) .noUnaries) .noTerms
    refine .stuck ⟨_, .empty .top, by decide, .empty all, rfl⟩ fun ts' hpeek =>
      ⟨ts'.unexpected "'empty', 'equal' or 'subset'", ?_, rfl⟩
    rw [reader_apply, query]
    split
    · next heq => exact absurd (hpeek ▸ (takes_of_next heq).peek) hempty
    · next heq => exact absurd (hpeek ▸ (takes_of_next heq).peek) hequal
    · next heq => exact absurd (hpeek ▸ (takes_of_next heq).peek) hsubset
    · rfl

/-- Tokens of a statement before its semicolon, whatever it means. -/
def commandPhrase : Phrase Command := fun tokens _ => ∃ d : StatementDerivation, d.body = tokens

theorem predicts_command (ts : Tokens) : Predicts (reader command) commandPhrase ts := by
  by_cases hvar : ts.peek? = some (.word "var")
  · have harguments (rest : Tokens) :=
      (predicts_scriptName "a variable name" rest).andThen fun var _ =>
        (predicts_token (t := .symbol ':') (by decide) _).andThen fun _ _ =>
          (predicts_width _).andThen fun bits _ => Predicts.pure (Command.var var bits)
    refine .next hvar harguments (fun htakes => ?_) ?_
    · rw [reader_apply, command, htakes.next]
      simp only [reader_apply, token_apply, bind_apply, pure_apply, bind_assoc, pure_bind]
    · rintro _ _ ⟨_, _, _, rfl, ⟨var, rfl, rfl⟩, _, _, _, rfl, rfl, bits, _, _, rfl,
        ⟨rfl, hbits⟩, rfl, -⟩
      exact ⟨.var var bits hbits, rfl⟩
  by_cases hlet : ts.peek? = some (.word "let")
  · have harguments (rest : Tokens) :=
      (predicts_scriptName "a set name" rest).andThen fun set _ =>
        (predicts_token (t := .symbol '=') (by decide) _).andThen fun _ _ =>
          (predicts_expr _).andThen fun e _ => Predicts.pure (Command.define set e)
    refine .next hlet harguments (fun htakes => ?_) ?_
    · rw [reader_apply, command, htakes.next]
      simp only [reader_apply, token_apply, bind_apply, pure_apply, bind_assoc, pure_bind]
    · rintro _ _ ⟨_, _, _, rfl, ⟨set, rfl, rfl⟩, _, _, _, rfl, rfl, _, _, _, rfl, ⟨e, rfl⟩,
        rfl, -⟩
      exact ⟨.define set e, by simp [StatementDerivation.body]⟩
  by_cases hprint : ts.peek? = some (.word "print")
  · have harguments (rest : Tokens) :=
      (predicts_query rest).andThen fun q _ => Predicts.pure (Command.print q)
    refine .next hprint harguments (fun htakes => ?_) ?_
    · rw [reader_apply, command, htakes.next]
      simp only [reader_apply, bind_apply, pure_apply, bind_assoc, pure_bind]
    · rintro _ _ ⟨_, _, _, rfl, ⟨q, rfl⟩, rfl, -⟩
      exact ⟨.print q, by simp [StatementDerivation.body]⟩
  by_cases hassert : ts.peek? = some (.word "assert")
  · have harguments (rest : Tokens) :=
      (predicts_query rest).andThen fun q _ => Predicts.pure (Command.assert q)
    refine .next hassert harguments (fun htakes => ?_) ?_
    · rw [reader_apply, command, htakes.next]
      simp only [reader_apply, bind_apply, pure_apply, bind_assoc, pure_bind]
    · rintro _ _ ⟨_, _, _, rfl, ⟨q, rfl⟩, rfl, -⟩
      exact ⟨.assert q, by simp [StatementDerivation.body]⟩
  · let x : Name := ⟨"x", by decide⟩
    refine .stuck ⟨[.word "var", .word "x", .symbol ':', .number 1], .var "x" 1, by decide,
        .var x 1 (by decide), rfl⟩
      fun ts' hpeek => ⟨ts'.unexpected "a statement", ?_, rfl⟩
    rw [reader_apply, command]
    split
    · next heq => exact absurd (hpeek ▸ (takes_of_next heq).peek) hvar
    · next heq => exact absurd (hpeek ▸ (takes_of_next heq).peek) hlet
    · next heq => exact absurd (hpeek ▸ (takes_of_next heq).peek) hprint
    · next heq => exact absurd (hpeek ▸ (takes_of_next heq).peek) hassert
    · rfl

/-- A statement, without its line. -/
def statementReader : Reader Command := do
  let c ← reader command
  token (.symbol ';')
  return c

theorem statementReader_eq (ts : Tokens) :
    statementReader ts = (do let r ← statement ts; return (r.1.command, r.2.1)) := by
  simp only [statementReader, statement, reader_apply, token_apply, bind_apply, pure_apply,
    bind_assoc, pure_bind]

theorem predicts_statement (ts : Tokens) :
    Predicts statementReader (fun tokens _ => ∃ d : StatementDerivation, d.tokens = tokens) ts := by
  have hstatement : Predicts statementReader _ ts :=
    (predicts_command ts).andThen fun c _ =>
      (predicts_token (by decide) _).andThen fun _ _ => .pure c
  refine hstatement.mono ?_
  rintro _ _ ⟨_, _, _, rfl, ⟨d, rfl⟩, _, _, _, rfl, rfl, rfl, -⟩
  exact ⟨d, rfl⟩

/-! ## Scripts -/

/-- All statements, which are taken together. -/
def programReader : Reader Unit := fun ts => do
  let _ ← statements ts
  return ((), ⟨[], ts.stop⟩)

theorem programReader_nil {ts : Tokens} (hts : ts.items = []) :
    programReader ts = (pure () : Reader Unit) ts := by
  obtain ⟨items, stop⟩ := ts
  obtain rfl : items = [] := hts
  rw [programReader, statements]
  rfl

theorem programReader_cons {ts : Tokens} (hts : ts.items ≠ []) :
    programReader ts = (do let _ ← statementReader; programReader) ts := by
  have hitems : ts.items.isEmpty = false := by simpa using hts
  rw [programReader, statements, hitems, bind_apply, statementReader_eq]
  cases hstatement : statement ts with
  | error e => rfl
  | ok result =>
    obtain ⟨s, rest, hrest⟩ := result
    obtain ⟨d, -, htakes⟩ := derives_statement hstatement
    change (statements rest >>= _) >>= _ = programReader rest
    rw [programReader, bind_assoc, htakes.stop_eq]
    simp only [pure_bind]

/-- The tokens of a program. -/
def programPhrase : Phrase Unit := fun tokens _ =>
  ∃ program : ProgramDerivation, program.tokens = tokens

theorem predicts_program (ts : Tokens) : Predicts programReader programPhrase ts := by
  fun_induction statements ts with
  | case1 ts hempty =>
    rw [List.isEmpty_iff] at hempty
    refine ((Predicts.pure ()).mono ?_).congr fun ts' hpeek => programReader_nil ?_
    · rintro _ _ ⟨rfl, -⟩
      exact ⟨[], rfl⟩
    · simpa [peek?, hempty] using hpeek
  | case2 ts hitems ih =>
    have hrest {c : Command} {rest : Tokens} (h : statementReader ts = .ok (c, rest)) :
        Predicts programReader programPhrase rest := by
      rw [statementReader_eq] at h
      obtain ⟨⟨s, rest', hrest⟩, -, heq⟩ := bind_eq_ok h
      obtain ⟨-, rfl⟩ := Prod.mk.inj (Except.ok.inj heq)
      exact ih rest' hrest
    have hprogram := (predicts_statement ts).bind
      (fun _ => ⟨[], (), by simp, ([] : ProgramDerivation), rfl⟩) fun _ _ => hrest
    refine (hprogram.mono ?_).congr fun ts' hpeek => programReader_cons fun hempty => hitems ?_
    · rintro _ _ ⟨_, _, _, rfl, ⟨d, rfl⟩, program, rfl⟩
      exact ⟨d :: program, rfl⟩
    · rw [List.isEmpty_iff]
      simpa [peek?, hempty] using hpeek.symm

/-- Tokens of a text that is a script. -/
def ValidTokens (ts : Tokens) : Prop :=
  (∃ text, tokenize text false = .ok ts) ∧
    ∃ program : ProgramDerivation, program.tokens = ts.items.map (·.token)

/-- Of a text with tokens that is no script, the parser reports the position of a token, or of the
end, up to which the text reads like the beginning of some script, while no script begins like the
text up to and with that token. -/
theorem parse_offendsAt (text : List Char) (ts : Tokens) (htext : tokenize text false = .ok ts)
    (hinvalid : ¬ ∃ program : ProgramDerivation, program.tokens = ts.items.map (·.token)) :
    ∃ e, parse text = .error e ∧ OffendsAt ValidTokens ts e.position := by
  have hparse : parse text = statements ts := by
    rw [parse, htext]
    rfl
  cases hstatements : statements ts with
  | ok script => exact absurd (derives_statements ts script hstatements) hinvalid
  | error e =>
    have herror : programReader ts = .error e := by
      rw [programReader, hstatements]
      rfl
    refine ⟨e, hparse.trans hstatements, (predicts_program ts).offendsAt htext herror
      (fun htext' hphrase => ⟨⟨_, htext'⟩, hphrase⟩) ?_⟩
    rintro ts' e' ⟨-, program, hprogram⟩ herror'
    rw [programReader, program.parses ts' hprogram] at herror'
    cases herror'

/-- Some script goes on with a comparison behind a name, but none does behind a keyword. -/
theorem parse_offendsAt_sample :
    ∃ ts e, tokenize "let s = top == 3;".toList false = .ok ts ∧
      parse "let s = top == 3;".toList = .error e ∧ e.position = ⟨1, 13⟩ ∧
        OffendsAt ValidTokens ts e.position := by
  have hpieces : Piece.split "let s = top == 3;".toList =
      [.word ['l', 'e', 't'], .blank ' ', .word ['s'], .blank ' ', .symbol '=', .blank ' ',
        .word ['t', 'o', 'p'], .blank ' ', .equals, .blank ' ', .number ['3'], .symbol ';'] := by
    cbv
  let ts : Tokens :=
    ⟨[⟨.word "let", ⟨1, 1⟩⟩, ⟨.word "s", ⟨1, 5⟩⟩, ⟨.symbol '=', ⟨1, 7⟩⟩, ⟨.word "top", ⟨1, 9⟩⟩,
      ⟨.equals, ⟨1, 13⟩⟩, ⟨.number 3, ⟨1, 16⟩⟩, ⟨.symbol ';', ⟨1, 17⟩⟩], ⟨1, 18⟩⟩
  have htokens : tokenize "let s = top == 3;".toList false = .ok ts := by
    rw [tokenize, hpieces]
    rfl
  have hstatements : statements ts = .error ⟨⟨1, 13⟩, "expected ';', found '=='"⟩ := by
    cbv
  have hinvalid : ¬ ∃ program : ProgramDerivation, program.tokens = ts.items.map (·.token) := by
    rintro ⟨program, hprogram⟩
    cases hstatements.symm.trans (program.parses ts hprogram)
  obtain ⟨e, herror, hoffends⟩ := parse_offendsAt _ ts htokens hinvalid
  refine ⟨ts, e, htokens, herror, ?_, hoffends⟩
  have hparse : parse "let s = top == 3;".toList = statements ts := by
    rw [parse, htokens]
    rfl
  rw [hparse, hstatements] at herror
  rw [← Except.error.inj herror]

end LayeredSets.Script
