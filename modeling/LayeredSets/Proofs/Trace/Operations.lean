import LayeredSets.Proofs.Token.Lookahead
import LayeredSets.Proofs.Trace.Spelling

/-!
# Operations as phrases

Where the parser of traces reads an operation, it takes what spells one that can stand in a trace,
and returns this one, or it fails at the first token with which no such spelling goes on.
-/

namespace LayeredSets.Trace

open Tokens

theorem predicts_handle (ts : Tokens) :
    Predicts (reader handle) (fun tokens a => tokens = [.word a]) ts :=
  (predicts_name (by simp) "a handle" ts).mono fun _ _ h => h.1

/-- Two handles, with both in one. -/
def pairReader : Reader (String × String) := do
  let a ← reader handle
  let b ← reader handle
  return (a, b)

theorem predicts_pair (ts : Tokens) :
    Predicts pairReader (fun tokens r => tokens = [.word r.1, .word r.2]) ts := by
  have hpair : Predicts pairReader _ ts :=
    (predicts_handle ts).andThen fun a _ => (predicts_handle _).andThen fun b _ => .pure (a, b)
  refine hpair.mono ?_
  rintro _ _ ⟨a, _, _, rfl, rfl, b, _, _, rfl, rfl, rfl, rfl⟩
  rfl

/-- All numbers that come next. -/
def numbersReader : Reader (List UInt64) := fun ts => .ok ((numbers ts).1, (numbers ts).2.1)

theorem predicts_numbers (ts : Tokens) :
    Predicts numbersReader (fun tokens values => tokens = values.map .number) ts := by
  fun_induction numbers ts with
  | case1 ts hnumber =>
    refine ((Predicts.pure []).mono ?_).congr fun ts' hpeek => ?_
    · rintro _ _ ⟨rfl, rfl⟩
      rfl
    · rw [numbersReader, numbers, number?_eq_none hpeek hnumber]
      rfl
  | case2 ts value ts₁ h₁ hnumber values rest h₂ hmore ih =>
    have hvalues := ih.andThen fun values _ => Predicts.pure (value :: values)
    refine .first (takes_of_number? hnumber) hvalues (fun htakes => ?_) ?_
    · rw [numbersReader, numbers, htakes.number?]
      rfl
    · rintro _ _ ⟨values, _, _, rfl, rfl, rfl, rfl⟩
      simp

/-- The answer that a token spells. -/
def answerOf (t : Token) : Option Bool :=
  if t = .word "true" then some true else if t = .word "false" then some false else none

theorem answerOf_eq_some {t : Token} {answer : Bool} (h : answerOf t = some answer) :
    t = .word (toString answer) := by
  rw [answerOf] at h
  split_ifs at h with htrue hfalse
  · rw [htrue, ← Option.some.inj h]
    rfl
  · rw [hfalse, ← Option.some.inj h]
    rfl

theorem predicts_expectation (ts : Tokens) :
    Predicts (reader expectation) (fun tokens expected => tokens = answerSpelling expected) ts := by
  cases harrow : ts.eat? .arrow with
  | none =>
    refine ((Predicts.pure none).mono ?_).congr fun ts' hpeek => ?_
    · rintro _ _ ⟨rfl, rfl⟩
      rfl
    · rw [reader_apply, expectation, eat_eq_none hpeek harrow]
      rfl
  | some rest =>
    have hanswer := (predicts_take (p := answerOf) "'true' or 'false'"
      ⟨[.word "true"], true, by decide, _, rfl, rfl⟩ rest.1).andThen
        fun answer _ => Predicts.pure (some answer)
    refine .first (takes_of_eat harrow) hanswer (fun htakes => ?_) ?_
    · rw [reader_apply, expectation, htakes.eat]
      simp only [reader_apply, bind_apply, pure_apply, bind_assoc, pure_bind]
      congr 2
      funext t
      rw [answerOf]
      split <;> simp_all
    · rintro _ _ ⟨value, _, _, rfl, ⟨t, rfl, ht⟩, rfl, rfl⟩
      rw [answerOf_eq_some ht]
      rfl

/-! ## Assignments -/

/-- The words that begin a definition. -/
def operations : List String :=
  ["top", "bottom", "const", "single", "compl", "eqvar", "union", "inter", "diff", "exists"]

/-- What stands behind the word of a definition. -/
def definitionPhrase (word : String) : Phrase Definition := fun tokens d =>
  .word word :: tokens = d.spelling

/-- What follows a known word does not depend on where the definition has begun. -/
theorem predicts_definition {word : String} (h : word ∈ operations) (start ts : Tokens) :
    Predicts (reader (definition word start)) (definitionPhrase word) ts := by
  have pair {word : String} {make : String → String → Definition} (hmake : ∀ a b,
      (make a b).spelling = [.word word, .word a, .word b])
      (hdefinition : ∀ ts, definition word start ts = definition.pair ts make) :
      Predicts (reader (definition word start)) (definitionPhrase word) ts := by
    have hpair := (predicts_pair ts).andThen fun r _ => Predicts.pure (make r.1 r.2)
    refine (hpair.mono ?_).congr fun ts' _ => ?_
    · rintro _ _ ⟨r, _, _, rfl, rfl, rfl, rfl⟩
      exact (hmake r.1 r.2).symm
    · rw [reader_apply, hdefinition]
      simp only [definition.pair, handlePair, pairReader, reader_apply, bind_apply, pure_apply,
        bind_assoc, pure_bind]
  simp only [operations, List.mem_cons, List.not_mem_nil, or_false] at h
  rcases h with rfl | rfl | rfl | rfl | rfl | rfl | rfl | rfl | rfl | rfl
  · refine ((Predicts.pure .top).mono ?_).congr fun _ _ => rfl
    rintro _ _ ⟨rfl, rfl⟩
    rfl
  · refine ((Predicts.pure .bottom).mono ?_).congr fun _ _ => rfl
    rintro _ _ ⟨rfl, rfl⟩
    rfl
  · have hconst := (predicts_handle ts).andThen fun var _ =>
      (predicts_number "a value" _).andThen fun value _ =>
        Predicts.pure (Definition.const var value)
    refine (hconst.mono ?_).congr fun ts' _ => ?_
    · rintro _ _ ⟨var, _, _, rfl, rfl, value, _, _, rfl, rfl, rfl, rfl⟩
      rfl
    · rw [reader_apply, definition]
      simp only [reader_apply, bind_apply, pure_apply, bind_assoc, pure_bind]
  · have hsingle := (predicts_numbers ts).andThen fun values _ =>
      Predicts.pure (Definition.single values)
    refine (hsingle.mono ?_).congr fun _ _ => rfl
    rintro _ _ ⟨values, _, _, rfl, rfl, rfl, rfl⟩
    simp [definitionPhrase, Definition.spelling]
  · have hcompl := (predicts_handle ts).andThen fun a _ => Predicts.pure (Definition.compl a)
    refine (hcompl.mono ?_).congr fun ts' _ => ?_
    · rintro _ _ ⟨a, _, _, rfl, rfl, rfl, rfl⟩
      rfl
    · rw [reader_apply, definition]
      simp only [reader_apply, bind_apply, pure_apply, bind_assoc, pure_bind]
  · exact pair (fun _ _ => rfl) fun _ => rfl
  · exact pair (fun _ _ => rfl) fun _ => rfl
  · exact pair (fun _ _ => rfl) fun _ => rfl
  · exact pair (fun _ _ => rfl) fun _ => rfl
  · exact pair (fun _ _ => rfl) fun _ => rfl

theorem definition_unknown {word : String} (h : word ∉ operations) (start ts : Tokens) :
    definition word start ts = .error ⟨start.position, s!"unknown trace operation '{word}'"⟩ := by
  simp only [operations, List.mem_cons, List.not_mem_nil, or_false, not_or] at h
  rw [definition] <;> simp_all

theorem definition_start {word : String} (h : word ∈ operations) (start start' ts : Tokens) :
    definition word start ts = definition word start' ts := by
  simp only [operations, List.mem_cons, List.not_mem_nil, or_false] at h
  rcases h with rfl | rfl | rfl | rfl | rfl | rfl | rfl | rfl | rfl | rfl <;> rfl

/-- What is assigned to a target, behind the sign. -/
def assignmentPhrase (target : String) : Phrase Op := fun tokens o =>
  (∃ name bits, o = .declare target name bits ∧ 0 < bits ∧
    tokens = [.word "declare", .word name, .number bits.toUInt64]) ∨
  ∃ d : Definition, o = .define target d ∧ tokens = d.spelling

/-- A word that begins no definition is an error at itself. -/
theorem assignment_error {target : String} {ts : Tokens}
    (h : ∀ word, ts.peek? = some (.word word) → word ≠ "declare" ∧ word ∉ operations) :
    ∃ e, reader (assignment target) ts = .error e ∧ e.position = ts.position := by
  rw [reader_apply, assignment]
  cases hhandle : handle ts with
  | error e => exact ⟨e, rfl, take_position hhandle⟩
  | ok result =>
    obtain ⟨word, rest⟩ := result
    obtain ⟨-, htakes⟩ := takes_of_name hhandle
    obtain ⟨hdeclare, hunknown⟩ := h word htakes.peek
    refine ⟨⟨ts.position, s!"unknown trace operation '{word}'"⟩, ?_, rfl⟩
    simp only [bind, Except.bind, if_neg hdeclare, definition_unknown hunknown]

theorem predicts_assignment (target : String) (ts : Tokens) :
    Predicts (reader (assignment target)) (assignmentPhrase target) ts := by
  by_cases hdeclare : ts.peek? = some (.word "declare")
  · have harguments (rest : Tokens) := (predicts_handle rest).andThen fun name _ =>
      (predicts_width _).andThen fun bits _ => Predicts.pure (Op.declare target name bits)
    refine .next hdeclare harguments (fun htakes => ?_) ?_
    · rw [reader_apply, assignment, handle_eq htakes]
      simp only [declaration, if_true, ok_bind, reader_apply, bind_apply, pure_apply, bind_assoc,
        pure_bind]
    · rintro _ _ ⟨name, _, _, rfl, rfl, bits, _, _, rfl, ⟨rfl, hbits⟩, rfl, rfl⟩
      exact .inl ⟨name, bits, rfl, hbits, rfl⟩
  by_cases hknown : ∃ word ∈ operations, ts.peek? = some (.word word)
  · obtain ⟨word, hword, hpeek⟩ := hknown
    have hdefinition (rest : Tokens) := (predicts_definition hword ts rest).andThen fun d _ =>
      Predicts.pure (Op.define target d)
    have hdeclare : word ≠ "declare" := by
      rintro rfl
      exact hdeclare hpeek
    refine .next hpeek hdefinition (fun {ts' _} htakes => ?_) ?_
    · rw [reader_apply, assignment, handle_eq htakes]
      simp only [if_neg hdeclare, definition_start hword ts' ts, ok_bind, reader_apply, bind_apply,
        pure_apply, bind_assoc, pure_bind]
    · rintro _ _ ⟨d, _, _, rfl, hd, rfl, rfl⟩
      exact .inr ⟨d, rfl, by rw [List.append_nil, hd]⟩
  · refine .stuck ⟨_, _, by decide, .inr ⟨.top, rfl, rfl⟩⟩ fun ts' hpeek =>
      assignment_error fun word hword => ?_
    rw [hpeek] at hword
    refine ⟨?_, fun hmem => hknown ⟨word, hmem, hword⟩⟩
    rintro rfl
    exact hdeclare hword

/-! ## Operations -/

/-- What spells an operation that can stand in a trace. -/
def opPhrase : Phrase Op := fun tokens o => o.Valid ∧ tokens = o.spelling

theorem predicts_query {k : Reader Query} {word : String} {phrase : Phrase Query} {ts : Tokens}
    (hk : Predicts k phrase ts)
    (hphrase : ∀ tokens q, phrase tokens q → .word word :: tokens = q.spelling) :
    Predicts (do let q ← k; let expected ← reader expectation; return Op.query q expected)
      (fun tokens o => opPhrase (.word word :: tokens) o) ts := by
  have hquery := hk.andThen fun q _ => (predicts_expectation _).andThen fun expected _ =>
    Predicts.pure (Op.query q expected)
  refine hquery.mono ?_
  rintro _ _ ⟨q, front, _, rfl, hq, expected, _, _, rfl, rfl, rfl, rfl⟩
  refine ⟨trivial, ?_⟩
  rw [List.append_nil, ← List.cons_append, hphrase front q hq]
  rfl

theorem predicts_opAfter (word : String) (ts : Tokens) :
    Predicts (reader (opAfter word)) (fun tokens o => opPhrase (.word word :: tokens) o) ts := by
  by_cases hleading : word ∈ leading
  · simp only [leading, List.mem_cons, List.not_mem_nil, or_false] at hleading
    rcases hleading with rfl | rfl | rfl | rfl
    · have hempty := (predicts_handle ts).andThen fun a _ => Predicts.pure (Query.empty a)
      refine (predicts_query hempty ?_).congr fun ts' _ => ?_
      · rintro _ _ ⟨a, _, _, rfl, rfl, rfl, rfl⟩
        rfl
      · rw [reader_apply, opAfter]
        simp only [reader_apply, bind_apply, pure_apply, bind_assoc, pure_bind]
    · have hequal := (predicts_pair ts).andThen fun r _ => Predicts.pure (Query.equal r.1 r.2)
      refine (predicts_query hequal ?_).congr fun ts' _ => ?_
      · rintro _ _ ⟨r, _, _, rfl, rfl, rfl, rfl⟩
        rfl
      · rw [reader_apply, opAfter]
        simp only [pairReader, handlePair, reader_apply, bind_apply, pure_apply, bind_assoc,
          pure_bind]
    · have hsubset := (predicts_pair ts).andThen fun r _ => Predicts.pure (Query.subset r.1 r.2)
      refine (predicts_query hsubset ?_).congr fun ts' _ => ?_
      · rintro _ _ ⟨r, _, _, rfl, rfl, rfl, rfl⟩
        rfl
      · rw [reader_apply, opAfter]
        simp only [pairReader, handlePair, reader_apply, bind_apply, pure_apply, bind_assoc,
          pure_bind]
    · have hrelease := (predicts_handle ts).andThen fun a _ => Predicts.pure (Op.release a)
      refine (hrelease.mono ?_).congr fun ts' _ => ?_
      · rintro _ _ ⟨a, _, _, rfl, rfl, rfl, rfl⟩
        exact ⟨trivial, rfl⟩
      · rw [reader_apply, opAfter]
        simp only [reader_apply, bind_apply, pure_apply, bind_assoc, pure_bind]
  · have hassign := (predicts_token (t := .symbol '=') (by decide) ts).andThen fun _ rest =>
      predicts_assignment word rest
    refine (hassign.mono ?_).congr fun ts' _ => ?_
    · rintro _ _ ⟨_, _, _, rfl, rfl, ⟨name, bits, rfl, hbits, rfl⟩ | ⟨d, rfl, rfl⟩⟩
      · exact ⟨⟨hleading, hbits⟩, rfl⟩
      · exact ⟨hleading, rfl⟩
    · simp only [leading, List.mem_cons, List.not_mem_nil, or_false, not_or] at hleading
      rw [reader_apply, opAfter]
      · simp only [reader_apply, token_apply, bind_apply, bind_assoc, pure_bind]
      all_goals simp_all

theorem predicts_op (ts : Tokens) : Predicts (reader op) opPhrase ts := by
  have hop : reader op = (do let word ← reader handle; reader (opAfter word)) := by
    funext ts
    simp only [op, reader_apply, bind_apply, bind_assoc, pure_bind]
  rw [hop]
  refine ((predicts_handle ts).andThen fun word rest => predicts_opAfter word rest).mono ?_
  rintro _ _ ⟨word, _, tokens, rfl, rfl, ho⟩
  exact ho

end LayeredSets.Trace
