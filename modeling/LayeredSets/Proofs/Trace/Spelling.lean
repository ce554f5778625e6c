import LayeredSets.Proofs.Token.Takes
import LayeredSets.Trace.Parser

/-!
# The tokens of an operation

Each operation of a trace is spelled by one list of tokens. Where these stand at the end of a line,
they are parsed as the operation.
-/

namespace LayeredSets.Trace

open Tokens

/-! ## Spellings -/

def Definition.spelling : Definition → List Token
  | top => [.word "top"]
  | bottom => [.word "bottom"]
  | const var value => [.word "const", .word var, .number value]
  | eqvar a b => [.word "eqvar", .word a, .word b]
  | single values => .word "single" :: values.map .number
  | union a b => [.word "union", .word a, .word b]
  | inter a b => [.word "inter", .word a, .word b]
  | diff a b => [.word "diff", .word a, .word b]
  | compl a => [.word "compl", .word a]
  | .exists set var => [.word "exists", .word set, .word var]

def Query.spelling : Query → List Token
  | empty set => [.word "empty", .word set]
  | equal a b => [.word "equal", .word a, .word b]
  | subset a b => [.word "subset", .word a, .word b]

/-- The answer that follows a query. -/
def answerSpelling : Option Bool → List Token
  | none => []
  | some answer => [.arrow, .word (toString answer)]

def Op.spelling : Op → List Token
  | declare target name bits =>
    [.word target, .symbol '=', .word "declare", .word name, .number bits.toUInt64]
  | define target d => .word target :: .symbol '=' :: d.spelling
  | query q expected => q.spelling ++ answerSpelling expected
  | release handle => [.word "release", .word handle]

/-- The first words of lines that are no assignments. -/
def leading : List String := ["empty", "equal", "subset", "release"]

/-- No assignment is to one of the leading words, and declared widths are positive. -/
def Op.Valid : Op → Prop
  | declare target _ bits => target ∉ leading ∧ 0 < bits
  | define target _ => target ∉ leading
  | query .. | release .. => True

/-- There is nothing left on the line. -/
def AtLineEnd (ts : Tokens) : Prop := ∀ t, ts.peek? = some t → t = .lineBreak

theorem AtLineEnd.eat_arrow {ts : Tokens} (h : AtLineEnd ts) : ts.eat? .arrow = none :=
  eat_eq_none_iff.mpr fun hpeek => Token.noConfusion (h _ hpeek)

theorem AtLineEnd.number? {ts : Tokens} (h : AtLineEnd ts) : ts.number? = none := by
  cases hnumber : ts.number? with
  | none => rfl
  | some next => exact Token.noConfusion (h _ (takes_of_number? hnumber).peek)

/-! ## Parts of operations -/

section

variable {ts rest : Tokens} {a b : String}

theorem handle_eq (h : Takes ts [.word a] rest) : handle ts = .ok (a, ⟨rest, h.shorter⟩) :=
  h.name List.not_mem_nil _

theorem handlePair_eq (h : Takes ts [.word a, .word b] rest) :
    handlePair ts = .ok (a, b, ⟨rest, h.shorter⟩) := by
  obtain ⟨mid, ha, hb⟩ := Takes.cons_iff.mp h
  simp only [handlePair, handle_eq ha, handle_eq hb, bind, Except.bind]
  rfl

theorem numbers_eq (values : List UInt64) (h : Takes ts (values.map .number) rest)
    (hend : AtLineEnd rest) : ∃ h, numbers ts = (values, ⟨rest, h⟩) := by
  induction values generalizing ts with
  | nil =>
    obtain rfl := Takes.nil_iff.mp h
    rw [numbers, hend.number?]
    exact ⟨Nat.le_refl _, rfl⟩
  | cons value values ih =>
    obtain ⟨mid, hvalue, hvalues⟩ := Takes.cons_iff.mp h
    obtain ⟨hle, heq⟩ := ih hvalues
    rw [numbers, hvalue.number?]
    refine ⟨h.shorter.le, ?_⟩
    simp only [heq]

theorem expectation_eq (expected : Option Bool) (h : Takes ts (answerSpelling expected) rest)
    (hend : AtLineEnd rest) : ∃ h, expectation ts = .ok (expected, ⟨rest, h⟩) := by
  cases expected with
  | none =>
    obtain rfl := Takes.nil_iff.mp h
    rw [expectation, hend.eat_arrow]
    exact ⟨Nat.le_refl _, rfl⟩
  | some answer =>
    obtain ⟨mid, harrow, hanswer⟩ := Takes.cons_iff.mp h
    rw [expectation, harrow.eat]
    dsimp only
    rw [hanswer.take (show _ = some answer by cases answer <;> rfl)]
    exact ⟨h.shorter.le, rfl⟩

/-- A word that begins a definition begins the rest of an assignment. -/
theorem assignment_eq {target word : String} {d : Definition} {mid : Tokens}
    (hword : Takes ts [.word word] mid) (hdeclare : word ≠ "declare")
    (hdefinition : ∃ h, definition word ts mid = .ok (d, ⟨rest, h⟩)) :
    ∃ h, assignment target ts = .ok (.define target d, ⟨rest, h⟩) := by
  obtain ⟨hle, heq⟩ := hdefinition
  simp only [assignment, handle_eq hword, if_neg hdeclare, heq, bind, Except.bind]
  exact ⟨shorter_of_le hword.shorter hle, rfl⟩

theorem assignment_define (target : String) {d : Definition} (h : Takes ts d.spelling rest)
    (hend : AtLineEnd rest) : ∃ h, assignment target ts = .ok (.define target d, ⟨rest, h⟩) := by
  -- every definition begins with its own word, and most go on with a pair of handles
  have pair {word : String} {make : String → String → Definition} {a b : String} {mid : Tokens}
      (hpair : Takes mid [.word a, .word b] rest)
      (hmake : definition word ts mid = definition.pair mid make) :
      ∃ h, definition word ts mid = .ok (make a b, ⟨rest, h⟩) := by
    simp only [hmake, definition.pair, handlePair_eq hpair, bind, Except.bind]
    exact ⟨hpair.shorter.le, rfl⟩
  cases d with
  | top | bottom => exact assignment_eq h (by decide) ⟨Nat.le_refl _, rfl⟩
  | const var value =>
    obtain ⟨mid, hword, harguments⟩ := Takes.cons_iff.mp h
    obtain ⟨mid', hvar, hvalue⟩ := Takes.cons_iff.mp harguments
    refine assignment_eq hword (by decide) ?_
    simp only [definition, handle_eq hvar, hvalue.number, bind, Except.bind]
    exact ⟨harguments.shorter.le, rfl⟩
  | single values =>
    obtain ⟨mid, hword, hvalues⟩ := Takes.cons_iff.mp h
    obtain ⟨hle, hnumbers⟩ := numbers_eq values hvalues hend
    refine assignment_eq hword (by decide) ?_
    simp only [definition, hnumbers]
    exact ⟨hle, rfl⟩
  | compl a =>
    obtain ⟨mid, hword, ha⟩ := Takes.cons_iff.mp h
    refine assignment_eq hword (by decide) ?_
    simp only [definition, handle_eq ha, bind, Except.bind]
    exact ⟨ha.shorter.le, rfl⟩
  | eqvar a b | union a b | inter a b | diff a b | «exists» a b =>
    obtain ⟨mid, hword, hpair⟩ := Takes.cons_iff.mp h
    exact assignment_eq hword (by decide) (pair hpair rfl)

theorem assignment_declare (target : String) {name : String} {bits : UInt32} (hbits : 0 < bits)
    (h : Takes ts [.word "declare", .word name, .number bits.toUInt64] rest) :
    ∃ h, assignment target ts = .ok (.declare target name bits, ⟨rest, h⟩) := by
  obtain ⟨mid, hword, harguments⟩ := Takes.cons_iff.mp h
  obtain ⟨mid', hname, hwidth⟩ := Takes.cons_iff.mp harguments
  simp only [assignment, declaration, handle_eq hword, handle_eq hname, hwidth.width hbits, bind,
    Except.bind]
  exact ⟨h.shorter, rfl⟩

end

/-! ## Operations -/

/-- An operation whose first word is none of the leading ones is an assignment. -/
theorem op_assignment {target : String} (htarget : target ∉ leading) {tokens : List Token}
    {ts rest : Tokens} {o : Op} (h : Takes ts (.word target :: .symbol '=' :: tokens) rest)
    (hassign : ∀ {mid}, Takes mid tokens rest → ∃ h, assignment target mid = .ok (o, ⟨rest, h⟩)) :
    ∃ h, op ts = .ok (o, ⟨rest, h⟩) := by
  simp only [leading, List.mem_cons, List.not_mem_nil, or_false, not_or] at htarget
  obtain ⟨mid, hhandle, hequals⟩ := Takes.cons_iff.mp h
  obtain ⟨mid', hequals, htokens⟩ := Takes.cons_iff.mp hequals
  obtain ⟨hlt, heq⟩ := hassign htokens
  have hafter : ∃ h, opAfter target mid = .ok (o, ⟨rest, h⟩) := by
    rw [opAfter]
    · simp only [hequals.expect, heq, bind, Except.bind]
      exact ⟨shorter_trans hequals.shorter hlt, rfl⟩
    all_goals simp_all
  obtain ⟨hlt', hafter⟩ := hafter
  simp only [op, handle_eq hhandle, hafter, bind, Except.bind]
  exact ⟨h.shorter, rfl⟩

theorem op_query {q : Query} {expected : Option Bool} {ts rest : Tokens}
    (h : Takes ts (q.spelling ++ answerSpelling expected) rest) (hend : AtLineEnd rest) :
    ∃ h, op ts = .ok (.query q expected, ⟨rest, h⟩) := by
  obtain ⟨mid, hquery, hanswer⟩ := Takes.append_iff.mp h
  obtain ⟨hle, hexpectation⟩ := expectation_eq expected hanswer hend
  cases q with
  | empty a =>
    obtain ⟨mid', hword, ha⟩ := Takes.cons_iff.mp hquery
    simp only [op, opAfter, handle_eq hword, handle_eq ha, hexpectation, bind, Except.bind]
    exact ⟨shorter_of_le hquery.shorter hle, rfl⟩
  | equal a b | subset a b =>
    obtain ⟨mid', hword, hpair⟩ := Takes.cons_iff.mp hquery
    simp only [op, opAfter, handle_eq hword, handlePair_eq hpair, hexpectation, bind, Except.bind]
    exact ⟨shorter_of_le hquery.shorter hle, rfl⟩

/-- Where the tokens of an operation stand at the end of a line, they are parsed as it. -/
theorem op_spelling {o : Op} (hvalid : o.Valid) {ts rest : Tokens} (h : Takes ts o.spelling rest)
    (hend : AtLineEnd rest) : ∃ h, op ts = .ok (o, ⟨rest, h⟩) := by
  cases o with
  | declare target name bits =>
    exact op_assignment hvalid.1 h (assignment_declare target hvalid.2)
  | define target d => exact op_assignment hvalid h fun hd => assignment_define target hd hend
  | query q expected => exact op_query h hend
  | release handle =>
    obtain ⟨mid, hword, ha⟩ := Takes.cons_iff.mp h
    simp only [op, opAfter, handle_eq hword, handle_eq ha, bind, Except.bind]
    exact ⟨h.shorter, rfl⟩

end LayeredSets.Trace
