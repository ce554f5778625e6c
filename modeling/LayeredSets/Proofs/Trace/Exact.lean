import LayeredSets.Proofs.Token.Lines
import LayeredSets.Proofs.Trace.Operations
import LayeredSets.Proofs.Trace.Parse
import Mathlib

/-!
# Exactly the line format is accepted

A text is read as a trace exactly if each of its lines is blank or has the tokens of an operation
that can stand in a trace. Otherwise the error stands at the first token that does not fit.
-/

namespace LayeredSets.Trace

open Tokens

/-- What stands on a line: nothing, or an operation. -/
def HasOp (line : List Char) (o : Option Op) : Prop :=
  ∃ ts, tokenize line false = .ok ts ∧
    match o with
    | none => ts.items = []
    | some o => o.Valid ∧ ts.items.map (·.token) = o.spelling

/-! ## One line -/

section

variable {ts rest : Tokens}

theorem takes_op {o : Op} {rest : ts.Rest} (h : op ts = .ok (o, rest)) :
    o.Valid ∧ ts.Takes o.spelling rest.1 := by
  have hread : reader op ts = .ok (o, rest.1) := by
    rw [reader_apply, h]
    rfl
  obtain ⟨taken, htakes, hvalid, rfl⟩ := (predicts_op ts).takes hread
  exact ⟨hvalid, htakes⟩

theorem lineBreak_notMem_spelling (o : Op) : .lineBreak ∉ o.spelling := by
  cases o with
  | define target d => cases d <;> simp [Op.spelling, Definition.spelling]
  | query q expected =>
    cases q <;> cases expected <;> simp [Op.spelling, Query.spelling, answerSpelling]
  | _ => simp [Op.spelling]

theorem spelling_ne_nil (o : Op) : o.spelling ≠ [] := by
  cases o with
  | query q expected => cases q <;> simp [Op.spelling, Query.spelling]
  | _ => simp [Op.spelling]

theorem atLineEnd_of_lineEnd {rest : ts.Tail} (h : lineEnd ts = .ok rest) : AtLineEnd ts := by
  rw [lineEnd] at h
  split at h
  · next hempty =>
    rw [List.isEmpty_iff] at hempty
    intro t ht
    simp [peek?, hempty] at ht
  · obtain ⟨rest', hrest, -⟩ := bind_eq_ok h
    intro t ht
    exact Option.some.inj (ht.symm.trans (takes_of_expect hrest).peek)

theorem takeWhile_line {line : List Token} (hline : .lineBreak ∉ line) (hend : AtLineEnd rest) :
    (line ++ rest.items.map (·.token)).takeWhile (· ≠ .lineBreak) = line := by
  rw [List.takeWhile_append_of_pos fun t ht => by simpa using ne_of_mem_of_not_mem ht hline]
  obtain ⟨_ | ⟨item, items⟩, stop⟩ := rest
  · exact List.append_nil line
  · have hbreak : item.token = .lineBreak := hend _ rfl
    simp [hbreak]

/-- The line goes up to the first break. -/
theorem takes_line_inj {line line' : List Token} {rest' : Tokens} (h : ts.Takes line rest)
    (h' : ts.Takes line' rest') (hline : .lineBreak ∉ line) (hline' : .lineBreak ∉ line')
    (hend : AtLineEnd rest) (hend' : AtLineEnd rest') : line = line' ∧ rest = rest' := by
  have heq : line = line' := by
    rw [← takeWhile_line hline hend, ← takeWhile_line hline' hend', ← h.map_token, ← h'.map_token]
  subst heq
  obtain ⟨items, htokens, rfl⟩ := h
  obtain ⟨items', htokens', heq⟩ := h'
  obtain ⟨hitems, hstop⟩ := Tokens.mk.inj heq
  have hlength : items.length = items'.length := by
    simpa using congrArg List.length (htokens.trans htokens'.symm)
  obtain ⟨-, hrest⟩ := List.append_inj hitems hlength
  exact ⟨rfl, by cases rest; cases rest'; simp_all⟩

/-- A line with tokens is read as an operation, which they spell. -/
theorem steps_line {line : List Token} (hne : line ≠ []) (hline : .lineBreak ∉ line)
    (h : ts.Takes line rest) (hend : AtLineEnd rest) (trace : Trace) :
    steps ts = .ok trace ↔ ∃ o others, o.Valid ∧ line = o.spelling ∧ steps rest = .ok others ∧
      trace = ⟨ts.position.line, o⟩ :: others := by
  constructor
  · intro hsteps
    obtain ⟨t, more, rfl⟩ := List.exists_cons_of_ne_nil hne
    obtain ⟨mid, hfirst, -⟩ := Takes.cons_iff.mp h
    have hitems : ts.items.isEmpty = false := by
      obtain ⟨_ | ⟨item, items⟩, stop⟩ := ts
      · cases hfirst.next
      · rfl
    have hbreak : ts.eat? .lineBreak = none := by
      rw [eat_eq_none_iff, hfirst.peek]
      rintro heq
      exact hline (Option.some.inj heq ▸ List.mem_cons_self)
    have hread := hsteps
    rw [steps, hitems, hbreak] at hread
    obtain ⟨⟨o, ts₁, h₁⟩, hop, hread⟩ := bind_eq_ok hread
    obtain ⟨ts₂, hend₁, -⟩ := bind_eq_ok hread
    obtain ⟨hvalid, htakes⟩ := takes_op hop
    obtain ⟨hspelling, rfl⟩ := takes_line_inj h htakes hline (lineBreak_notMem_spelling o) hend
      (atLineEnd_of_lineEnd hend₁)
    rw [steps_op hvalid htakes hend] at hsteps
    obtain ⟨others, hothers, rfl⟩ := map_eq_ok hsteps
    exact ⟨o, others, hvalid, hspelling, hothers, rfl⟩
  · rintro ⟨o, others, hvalid, rfl, hothers, rfl⟩
    rw [steps_op hvalid h hend, hothers]
    rfl

theorem steps_empty (h : ts.items = []) : steps ts = .ok [] := by
  rw [steps, h]
  rfl

end

/-! ## All lines -/

section

variable {line : List Char} {n : Nat} {first : Tokens}

/-- What stands on a line is told by its tokens, wherever it is read. -/
theorem hasOp_iff (hline : '\n' ∉ line)
    (hfirst : ofPieces true true ⟨n, 1⟩ (Piece.split line) = .ok first) (o : Option Op) :
    HasOp line o ↔
      match o with
      | none => first.items = []
      | some o => o.Valid ∧ first.items.map (·.token) = o.spelling := by
  obtain ⟨ts, hts, htokens⟩ :=
    (ofPieces_onLine (Piece.onLine_split hline) hfirst).2.2 false true .start
  have hts : tokenize line false = .ok ts := hts
  have hempty : ts.items = [] ↔ first.items = [] := by
    rw [← List.map_eq_nil_iff, htokens, List.map_eq_nil_iff]
  constructor
  · rintro ⟨ts', hts', ho⟩
    obtain rfl := Except.ok.inj (hts.symm.trans hts')
    cases o with
    | none => exact hempty.mp ho
    | some o => exact ⟨ho.1, htokens ▸ ho.2⟩
  · intro ho
    refine ⟨ts, hts, ?_⟩
    cases o with
    | none => exact hempty.mpr ho
    | some o => exact ⟨ho.1, htokens.trans ho.2⟩

/-- A line with tokens, and what comes behind its end. -/
theorem steps_prepend (hline : '\n' ∉ line)
    (hfirst : ofPieces true true ⟨n, 1⟩ (Piece.split line) = .ok first) (hne : first.items ≠ [])
    {rest : Tokens} (hend : AtLineEnd rest) (trace : Trace) :
    steps (prepend first.items rest) = .ok trace ↔
      ∃ o others, HasOp line (some o) ∧ steps rest = .ok others ∧ trace = ⟨n, o⟩ :: others := by
  have htakes : Takes (prepend first.items rest) (first.items.map (·.token)) rest :=
    ⟨first.items, rfl, rfl⟩
  obtain ⟨hlines, -, hother⟩ := ofPieces_onLine (Piece.onLine_split hline) hfirst
  have hbreak : .lineBreak ∉ first.items.map (·.token) := by
    obtain ⟨ts, hts, htokens⟩ := hother false true .start
    exact htokens ▸ (writable_of_ofPieces line hts).lineBreak_notMem
  have hposition : (prepend first.items rest).position.line = n := by
    obtain ⟨item, items, hitems⟩ := List.exists_cons_of_ne_nil hne
    rw [hitems] at hlines ⊢
    exact hlines item List.mem_cons_self
  rw [steps_line (by simpa using hne) hbreak htakes hend, hposition]
  simp only [hasOp_iff hline hfirst, and_assoc]

/-- A line is read as what stands on it, if what comes behind it is read as what stands there. -/
theorem steps_cons (hline : '\n' ∉ line)
    (hfirst : ofPieces true true ⟨n, 1⟩ (Piece.split line) = .ok first) {rest : Tokens}
    (hend : first.items ≠ [] → AtLineEnd rest) {P : List (Option Op) → Prop}
    (hrest : ∀ trace, steps rest = .ok trace ↔ ∃ ops, P ops ∧ trace = stepsFrom (n + 1) ops)
    (trace : Trace) :
    steps (prepend first.items rest) = .ok trace ↔
      ∃ o ops, (HasOp line o ∧ P ops) ∧ trace = stepsFrom n (o :: ops) := by
  by_cases hempty : first.items = []
  · have hprepend : prepend first.items rest = rest := by rw [hempty]; rfl
    rw [hprepend, hrest]
    constructor
    · rintro ⟨ops, hops, rfl⟩
      exact ⟨none, ops, ⟨(hasOp_iff hline hfirst none).mpr hempty, hops⟩, rfl⟩
    · rintro ⟨_ | o, ops, ⟨ho, hops⟩, rfl⟩
      · exact ⟨ops, hops, rfl⟩
      · have hspelling := ((hasOp_iff hline hfirst (some o)).mp ho).2
        exact (spelling_ne_nil o (by rw [← hspelling, hempty]; rfl)).elim
  · rw [steps_prepend hline hfirst hempty (hend hempty)]
    constructor
    · rintro ⟨o, others, ho, hothers, rfl⟩
      obtain ⟨ops, hops, rfl⟩ := (hrest others).mp hothers
      exact ⟨some o, ops, ⟨ho, hops⟩, rfl⟩
    · rintro ⟨_ | o, ops, ⟨ho, hops⟩, rfl⟩
      · exact (hempty ((hasOp_iff hline hfirst none).mp ho)).elim
      · exact ⟨o, _, ho, (hrest _).mpr ⟨ops, hops, rfl⟩, rfl⟩

end

theorem exists_forall₂_cons {line : List Char} {lines : List (List Char)}
    {Q : List (Option Op) → Prop} :
    (∃ ops, List.Forall₂ HasOp (line :: lines) ops ∧ Q ops) ↔
      ∃ o ops, (HasOp line o ∧ List.Forall₂ HasOp lines ops) ∧ Q (o :: ops) := by
  constructor
  · rintro ⟨_, ho, hQ⟩
    cases ho with
    | cons ho hops => exact ⟨_, _, ⟨ho, hops⟩, hQ⟩
  · rintro ⟨o, ops, ⟨ho, hops⟩, hQ⟩
    exact ⟨o :: ops, .cons ho hops, hQ⟩

/-- From the start of a line on, a text is read as the steps of its lines. -/
theorem steps_iff (text : List Char) (n : Nat) {ts : Tokens}
    (h : ofPieces true true ⟨n, 1⟩ (Piece.split text) = .ok ts) (trace : Trace) :
    steps ts = .ok trace ↔
      ∃ ops, List.Forall₂ HasOp (linesOf text) ops ∧ trace = stepsFrom n ops := by
  induction text using induction_on_lines generalizing n ts trace with
  | last line hline =>
    have hprepend : ts = prepend ts.items ⟨[], ts.stop⟩ := by simp [prepend]
    rw [linesOf_of_notMem hline, exists_forall₂_cons, hprepend]
    refine steps_cons hline h (fun _ t ht => by cases ht) (fun trace => ?_) trace
    rw [steps_empty rfl]
    simp [stepsFrom, eq_comm]
  | cons line rest hline ih =>
    rw [ofPieces_line hline] at h
    obtain ⟨first, hfirst, hmore⟩ := bind_eq_ok h
    obtain ⟨others, hothers, hts⟩ := bind_eq_ok hmore
    obtain rfl := Except.ok.inj hts
    have hrest (trace : Trace) := ih (n + 1) hothers trace
    rw [linesOf_append hline, exists_forall₂_cons]
    by_cases hempty : first.items = []
    · have hprepend : others = prepend first.items others := by rw [hempty]; rfl
      rw [if_pos hempty, hprepend]
      exact steps_cons hline hfirst (absurd hempty) hrest trace
    · have htakes : Takes (prepend [⟨.lineBreak, first.stop⟩] others) [.lineBreak] others :=
        ⟨_, rfl, rfl⟩
      rw [if_neg hempty, prepend_append]
      refine steps_cons hline hfirst (fun _ t ht => ?_) (fun trace => ?_) trace
      · exact Option.some.inj (ht.symm.trans htakes.peek)
      · rw [steps_break htakes, hrest]

/-! ## The first token that does not fit -/

/-- The tokens of a trace. -/
inductive Lines : List Token → Prop
  | nil : Lines []
  | blank {tokens : List Token} (h : Lines tokens) : Lines (.lineBreak :: tokens)
  | last {o : Op} (ho : o.Valid) : Lines o.spelling
  | op {o : Op} {tokens : List Token} (ho : o.Valid) (h : Lines tokens) :
    Lines (o.spelling ++ .lineBreak :: tokens)

theorem Lines.exists_steps {tokens : List Token} (h : Lines tokens) {ts : Tokens}
    (hts : ts.items.map (·.token) = tokens) : ∃ trace, steps ts = .ok trace := by
  have split {front back : List Token} {ts : Tokens} (h : ts.items.map (·.token) = front ++ back) :
      ∃ rest, ts.Takes front rest ∧ rest.items.map (·.token) = back := by
    obtain ⟨items, others, hitems, hfront, hback⟩ := List.map_eq_append_iff.mp h
    exact ⟨⟨others, ts.stop⟩, ⟨items, hfront, by rw [← hitems]⟩, hback⟩
  induction h generalizing ts with
  | nil => exact ⟨[], steps_empty (List.map_eq_nil_iff.mp hts)⟩
  | @blank tokens h ih =>
    obtain ⟨rest, htakes, hrest⟩ := @split [.lineBreak] tokens ts hts
    exact (ih hrest).imp fun trace htrace => (steps_break htakes).trans htrace
  | @last o ho =>
    obtain ⟨rest, htakes, hrest⟩ := @split o.spelling [] ts (by simpa using hts)
    have hempty := List.map_eq_nil_iff.mp hrest
    refine ⟨[⟨ts.position.line, o⟩], ?_⟩
    rw [steps_op ho htakes fun t ht => by simp [peek?, hempty] at ht, steps_empty hempty]
    rfl
  | @op o tokens ho h ih =>
    obtain ⟨rest, htakes, hrest⟩ := split hts
    obtain ⟨rest', hbreak, hrest'⟩ := @split [.lineBreak] tokens rest hrest
    obtain ⟨trace, htrace⟩ := ih hrest'
    refine ⟨⟨ts.position.line, o⟩ :: trace, ?_⟩
    rw [steps_op ho htakes fun t ht => Option.some.inj (ht.symm.trans hbreak.peek),
      steps_break hbreak, htrace]
    rfl

/-- All steps, which are taken together. -/
def stepsReader : Reader Unit := fun ts => do
  let _ ← steps ts
  return ((), ⟨[], ts.stop⟩)

/-- What stands behind an operation: the end, or a break and more lines. -/
def restReader : Reader Unit := fun ts => do
  let rest ← lineEnd ts
  stepsReader rest.1

theorem stepsReader_nil {ts : Tokens} (hts : ts.items = []) :
    stepsReader ts = (pure () : Reader Unit) ts := by
  obtain ⟨items, stop⟩ := ts
  obtain rfl : items = [] := hts
  rw [stepsReader, steps_empty rfl]
  rfl

theorem stepsReader_break {ts rest : Tokens} (h : ts.Takes [.lineBreak] rest) :
    stepsReader ts = stepsReader rest := by
  obtain ⟨items, hitems, rfl⟩ := h
  rw [stepsReader, stepsReader, steps_break ⟨items, hitems, rfl⟩]

theorem lineEnd_nil {ts : Tokens} (hts : ts.items = []) :
    lineEnd ts = .ok ⟨ts, Nat.le_refl _⟩ := by
  rw [lineEnd, hts]
  rfl

theorem lineEnd_cons {ts : Tokens} (hts : ts.items ≠ []) :
    lineEnd ts = (do let rest ← ts.expect .lineBreak; return ⟨rest.1, Nat.le_of_lt rest.2⟩) := by
  have hitems : ts.items.isEmpty = false := by simpa using hts
  rw [lineEnd, hitems]
  rfl

theorem stop_of_lineEnd {ts : Tokens} {rest : ts.Tail} (h : lineEnd ts = .ok rest) :
    rest.1.stop = ts.stop := by
  by_cases hts : ts.items = []
  · rw [lineEnd_nil hts] at h
    rw [← Except.ok.inj h]
  · rw [lineEnd_cons hts] at h
    obtain ⟨rest', hexpect, hrest⟩ := bind_eq_ok h
    rw [← Except.ok.inj hrest]
    exact (takes_of_expect hexpect).stop_eq

theorem stepsReader_op {ts : Tokens} (hts : ts.items ≠ []) (hbreak : ts.eat? .lineBreak = none) :
    stepsReader ts = (do let _ ← reader op; restReader) ts := by
  have hitems : ts.items.isEmpty = false := by simpa using hts
  rw [stepsReader, steps, hitems, hbreak, bind_apply, reader_apply]
  cases hop : op ts with
  | error e => rfl
  | ok result =>
    obtain ⟨o, rest, hrest⟩ := result
    have hstop := (takes_op hop).2.stop_eq
    change (lineEnd rest >>= _) >>= _ = restReader rest
    rw [restReader, bind_assoc]
    cases hend : lineEnd rest with
    | error e => rfl
    | ok rest' =>
      rw [ok_bind, ok_bind, stepsReader, stop_of_lineEnd hend, ← hstop, bind_assoc]
      simp only [pure_bind]

/-- The tokens of lines, whatever they are read as. -/
def linesPhrase : Phrase Unit := fun tokens _ => Lines tokens

/-- Nothing, or a break and more lines. -/
def restPhrase : Phrase Unit := fun tokens _ =>
  tokens = [] ∨ ∃ more, tokens = .lineBreak :: more ∧ Lines more

theorem productive_restPhrase : restPhrase.Productive := ⟨[], (), by simp, .inl rfl⟩

theorem items_eq_nil {ts : Tokens} (h : ts.peek? = none) : ts.items = [] := by
  simpa [peek?] using h

theorem predicts_rest {ts : Tokens}
    (h : ∀ rest : Tokens, rest.size ≤ ts.size → Predicts stepsReader linesPhrase rest) :
    Predicts restReader restPhrase ts := by
  cases hpeek : ts.peek? with
  | none =>
    refine ((Predicts.pure ()).mono ?_).congr fun ts' hpeek' => ?_
    · rintro _ _ ⟨rfl, -⟩
      exact .inl rfl
    · have hts := items_eq_nil (hpeek'.trans hpeek)
      rw [restReader, lineEnd_nil hts, ← stepsReader_nil hts]
      rfl
  | some t =>
    have hne {ts' : Tokens} (hpeek' : ts'.peek? = some t) : ts'.items ≠ [] := fun hempty => by
      simp [peek?, hempty] at hpeek'
    by_cases hbreak : t = .lineBreak
    · subst hbreak
      obtain ⟨rest, htakes⟩ := exists_takes hpeek
      refine .first htakes (h rest htakes.shorter.le) (fun htakes => ?_) ?_
      · rw [restReader, lineEnd_cons (hne htakes.peek), htakes.expect]
        rfl
      · intro more _ hmore
        exact .inr ⟨more, rfl, hmore⟩
    · refine .stuck productive_restPhrase fun ts' hpeek' =>
        ⟨ts'.unexpected Token.lineBreak.display, ?_, rfl⟩
      have heat : ts'.eat? .lineBreak = none := by
        rw [eat_eq_none_iff, hpeek', hpeek]
        simpa using hbreak
      rw [restReader, lineEnd_cons (hne (hpeek'.trans hpeek)), expect, heat]
      rfl

theorem predicts_steps (ts : Tokens) : Predicts stepsReader linesPhrase ts := by
  fun_induction steps ts with
  | case1 ts hempty =>
    rw [List.isEmpty_iff] at hempty
    refine ((Predicts.pure ()).mono ?_).congr fun ts' hpeek => stepsReader_nil (items_eq_nil ?_)
    · rintro _ _ ⟨rfl, -⟩
      exact .nil
    · rw [hpeek, peek?, hempty]
      rfl
  | case2 ts hitems rest hrest heat ih =>
    exact .first (takes_of_eat heat) ih stepsReader_break fun _ _ => .blank
  | case3 ts hitems heat ih =>
    have hop := (predicts_op ts).bind (fun _ => productive_restPhrase) fun o rest h =>
      predicts_rest fun rest' => ih rest (left_of_reader h) rest'
    refine (hop.mono ?_).congr fun ts' hpeek => stepsReader_op (fun hempty => hitems ?_)
      (eat_eq_none hpeek heat)
    · rintro _ _ ⟨o, _, _, rfl, ⟨ho, rfl⟩, rfl | ⟨more, rfl, hmore⟩⟩
      · rw [List.append_nil]
        exact .last ho
      · exact .op ho hmore
    · rw [List.isEmpty_iff]
      exact items_eq_nil (hpeek ▸ by rw [peek?, hempty]; rfl)

/-- Tokens of a text each of whose lines is blank or has an operation. -/
def ValidTokens (ts : Tokens) : Prop :=
  ∃ text, tokenize text true = .ok ts ∧ ∃ ops, List.Forall₂ HasOp (linesOf text) ops

/-- A text with tokens is read as a trace if and only if each of its lines is blank or has an
operation, and then the steps are these operations, each with the number of its line. Otherwise the
parser reports the position of a token, or of the end, up to which the text reads like the beginning
of some trace, while no trace begins like the text up to and with that token. -/
theorem parse_lines_exact (text : List Char) (ts : Tokens) (htext : tokenize text true = .ok ts) :
    (∀ trace, parse text = .ok trace ↔
      ∃ ops, List.Forall₂ HasOp (linesOf text) ops ∧ trace = stepsFrom 1 ops) ∧
    ((¬ ∃ ops, List.Forall₂ HasOp (linesOf text) ops) →
      ∃ e, parse text = .error e ∧ OffendsAt ValidTokens ts e.position) := by
  have hparse {text : List Char} {ts : Tokens} (htext : tokenize text true = .ok ts) :
      parse text = steps ts := by
    rw [parse, htext]
    rfl
  have hsteps {text : List Char} {ts : Tokens} (htext : tokenize text true = .ok ts)
      (trace : Trace) : steps ts = .ok trace ↔
        ∃ ops, List.Forall₂ HasOp (linesOf text) ops ∧ trace = stepsFrom 1 ops :=
    steps_iff text 1 htext trace
  refine ⟨fun trace => by rw [hparse htext, hsteps htext], fun hinvalid => ?_⟩
  cases hread : steps ts with
  | ok trace =>
    obtain ⟨ops, hops, -⟩ := (hsteps htext trace).mp hread
    exact absurd ⟨ops, hops⟩ hinvalid
  | error e =>
    have herror : stepsReader ts = .error e := by
      rw [stepsReader, hread]
      rfl
    refine ⟨e, (hparse htext).trans hread, (predicts_steps ts).offendsAt htext herror
      (fun htext' hlines => ?_) ?_⟩
    · obtain ⟨trace, htrace⟩ := Lines.exists_steps hlines rfl
      obtain ⟨ops, hops, -⟩ := (hsteps htext' trace).mp htrace
      exact ⟨_, htext', ops, hops⟩
    · rintro ts' e' ⟨text', htext', ops, hops⟩ herror'
      rw [stepsReader, (hsteps htext' _).mpr ⟨ops, hops, rfl⟩] at herror'
      cases herror'

/-- A comment is no step but has its line, and no variable is declared with no bits. -/
theorem parse_lines_exact_sample :
    parse "a = top\n# all\nempty a -> false".toList =
        .ok [⟨1, .define "a" .top⟩, ⟨3, .query (.empty "a") (some false)⟩] ∧
      ∃ ts e, tokenize "v = declare x 0".toList true = .ok ts ∧
        parse "v = declare x 0".toList = .error e ∧ e.position = ⟨1, 15⟩ ∧
          OffendsAt ValidTokens ts e.position := by
  have hfirst : HasOp "a = top".toList (some (.define "a" .top)) :=
    ⟨⟨[⟨.word "a", ⟨1, 1⟩⟩, ⟨.symbol '=', ⟨1, 3⟩⟩, ⟨.word "top", ⟨1, 5⟩⟩], ⟨1, 8⟩⟩, by cbv,
      show "a" ∉ leading by decide, rfl⟩
  have hcomment : HasOp "# all".toList none := ⟨⟨[], ⟨1, 6⟩⟩, by cbv, rfl⟩
  have hquery : HasOp "empty a -> false".toList (some (.query (.empty "a") (some false))) :=
    ⟨⟨[⟨.word "empty", ⟨1, 1⟩⟩, ⟨.word "a", ⟨1, 7⟩⟩, ⟨.arrow, ⟨1, 9⟩⟩, ⟨.word "false", ⟨1, 12⟩⟩],
      ⟨1, 17⟩⟩, by cbv, trivial, rfl⟩
  have hlines : linesOf "a = top\n# all\nempty a -> false".toList =
      ["a = top".toList, "# all".toList, "empty a -> false".toList] := by cbv
  let good : Tokens :=
    ⟨[⟨.word "a", ⟨1, 1⟩⟩, ⟨.symbol '=', ⟨1, 3⟩⟩, ⟨.word "top", ⟨1, 5⟩⟩, ⟨.lineBreak, ⟨1, 8⟩⟩,
      ⟨.word "empty", ⟨3, 1⟩⟩, ⟨.word "a", ⟨3, 7⟩⟩, ⟨.arrow, ⟨3, 9⟩⟩, ⟨.word "false", ⟨3, 12⟩⟩],
      ⟨3, 17⟩⟩
  have hgood : tokenize "a = top\n# all\nempty a -> false".toList true = .ok good := by cbv
  let bad : Tokens :=
    ⟨[⟨.word "v", ⟨1, 1⟩⟩, ⟨.symbol '=', ⟨1, 3⟩⟩, ⟨.word "declare", ⟨1, 5⟩⟩, ⟨.word "x", ⟨1, 13⟩⟩,
      ⟨.number 0, ⟨1, 15⟩⟩], ⟨1, 16⟩⟩
  have hpieces : Piece.split "v = declare x 0".toList =
      [.word ['v'], .blank ' ', .symbol '=', .blank ' ', .word ['d', 'e', 'c', 'l', 'a', 'r', 'e'],
        .blank ' ', .word ['x'], .blank ' ', .number ['0']] := by
    cbv
  have hbad : tokenize "v = declare x 0".toList true = .ok bad := by
    rw [tokenize, hpieces]
    rfl
  have herror : parse "v = declare x 0".toList = .error ⟨⟨1, 15⟩, "invalid bit width 0"⟩ := by
    rw [parse, hbad]
    cbv
  obtain ⟨hread, hfail⟩ := parse_lines_exact _ bad hbad
  obtain ⟨e, he, hoffends⟩ := hfail (by
    rintro ⟨ops, hops⟩
    cases herror.symm.trans ((hread _).mpr ⟨ops, hops, rfl⟩))
  obtain rfl := Except.error.inj (herror.symm.trans he)
  have hops := List.Forall₂.cons hfirst (.cons hcomment (.cons hquery .nil))
  rw [← hlines] at hops
  exact ⟨((parse_lines_exact _ good hgood).1 _).mpr ⟨_, hops, rfl⟩, bad, _, hbad, he, rfl, hoffends⟩

end LayeredSets.Trace
