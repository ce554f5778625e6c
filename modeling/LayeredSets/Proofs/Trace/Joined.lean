import LayeredSets.Proofs.Trace.Exact

/-!
# Joined traces

Every step of a trace is told by its line alone. So texts that are joined with a line break between
them are read as the steps of both, those of the second as many lines further down as the first has.
-/

namespace LayeredSets.Trace

open Tokens

/-- A step on a line further down. -/
def Step.down (count : Nat) (step : Step) : Step := { step with line := step.line + count }

/-! ## Steps of consecutive lines -/

theorem stepsFrom_add (n count : Nat) (ops : List (Option Op)) :
    stepsFrom (n + count) ops = (stepsFrom n ops).map (Step.down count) := by
  induction ops generalizing n with
  | nil => rfl
  | cons o ops ih =>
    have hrest : stepsFrom (n + count + 1) ops = (stepsFrom (n + 1) ops).map (Step.down count) := by
      rw [Nat.add_right_comm, ih]
    cases o with
    | none => exact hrest
    | some o =>
      rw [stepsFrom, hrest]
      rfl

theorem mem_stepsFrom {n : Nat} {ops : List (Option Op)} {step : Step}
    (h : step ∈ stepsFrom n ops) : ∃ i, ops[i]? = some (some step.op) ∧ step.line = n + i := by
  induction ops generalizing n with
  | nil => cases h
  | cons o ops ih =>
    have later (h : step ∈ stepsFrom (n + 1) ops) :
        ∃ i, (o :: ops)[i]? = some (some step.op) ∧ step.line = n + i := by
      obtain ⟨i, hop, hline⟩ := ih h
      exact ⟨i + 1, by rwa [List.getElem?_cons_succ], by omega⟩
    cases o with
    | none => exact later h
    | some o =>
      rcases List.mem_cons.mp h with rfl | h
      · exact ⟨0, rfl, rfl⟩
      · exact later h

theorem pairwise_stepsFrom (n : Nat) (ops : List (Option Op)) :
    (stepsFrom n ops).Pairwise (·.line < ·.line) := by
  induction ops generalizing n with
  | nil => exact .nil
  | cons o ops ih =>
    cases o with
    | none => exact ih (n + 1)
    | some o =>
      refine .cons (fun step hstep => ?_) (ih (n + 1))
      obtain ⟨i, -, hline⟩ := mem_stepsFrom hstep
      change n < step.line
      omega

theorem forall₂_append_iff {lines more : List (List Char)} {ops : List (Option Op)} :
    List.Forall₂ HasOp (lines ++ more) ops ↔ ∃ front back,
      List.Forall₂ HasOp lines front ∧ List.Forall₂ HasOp more back ∧ ops = front ++ back := by
  constructor
  · intro h
    have hfront := List.forall₂_take lines.length h
    have hback := List.forall₂_drop lines.length h
    rw [List.take_left] at hfront
    rw [List.drop_left] at hback
    exact ⟨_, _, hfront, hback, (List.take_append_drop lines.length ops).symm⟩
  · rintro ⟨front, back, hfront, hback, rfl⟩
    exact List.rel_append hfront hback

/-! ## Texts -/

/-- A text is read as a trace exactly if each of its lines is blank or has an operation. -/
theorem parse_iff (text : List Char) (trace : Trace) :
    parse text = .ok trace ↔
      ∃ ops, List.Forall₂ HasOp (linesOf text) ops ∧ trace = stepsFrom 1 ops := by
  constructor
  · intro h
    obtain ⟨ts, hts, hsteps⟩ := bind_eq_ok h
    exact (steps_iff text 1 hts trace).mp hsteps
  · rintro ⟨ops, hops, htrace⟩
    have hlines : ∀ line ∈ linesOf text, ∃ ts, tokenize line false = .ok ts := by
      intro line hline
      obtain ⟨i, hi, rfl⟩ := List.getElem_of_mem hline
      obtain ⟨ts, hts, -⟩ := hops.get hi (hops.length_eq ▸ hi)
      exact ⟨ts, hts⟩
    obtain ⟨ts, hts⟩ := exists_ofPieces hlines 1
    rw [parse, tokenize]
    change ofPieces true true ⟨1, 1⟩ _ >>= _ = _
    rw [hts]
    exact (steps_iff text 1 hts trace).mpr ⟨ops, hops, htrace⟩

/-- A line is read alone as the step that it is in any text. -/
theorem HasOp.parse {line : List Char} {o : Option Op} (h : HasOp line o) (hline : '\n' ∉ line) :
    Trace.parse line = .ok (stepsFrom 1 [o]) :=
  (parse_iff line _).mpr ⟨[o], by rw [linesOf_of_notMem hline]; exact .cons h .nil, rfl⟩

/-- A text of two texts with a line break between them is read as a trace exactly if both of these
are, and then the steps are those of the first and, behind the lines of the first, those of the
second. The lines of the steps of any text go up, and each step is what its line is read as
alone. -/
theorem parse_join (a b : List Char) :
    (∀ trace, parse (a ++ '\n' :: b) = .ok trace ↔
      ∃ front back, parse a = .ok front ∧ parse b = .ok back ∧
        trace = front ++ back.map (Step.down (a.count '\n' + 1))) ∧
    ∀ text trace, parse text = .ok trace →
      trace.Pairwise (·.line < ·.line) ∧
        ∀ step ∈ trace, ∃ i line, (linesOf text)[i]? = some line ∧ step.line = i + 1 ∧
          parse line = .ok [⟨1, step.op⟩] := by
  constructor
  · intro trace
    -- where the second text begins, seen from the first
    have hsteps {front back : List (Option Op)} (hfront : List.Forall₂ HasOp (linesOf a) front) :
        stepsFrom 1 (front ++ back) =
          stepsFrom 1 front ++ (stepsFrom 1 back).map (Step.down (a.count '\n' + 1)) := by
      rw [stepsFrom_append, ← hfront.length_eq, length_linesOf, stepsFrom_add]
    simp only [parse_iff, linesOf_join, forall₂_append_iff]
    constructor
    · rintro ⟨_, ⟨front, back, hfront, hback, rfl⟩, rfl⟩
      exact ⟨_, _, ⟨front, hfront, rfl⟩, ⟨back, hback, rfl⟩, hsteps hfront⟩
    · rintro ⟨_, _, ⟨front, hfront, rfl⟩, ⟨back, hback, rfl⟩, rfl⟩
      exact ⟨_, ⟨front, back, hfront, hback, rfl⟩, (hsteps hfront).symm⟩
  · intro text trace h
    obtain ⟨ops, hops, rfl⟩ := (parse_iff text trace).mp h
    refine ⟨pairwise_stepsFrom 1 ops, fun step hstep => ?_⟩
    obtain ⟨i, hop, hline⟩ := mem_stepsFrom hstep
    obtain ⟨hi, hget⟩ := List.getElem?_eq_some_iff.mp hop
    have hi' : i < (linesOf text).length := hops.length_eq ▸ hi
    have halone : HasOp (linesOf text)[i] (some step.op) := hget ▸ hops.get hi' hi
    exact ⟨i, _, List.getElem?_eq_getElem hi', by rw [hline, Nat.add_comm],
      halone.parse (break_notMem_of_mem_linesOf (List.getElem_mem hi'))⟩

/-- A comment at the end of the first text ends there; the second may begin with a blank line. -/
theorem parse_join_sample : ∃ trace,
    parse ("a = top # all".toList ++ '\n' :: "\nempty a".toList) = .ok trace ∧
      trace = [⟨1, .define "a" .top⟩, ⟨3, .query (.empty "a") none⟩] ∧
      trace.Pairwise (·.line < ·.line) := by
  obtain ⟨hjoin, hlines⟩ := parse_join "a = top # all".toList "\nempty a".toList
  have hread : parse ("a = top # all".toList ++ '\n' :: "\nempty a".toList) =
      .ok [⟨1, .define "a" .top⟩, ⟨3, .query (.empty "a") none⟩] :=
    (hjoin _).mpr ⟨[⟨1, .define "a" .top⟩], [⟨2, .query (.empty "a") none⟩], by cbv, by cbv,
      by decide⟩
  exact ⟨_, hread, rfl, (hlines _ _ hread).1⟩

end LayeredSets.Trace
