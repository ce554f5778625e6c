import LayeredSets.Proofs.Trace.Exact
import LayeredSets.Proofs.Walk.Tokens

/-!
# Traces are read in a walk

The parser of traces as a walk along the tokens. It has two loops, one over the lines and one over
the values of a point.
-/

namespace LayeredSets.Trace

open Walk (look visit eat expect number? width unexpected cutOff)

inductive Place
  | steps
  | numbers
  deriving DecidableEq

instance : Fintype Place := .ofList [.steps, .numbers] (by rintro ⟨⟩ <;> simp)

/-- A step may end with the values of a point. -/
instance : Ranked Place where
  rank
    | .steps => 0
    | .numbers => 1
  height := 2
  rank_lt := by rintro ⟨⟩ <;> decide

variable {input : Tokens}

/-! ## The parser as a walk -/

def walkHandle : Walk Place input String := Walk.name [] "a handle"

def walkPair : Walk Place input (String × String) := do
  let a ← walkHandle
  let b ← walkHandle
  return (a, b)

def walkNumbers : Nat → Walk Place input (List UInt64)
  | 0 => cutOff
  | fuel + 1 => do
    visit .numbers
    match ← number? with
    | some value =>
      let values ← walkNumbers fuel
      return value :: values
    | none => return []

def walkAnswer : Walk Place input Bool := do
  if ← eat (.word "true") then return true
  else if ← eat (.word "false") then return false
  else unexpected "'true' or 'false'"

def walkExpectation : Walk Place input (Option Bool) := do
  if ← eat .arrow then
    let answer ← walkAnswer
    return some answer
  else return none

/-- A definition whose operation `word` has been read from `start`. -/
def walkDefinition (word : String) (start : Position) (fuel : Nat) :
    Walk Place input Definition := do
  match word with
  | "top" => return .top
  | "bottom" => return .bottom
  | "const" =>
    let var ← walkHandle
    let value ← Walk.number "a value"
    return .const var value
  | "single" =>
    let values ← walkNumbers fuel
    return .single values
  | "compl" =>
    let a ← walkHandle
    return .compl a
  | "eqvar" => pair .eqvar
  | "union" => pair .union
  | "inter" => pair .inter
  | "diff" => pair .diff
  | "exists" => pair .exists
  | other => throw ⟨start, s!"unknown trace operation '{other}'"⟩
where
  pair (make : String → String → Definition) : Walk Place input Definition := do
    let r ← walkPair
    return make r.1 r.2

def walkAssignment (target : String) (fuel : Nat) : Walk Place input Op := do
  let start ← look Tokens.position
  let word ← walkHandle
  if word = "declare" then
    let name ← walkHandle
    let bits ← width
    return .declare target name bits
  else
    let d ← walkDefinition word start fuel
    return .define target d

def walkQuery (operands : Walk Place input Query) : Walk Place input Op := do
  let q ← operands
  let expected ← walkExpectation
  return .query q expected

/-- An operation whose first word has been read. -/
def walkOpAfter (word : String) (fuel : Nat) : Walk Place input Op := do
  match word with
  | "empty" => walkQuery do
    let a ← walkHandle
    return .empty a
  | "equal" => walkQuery do
    let r ← walkPair
    return .equal r.1 r.2
  | "subset" => walkQuery do
    let r ← walkPair
    return .subset r.1 r.2
  | "release" =>
    let a ← walkHandle
    return .release a
  | target =>
    expect (.symbol '=')
    walkAssignment target fuel

def walkOp (fuel : Nat) : Walk Place input Op := do
  let word ← walkHandle
  walkOpAfter word fuel

def walkLineEnd : Walk Place input Unit := do
  if ← look (·.items.isEmpty) then return
  else expect .lineBreak

def walkSteps : Nat → Walk Place input Trace
  | 0 => cutOff
  | fuel + 1 => do
    visit .steps
    if ← look (·.items.isEmpty) then return []
    else if ← eat .lineBreak then walkSteps fuel
    else
      let start ← look Tokens.position
      let o ← walkOp fuel
      walkLineEnd
      let others ← walkSteps fuel
      return ⟨start.line, o⟩ :: others

/-! ## It ends -/

open Tokens
open Walk (Ends)

theorem walkHandle_ends {n n' : Nat} (ts : Tokens) :
    Ends n n' (fun _ => walkHandle : Nat → Walk Place input _) (reader handle) ts :=
  .name ts [] "a handle"

theorem walkPair_ends {n n' : Nat} (ts : Tokens) :
    Ends n n' (fun _ => walkPair : Nat → Walk Place input _) pairReader ts := by
  unfold walkPair pairReader
  exact .bind (k := n') (walkHandle_ends ts) fun a rest _ =>
    (walkHandle_ends rest).bind fun b rest' _ => .pure (a, b) rest'

theorem walkNumbers_ends (ts : Tokens) :
    Ends 2 1 (walkNumbers : Nat → Walk Place input _) numbersReader ts := by
  fun_induction numbers ts with
  | case1 ts hnumber =>
    refine .visit (fun _ => rfl) (by decide) ?_
    refine .number?_none hnumber (.congr (.pure [] ts) ?_)
    rw [numbersReader, numbers, hnumber]
    rfl
  | case2 ts value ts₁ h₁ hnumber values rest h₂ hmore ih =>
    refine .visit (fun _ => rfl) (by decide) ?_
    refine .number? (takes_of_number? hnumber) (ih.bind fun values rest' _ =>
      .pure (value :: values) rest') ?_
    rw [numbersReader, numbers, hnumber]
    rfl

theorem walkAnswer_ends {n : Nat} (ts : Tokens) :
    Ends n n (fun _ => walkAnswer : Nat → Walk Place input _)
      (reader (Tokens.take answerOf "'true' or 'false'")) ts := by
  unfold walkAnswer
  by_cases htrue : ts.peek? = some (.word "true")
  · obtain ⟨rest, htakes⟩ := exists_takes htrue
    refine .eat_then htakes (.pure true rest) ?_
    rw [reader_apply, htakes.take (p := answerOf) rfl]
    rfl
  refine .eat_else htrue ?_
  by_cases hfalse : ts.peek? = some (.word "false")
  · obtain ⟨rest, htakes⟩ := exists_takes hfalse
    refine .eat_then htakes (.pure false rest) ?_
    rw [reader_apply, htakes.take (p := answerOf) rfl]
    rfl
  refine .eat_else hfalse (.unexpected ?_)
  have hnone : ts.peek?.bind answerOf = none := by
    refine Option.bind_eq_none_iff.mpr fun t ht => ?_
    rw [ht] at htrue hfalse
    rw [answerOf, if_neg (by simpa using htrue), if_neg (by simpa using hfalse)]
  rw [reader_apply, Tokens.take, takeIf_eq_none hnone]
  rfl

theorem walkExpectation_ends {n : Nat} (ts : Tokens) :
    Ends n n (fun _ => walkExpectation : Nat → Walk Place input _) (reader expectation) ts := by
  unfold walkExpectation
  cases harrow : ts.eat? .arrow with
  | none =>
    refine .eat_else (eat_eq_none_iff.mp harrow) (.congr (.pure none ts) ?_)
    rw [reader_apply, expectation, harrow]
    rfl
  | some rest =>
    refine .eat_then (takes_of_eat harrow) ((walkAnswer_ends rest.1).bind fun answer rest' _ =>
      .pure (some answer) rest') ?_
    rw [reader_apply, expectation, harrow]
    simp only [reader_apply, bind_apply, pure_apply, bind_assoc, pure_bind]
    congr 2
    funext t
    rw [answerOf]
    split <;> simp_all

theorem walkDefinition_ends (word : String) (start ts : Tokens) :
    Ends 2 1 (walkDefinition word start.position : Nat → Walk Place input _)
      (reader (definition word start)) ts := by
  by_cases h : word ∈ operations
  · have pair {make : String → String → Definition}
        (hwalk : (walkDefinition word start.position : Nat → Walk Place input _) =
          fun _ => walkDefinition.pair make)
        (hdefinition : definition word start ts = definition.pair ts make) :
        Ends 2 1 (walkDefinition word start.position : Nat → Walk Place input _)
          (reader (definition word start)) ts := by
      rw [hwalk, walkDefinition.pair]
      refine .congr ((walkPair_ends ts).bind fun r rest _ => .pure (make r.1 r.2) rest) ?_
      rw [reader_apply, hdefinition]
      simp only [definition.pair, handlePair, pairReader, reader_apply, bind_apply, pure_apply,
        bind_assoc, pure_bind]
    simp only [operations, List.mem_cons, List.not_mem_nil, or_false] at h
    rcases h with rfl | rfl | rfl | rfl | rfl | rfl | rfl | rfl | rfl | rfl
    · exact .congr ((Ends.pure Definition.top ts).weaken (by decide)) rfl
    · exact .congr ((Ends.pure Definition.bottom ts).weaken (by decide)) rfl
    · refine .congr (.bind (k := 1) (walkHandle_ends ts) fun var rest _ =>
        .bind (.number rest "a value") fun value rest' _ =>
          .pure (Definition.const var value) rest') ?_
      rw [reader_apply, definition]
      simp only [reader_apply, bind_apply, pure_apply, bind_assoc, pure_bind]
    · exact .congr ((walkNumbers_ends ts).bind fun values rest _ =>
        .pure (Definition.single values) rest) rfl
    · refine .congr (.bind (k := 1) (walkHandle_ends ts) fun a rest _ =>
        .pure (Definition.compl a) rest) ?_
      rw [reader_apply, definition]
      simp only [reader_apply, bind_apply, pure_apply, bind_assoc, pure_bind]
    · exact pair rfl rfl
    · exact pair rfl rfl
    · exact pair rfl rfl
    · exact pair rfl rfl
    · exact pair rfl rfl
  · have hwalk (fuel : Nat) : (walkDefinition word start.position fuel : Walk Place input _) =
        throw ⟨start.position, s!"unknown trace operation '{word}'"⟩ := by
      simp only [operations, List.mem_cons, List.not_mem_nil, or_false, not_or] at h
      rw [walkDefinition] <;> simp_all
    rw [funext hwalk]
    refine .throw ?_
    rw [reader_apply, definition_unknown h]
    rfl

theorem walkAssignment_ends {n : Nat} (target : String) (ts : Tokens) :
    Ends n 1 (walkAssignment target : Nat → Walk Place input _) (reader (assignment target))
      ts := by
  have hread : reader (assignment target) ts =
      (do let word ← reader handle
          if word = "declare" then
            let name ← reader handle
            let bits ← reader Tokens.width
            return Op.declare target name bits
          else
            let d ← reader (definition word ts)
            return Op.define target d : Reader Op) ts := by
    simp only [reader_apply, assignment, declaration, bind_apply, bind_assoc, pure_bind]
    refine bind_congr fun r => ?_
    split <;> simp only [reader_apply, bind_apply, pure_apply, bind_assoc, pure_bind]
  unfold walkAssignment
  refine .congr (.look (.bind (k := 2) (walkHandle_ends ts) fun word rest _ => ?_)) hread
  split
  · exact .bind (k := 1) (walkHandle_ends rest) fun name ts₁ _ =>
      .bind (k := 1) (.width ts₁) fun bits ts₂ _ => .pure (Op.declare target name bits) ts₂
  · exact (walkDefinition_ends word ts rest).bind fun d ts₁ _ => .pure (Op.define target d) ts₁

theorem walkQuery_ends {n : Nat} {operands : Walk Place input Query} {f : Reader Query}
    {ts : Tokens} (h : Ends n n (fun _ => operands) f ts) :
    Ends n n (fun _ => walkQuery operands)
      (do let q ← f; let expected ← reader expectation; return Op.query q expected) ts :=
  h.bind fun q rest _ => (walkExpectation_ends rest).bind fun expected rest' _ =>
    .pure (Op.query q expected) rest'

theorem walkOpAfter_ends (word : String) (ts : Tokens) :
    Ends 1 1 (walkOpAfter word : Nat → Walk Place input _) (reader (opAfter word)) ts := by
  by_cases hleading : word ∈ leading
  · simp only [leading, List.mem_cons, List.not_mem_nil, or_false] at hleading
    rcases hleading with rfl | rfl | rfl | rfl
    · refine .congr (walkQuery_ends (.bind (k := 1) (walkHandle_ends ts) fun a rest _ =>
        .pure (Query.empty a) rest)) ?_
      rw [reader_apply, opAfter]
      simp only [reader_apply, bind_apply, pure_apply, bind_assoc, pure_bind]
    · refine .congr (walkQuery_ends (.bind (k := 1) (walkPair_ends ts) fun r rest _ =>
        .pure (Query.equal r.1 r.2) rest)) ?_
      rw [reader_apply, opAfter]
      simp only [pairReader, handlePair, reader_apply, bind_apply, pure_apply, bind_assoc,
        pure_bind]
    · refine .congr (walkQuery_ends (.bind (k := 1) (walkPair_ends ts) fun r rest _ =>
        .pure (Query.subset r.1 r.2) rest)) ?_
      rw [reader_apply, opAfter]
      simp only [pairReader, handlePair, reader_apply, bind_apply, pure_apply, bind_assoc,
        pure_bind]
    · refine .congr (.bind (k := 1) (walkHandle_ends ts) fun a rest _ =>
        .pure (Op.release a) rest) ?_
      rw [reader_apply, opAfter]
      simp only [reader_apply, bind_apply, pure_apply, bind_assoc, pure_bind]
  · simp only [leading, List.mem_cons, List.not_mem_nil, or_false, not_or] at hleading
    have hwalk (fuel : Nat) : (walkOpAfter word fuel : Walk Place input _) =
        (do expect (.symbol '='); walkAssignment word fuel) := by
      rw [walkOpAfter] <;> simp_all
    rw [funext hwalk]
    refine .congr (.bind (k := 1) (.expect ts (.symbol '=')) fun _ rest _ =>
      walkAssignment_ends word rest) ?_
    rw [reader_apply, opAfter]
    · simp only [reader_apply, token_apply, bind_apply, bind_assoc, pure_bind]
    all_goals simp_all

theorem walkOp_ends {n : Nat} (ts : Tokens) :
    Ends n 1 (walkOp : Nat → Walk Place input _) (reader op) ts := by
  unfold walkOp
  refine .congr (.bind (k := 1) (walkHandle_ends ts) fun word rest _ =>
    walkOpAfter_ends word rest) ?_
  rw [reader_apply, op]
  simp only [reader_apply, bind_apply, bind_assoc, pure_bind]

/-- The end of a line, which may be the end of all. -/
def lineEndReader : Reader Unit := reader fun ts => do
  let rest ← lineEnd ts
  return ((), rest)

theorem walkLineEnd_ends {n : Nat} (ts : Tokens) :
    Ends n n (fun _ => walkLineEnd : Nat → Walk Place input _) lineEndReader ts := by
  unfold walkLineEnd
  refine .look ?_
  split
  · next hempty =>
    refine .congr (.pure () ts) ?_
    rw [lineEndReader, reader_apply, lineEnd_nil (List.isEmpty_iff.mp hempty)]
    rfl
  · next hitems =>
    refine .congr (.expect ts .lineBreak) ?_
    rw [lineEndReader, reader_apply, lineEnd_cons (mt List.isEmpty_iff.mpr hitems)]
    simp only [token_apply, bind_assoc, pure_bind]

/-- All steps, which are taken together. -/
def traceReader : Reader Trace := fun ts => do
  let trace ← steps ts
  return (trace, ⟨[], ts.stop⟩)

theorem traceReader_op {ts : Tokens} (hts : ts.items ≠ []) (hbreak : ts.eat? .lineBreak = none) :
    traceReader ts =
      (do let o ← reader op
          lineEndReader
          let others ← traceReader
          return Step.mk ts.position.line o :: others : Reader Trace) ts := by
  have hitems : ts.items.isEmpty = false := by simpa using hts
  rw [traceReader, steps, hitems, hbreak, bind_apply, reader_apply]
  cases hop : op ts with
  | error e => rfl
  | ok result =>
    obtain ⟨o, rest, hrest⟩ := result
    have hstop : rest.stop = ts.stop := (takes_op hop).2.stop_eq
    simp only [if_neg Bool.false_ne_true, ok_bind, pure_bind, bind_apply, lineEndReader,
      reader_apply, bind_assoc]
    cases hend : lineEnd rest with
    | error e => rfl
    | ok rest' =>
      simp only [ok_bind, traceReader, stop_of_lineEnd hend, hstop, pure_apply, bind_assoc,
        pure_bind]

theorem walkSteps_ends (ts : Tokens) :
    Ends 1 0 (walkSteps : Nat → Walk Place input _) traceReader ts := by
  fun_induction steps ts with
  | case1 ts hempty =>
    refine .visit (fun _ => rfl) (by decide) (.look ?_)
    simp only [if_pos hempty]
    refine .congr (.pure [] ts) ?_
    obtain ⟨items, stop⟩ := ts
    obtain rfl := List.isEmpty_iff.mp hempty
    rw [traceReader, steps_empty rfl]
    rfl
  | case2 ts hitems rest h hbreak ih =>
    have htakes : ts.Takes [.lineBreak] rest := takes_of_eat hbreak
    refine .visit (fun _ => rfl) (by decide) (.look ?_)
    simp only [if_neg hitems]
    refine .eat_then htakes ih ?_
    rw [traceReader, traceReader, steps_break htakes, htakes.stop_eq]
  | case3 ts hitems hbreak ih =>
    refine .visit (fun _ => rfl) (by decide) (.look ?_)
    simp only [if_neg hitems]
    refine .eat_else (eat_eq_none_iff.mp hbreak) (.look ?_)
    exact .congr ((walkOp_ends ts).bind fun o rest h =>
        (walkLineEnd_ends rest).bind fun _ rest' h' =>
          (ih rest (left_of_reader h) rest' (left_of_reader h')).bind fun others rest'' _ =>
            .pure (Step.mk ts.position.line o :: others) rest'')
      (traceReader_op (mt List.isEmpty_iff.mpr hitems) hbreak)

end LayeredSets.Trace
