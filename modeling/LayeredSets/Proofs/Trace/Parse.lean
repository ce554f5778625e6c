import LayeredSets.Proofs.Token.Spells
import LayeredSets.Proofs.Trace.Spelling

/-!
# Parsing line by line

A text whose lines are comments or spell one operation each is parsed as these operations, each with
the number of its line.
-/

namespace LayeredSets.Trace

/-- A line of a trace: a comment, or the tokens of an operation. -/
inductive Reads : List Char → Option Op → Prop
  | comment {body : List Char} (h : '\n' ∉ body) : Reads ('#' :: body) none
  | op {line : List Char} {o : Op} (hline : Spells line o.spelling) (ho : o.Valid) :
    Reads line (some o)

/-- A text of lines, each with its break. -/
def textOf (lines : List (List Char)) : List Char := lines.flatMap (· ++ ['\n'])

/-- The operations of consecutive lines from line `n` on, as steps. -/
def stepsFrom (n : Nat) : List (Option Op) → Trace
  | [] => []
  | none :: ops => stepsFrom (n + 1) ops
  | some o :: ops => ⟨n, o⟩ :: stepsFrom (n + 1) ops

/-! ## Steps -/

open Tokens

theorem steps_break {ts rest : Tokens} (h : Takes ts [.lineBreak] rest) : steps ts = steps rest := by
  have hitems : ts.items.isEmpty = false := by
    obtain ⟨items, hitems, rfl⟩ := h
    obtain ⟨item, rfl, -⟩ := List.map_eq_singleton_iff.mp hitems
    rfl
  rw [steps, hitems, h.eat]
  rfl

/-- A step is an operation and the end of its line. -/
theorem steps_op {o : Op} (hvalid : o.Valid) {ts rest : Tokens} (h : Takes ts o.spelling rest)
    (hend : AtLineEnd rest) : steps ts = (⟨ts.position.line, o⟩ :: ·) <$> steps rest := by
  obtain ⟨hlt, hop⟩ := op_spelling hvalid h hend
  have hword : ∃ word more, o.spelling = .word word :: more := by
    cases o with
    | query q => cases q <;> exact ⟨_, _, rfl⟩
    | _ => exact ⟨_, _, rfl⟩
  obtain ⟨word, more, hspelling⟩ := hword
  obtain ⟨mid, hfirst, -⟩ := Takes.cons_iff.mp (hspelling ▸ h)
  have hitems : ts.items.isEmpty = false := by
    cases hts : ts.items with
    | nil => simp [Tokens.size, hts] at hlt
    | cons item items => rfl
  have hbreak : ts.eat? .lineBreak = none := by
    rw [eat_eq_none_iff, hfirst.peek]
    simp
  rw [steps, hitems, hbreak]
  simp only [Bool.false_eq_true, if_false, hop, bind, Except.bind]
  cases hnext : rest.next? with
  | none =>
    have hrest := next_eq_none hnext
    have hsteps : steps rest = .ok [] := by
      rw [steps, hrest]
      rfl
    simp only [lineEnd, hrest, List.isEmpty_nil, if_true, pure, Except.pure, hsteps]
    rfl
  | some next =>
    have htakes := takes_of_next hnext
    obtain hline := hend _ htakes.peek
    rw [hline] at htakes
    have hrest : rest.items.isEmpty = false := by
      cases hrest : rest.items with
      | nil => simpa [Tokens.size, hrest] using htakes.shorter
      | cons item items => rfl
    simp only [lineEnd, hrest, Bool.false_eq_true, if_false, htakes.expect, bind, Except.bind, pure,
      Except.pure, steps_break htakes]
    cases steps next.2.1 <;> rfl

/-! ## Texts -/

/-- From the start of line `n` on, the text is parsed as these steps. -/
def StepsAt (n : Nat) (text : List Char) (trace : Trace) : Prop :=
  ∃ ts, ofPieces true true ⟨n, 1⟩ (Piece.split text) = .ok ts ∧ steps ts = .ok trace

theorem StepsAt.parse {text : List Char} {trace : Trace} (h : StepsAt 1 text trace) :
    parse text = .ok trace := by
  obtain ⟨ts, hts, hsteps⟩ := h
  rw [Trace.parse, tokenize]
  change ofPieces true true ⟨1, 1⟩ _ >>= _ = _
  rw [hts]
  exact hsteps

theorem stepsAt_nil (n : Nat) : StepsAt n [] [] := by
  refine ⟨⟨[], ⟨n, 1⟩⟩, ?_, ?_⟩
  · rw [Piece.split]
    rfl
  · rw [steps]
    rfl

/-- What a spelled operation is read as, before the end of its line. -/
theorem Reads.stepsAt_op {line rest : List Char} {o : Op} (hline : Spells line o.spelling)
    (ho : o.Valid) (hrest : Piece.EndsLine rest) (n : Nat) {trace : Trace}
    (h : ∀ column, ∃ ts, ofPieces true false ⟨n, column⟩ (Piece.split rest) = .ok ts ∧
      AtLineEnd ts ∧ steps ts = .ok trace) : StepsAt n (line ++ rest) (⟨n, o⟩ :: trace) := by
  obtain ⟨items, column, htokens, hlines, hpieces⟩ := hline.ofPieces hrest true n 1
  obtain ⟨ts, hts, hend, hsteps⟩ := h column
  refine ⟨prepend items ts, by rw [hpieces, hts]; rfl, ?_⟩
  have hposition : (prepend items ts).position.line = n := by
    cases items with
    | nil =>
      rw [List.map_nil] at htokens
      rw [← htokens] at hline
      cases hline
    | cons item items => exact hlines item List.mem_cons_self
  have htakes : Takes (prepend items ts) o.spelling ts := ⟨items, htokens, rfl⟩
  rw [steps_op ho htakes hend, hposition, hsteps]
  rfl

/-- A line is parsed as its step, if it has one. -/
theorem Reads.stepsAt {line : List Char} {o : Option Op} (h : Reads line o) (n : Nat) :
    StepsAt n line (stepsFrom n [o]) := by
  have hend : Piece.EndsLine [] := by
    rintro _ ⟨⟩
  have hnil (muted : Bool) (position : Position) :
      ofPieces true muted position (Piece.split []) = .ok ⟨[], position⟩ := by
    rw [Piece.split]
    rfl
  have hsteps (position : Position) : steps ⟨[], position⟩ = .ok [] := by
    rw [steps]
    rfl
  rw [← List.append_nil line]
  cases h with
  | comment hbody => exact ⟨_, (ofPieces_comment hbody hend true n 1).trans (hnil _ _), hsteps _⟩
  | op hline ho =>
    refine stepsAt_op hline ho hend n fun column => ⟨_, hnil _ _, ?_, hsteps _⟩
    rintro _ ⟨⟩

/-- A line in front of a text is parsed in front of it. -/
theorem Reads.stepsAt_cons {line rest : List Char} {o : Option Op} (h : Reads line o) {n : Nat}
    {trace : Trace} (hrest : StepsAt (n + 1) rest trace) :
    StepsAt n (line ++ '\n' :: rest) (stepsFrom n [o] ++ trace) := by
  obtain ⟨ts, hts, hsteps⟩ := hrest
  cases h with
  | comment hbody =>
    refine ⟨ts, ?_, hsteps⟩
    rw [ofPieces_comment hbody (Piece.endsLine_break rest), ofPieces_break_muted, hts]
  | op hline ho =>
    refine stepsAt_op hline ho (Piece.endsLine_break rest) n fun column => ?_
    have htakes : Takes (prepend [⟨.lineBreak, ⟨n, column⟩⟩] ts) [.lineBreak] ts := ⟨_, rfl, rfl⟩
    refine ⟨_, by rw [ofPieces_break, hts]; rfl, ?_, (steps_break htakes).trans hsteps⟩
    intro t ht
    exact Option.some.inj (ht.symm.trans htakes.peek)

theorem stepsFrom_append (n : Nat) (ops more : List (Option Op)) :
    stepsFrom n (ops ++ more) = stepsFrom n ops ++ stepsFrom (n + ops.length) more := by
  induction ops generalizing n with
  | nil => rfl
  | cons o ops ih =>
    cases o <;> simp [stepsFrom, ih, Nat.add_assoc, Nat.add_comm 1]

/-- Comments are no steps. -/
theorem stepsFrom_replicate_none (n count : Nat) : stepsFrom n (List.replicate count none) = [] := by
  induction count generalizing n with
  | zero => rfl
  | succ count ih => exact ih (n + 1)

theorem stepsAt_textOf {lines : List (List Char)} {ops : List (Option Op)}
    (h : List.Forall₂ Reads lines ops) (n : Nat) : StepsAt n (textOf lines) (stepsFrom n ops) := by
  induction h generalizing n with
  | nil => exact stepsAt_nil n
  | @cons line o lines ops hline _ ih =>
    have htext : textOf (line :: lines) = line ++ '\n' :: textOf lines := by simp [textOf]
    have hops : stepsFrom n (o :: ops) = stepsFrom n [o] ++ stepsFrom (n + 1) ops :=
      stepsFrom_append n [o] ops
    rw [htext, hops]
    exact hline.stepsAt_cons (ih (n + 1))

/-- A text is parsed line by line. -/
theorem parse_textOf {lines : List (List Char)} {ops : List (Option Op)}
    (h : List.Forall₂ Reads lines ops) : parse (textOf lines) = .ok (stepsFrom 1 ops) :=
  (stepsAt_textOf h 1).parse

end LayeredSets.Trace
