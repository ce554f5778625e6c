import LayeredSets.Proofs.Script.Offending
import LayeredSets.Proofs.Walk.Tokens

/-!
# Scripts are read in a walk

The parser of scripts as a walk along the tokens: its loops and its rules note where they are come
to, and nothing but the fuel keeps them from going on forever. With enough of it they end with what
the parser makes of the tokens.
-/

namespace LayeredSets.Script

open Walk (look visit eat expect number? width unexpected cutOff)

/-- The rules that call each other and the loops. -/
inductive Place
  | atom
  | unary
  | term
  | expr
  | statements
  | values
  | terms
  | unaries
  deriving DecidableEq

instance : Fintype Place :=
  .ofList [.atom, .unary, .term, .expr, .statements, .values, .terms, .unaries]
    (by rintro ⟨⟩ <;> simp)

/-- Behind an item the loops look first whether they go on, and what begins in front of the next one
begins with the most general rule. -/
instance : Ranked Place where
  rank
    | .atom => 0
    | .unary => 1
    | .term => 2
    | .expr => 3
    | .statements => 4
    | .values => 5
    | .terms => 6
    | .unaries => 7
  height := 8
  rank_lt := by rintro ⟨⟩ <;> decide

variable {input : Tokens}

/-! ## The parser as a walk -/

def walkName (wanted : String) : Walk Place input String := Walk.name keywords wanted

def walkMoreValues : Nat → Walk Place input (List UInt64)
  | 0 => cutOff
  | fuel + 1 => do
    visit .values
    if ← eat (.symbol ',') then
      let value ← Walk.number "a value"
      let values ← walkMoreValues fuel
      return value :: values
    else return []

def walkValues (fuel : Nat) : Walk Place input (List UInt64) := do
  if ← eat (.symbol '}') then return []
  else
    let value ← Walk.number "a value"
    let values ← walkMoreValues fuel
    expect (.symbol '}')
    return value :: values

def walkOperand (left : String) : Walk Place input Expr := do
  match ← number? with
  | some value => return Expr.equalsValue left value
  | none =>
    let right ← walkName "a value or variable name"
    return Expr.equalsVar left right

def walkNamed : Walk Place input Expr := do
  let left ← walkName "a set expression"
  if ← eat .equals then walkOperand left
  else return .name left

mutual

def walkExpr : Nat → Walk Place input Expr
  | 0 => cutOff
  | fuel + 1 => do
    visit .expr
    let left ← walkTerm fuel
    walkTerms left fuel

def walkTerms (left : Expr) : Nat → Walk Place input Expr
  | 0 => cutOff
  | fuel + 1 => do
    visit .terms
    if ← eat (.symbol '|') then
      let right ← walkTerm fuel
      walkTerms (.union left right) fuel
    else if ← eat (.symbol '-') then
      let right ← walkTerm fuel
      walkTerms (.difference left right) fuel
    else return left

def walkTerm : Nat → Walk Place input Expr
  | 0 => cutOff
  | fuel + 1 => do
    visit .term
    let left ← walkUnary fuel
    walkUnaries left fuel

def walkUnaries (left : Expr) : Nat → Walk Place input Expr
  | 0 => cutOff
  | fuel + 1 => do
    visit .unaries
    if ← eat (.symbol '&') then
      let right ← walkUnary fuel
      walkUnaries (.intersect left right) fuel
    else return left

def walkUnary : Nat → Walk Place input Expr
  | 0 => cutOff
  | fuel + 1 => do
    visit .unary
    if ← eat (.symbol '!') then
      let e ← walkUnary fuel
      return .complement e
    else walkAtom fuel

def walkAtom : Nat → Walk Place input Expr
  | 0 => cutOff
  | fuel + 1 => do
    visit .atom
    if ← eat (.symbol '(') then
      let e ← walkExpr fuel
      expect (.symbol ')')
      return e
    else if ← eat (.symbol '{') then
      let values ← walkValues fuel
      return .point values
    else if ← eat (.word "top") then return .top
    else if ← eat (.word "bottom") then return .bottom
    else if ← eat (.word "exists") then
      let var ← walkName "a variable name"
      expect (.symbol '.')
      let body ← walkUnary fuel
      return .exists var body
    else walkNamed

end

def walkPair (fuel : Nat) : Walk Place input (Expr × Expr) := do
  expect (.symbol '(')
  let a ← walkExpr fuel
  expect (.symbol ',')
  let b ← walkExpr fuel
  expect (.symbol ')')
  return (a, b)

def walkQuery (fuel : Nat) : Walk Place input Query := do
  if ← eat (.word "empty") then
    expect (.symbol '(')
    let a ← walkExpr fuel
    expect (.symbol ')')
    return .empty a
  else if ← eat (.word "equal") then
    let r ← walkPair fuel
    return .equal r.1 r.2
  else if ← eat (.word "subset") then
    let r ← walkPair fuel
    return .subset r.1 r.2
  else unexpected "'empty', 'equal' or 'subset'"

def walkCommand (fuel : Nat) : Walk Place input Command := do
  if ← eat (.word "var") then
    let var ← walkName "a variable name"
    expect (.symbol ':')
    let bits ← width
    return .var var bits
  else if ← eat (.word "let") then
    let set ← walkName "a set name"
    expect (.symbol '=')
    let e ← walkExpr fuel
    return .define set e
  else if ← eat (.word "print") then
    let q ← walkQuery fuel
    return .print q
  else if ← eat (.word "assert") then
    let q ← walkQuery fuel
    return .assert q
  else unexpected "a statement"

def walkStatement (fuel : Nat) : Walk Place input Statement := do
  let start ← look Tokens.position
  let c ← walkCommand fuel
  expect (.symbol ';')
  return ⟨start.line, c⟩

def walkStatements : Nat → Walk Place input Script
  | 0 => cutOff
  | fuel + 1 => do
    visit .statements
    if ← look (·.items.isEmpty) then return []
    else
      let first ← walkStatement fuel
      let others ← walkStatements fuel
      return first :: others

/-! ## It ends -/

open Tokens
open Walk (Ends)

theorem walkName_ends {n n' : Nat} (wanted : String) (ts : Tokens) :
    Ends n n' (fun _ => walkName wanted : Nat → Walk Place input _) (reader (name wanted)) ts :=
  .name ts keywords wanted

theorem walkMoreValues_ends (ts : Tokens) :
    Ends 6 5 (walkMoreValues : Nat → Walk Place input _) (reader moreValues) ts := by
  fun_induction moreValues ts with
  | case1 ts heat =>
    refine .visit (fun _ => rfl) (by decide) ?_
    refine .eat_else (eat_eq_none_iff.mp heat) (.congr (.pure [] ts) ?_)
    rw [reader_apply, moreValues, heat]
    rfl
  | case2 ts ts₁ h₁ heat ih =>
    refine .visit (fun _ => rfl) (by decide) ?_
    refine .eat_then (takes_of_eat heat)
      (.bind (n := 6) (k := 6) (.number ts₁ "a value") fun value rest h =>
        (ih rest (left_of_reader h)).bind fun values rest' _ => .pure (value :: values) rest') ?_
    rw [reader_apply, moreValues, heat]
    simp only [reader_apply, bind_apply, pure_apply, bind_assoc, pure_bind]

theorem walkValues_ends (ts : Tokens) :
    Ends 8 8 (walkValues : Nat → Walk Place input _) (reader Script.values) ts := by
  unfold walkValues
  by_cases hclose : ts.peek? = some (.symbol '}')
  · obtain ⟨rest, htakes⟩ := exists_takes hclose
    refine .eat_then htakes (.pure [] rest) ?_
    rw [reader_apply, Script.values, htakes.eat]
    rfl
  · refine .eat_else hclose (.congr (.bind (k := 6) (.number ts "a value") fun value rest _ =>
      (walkMoreValues_ends rest).bind fun values rest' _ =>
        .bind (k := 8) (.expect rest' (.symbol '}')) fun _ rest'' _ =>
          .pure (value :: values) rest'') ?_)
    rw [reader_apply, Script.values, eat_eq_none_iff.mpr hclose]
    simp only [reader_apply, token_apply, bind_apply, pure_apply, bind_assoc, pure_bind]

theorem walkOperand_ends (left : String) (ts : Tokens) :
    Ends 8 8 (fun _ => walkOperand left : Nat → Walk Place input _) (operand left) ts := by
  unfold walkOperand
  cases hnumber : ts.number? with
  | some result =>
    refine .number? (takes_of_number? hnumber)
      (.pure (Expr.equalsValue left result.1) result.2.1) ?_
    rw [operand, hnumber]
    rfl
  | none =>
    refine .number?_none hnumber (.congr (.bind (walkName_ends "a value or variable name" ts)
      fun right rest _ => .pure (Expr.equalsVar left right) rest) ?_)
    rw [operand, hnumber]

theorem walkNamed_ends {n : Nat} (ts : Tokens) :
    Ends n 8 (fun _ => walkNamed : Nat → Walk Place input _) (reader named) ts := by
  unfold walkNamed
  rw [reader_named]
  refine .bind (k := 8) (walkName_ends "a set expression" ts) fun left rest _ => ?_
  cases hequals : rest.eat? .equals with
  | some rest' =>
    refine .eat_then (takes_of_eat hequals) (walkOperand_ends left rest'.1) ?_
    rw [afterName, hequals]
  | none =>
    refine .eat_else (eat_eq_none_iff.mp hequals) (.congr (.pure (Expr.name left) rest) ?_)
    rw [afterName, hequals]
    rfl

/-- All rules for expressions at once. Behind a term, it has been looked for another `&`, and behind
an expression for another `|` or `-`; behind an atom, nothing has been looked at. -/
theorem walk_ends :
    (∀ ts, Ends 4 6 (walkExpr : Nat → Walk Place input _) (reader expr) ts) ∧
    (∀ left ts, Ends 7 6 (walkTerms left : Nat → Walk Place input _) (reader (moreTerms left)) ts) ∧
    (∀ ts, Ends 3 7 (walkTerm : Nat → Walk Place input _) (reader term) ts) ∧
    (∀ left ts, Ends 8 7 (walkUnaries left : Nat → Walk Place input _) (reader (moreUnaries left))
      ts) ∧
    (∀ ts, Ends 2 8 (walkUnary : Nat → Walk Place input _) (reader unary) ts) ∧
    (∀ ts, Ends 1 8 (walkAtom : Nat → Walk Place input _) (reader atom) ts) := by
  apply expr.mutual_induct
  case case1 =>
    intro ts ihterm ihmore
    refine .visit (fun _ => rfl) (by decide) ?_
    refine .congr (ihterm.bind fun left rest h => ihmore left rest (left_of_reader h)) ?_
    rw [reader_apply, expr]
    simp only [reader_apply, bind_apply, bind_assoc, pure_bind]
  case case2 =>
    intro left ts ts₁ h₁ heat ihterm ihmore
    refine .visit (fun _ => rfl) (by decide) ?_
    refine .eat_then (takes_of_eat heat) (ihterm.bind fun right rest h =>
      ihmore right rest (left_of_reader h)) ?_
    rw [reader_apply, moreTerms, heat]
    simp only [reader_apply, bind_apply, bind_assoc, pure_bind]
  case case3 =>
    intro left ts hbar ts₁ h₁ heat ihterm ihmore
    refine .visit (fun _ => rfl) (by decide) ?_
    refine .eat_else (eat_eq_none_iff.mp hbar) (.eat_then (takes_of_eat heat)
      (ihterm.bind fun right rest h => ihmore right rest (left_of_reader h)) ?_)
    rw [reader_apply, moreTerms, hbar, heat]
    simp only [reader_apply, bind_apply, bind_assoc, pure_bind]
  case case4 =>
    intro left ts hbar hminus
    refine .visit (fun _ => rfl) (by decide) ?_
    refine .eat_else (eat_eq_none_iff.mp hbar)
      (.eat_else (eat_eq_none_iff.mp hminus) (.congr (.pure left ts) ?_))
    rw [reader_apply, moreTerms, hbar, hminus]
    rfl
  case case5 =>
    intro ts ihunary ihmore
    refine .visit (fun _ => rfl) (by decide) ?_
    refine .congr (ihunary.bind fun left rest h => ihmore left rest (left_of_reader h)) ?_
    rw [reader_apply, term]
    simp only [reader_apply, bind_apply, bind_assoc, pure_bind]
  case case6 =>
    intro left ts ts₁ h₁ heat ihunary ihmore
    refine .visit (fun _ => rfl) (by decide) ?_
    refine .eat_then (takes_of_eat heat) (ihunary.bind fun right rest h =>
      ihmore right rest (left_of_reader h)) ?_
    rw [reader_apply, moreUnaries, heat]
    simp only [reader_apply, bind_apply, bind_assoc, pure_bind]
  case case7 =>
    intro left ts hand
    refine .visit (fun _ => rfl) (by decide) ?_
    refine .eat_else (eat_eq_none_iff.mp hand) (.congr (.pure left ts) ?_)
    rw [reader_apply, moreUnaries, hand]
    rfl
  case case8 =>
    intro ts ts₁ h₁ heat ihunary
    refine .visit (fun _ => rfl) (by decide) ?_
    refine .eat_then (takes_of_eat heat) (ihunary.bind fun e rest _ => .pure e.complement rest) ?_
    rw [reader_apply, unary, heat]
    simp only [reader_apply, bind_apply, pure_apply, bind_assoc, pure_bind]
  case case9 =>
    intro ts hnot ihatom
    refine .visit (fun _ => rfl) (by decide) ?_
    refine .eat_else (eat_eq_none_iff.mp hnot) (ihatom.congr ?_)
    rw [reader_apply, unary, hnot]
    rfl
  case case10 =>
    intro ts ts₁ h₁ hnext ihexpr
    refine .visit (fun _ => rfl) (by decide) ?_
    refine .eat_then (k := 4) (takes_of_next hnext) (ihexpr.bind fun e rest _ =>
      .bind (k := 8) (.expect rest (.symbol ')')) fun _ rest' _ => .pure e rest') ?_
    rw [reader_apply, atom, hnext]
    simp only [reader_apply, token_apply, bind_apply, pure_apply, bind_assoc, pure_bind]
  case case11 =>
    intro ts ts₁ h₁ hnext
    have htakes := takes_of_next hnext
    refine .visit (fun _ => rfl) (by decide) ?_
    refine .eat_other htakes (by decide) (.eat_then htakes
      ((walkValues_ends ts₁).bind fun values rest _ => .pure (Expr.point values) rest) ?_)
    rw [reader_apply, atom, hnext]
    simp only [reader_apply, bind_apply, pure_apply, bind_assoc, pure_bind]
  case case12 =>
    intro ts rest hnext
    have htakes := takes_of_next hnext
    refine .visit (fun _ => rfl) (by decide) ?_
    refine .eat_other htakes (by decide) (.eat_other htakes (by decide)
      (.eat_then htakes (.pure Expr.top rest.1) ?_))
    rw [reader_apply, atom, hnext]
    rfl
  case case13 =>
    intro ts rest hnext
    have htakes := takes_of_next hnext
    refine .visit (fun _ => rfl) (by decide) ?_
    refine .eat_other htakes (by decide) (.eat_other htakes (by decide)
      (.eat_other htakes (by decide) (.eat_then htakes (.pure Expr.bottom rest.1) ?_)))
    rw [reader_apply, atom, hnext]
    rfl
  case case14 =>
    intro ts ts₁ h₁ hnext ihunary
    have htakes := takes_of_next hnext
    have hbody (var : String) {ts₂ : Tokens} (h₂ : ts₂.size < ts₁.size) :=
      Ends.bind (n := 8) (k := 2) (.expect ts₂ (.symbol '.')) fun _ ts₃ h =>
        (ihunary ts₂ h₂ ts₃ (shorter_of_token h)).bind fun body rest _ =>
          .pure (Expr.exists var body) rest
    have hvar := Ends.bind (n := 8) (walkName_ends "a variable name" ts₁) fun var ts₂ h =>
      hbody var (left_of_reader h)
    refine .visit (fun _ => rfl) (by decide) ?_
    refine .eat_other htakes (by decide) (.eat_other htakes (by decide)
      (.eat_other htakes (by decide) (.eat_other htakes (by decide) (.eat_then htakes hvar ?_))))
    rw [reader_apply, atom, hnext]
    simp only [reader_apply, token_apply, bind_apply, pure_apply, bind_assoc, pure_bind]
  case case15 =>
    intro ts hgroup hpoint htop hbottom hexists
    have hnamed : ∀ t ∈ openings, ts.peek? ≠ some t := by
      intro t ht hpeek
      obtain ⟨rest, htakes⟩ := exists_takes hpeek
      simp only [openings, List.mem_cons, List.not_mem_nil, or_false] at ht
      rcases ht with rfl | rfl | rfl | rfl | rfl
      · exact hgroup _ _ htakes.next
      · exact hpoint _ _ htakes.next
      · exact htop _ htakes.next
      · exact hbottom _ htakes.next
      · exact hexists _ _ htakes.next
    refine .visit (fun _ => rfl) (by decide) ?_
    refine .eat_else (hnamed _ (by decide)) (.eat_else (hnamed _ (by decide))
      (.eat_else (hnamed _ (by decide)) (.eat_else (hnamed _ (by decide))
        (.eat_else (hnamed _ (by decide)) ((walkNamed_ends ts).congr ?_)))))
    rw [reader_apply, reader_apply, atom_eq_named hnamed]

theorem walkExpr_ends {n : Nat} (hn : 4 ≤ n) (ts : Tokens) :
    Ends n 6 (walkExpr : Nat → Walk Place input _) (reader expr) ts :=
  (walk_ends.1 ts).mono hn

theorem walkPair_ends {n : Nat} (ts : Tokens) :
    Ends n 8 (walkPair : Nat → Walk Place input _) pairReader ts := by
  unfold walkPair pairReader
  exact .bind (k := 8) (.expect ts (.symbol '(')) fun _ ts₁ _ =>
    (walkExpr_ends (by decide) ts₁).bind fun a ts₂ _ =>
      .bind (k := 8) (.expect ts₂ (.symbol ',')) fun _ ts₃ _ =>
        (walkExpr_ends (by decide) ts₃).bind fun b ts₄ _ =>
          .bind (k := 8) (.expect ts₄ (.symbol ')')) fun _ ts₅ _ => .pure (a, b) ts₅

theorem walkQuery_ends {n : Nat} (ts : Tokens) :
    Ends n 8 (walkQuery : Nat → Walk Place input _) (reader query) ts := by
  unfold walkQuery
  by_cases hempty : ts.peek? = some (.word "empty")
  · obtain ⟨rest, htakes⟩ := exists_takes hempty
    refine .eat_then (k := 8) htakes (.bind (k := 8) (.expect rest (.symbol '(')) fun _ ts₁ _ =>
      (walkExpr_ends (by decide) ts₁).bind fun a ts₂ _ =>
        .bind (k := 8) (.expect ts₂ (.symbol ')')) fun _ ts₃ _ => .pure (Query.empty a) ts₃) ?_
    rw [reader_apply, query, htakes.next]
    simp only [reader_apply, token_apply, bind_apply, pure_apply, bind_assoc, pure_bind]
  refine .eat_else hempty ?_
  by_cases hequal : ts.peek? = some (.word "equal")
  · obtain ⟨rest, htakes⟩ := exists_takes hequal
    refine .eat_then (k := 8) htakes ((walkPair_ends rest).bind fun r ts₁ _ =>
      .pure (Query.equal r.1 r.2) ts₁) ?_
    rw [reader_apply, query, htakes.next]
    simp only [pairReader, pair, reader_apply, token_apply, bind_apply, pure_apply, bind_assoc,
      pure_bind]
  refine .eat_else hequal ?_
  by_cases hsubset : ts.peek? = some (.word "subset")
  · obtain ⟨rest, htakes⟩ := exists_takes hsubset
    refine .eat_then (k := 8) htakes ((walkPair_ends rest).bind fun r ts₁ _ =>
      .pure (Query.subset r.1 r.2) ts₁) ?_
    rw [reader_apply, query, htakes.next]
    simp only [pairReader, pair, reader_apply, token_apply, bind_apply, pure_apply, bind_assoc,
      pure_bind]
  refine .eat_else hsubset (.unexpected ?_)
  rw [reader_apply, query]
  split
  · next heq => exact absurd (takes_of_next heq).peek hempty
  · next heq => exact absurd (takes_of_next heq).peek hequal
  · next heq => exact absurd (takes_of_next heq).peek hsubset
  · rfl

theorem walkCommand_ends {n : Nat} (ts : Tokens) :
    Ends n 6 (walkCommand : Nat → Walk Place input _) (reader command) ts := by
  unfold walkCommand
  by_cases hvar : ts.peek? = some (.word "var")
  · obtain ⟨rest, htakes⟩ := exists_takes hvar
    refine .eat_then (k := 6) htakes (.bind (k := 6) (walkName_ends "a variable name" rest)
      fun var ts₁ _ => .bind (k := 6) (.expect ts₁ (.symbol ':')) fun _ ts₂ _ =>
        .bind (k := 6) (.width ts₂) fun bits ts₃ _ => .pure (Command.var var bits) ts₃) ?_
    rw [reader_apply, command, htakes.next]
    simp only [reader_apply, token_apply, bind_apply, pure_apply, bind_assoc, pure_bind]
  refine .eat_else hvar ?_
  by_cases hlet : ts.peek? = some (.word "let")
  · obtain ⟨rest, htakes⟩ := exists_takes hlet
    refine .eat_then (k := 6) htakes (.bind (k := 6) (walkName_ends "a set name" rest)
      fun set ts₁ _ => .bind (k := 6) (.expect ts₁ (.symbol '=')) fun _ ts₂ _ =>
        (walkExpr_ends (by decide) ts₂).bind fun e ts₃ _ => .pure (Command.define set e) ts₃) ?_
    rw [reader_apply, command, htakes.next]
    simp only [reader_apply, token_apply, bind_apply, pure_apply, bind_assoc, pure_bind]
  refine .eat_else hlet ?_
  by_cases hprint : ts.peek? = some (.word "print")
  · obtain ⟨rest, htakes⟩ := exists_takes hprint
    refine .eat_then (k := 6) htakes (((walkQuery_ends rest).weaken (by decide)).bind fun q ts₁ _ =>
      .pure (Command.print q) ts₁) ?_
    rw [reader_apply, command, htakes.next]
    simp only [reader_apply, bind_apply, pure_apply, bind_assoc, pure_bind]
  refine .eat_else hprint ?_
  by_cases hassert : ts.peek? = some (.word "assert")
  · obtain ⟨rest, htakes⟩ := exists_takes hassert
    refine .eat_then (k := 6) htakes (((walkQuery_ends rest).weaken (by decide)).bind fun q ts₁ _ =>
      .pure (Command.assert q) ts₁) ?_
    rw [reader_apply, command, htakes.next]
    simp only [reader_apply, bind_apply, pure_apply, bind_assoc, pure_bind]
  refine .eat_else hassert (.unexpected ?_)
  rw [reader_apply, command]
  split
  · next heq => exact absurd (takes_of_next heq).peek hvar
  · next heq => exact absurd (takes_of_next heq).peek hlet
  · next heq => exact absurd (takes_of_next heq).peek hprint
  · next heq => exact absurd (takes_of_next heq).peek hassert
  · rfl

theorem walkStatement_ends {n : Nat} (ts : Tokens) :
    Ends n 5 (walkStatement : Nat → Walk Place input _) (reader statement) ts := by
  unfold walkStatement
  refine .congr (.look ((walkCommand_ends ts).bind fun c rest _ =>
    .bind (k := 5) (.expect rest (.symbol ';')) fun _ rest' _ =>
      .pure (Statement.mk ts.position.line c) rest')) ?_
  rw [reader_apply, statement]
  simp only [reader_apply, token_apply, bind_apply, pure_apply, bind_assoc, pure_bind]

/-- All statements, which are taken together. -/
def scriptReader : Reader Script := fun ts => do
  let s ← statements ts
  return (s, ⟨[], ts.stop⟩)

theorem walkStatements_ends (ts : Tokens) :
    Ends 5 4 (walkStatements : Nat → Walk Place input _) scriptReader ts := by
  fun_induction statements ts with
  | case1 ts hempty =>
    refine .visit (fun _ => rfl) (by decide) (.look ?_)
    simp only [if_pos hempty]
    refine .congr (.pure [] ts) ?_
    obtain ⟨items, stop⟩ := ts
    obtain rfl := List.isEmpty_iff.mp hempty
    rw [scriptReader, statements]
    rfl
  | case2 ts hitems ih =>
    refine .visit (fun _ => rfl) (by decide) (.look ?_)
    simp only [if_neg hitems]
    refine .congr ((walkStatement_ends ts).bind fun first rest h =>
      (ih rest (left_of_reader h)).bind fun others rest' _ => .pure (first :: others) rest') ?_
    rw [scriptReader, statements, if_neg hitems, bind_apply, reader_apply]
    simp only [bind_assoc]
    cases hstatement : statement ts with
    | error e => rfl
    | ok result =>
      obtain ⟨first, rest, hrest⟩ := result
      obtain ⟨d, -, htakes⟩ := derives_statement hstatement
      have hstop : rest.stop = ts.stop := htakes.stop_eq
      simp only [Tokens.ok_bind, pure_bind, bind_apply, scriptReader, pure_apply, bind_assoc,
        hstop]

end LayeredSets.Script
