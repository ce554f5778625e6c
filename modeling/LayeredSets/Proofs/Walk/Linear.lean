import LayeredSets.Proofs.Walk.Script
import LayeredSets.Proofs.Walk.Text
import LayeredSets.Proofs.Walk.Trace

/-!
# Texts and tokens are read in linear time

The tokenizer and both parsers end, whatever they are given, and the walk of each takes a number of
steps that is linear in the size of what it reads.
-/

namespace LayeredSets

variable {ι σ α : Type} {input : σ}

/-! ## How long a log can be -/

namespace Cursor

variable [DecidableEq ι]

theorem length_log [Fintype ι] (c : Cursor ι input) :
    c.log.length = c.advances.length + ∑ place, (c.visits place).length := by
  simp only [advances, visits]
  induction c.log with
  | nil => simp
  | cons e log ih =>
    cases e with
    | advance position =>
      simp only [List.filterMap_cons, Event.advance?, Event.visit?, List.length_cons, ih]
      omega
    | visit place position =>
      have hlength (place' : ι) :
          ((Event.visit place position :: log).filterMap (Event.visit? place')).length =
            (if place = place' then 1 else 0) + (log.filterMap (Event.visit? place')).length := by
        by_cases h : place = place' <;> simp [Event.visit?, h, Nat.add_comm]
      rw [Finset.sum_congr rfl fun place' _ => hlength place', Finset.sum_add_distrib,
        Finset.sum_ite_eq, if_pos (Finset.mem_univ place)]
      simp only [List.filterMap_cons, Event.advance?, List.length_cons, ih]
      omega

variable [Source σ] {c : Cursor ι input}

theorem Orderly.length_visits_le (h : c.Orderly) (place : ι) :
    (c.visits place).length ≤ Source.size input + 1 := by
  have hpositions : (c.visits place).toFinset ⊆ Finset.range (Source.size input + 1) := by
    intro position hmem
    have hbehind := h.behind _ (mem_visits.mp (List.mem_toFinset.mp hmem))
    exact Finset.mem_range.mpr (Nat.lt_succ_of_le (hbehind.trans h.inside))
  calc
    (c.visits place).length = (c.visits place).toFinset.card :=
      (List.toFinset_card_of_nodup (h.progress place).nodup).symm
    _ ≤ (Finset.range (Source.size input + 1)).card := Finset.card_le_card hpositions
    _ = Source.size input + 1 := Finset.card_range _

/-- A log in order has at most one entry of each kind at each position. -/
theorem Orderly.length_log_le [Fintype ι] (h : c.Orderly) :
    c.log.length ≤ (Fintype.card ι + 1) * (Source.size input + 1) := by
  have hadvances : c.advances.length ≤ Source.size input + 1 := by
    rw [h.advances, List.length_range]
    exact h.inside.trans (Nat.le_succ _)
  have hvisits : ∑ place, (c.visits place).length ≤ Fintype.card ι * (Source.size input + 1) :=
    Finset.sum_le_card_nsmul _ _ _ fun place _ => h.length_visits_le place
  rw [length_log, Nat.succ_mul, Nat.add_comm]
  exact Nat.add_le_add hvisits hadvances

end Cursor

/-! ## Linear walks -/

namespace Walk

variable [DecidableEq ι] [Fintype ι] [Ranked ι] [Source σ]

/-- Along the whole of its input the walk ends with `r`, and more fuel than a linear amount makes no
difference. Its log is in order, it advances over no item twice, and all that it does is linear in
the number of items. -/
def Linear (m : Nat → Walk ι input α) (r : Except ParseError α) : Prop :=
  ∃ c, (∀ fuel, Ranked.height ι * (Source.size input + 1) ≤ fuel →
      m fuel .start = some (r, c)) ∧
    c.Orderly ∧ c.advances.length ≤ Source.size input ∧
      c.log.length ≤ (Fintype.card ι + 1) * (Source.size input + 1)

theorem Ends.linear {n n' : Nat} {m : Nat → Walk ι input α} {f : StateT σ (Except ParseError) α}
    {r : Except ParseError α} (h : Ends n n' m f input) (hr : (f input).map Prod.fst = r) :
    Linear m r := by
  have hbudget : budget ι n input ≤ Ranked.height ι * (Source.size input + 1) := by
    rw [budget, Nat.mul_succ]
    exact Nat.add_le_add_left (Nat.min_le_right ..) _
  have hlinear {c : Cursor ι input} (horder : c.Orderly) : c.Orderly ∧
      c.advances.length ≤ Source.size input ∧
      c.log.length ≤ (Fintype.card ι + 1) * (Source.size input + 1) := by
    refine ⟨horder, ?_, horder.length_log_le⟩
    rw [horder.advances, List.length_range]
    exact horder.inside
  have hend := h .start (Source.drop_zero input) .start (Cursor.clear_start n)
  generalize f input = r' at hend hr
  subst hr
  cases hend with
  | ok hend horder =>
    exact ⟨_, fun fuel hfuel => hend fuel (hbudget.trans hfuel), hlinear horder⟩
  | error hend horder =>
    exact ⟨_, fun fuel hfuel => hend fuel (hbudget.trans hfuel), hlinear horder⟩

end Walk

/-- The tokenizer ends on every text, and both parsers end on all tokens. Whenever one of their
loops comes round, or one of their rules is called again, they have advanced since; they never go
back, and never over the end. -/
theorem reading_linear :
    (∀ (text : List Char) (keepBreaks : Bool),
      Walk.Linear (Text.walkTokens keepBreaks [] .start : Nat → Walk Text.Place text Tokens)
        (tokenize text keepBreaks)) ∧
    (∀ ts : Tokens, Walk.Linear (Script.walkStatements : Nat → Walk Script.Place ts Script)
      (Script.statements ts)) ∧
    ∀ ts : Tokens, Walk.Linear (Trace.walkSteps : Nat → Walk Trace.Place ts Trace)
      (Trace.steps ts) := by
  refine ⟨fun text keepBreaks => ?_, fun ts => ?_, fun ts => ?_⟩
  · refine (Text.walkTokens_ends keepBreaks [] .start text).linear ?_
    have hmuted : Text.muted [] = true := rfl
    rw [Text.textReader, hmuted, tokenize]
    cases Tokens.ofPieces keepBreaks true .start (Piece.split text) <;> rfl
  · refine (Script.walkStatements_ends ts).linear ?_
    rw [Script.scriptReader]
    cases Script.statements ts <;> rfl
  · refine (Trace.walkSteps_ends ts).linear ?_
    rw [Trace.traceReader]
    cases Trace.steps ts <;> rfl

end LayeredSets
