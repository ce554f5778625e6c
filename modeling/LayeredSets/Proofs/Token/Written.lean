import LayeredSets.Proofs.Action
import LayeredSets.Proofs.Token.Reading

/-!
# Tokens written as a text

Which tokens a text can have is told by the tokens alone: a lexeme must spell each of them, and line
breaks, where they are kept, stand behind other tokens. So what some text begins with can be written
down again and continued with other tokens.
-/

namespace LayeredSets

/-- A token that a lexeme spells. -/
def Token.Spellable (t : Token) : Prop := ∃ w, t.SpelledBy w

/-- Tokens that a text can have. Line breaks are tokens if `keepBreaks`, and `muted` says that one
would be dropped here. -/
inductive Writable (keepBreaks : Bool) : Bool → List Token → Prop
  | nil (muted : Bool) : Writable keepBreaks muted []
  | lineBreak {tokens : List Token} (hkeep : keepBreaks = true)
    (h : Writable keepBreaks true tokens) : Writable keepBreaks false (.lineBreak :: tokens)
  | token {muted : Bool} {t : Token} {tokens : List Token} (ht : t.Spellable)
    (h : Writable keepBreaks false tokens) : Writable keepBreaks muted (t :: tokens)

/-- The tokens with a blank behind each. -/
def written (tokens : List Token) : List Char := tokens.flatMap fun t => t.text.toList ++ [' ']

theorem Token.spellable_iff (t : Token) : t.Spellable ↔
    match t with
    | word name => isName name = true
    | symbol c => c ∈ Piece.symbols
    | lineBreak => False
    | number _ | equals | arrow => True := by
  cases t with
  | number value =>
    obtain ⟨c, cs, -, hc, hcs, hvalue⟩ := toList_numeral value.toNat
    rw [decimalFrom_eq] at hvalue
    exact iff_of_true ⟨c :: cs, List.cons_ne_nil c cs, List.forall_mem_cons.mpr ⟨hc, hcs⟩, hvalue⟩
      trivial
  | _ => simp [Spellable, SpelledBy]

instance (t : Token) : Decidable t.Spellable :=
  match t with
  | .word name => decidable_of_iff (isName name = true) (Token.spellable_iff (.word name)).symm
  | .symbol c => decidable_of_iff (c ∈ Piece.symbols) (Token.spellable_iff (.symbol c)).symm
  | .number n => .isTrue ((Token.spellable_iff (.number n)).mpr trivial)
  | .equals => .isTrue ((Token.spellable_iff .equals).mpr trivial)
  | .arrow => .isTrue ((Token.spellable_iff .arrow).mpr trivial)
  | .lineBreak => .isFalse ((Token.spellable_iff .lineBreak).mp)

theorem Token.Spellable.spelledBy_text {t : Token} (h : t.Spellable) :
    t.SpelledBy t.text.toList := by
  obtain ⟨w, hw⟩ := h
  cases t with
  | word name => exact ⟨rfl, hw.2⟩
  | number value =>
    obtain ⟨c, cs, htext, hc, hcs, hvalue⟩ := toList_numeral value.toNat
    rw [decimalFrom_eq] at hvalue
    have htext : (Token.number value).text.toList = c :: cs := htext
    rw [htext]
    exact ⟨List.cons_ne_nil c cs, List.forall_mem_cons.mpr ⟨hc, hcs⟩, hvalue⟩
  | symbol c => exact ⟨by simp [Token.text], hw.2⟩
  | equals | arrow => exact by simp [Token.text, Token.SpelledBy]
  | lineBreak => exact hw.elim

theorem Token.endsBefore_blank (t : Token) (rest : List Char) : t.EndsBefore (' ' :: rest) := by
  rintro _ ⟨⟩
  cases t <;> simp [Token.ExtendedBy, Piece.isWordChar]

namespace Writable

variable {keepBreaks muted : Bool} {front rest more tokens : List Token}

theorem of_spellable (muted : Bool) (h : ∀ t ∈ tokens, t.Spellable) :
    Writable keepBreaks muted tokens := by
  induction tokens generalizing muted with
  | nil => exact .nil muted
  | cons t tokens ih =>
    obtain ⟨ht, htokens⟩ := List.forall_mem_cons.mp h
    exact .token ht (ih false htokens)

/-- Where line breaks are dropped, there is none among the tokens. -/
theorem lineBreak_notMem (h : Writable false muted tokens) : .lineBreak ∉ tokens := by
  induction h with
  | nil => exact List.not_mem_nil
  | lineBreak hkeep => cases hkeep
  | token ht h ih =>
    rintro (_ | ⟨_, hmem⟩)
    · exact (Token.spellable_iff .lineBreak).mp ht
    · exact ih hmem

/-- What stands behind tokens of a text may be replaced with other tokens. -/
theorem replace (h : Writable keepBreaks muted (front ++ rest)) (hmore : ∀ t ∈ more, t.Spellable) :
    Writable keepBreaks muted (front ++ more) := by
  induction front generalizing muted with
  | nil => exact of_spellable muted hmore
  | cons t front ih =>
    cases h with
    | lineBreak hkeep h => exact .lineBreak hkeep (ih h)
    | token ht h => exact .token ht (ih h)

/-- What is written is read as the tokens. -/
theorem ofPieces (h : Writable keepBreaks muted tokens) (position : Position) :
    ∃ ts, Tokens.ofPieces keepBreaks muted position (Piece.split (written tokens)) = .ok ts ∧
      ts.items.map (·.token) = tokens := by
  have blank (muted : Bool) (position : Position) (text : List Char) :
      Tokens.ofPieces keepBreaks muted position (Piece.split (' ' :: text)) =
        Tokens.ofPieces keepBreaks muted (position.after [' ']) (Piece.split text) := by
    rw [Piece.split_blank]
    rfl
  induction h generalizing position with
  | nil muted => exact ⟨⟨[], position⟩, by simp [written, Piece.split, Tokens.ofPieces], rfl⟩
  | @lineBreak tokens hkeep h ih =>
    obtain ⟨ts, hts, rfl⟩ := ih ((position.after ['\n']).after [' '])
    refine ⟨Tokens.cons .lineBreak position ts, ?_, rfl⟩
    have htext : written (.lineBreak :: ts.items.map (·.token)) =
        '\n' :: ' ' :: written (ts.items.map (·.token)) := rfl
    subst hkeep
    rw [htext, Piece.split_break, Tokens.ofPieces]
    simp only [Bool.not_false, Bool.and_self, if_true]
    rw [blank, Piece.spelling, hts]
    rfl
  | @token muted t tokens ht h ih =>
    obtain ⟨p, hreading, hspelling, hsplit⟩ :=
      Piece.split_lexeme ht.spelledBy_text (t.endsBefore_blank (written tokens))
    have hbreak : p ≠ .lineBreak := by
      rintro rfl
      cases hreading
    have htext : written (t :: tokens) = t.text.toList ++ ' ' :: written tokens := by
      simp [written]
    obtain ⟨ts, hts, rfl⟩ := ih ((position.after t.text.toList).after [' '])
    refine ⟨Tokens.cons t position ts, ?_, rfl⟩
    rw [htext, hsplit, Piece.ofPieces_cons (.inr hbreak), hreading, hspelling]
    dsimp only
    rw [blank, hts]
    rfl

end Writable

/-- The tokens of a text can be written. -/
theorem writable_of_ofPieces (text : List Char) {keepBreaks muted : Bool} {position : Position}
    {ts : Tokens} (h : Tokens.ofPieces keepBreaks muted position (Piece.split text) = .ok ts) :
    Writable keepBreaks muted (ts.items.map (·.token)) := by
  fun_induction Piece.split text generalizing muted position ts with
  | case1 =>
    obtain rfl := Except.ok.inj h
    exact .nil muted
  | case2 c rest ih =>
    have hread := Piece.readBefore_first c rest
    generalize (Piece.first c rest).1 = p at *
    by_cases hbreak : keepBreaks = true ∧ muted = false ∧ p = .lineBreak
    · obtain ⟨rfl, rfl, rfl⟩ := hbreak
      obtain ⟨ts', hts, rfl⟩ := map_eq_ok h
      exact .lineBreak rfl (ih hts)
    by_cases hp : keepBreaks = false ∨ p ≠ .lineBreak
    · rw [Piece.ofPieces_cons hp] at h
      rw [Piece.ReadBefore] at hread
      split at h
      · exact ih h
      · next t hreading =>
        rw [hreading] at hread
        obtain ⟨ts', hts, rfl⟩ := map_eq_ok h
        exact .token ⟨_, hread.1⟩ (ih hts)
      · cases h
    · obtain ⟨rfl, rfl⟩ : keepBreaks = true ∧ p = .lineBreak := by simpa using hp
      obtain rfl : muted = true := by simpa using hbreak
      exact ih h

/-- Tokens that a text begins with are those that another text begins with, whatever tokens come
next there. -/
theorem exists_text {keepBreaks : Bool} {text : List Char} {ts : Tokens}
    {front rest more : List Token} (h : tokenize text keepBreaks = .ok ts)
    (hfront : ts.items.map (·.token) = front ++ rest)
    (hmore : ∀ t ∈ more, t.Spellable) :
    ∃ text' ts', tokenize text' keepBreaks = .ok ts' ∧ ts'.items.map (·.token) = front ++ more := by
  have hwritable := writable_of_ofPieces text h
  rw [hfront] at hwritable
  exact ⟨_, (hwritable.replace hmore).ofPieces .start⟩

end LayeredSets
