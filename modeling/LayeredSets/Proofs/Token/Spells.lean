import LayeredSets.Token.Lexer
import Mathlib.Tactic

/-!
# Tokens of a line

Words and numbers are pieces where no character follows that could belong to them. Symbols, blanks,
the ends of lines and comments are pieces too. So a line that spells some tokens, with single blanks
between them, is read as these tokens, all at positions on the line. A comment is read as nothing.
-/

/-! ## Pieces -/

namespace LayeredSets.Piece

theorem isBlank_eq_false {c : Char} (h : 33 ≤ c.toNat) (h' : c.toNat ≤ 126) :
    Text.isBlank c = false := by
  simp only [Text.isBlank, Text.blankRanges, List.any_cons, List.any_nil, Bool.or_false,
    Bool.or_eq_false_iff, Bool.and_eq_false_iff, decide_eq_false_iff_not, not_le]
  omega

theorem isDigit_range {c : Char} (h : c.isDigit = true) : 48 ≤ c.toNat ∧ c.toNat ≤ 57 := by
  simpa [Char.isDigit, UInt32.le_iff_toNat_le] using h

theorem isWordStart_range {c : Char} (h : isWordStart c = true) :
    65 ≤ c.toNat ∧ c.toNat ≤ 122 ∧ c.isDigit = false := by
  have halpha : c.isAlpha = (decide (65 ≤ c.val ∧ c.val ≤ 90) ||
      decide (97 ≤ c.val) && decide (c.val ≤ 122)) := rfl
  simp only [isWordStart, halpha, Bool.or_eq_true, Bool.and_eq_true, decide_eq_true_iff,
    beq_iff_eq, UInt32.le_iff_toNat_le] at h
  have hdigit (hc : 57 < c.toNat) : c.isDigit = false :=
    Bool.eq_false_iff.mpr fun hd => absurd (isDigit_range hd).2 (not_le.mpr hc)
  rcases h with (h | h) | rfl
  · have h1 : 65 ≤ c.toNat := h.1
    have h2 : c.toNat ≤ 90 := h.2
    exact ⟨h1, by omega, hdigit (by omega)⟩
  · have h1 : 97 ≤ c.toNat := h.1
    have h2 : c.toNat ≤ 122 := h.2
    exact ⟨by omega, h2, hdigit (by omega)⟩
  · decide

theorem isWordChar_range {c : Char} (h : isWordChar c = true) : 48 ≤ c.toNat ∧ c.toNat ≤ 122 := by
  have hcases : isWordStart c = true ∨ c.isDigit = true := by
    simp only [isWordChar, Char.isAlphanum, Bool.or_eq_true] at h
    simp only [isWordStart, Bool.or_eq_true]
    tauto
  rcases hcases with hstart | hdigit
  · obtain ⟨hlow, hhigh, -⟩ := isWordStart_range hstart
    omega
  · obtain ⟨hlow, hhigh⟩ := isDigit_range hdigit
    omega

theorem takeWhile_append {p : Char → Bool} {cs rest : List Char} (hcs : ∀ c ∈ cs, p c = true)
    (hrest : ∀ c, rest.head? = some c → p c = false) :
    (cs ++ rest).takeWhile p = cs ∧ (cs ++ rest).dropWhile p = rest := by
  rw [List.takeWhile_append_of_pos hcs, List.dropWhile_append_of_pos hcs]
  cases rest with
  | nil => simp
  | cons c rest => simp [hrest c rfl]

/-- A word ends where no character of a word follows. -/
theorem split_word {c : Char} {cs rest : List Char} (hc : isWordStart c = true)
    (hcs : ∀ x ∈ cs, isWordChar x = true)
    (hrest : ∀ x, rest.head? = some x → isWordChar x = false) :
    split (c :: cs ++ rest) = .word (c :: cs) :: split rest := by
  obtain ⟨hlow, hhigh, hdigit⟩ := isWordStart_range hc
  have hne (x : Char) (hx : x.toNat < 65) : c ≠ x := by
    rintro rfl
    omega
  obtain ⟨htake, hdrop⟩ := takeWhile_append hcs hrest
  rw [List.cons_append, split, first, if_neg (hne '\n' (by decide)),
    if_neg (by simp [isBlank_eq_false (show 33 ≤ c.toNat by omega) (by omega)]),
    if_neg (hne '#' (by decide)), if_neg (by simp [hdigit]), if_pos hc, htake, hdrop]

theorem split_number {c : Char} {cs rest : List Char} (hc : c.isDigit = true)
    (hcs : ∀ x ∈ cs, x.isDigit = true) (hrest : ∀ x, rest.head? = some x → x.isDigit = false) :
    split (c :: cs ++ rest) = .number (c :: cs) :: split rest := by
  obtain ⟨hlow, hhigh⟩ := isDigit_range hc
  have hne (x : Char) (hx : x.toNat < 48) : c ≠ x := by
    rintro rfl
    omega
  obtain ⟨htake, hdrop⟩ := takeWhile_append hcs hrest
  rw [List.cons_append, split, first, if_neg (hne '\n' (by decide)),
    if_neg (by simp [isBlank_eq_false (show 33 ≤ c.toNat by omega) (by omega)]),
    if_neg (hne '#' (by decide)), if_pos hc, htake, hdrop]

/-- A symbol is a piece unless the first two characters are one. -/
theorem split_symbol {c : Char} {rest : List Char} (hc : c ∈ symbols)
    (hequals : ¬ (c = '=' ∧ rest.head? = some '=')) (harrow : ¬ (c = '-' ∧ rest.head? = some '>')) :
    split (c :: rest) = .symbol c :: split rest := by
  have hother : (symbols.all fun c =>
      decide (c ≠ '\n') && !Text.isBlank c && decide (c ≠ '#') && !c.isDigit && !isWordStart c) = true := by
    decide
  simp only [List.all_eq_true, Bool.and_eq_true, decide_eq_true_eq, Bool.not_eq_true'] at hother
  obtain ⟨⟨⟨⟨hbreak, hblank⟩, hcomment⟩, hdigit⟩, hword⟩ := hother c hc
  rw [split, first, if_neg hbreak, if_neg (by simp [hblank]), if_neg hcomment,
    if_neg (by simp [hdigit]), if_neg (by simp [hword]), if_neg hequals, if_neg harrow,
    if_pos (List.contains_iff_mem.mpr hc)]

theorem split_equals (rest : List Char) : split ('=' :: '=' :: rest) = .equals :: split rest := by
  have hfirst : first '=' ('=' :: rest) = (.equals, rest) := by
    simp [first, isBlank_eq_false, isWordStart]
  rw [split, hfirst]

theorem split_arrow (rest : List Char) : split ('-' :: '>' :: rest) = .arrow :: split rest := by
  have hfirst : first '-' ('>' :: rest) = (.arrow, rest) := by
    simp [first, isBlank_eq_false, isWordStart]
  rw [split, hfirst]

theorem split_blank (rest : List Char) : split (' ' :: rest) = .blank ' ' :: split rest := by
  have hfirst : first ' ' rest = (.blank ' ', rest) := by
    rw [first, if_neg (by decide), if_pos (by decide)]
  rw [split, hfirst]

theorem split_break (rest : List Char) : split ('\n' :: rest) = .lineBreak :: split rest := by
  have hfirst : first '\n' rest = (.lineBreak, rest) := by rw [first, if_pos rfl]
  rw [split, hfirst]

/-- A line that begins with a number sign is one piece. -/
theorem split_comment {body rest : List Char} (h : '\n' ∉ body)
    (hrest : ∀ c, rest.head? = some c → c = '\n') :
    split ('#' :: body ++ rest) = .comment body :: split rest := by
  have hbody (c : Char) (hc : c ∈ body) : (c != '\n') = true := by
    rw [bne_iff_ne]
    rintro rfl
    exact h hc
  have hhead (c : Char) (hc : rest.head? = some c) : (c != '\n') = false := by simp [hrest c hc]
  obtain ⟨htake, hdrop⟩ := takeWhile_append hbody hhead
  have hfirst : first '#' (body ++ rest) = (.comment body, rest) := by
    simp [first, isBlank_eq_false, htake, hdrop]
  rw [List.cons_append, split, hfirst]

end LayeredSets.Piece

/-! ## Tokens -/

namespace LayeredSets

theorem Position.after_eq {cs : List Char} (h : '\n' ∉ cs) (line column : Nat) :
    Position.after ⟨line, column⟩ cs = ⟨line, column + cs.length⟩ := by
  induction cs generalizing column with
  | nil => rfl
  | cons c cs ih =>
    rw [List.mem_cons, not_or] at h
    rw [Position.after, List.foldl_cons, Position.next, if_neg (Ne.symm h.1)]
    refine (ih h.2 (column + 1)).trans ?_
    rw [List.length_cons, Nat.add_assoc, Nat.add_comm 1]

/-- A word of a line and the token that it stands for. -/
inductive Lexeme : List Char → Token → Prop
  | word {c : Char} {cs : List Char} (hc : Piece.isWordStart c = true)
    (hcs : ∀ x ∈ cs, Piece.isWordChar x = true) : Lexeme (c :: cs) (.word (String.ofList (c :: cs)))
  | number {c : Char} {cs : List Char} {value : UInt64} (hc : c.isDigit = true)
    (hcs : ∀ x ∈ cs, x.isDigit = true) (hvalue : Text.decimalFrom 0 (c :: cs) = value.toNat) :
    Lexeme (c :: cs) (.number value)
  | assign : Lexeme ['='] (.symbol '=')
  | arrow : Lexeme ['-', '>'] .arrow

/-- A line that consists of words with single blanks between them. -/
inductive Spells : List Char → List Token → Prop
  | last {w : List Char} {t : Token} (h : Lexeme w t) : Spells w [t]
  | cons {w line : List Char} {t : Token} {tokens : List Token} (h : Lexeme w t)
    (hline : Spells line tokens) : Spells (w ++ ' ' :: line) (t :: tokens)

/-- Tokens in front of others. -/
def Tokens.prepend (items : List Located) (ts : Tokens) : Tokens :=
  { ts with items := items ++ ts.items }

/-- What follows a line: a line break or nothing. -/
def Piece.EndsLine (rest : List Char) : Prop := ∀ c, rest.head? = some c → c = '\n'

theorem Piece.endsLine_break (rest : List Char) : EndsLine ('\n' :: rest) := by
  rintro _ ⟨⟩
  rfl

/-- What follows a word: a blank or the end of the line. -/
def Piece.Ended (rest : List Char) : Prop := ∀ c, rest.head? = some c → c = ' ' ∨ c = '\n'

theorem Piece.EndsLine.ended {rest : List Char} (h : EndsLine rest) : Ended rest :=
  fun c hc => .inr (h c hc)

theorem Piece.ended_blank (rest : List Char) : Ended (' ' :: rest) := by
  rintro _ ⟨⟩
  exact .inl rfl

theorem Piece.Ended.head_eq_false {p : Char → Bool} (hblank : p ' ' = false) (hbreak : p '\n' = false)
    {rest : List Char} (h : Ended rest) (c : Char) (hc : rest.head? = some c) : p c = false := by
  rcases h c hc with rfl | rfl
  · exact hblank
  · exact hbreak

namespace Lexeme

variable {w : List Char} {t : Token}

theorem break_notMem (h : Lexeme w t) : '\n' ∉ w := by
  cases h with
  | word hc hcs =>
    rintro (_ | ⟨_, hmem⟩)
    · cases hc
    · cases hcs _ hmem
  | number hc hcs =>
    rintro (_ | ⟨_, hmem⟩)
    · cases hc
    · cases hcs _ hmem
  | assign => decide
  | arrow => decide

/-- A word is read as its token, whatever comes after it on the line. -/
theorem ofPieces (h : Lexeme w t) {rest : List Char} (hrest : Piece.Ended rest) (muted : Bool)
    (line column : Nat) :
    Tokens.ofPieces true muted ⟨line, column⟩ (Piece.split (w ++ rest)) =
      Tokens.prepend [⟨t, ⟨line, column⟩⟩] <$>
        Tokens.ofPieces true false ⟨line, column + w.length⟩ (Piece.split rest) := by
  have hafter := Position.after_eq h.break_notMem line column
  cases h with
  | word hc hcs =>
    rw [Piece.split_word hc hcs (hrest.head_eq_false (by decide) (by decide)), Tokens.ofPieces]
    exact congrArg (_ <$> Tokens.ofPieces true false · _) hafter
  | @number c cs value hc hcs hvalue =>
    rw [Piece.split_number hc hcs (hrest.head_eq_false (by decide) (by decide)), Tokens.ofPieces]
    simp only [hvalue, UInt64.ofNat_toNat]
    rw [if_pos (show value.toNat < UInt64.size from value.toNat_lt)]
    exact congrArg (_ <$> Tokens.ofPieces true false · _) hafter
  | assign =>
    have hequals : rest.head? ≠ some '=' := fun hhead => by simpa using hrest '=' hhead
    rw [List.singleton_append, Piece.split_symbol (by decide) (by simp [hequals]) (by simp),
      Tokens.ofPieces]
    exact congrArg (_ <$> Tokens.ofPieces true false · _) hafter
  | arrow =>
    rw [List.cons_append, List.singleton_append, Piece.split_arrow, Tokens.ofPieces]
    exact congrArg (_ <$> Tokens.ofPieces true false · _) hafter

end Lexeme

theorem Spells.break_notMem {line : List Char} {tokens : List Token} (h : Spells line tokens) :
    '\n' ∉ line := by
  induction h with
  | last h => exact h.break_notMem
  | cons h hline ih =>
    simp only [List.mem_append, List.mem_cons, not_or]
    exact ⟨h.break_notMem, by decide, ih⟩

/-- A spelled line is read as its tokens. -/
theorem Spells.ofPieces {text : List Char} {tokens : List Token} (h : Spells text tokens)
    {rest : List Char} (hrest : Piece.EndsLine rest) (muted : Bool) (line column : Nat) :
    ∃ items column', items.map (·.token) = tokens ∧ (∀ item ∈ items, item.position.line = line) ∧
      Tokens.ofPieces true muted ⟨line, column⟩ (Piece.split (text ++ rest)) =
        Tokens.prepend items <$> Tokens.ofPieces true false ⟨line, column'⟩ (Piece.split rest) := by
  induction h generalizing muted column with
  | @last w t h =>
    exact ⟨[⟨t, ⟨line, column⟩⟩], column + w.length, rfl, by simp, h.ofPieces hrest.ended ..⟩
  | @cons w text t tokens h hline ih =>
    obtain ⟨items, column', htokens, hlines, htext⟩ := ih false (column + w.length + 1)
    refine ⟨⟨t, ⟨line, column⟩⟩ :: items, column', by rw [List.map_cons, htokens],
      by simpa using hlines, ?_⟩
    rw [List.append_assoc, List.cons_append, h.ofPieces (Piece.ended_blank _), Piece.split_blank,
      Tokens.ofPieces]
    change _ <$> Tokens.ofPieces true false ⟨line, column + w.length + 1⟩ _ = _
    rw [htext, Functor.map_map]
    rfl

/-- A comment is read as nothing. -/
theorem ofPieces_comment {body rest : List Char} (h : '\n' ∉ body) (hrest : Piece.EndsLine rest)
    (muted : Bool) (line column : Nat) :
    Tokens.ofPieces true muted ⟨line, column⟩ (Piece.split ('#' :: body ++ rest)) =
      Tokens.ofPieces true muted ⟨line, column + (body.length + 1)⟩ (Piece.split rest) := by
  have hafter : Position.after ⟨line, column⟩ ('#' :: body) =
      ⟨line, column + (body.length + 1)⟩ :=
    Position.after_eq (by simp [h]) line column
  rw [Piece.split_comment h hrest, Tokens.ofPieces, Piece.spelling, hafter]

/-- A line break after a token. -/
theorem ofPieces_break (rest : List Char) (line column : Nat) :
    Tokens.ofPieces true false ⟨line, column⟩ (Piece.split ('\n' :: rest)) =
      Tokens.prepend [⟨.lineBreak, ⟨line, column⟩⟩] <$>
        Tokens.ofPieces true true ⟨line + 1, 1⟩ (Piece.split rest) := by
  rw [Piece.split_break, Tokens.ofPieces]
  rfl

/-- A line break is dropped at the start and after another. -/
theorem ofPieces_break_muted (rest : List Char) (line column : Nat) :
    Tokens.ofPieces true true ⟨line, column⟩ (Piece.split ('\n' :: rest)) =
      Tokens.ofPieces true true ⟨line + 1, 1⟩ (Piece.split rest) := by
  rw [Piece.split_break, Tokens.ofPieces]
  rfl

end LayeredSets
