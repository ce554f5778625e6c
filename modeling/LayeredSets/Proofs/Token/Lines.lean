import LayeredSets.Proofs.Action
import LayeredSets.Proofs.Text.Pieces
import LayeredSets.Proofs.Token.Written

/-!
# Tokens line by line

No token goes over a line break, so a text with line breaks kept has the tokens of its lines, each
as if the line stood alone, and the break behind each line that has any.
-/

namespace LayeredSets

/-- The lines of a text. -/
def linesOf (text : List Char) : List (List Char) := Text.splitAt (· == '\n') text

theorem linesOf_of_notMem {line : List Char} (h : '\n' ∉ line) : linesOf line = [line] :=
  Text.splitAt_of_notMem h

theorem linesOf_append {line : List Char} (h : '\n' ∉ line) (rest : List Char) :
    linesOf (line ++ '\n' :: rest) = line :: linesOf rest :=
  Text.splitAt_append h rest

/-- A text is one line, or a line with its break and another text. -/
theorem induction_on_lines {motive : List Char → Prop}
    (last : ∀ line, '\n' ∉ line → motive line)
    (cons : ∀ line rest, '\n' ∉ line → motive rest → motive (line ++ '\n' :: rest))
    (text : List Char) : motive text := by
  induction hlength : text.length using Nat.strong_induction_on generalizing text with
  | _ length ih =>
    by_cases hmem : '\n' ∈ text
    · obtain ⟨line, rest, rfl, hline⟩ := List.eq_append_cons_of_mem hmem
      exact cons line rest hline (ih rest.length (by simp at hlength; omega) rest rfl)
    · exact last text hmem

theorem linesOf_join (text rest : List Char) :
    linesOf (text ++ '\n' :: rest) = linesOf text ++ linesOf rest := by
  induction text using induction_on_lines with
  | last line h => rw [linesOf_append h, linesOf_of_notMem h, List.singleton_append]
  | cons line more h ih =>
    rw [List.append_assoc, List.cons_append, linesOf_append h, linesOf_append h, ih,
      List.cons_append]

theorem length_linesOf (text : List Char) : (linesOf text).length = text.count '\n' + 1 := by
  induction text using induction_on_lines with
  | last line h => rw [linesOf_of_notMem h, List.count_eq_zero.mpr h, List.length_singleton]
  | cons line rest h ih =>
    rw [linesOf_append h, List.length_cons, ih, List.count_append, List.count_eq_zero.mpr h,
      List.count_cons_self, Nat.zero_add]

theorem break_notMem_of_mem_linesOf {text line : List Char} (h : line ∈ linesOf text) :
    '\n' ∉ line := by
  induction text using induction_on_lines with
  | last line' hline =>
    rw [linesOf_of_notMem hline] at h
    exact List.mem_singleton.mp h ▸ hline
  | cons line' rest hline ih =>
    rw [linesOf_append hline] at h
    rcases List.mem_cons.mp h with rfl | h
    · exact hline
    · exact ih h

/-! ## Pieces of a line -/

namespace Piece

theorem takeWhile_line {p : Char → Bool} (hp : p '\n' = false) (line rest : List Char) :
    (line ++ '\n' :: rest).takeWhile p = line.takeWhile p ∧
      (line ++ '\n' :: rest).dropWhile p = line.dropWhile p ++ '\n' :: rest := by
  induction line with
  | nil => simp [hp]
  | cons c line ih => by_cases hc : p c <;> simp [hc, ih]

/-- The first piece of a line does not depend on what is on the next. -/
theorem first_line (c : Char) (line rest : List Char) :
    first c (line ++ '\n' :: rest) = ((first c line).1, (first c line).2 ++ '\n' :: rest) := by
  have hcomment := @takeWhile_line (· != '\n') (by decide) line rest
  have hdigits := @takeWhile_line Char.isDigit (by decide) line rest
  have hword := @takeWhile_line isWordChar (by decide) line rest
  have hhead (x : Char) (hx : x ≠ '\n') :
      (line ++ '\n' :: rest).head? = some x ↔ line.head? = some x := by
    cases line <;> simp [Ne.symm hx]
  have htail {x : Char} (hx : line.head? = some x) :
      (line ++ '\n' :: rest).tail = line.tail ++ '\n' :: rest := by
    cases line <;> simp_all
  simp only [first, hcomment, hdigits, hword, hhead '=' (by decide), hhead '>' (by decide)]
  split_ifs <;> simp_all

theorem split_line {line : List Char} (h : '\n' ∉ line) (rest : List Char) :
    split (line ++ '\n' :: rest) = split line ++ .lineBreak :: split rest := by
  fun_induction split line with
  | case1 => rw [List.nil_append, split_break, List.nil_append]
  | case2 c line ih =>
    have hmem : '\n' ∉ (first c line).2 := fun hmem => by
      rw [← spelling_first c line] at h
      exact h (List.mem_append_right _ hmem)
    rw [List.cons_append, split, first_line, ih hmem, List.cons_append]

/-- A piece that stays on its line. -/
def OnLine (p : Piece) : Prop := '\n' ∉ p.spelling

theorem OnLine.ne_lineBreak {p : Piece} (h : p.OnLine) : p ≠ .lineBreak := by
  rintro rfl
  exact h (List.mem_singleton_self _)

theorem onLine_split {line : List Char} (h : '\n' ∉ line) : ∀ p ∈ split line, p.OnLine := by
  rw [← flatMap_spelling_split line] at h
  exact fun p hp hmem => h (List.mem_flatMap.mpr ⟨p, hp, hmem⟩)

end Piece

/-! ## Tokens of a line -/

namespace Tokens

open Piece (OnLine)

variable {pieces : List Piece}

/-- What comes behind pieces of a line is read from where these end. -/
theorem ofPieces_append (h : ∀ p ∈ pieces, p.OnLine) (keepBreaks muted : Bool) (position : Position)
    (more : List Piece) :
    ofPieces keepBreaks muted position (pieces ++ more) = (do
      let ts ← ofPieces keepBreaks muted position pieces
      prepend ts.items <$> ofPieces keepBreaks (muted && ts.items.isEmpty) ts.stop more) := by
  induction pieces generalizing muted position with
  | nil =>
    change _ = prepend [] <$> ofPieces keepBreaks (muted && true) position more
    rw [Bool.and_true]
    exact (id_map _).symm
  | cons p pieces ih =>
    obtain ⟨hp, hpieces⟩ := List.forall_mem_cons.mp h
    rw [List.cons_append, Piece.ofPieces_cons (.inr hp.ne_lineBreak),
      Piece.ofPieces_cons (.inr hp.ne_lineBreak)]
    split
    · exact ih hpieces muted _
    · rw [ih hpieces, map_bind, bind_map_left]
      refine bind_congr fun ts => ?_
      simp only [Functor.map_map, Bool.false_and, cons, List.isEmpty_cons, Bool.and_false]
      rfl
    · rfl

/-- The tokens of a line are the same wherever it stands, and they stand on it. -/
theorem ofPieces_onLine (h : ∀ p ∈ pieces, p.OnLine) {keepBreaks muted : Bool} {position : Position}
    {ts : Tokens} (hts : ofPieces keepBreaks muted position pieces = .ok ts) :
    (∀ item ∈ ts.items, item.position.line = position.line) ∧ ts.stop.line = position.line ∧
      ∀ keepBreaks' muted' position', ∃ ts',
        ofPieces keepBreaks' muted' position' pieces = .ok ts' ∧
          ts'.items.map (·.token) = ts.items.map (·.token) := by
  induction pieces generalizing muted position ts with
  | nil =>
    obtain rfl := Except.ok.inj hts
    exact ⟨by simp, rfl, fun _ _ position' => ⟨⟨[], position'⟩, rfl, rfl⟩⟩
  | cons p pieces ih =>
    obtain ⟨hp, hpieces⟩ := List.forall_mem_cons.mp h
    have hline : (position.after p.spelling).line = position.line := by
      rw [Position.after_eq hp position.line position.column]
    rw [Piece.ofPieces_cons (.inr hp.ne_lineBreak)] at hts
    simp only [Piece.ofPieces_cons (.inr hp.ne_lineBreak)]
    split at hts
    · obtain ⟨hlines, hstop, hother⟩ := ih hpieces hts
      rw [hline] at hlines hstop
      exact ⟨hlines, hstop, fun _ _ _ => hother _ _ _⟩
    · next t _ =>
      obtain ⟨rest, hrest, rfl⟩ := map_eq_ok hts
      obtain ⟨hlines, hstop, hother⟩ := ih hpieces hrest
      rw [hline] at hlines hstop
      refine ⟨List.forall_mem_cons.mpr ⟨rfl, hlines⟩, hstop, fun keepBreaks' _ position' => ?_⟩
      obtain ⟨ts', hts', htokens⟩ := hother keepBreaks' false (position'.after p.spelling)
      refine ⟨cons t position' ts', ?_, congrArg (t :: ·) htokens⟩
      rw [hts']
      rfl
    · cases hts

/-- A text is read from the start of a line on by reading the line and then the rest, with a token
for the break if the line has any. -/
theorem ofPieces_line {line : List Char} (h : '\n' ∉ line) (rest : List Char) (n : Nat) :
    ofPieces true true ⟨n, 1⟩ (Piece.split (line ++ '\n' :: rest)) = (do
      let first ← ofPieces true true ⟨n, 1⟩ (Piece.split line)
      let others ← ofPieces true true ⟨n + 1, 1⟩ (Piece.split rest)
      return if first.items = [] then others
        else prepend (first.items ++ [⟨.lineBreak, first.stop⟩]) others) := by
  rw [Piece.split_line h, ofPieces_append (Piece.onLine_split h)]
  cases hfirst : ofPieces true true ⟨n, 1⟩ (Piece.split line) with
  | error e => rfl
  | ok first =>
    have hafter : first.stop.after ['\n'] = ⟨n + 1, 1⟩ := by
      change Position.mk (first.stop.line + 1) 1 = _
      rw [(ofPieces_onLine (Piece.onLine_split h) hfirst).2.1]
    change prepend first.items <$> ofPieces true (true && first.items.isEmpty) first.stop _ =
      (ofPieces true true ⟨n + 1, 1⟩ (Piece.split rest) >>= fun others => _)
    rw [ofPieces, Piece.spelling, hafter]
    by_cases hempty : first.items = []
    · simp only [hempty, List.isEmpty_nil, Bool.and_self, Bool.not_true, if_true]
      cases ofPieces true true ⟨n + 1, 1⟩ (Piece.split rest) <;> rfl
    · simp only [hempty, List.isEmpty_eq_false_iff.mpr hempty, Bool.and_false, Bool.not_false,
        Bool.and_self, if_true, if_false]
      cases ofPieces true true ⟨n + 1, 1⟩ (Piece.split rest) with
      | error e => rfl
      | ok others =>
        exact congrArg Except.ok
          (prepend_append first.items [⟨.lineBreak, first.stop⟩] others).symm

/-- A text has tokens if each of its lines has. -/
theorem exists_ofPieces {text : List Char}
    (h : ∀ line ∈ linesOf text, ∃ ts, tokenize line false = .ok ts) (n : Nat) :
    ∃ ts, ofPieces true true ⟨n, 1⟩ (Piece.split text) = .ok ts := by
  have kept {line : List Char} (hline : '\n' ∉ line) {ts : Tokens}
      (hts : tokenize line false = .ok ts) (n : Nat) :
      ∃ ts', ofPieces true true ⟨n, 1⟩ (Piece.split line) = .ok ts' := by
    obtain ⟨ts', hts', -⟩ := (ofPieces_onLine (Piece.onLine_split hline) hts).2.2 true true ⟨n, 1⟩
    exact ⟨ts', hts'⟩
  induction text using induction_on_lines generalizing n with
  | last line hline =>
    rw [linesOf_of_notMem hline] at h
    obtain ⟨ts, hts⟩ := h line (List.mem_singleton_self line)
    exact kept hline hts n
  | cons line rest hline ih =>
    rw [linesOf_append hline, List.forall_mem_cons] at h
    obtain ⟨⟨ts, hts⟩, hrest⟩ := h
    obtain ⟨first, hfirst⟩ := kept hline hts n
    obtain ⟨others, hothers⟩ := ih hrest (n + 1)
    rw [ofPieces_line hline, hfirst, hothers]
    exact ⟨_, rfl⟩

end Tokens

end LayeredSets
