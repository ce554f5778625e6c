import LayeredSets.Proofs.Token.Lines
import Mathlib

/-!
# Line breaks that are kept

Whether line breaks are kept or dropped makes no difference to the other tokens of a text. Where
they are kept, one stands between two neighbours exactly if these are on different lines.
-/

namespace LayeredSets

namespace Tokens

/-- The same tokens without the line breaks among them. -/
def withoutBreaks (ts : Tokens) : Tokens :=
  { ts with items := ts.items.filter (·.token ≠ .lineBreak) }

/-- A token or the end, and where it is. -/
structure Mark where
  token : Option Token
  position : Position

def Mark.IsBreak (m : Mark) : Prop := m.token = some .lineBreak

/-- The tokens in order, and the end behind them. -/
def marks (ts : Tokens) : List Mark :=
  ts.items.map (fun item => ⟨some item.token, item.position⟩) ++ [⟨none, ts.stop⟩]

/-- Line breaks stand where one line ends and another goes on, and nowhere else. -/
structure BreaksLines (ts : Tokens) : Prop where
  /-- The first token is no line break. -/
  head : ∀ item, ts.items.head? = some item → item.token ≠ .lineBreak
  /-- No line break comes right behind another. -/
  apart : ts.items.IsChain fun a b => ¬ (a.token = .lineBreak ∧ b.token = .lineBreak)
  /-- One stands between two neighbours if and only if these are on different lines. -/
  between : ∀ front a gap b back, ts.marks = front ++ a :: (gap ++ b :: back) → ¬ a.IsBreak →
    ¬ b.IsBreak → (∀ m ∈ gap, m.IsBreak) → (gap ≠ [] ↔ a.position.line ≠ b.position.line)

/-! ## Dropping line breaks -/

section

variable (position : Position) (ts : Tokens)

theorem withoutBreaks_cons {t : Token} (h : t ≠ .lineBreak) :
    (cons t position ts).withoutBreaks = cons t position ts.withoutBreaks := by
  simp [withoutBreaks, cons, h]

theorem withoutBreaks_break : (cons .lineBreak position ts).withoutBreaks = ts.withoutBreaks := by
  simp [withoutBreaks, cons]

end

/-- Only a line break is read as a line break. -/
theorem ne_lineBreak_of_reading {p : Piece} {t : Token} (h : p.reading = some (.ok t)) :
    t ≠ .lineBreak := by
  rintro rfl
  cases p with
  | number digits =>
    rw [Piece.reading] at h
    split at h <;> simp at h
  | _ => simp [Piece.reading] at h

/-- The two ways to read pieces go in step, whatever they have read before. -/
theorem ofPieces_withoutBreaks (pieces : List Piece) (muted muted' : Bool) (position : Position) :
    ofPieces false muted position pieces =
      withoutBreaks <$> ofPieces true muted' position pieces := by
  induction pieces generalizing muted muted' position with
  | nil => rfl
  | cons p pieces ih =>
    by_cases hp : p = .lineBreak
    · subst hp
      have hdrop (position : Position) : withoutBreaks ∘ cons .lineBreak position = withoutBreaks :=
        funext (withoutBreaks_break position)
      cases muted' with
      | true => exact ih muted true _
      | false =>
        rw [ofPieces, ofPieces]
        simp only [Bool.not_false, Bool.and_self, if_true, Bool.false_and, Bool.false_eq_true,
          if_false, Functor.map_map]
        exact (ih muted true _).trans (congrArg (· <$> _) (hdrop position).symm)
    · rw [Piece.ofPieces_cons (.inl rfl), Piece.ofPieces_cons (.inr hp)]
      split
      · exact ih muted muted' _
      · next t hreading =>
        rw [ih false false, Functor.map_map, Functor.map_map]
        exact congrArg (· <$> _)
          (funext fun ts => (withoutBreaks_cons position ts (ne_lineBreak_of_reading hreading)).symm)
      · rfl

/-! ## Where line breaks stand -/

/-- What may stand behind a mark: anything that is on the same line, but behind a line break only
what is on a later one. -/
def Mark.Next (a b : Mark) : Prop :=
  (¬ a.IsBreak ∧ a.position.line = b.position.line) ∨
    (a.IsBreak ∧ ¬ b.IsBreak ∧ a.position.line < b.position.line)

/-- Each mark may stand behind the one before it, and the first on its own in line `n` or later. -/
structure StartsAt (n : Nat) (ts : Tokens) : Prop where
  chain : ts.marks.IsChain Mark.Next
  head : ∀ m ∈ ts.marks.head?, ¬ m.IsBreak ∧ n ≤ m.position.line

/-- The marks of one line. -/
theorem ofPieces_marks {line : List Char} (h : '\n' ∉ line) {n : Nat} {ts : Tokens}
    (hts : ofPieces true true ⟨n, 1⟩ (Piece.split line) = .ok ts) :
    ∀ m ∈ ts.marks, ¬ m.IsBreak ∧ m.position.line = n := by
  obtain ⟨hlines, hstop, hother⟩ := ofPieces_onLine (Piece.onLine_split h) hts
  obtain ⟨ts', hts', htokens⟩ := hother false true .start
  have hbreak : Token.lineBreak ∉ ts.items.map (·.token) :=
    htokens ▸ (writable_of_ofPieces line hts').lineBreak_notMem
  intro m hm
  rcases List.mem_append.mp hm with hitem | hend
  · obtain ⟨item, hmem, rfl⟩ := List.mem_map.mp hitem
    refine ⟨fun heq => hbreak ?_, hlines item hmem⟩
    exact List.mem_map.mpr ⟨item, hmem, Option.some.inj heq⟩
  · obtain rfl := List.mem_singleton.mp hend
    exact ⟨nofun, hstop⟩

theorem isChain_of_line {ms : List Mark} {n : Nat}
    (h : ∀ m ∈ ms, ¬ m.IsBreak ∧ m.position.line = n) : ms.IsChain Mark.Next :=
  (List.pairwise_of_forall_mem_list fun a ha b hb =>
    .inl ⟨(h a ha).1, (h a ha).2.trans (h b hb).2.symm⟩).isChain

/-- Behind a line that has tokens stands one break, and what begins on a later line. -/
theorem StartsAt.behind_line {first others : Tokens} {n : Nat} (hitems : first.items ≠ [])
    (hline : ∀ m ∈ first.marks, ¬ m.IsBreak ∧ m.position.line = n) (h : StartsAt (n + 1) others) :
    StartsAt n (prepend (first.items ++ [⟨.lineBreak, first.stop⟩]) others) := by
  let ms : List Mark := first.items.map fun item => ⟨some item.token, item.position⟩
  let b : Mark := ⟨some .lineBreak, first.stop⟩
  have hms (m : Mark) (hm : m ∈ ms) : ¬ m.IsBreak ∧ m.position.line = n :=
    hline m (List.mem_append_left _ hm)
  have hb : b.position.line = n :=
    (hline ⟨none, first.stop⟩ (List.mem_append_right _ (List.mem_singleton_self _))).2
  have hmarks : (prepend (first.items ++ [⟨.lineBreak, first.stop⟩]) others).marks =
      ms ++ b :: others.marks := by
    simp [prepend, marks, ms, b]
  have hbehind : (b :: others.marks).IsChain Mark.Next :=
    List.isChain_cons.mpr
      ⟨fun m hm => .inr ⟨rfl, (h.head m hm).1, hb ▸ (h.head m hm).2⟩, h.chain⟩
  constructor
  · rw [hmarks]
    refine (isChain_of_line hms).append hbehind fun m hm b' hb' => ?_
    obtain rfl := Option.some.inj hb'
    obtain ⟨hbreak, hline⟩ := hms m (List.mem_of_mem_getLast? hm)
    exact .inl ⟨hbreak, hline.trans hb.symm⟩
  · intro m hm
    rw [hmarks, List.head?_append_of_ne_nil _ (by simpa [ms] using hitems)] at hm
    obtain ⟨hbreak, hline⟩ := hms m (List.mem_of_mem_head? hm)
    exact ⟨hbreak, hline.ge⟩

/-- By induction on the lines. -/
theorem startsAt_of_ofPieces (text : List Char) {n : Nat} {ts : Tokens}
    (h : ofPieces true true ⟨n, 1⟩ (Piece.split text) = .ok ts) : StartsAt n ts := by
  induction text using induction_on_lines generalizing n ts with
  | last line hline =>
    have hmarks := ofPieces_marks hline h
    refine ⟨isChain_of_line hmarks, fun m hm => ?_⟩
    obtain ⟨hbreak, hline⟩ := hmarks m (List.mem_of_mem_head? hm)
    exact ⟨hbreak, hline.ge⟩
  | cons line rest hline ih =>
    rw [ofPieces_line hline] at h
    obtain ⟨first, hfirst, h⟩ := bind_eq_ok h
    obtain ⟨others, hothers, h⟩ := bind_eq_ok h
    obtain rfl := Except.ok.inj h
    have hrest := ih hothers
    split
    · exact ⟨hrest.chain, fun m hm => ⟨(hrest.head m hm).1, Nat.le_of_succ_le (hrest.head m hm).2⟩⟩
    · next hitems => exact hrest.behind_line hitems (ofPieces_marks hline hfirst)

/-- Neighbours that are no line breaks are on one line, or a single break separates their lines. -/
theorem between_of_chain {front gap back : List Mark} {a b : Mark}
    (h : (front ++ a :: (gap ++ b :: back)).IsChain Mark.Next) (ha : ¬ a.IsBreak)
    (hgap : ∀ m ∈ gap, m.IsBreak) : gap ≠ [] ↔ a.position.line ≠ b.position.line := by
  have hchain := h.right_of_append
  match gap with
  | [] =>
    obtain ⟨-, hline⟩ | ⟨hbreak, -⟩ := (List.isChain_cons_cons.mp hchain).1
    · simp [hline]
    · exact absurd hbreak ha
  | [m] =>
    obtain ⟨hfirst, hrest⟩ := List.isChain_cons_cons.mp hchain
    obtain ⟨-, hline⟩ | ⟨hbreak, -⟩ := hfirst
    · obtain ⟨hbreak, -⟩ | ⟨-, -, hlater⟩ := (List.isChain_cons_cons.mp hrest).1
      · exact absurd (hgap m (by simp)) hbreak
      · simp [hline ▸ hlater.ne]
    · exact absurd hbreak ha
  | m :: m' :: gap =>
    obtain ⟨-, hrest⟩ := List.isChain_cons_cons.mp hchain
    obtain ⟨hbreak, -⟩ | ⟨-, hbreak, -⟩ := (List.isChain_cons_cons.mp hrest).1
    · exact absurd (hgap m (by simp)) hbreak
    · exact absurd (hgap m' (by simp)) hbreak

theorem StartsAt.breaksLines {n : Nat} {ts : Tokens} (h : StartsAt n ts) : ts.BreaksLines where
  head item hitem htoken := by
    refine (h.head ⟨some item.token, item.position⟩ ?_).1 (congrArg some htoken)
    simp [marks, List.head?_append, hitem]
  apart := by
    refine ((List.isChain_map _).mp h.chain.left_of_append).imp ?_
    rintro a b (⟨hbreak, -⟩ | ⟨-, hbreak, -⟩) ⟨ha, hb⟩
    · exact hbreak (congrArg some ha)
    · exact hbreak (congrArg some hb)
  between front a gap b back hmarks ha hb hgap := between_of_chain (hmarks ▸ h.chain) ha hgap

end Tokens

/-- Whether line breaks are kept or not, a text has the same other tokens, at the same positions,
and ends at the same position, or cannot be read for the same reason. Where they are kept, none comes
first or right behind another, and one stands between two neighbours if and only if these are on
different lines. -/
theorem tokenize_keepBreaks (text : List Char) :
    tokenize text false = Tokens.withoutBreaks <$> tokenize text true ∧
      ∀ ts, tokenize text true = .ok ts → ts.BreaksLines :=
  ⟨Tokens.ofPieces_withoutBreaks _ true true .start,
    fun _ h => (Tokens.startsAt_of_ofPieces text h).breaksLines⟩

/-- Comments and blank lines count for nothing, and the end is on a line of its own. -/
theorem tokenize_keepBreaks_sample :
    ∃ ts, tokenize "\n# x\nx ==  # y\n\ny\n".toList true = .ok ts ∧
      ts.items.map (·.token) = [.word "x", .equals, .lineBreak, .word "y", .lineBreak] ∧
      tokenize "\n# x\nx ==  # y\n\ny\n".toList false = .ok ts.withoutBreaks ∧
      ts.BreaksLines := by
  have hpieces : Piece.split "\n# x\nx ==  # y\n\ny\n".toList =
      [.lineBreak, .comment [' ', 'x'], .lineBreak, .word ['x'], .blank ' ', .equals, .blank ' ',
        .blank ' ', .comment [' ', 'y'], .lineBreak, .lineBreak, .word ['y'], .lineBreak] := by
    cbv
  let ts : Tokens :=
    ⟨[⟨.word "x", ⟨3, 1⟩⟩, ⟨.equals, ⟨3, 3⟩⟩, ⟨.lineBreak, ⟨3, 10⟩⟩, ⟨.word "y", ⟨5, 1⟩⟩,
      ⟨.lineBreak, ⟨5, 2⟩⟩], ⟨6, 1⟩⟩
  have htokens : tokenize "\n# x\nx ==  # y\n\ny\n".toList true = .ok ts := by
    rw [tokenize, hpieces]
    rfl
  obtain ⟨hdropped, hbreaks⟩ := tokenize_keepBreaks "\n# x\nx ==  # y\n\ny\n".toList
  refine ⟨ts, htokens, rfl, ?_, hbreaks ts htokens⟩
  rw [hdropped, htokens]
  rfl

end LayeredSets
