import LayeredSets.Proofs.Token.Breaks
import LayeredSets.Proofs.Walk.Basic

/-!
# Texts are read in a walk

The tokenizer as a walk along the characters. Each round of its loop reads a piece, and comments,
numbers and words are read in loops of their own. Whether a line break is kept depends on the last
of the tokens so far.
-/

namespace LayeredSets.Text

open Walk (look visit advance cutOff Ends)

inductive Place
  /-- A round of the loop over the text. -/
  | text
  /-- A round of a loop inside a piece. -/
  | piece
  deriving DecidableEq

instance : Fintype Place := .ofList [.text, .piece] (by rintro ⟨⟩ <;> simp)

instance : Ranked Place where
  rank
    | .piece => 0
    | .text => 1
  height := 2
  rank_lt := by rintro ⟨⟩ <;> decide

variable {input : List Char}

/-! ## The tokenizer as a walk -/

/-- Only where a character fits does a round begin. -/
def walkWhile (p : Char → Bool) (fuel : Nat) : Walk Place input (List Char) := do
  match ← look List.head? with
  | some c =>
    if p c then
      match fuel with
      | 0 => cutOff
      | fuel + 1 =>
        visit .piece
        advance
        let cs ← walkWhile p fuel
        return c :: cs
    else return []
  | none => return []

/-- What has begun with `c` is `both` if `next` comes behind it. -/
def walkSecond (c next : Char) (both : Piece) : Walk Place input Piece := do
  if (← look List.head?) = some next then
    advance
    return both
  else return .symbol c

/-- The piece that begins with `c`, which stands at `start`. -/
def walkPiece (start : Position) (c : Char) (fuel : Nat) : Walk Place input Piece := do
  if c = '\n' then
    advance
    return .lineBreak
  else if isBlank c then
    advance
    return .blank c
  else if c = '#' then
    let comment ← walkWhile (· != '\n') fuel
    return .comment comment.tail
  else if c.isDigit then
    let digits ← walkWhile Char.isDigit fuel
    return .number digits
  else if Piece.isWordStart c then
    let name ← walkWhile Piece.isWordChar fuel
    return .word name
  else if c = '=' then
    advance
    walkSecond '=' '=' .equals
  else if c = '-' then
    advance
    walkSecond '-' '>' .arrow
  else if Piece.symbols.contains c then
    advance
    return .symbol c
  else throw ⟨start, "unexpected character '" ++ c.toString ++ "'"⟩

/-- A line break would come first or behind another. -/
def muted (items : List Located) : Bool := items.getLast?.all (·.token = .lineBreak)

/-- The tokens up to the end of a piece, behind those that stand in front of it. -/
def found (keepBreaks : Bool) (items : List Located) (start : Position) (piece : Piece) :
    Except ParseError (List Located) :=
  match piece.reading with
  | some (.ok t) => .ok (items ++ [⟨t, start⟩])
  | some (.error detail) => .error ⟨start, detail⟩
  | none =>
    if piece = .lineBreak ∧ keepBreaks ∧ ¬ muted items then .ok (items ++ [⟨.lineBreak, start⟩])
    else .ok items

/-- The tokens of a text, behind those that stand in front of `start`. -/
def walkTokens (keepBreaks : Bool) (items : List Located) (start : Position) :
    Nat → Walk Place input Tokens
  | 0 => cutOff
  | fuel + 1 => do
    visit .text
    match ← look List.head? with
    | none => return ⟨items, start⟩
    | some c =>
      let piece ← walkPiece start c fuel
      match found keepBreaks items start piece with
      | .ok items' => walkTokens keepBreaks items' (start.after piece.spelling) fuel
      | .error e => throw e

/-! ## It ends -/

/-- A function that reads characters from the front. -/
abbrev Reader (α : Type) : Type := StateT (List Char) (Except ParseError) α

def whileReader (p : Char → Bool) : Reader (List Char) := fun cs =>
  .ok (cs.takeWhile p, cs.dropWhile p)

theorem ends_advance {α : Type} {n k n' : Nat} {m : Nat → Walk Place input α} {f f' : Reader α}
    {c : Char} {cs : List Char} (h : Ends k n' m f' cs) (hf : f (c :: cs) = f' cs) :
    Ends n n' (fun fuel => do advance; m fuel) f (c :: cs) :=
  .advance (Nat.succ_pos _) h hf

section

variable {p : Char → Bool} {c : Char} {cs : List Char}

theorem whileReader_cons (hc : p c) :
    whileReader p (c :: cs) = .ok (c :: cs.takeWhile p, cs.dropWhile p) := by
  rw [whileReader, List.takeWhile_cons_of_pos hc, List.dropWhile_cons_of_pos hc]

/-- Behind a character that fits, nothing has been visited. -/
theorem walkWhile_ends_cons (hc : p c)
    (h : Ends 2 2 (walkWhile p : Nat → Walk Place input _) (whileReader p) cs) :
    Ends 1 2 (walkWhile p : Nat → Walk Place input _) (whileReader p) (c :: cs) := by
  rw [funext (walkWhile.eq_def p)]
  refine .look ?_
  simp only [List.head?_cons, if_pos hc]
  refine .visit (fun _ => rfl) (by decide) ?_
  exact ends_advance (h.bind fun run rest _ => .pure (c :: run) rest) (whileReader_cons hc)

theorem walkWhile_ends_nil (hc : ∀ c, cs.head? = some c → ¬ p c) :
    Ends 2 2 (walkWhile p : Nat → Walk Place input _) (whileReader p) cs := by
  rw [funext (walkWhile.eq_def p)]
  refine .look ?_
  cases cs with
  | nil => exact .congr (.pure [] []) rfl
  | cons c cs =>
    have hc := hc c rfl
    simp only [List.head?_cons, if_neg hc]
    refine .congr (.pure [] (c :: cs)) ?_
    rw [whileReader, List.takeWhile_cons_of_neg hc, List.dropWhile_cons_of_neg hc]
    rfl

theorem walkWhile_ends (p : Char → Bool) (cs : List Char) :
    Ends 2 2 (walkWhile p : Nat → Walk Place input _) (whileReader p) cs := by
  induction cs with
  | nil => exact walkWhile_ends_nil (by simp)
  | cons c cs ih =>
    by_cases hc : p c
    · exact (walkWhile_ends_cons hc ih).mono (by decide)
    · refine walkWhile_ends_nil fun c' hc' => ?_
      rwa [← Option.some.inj hc']

end

/-- The first piece, unless it begins nothing. -/
def pieceReader (start : Position) (c : Char) : Reader Piece := fun cs =>
  match Piece.first c cs.tail with
  | (.stray c, _) => .error ⟨start, "unexpected character '" ++ c.toString ++ "'"⟩
  | first => .ok first

section

variable {start : Position} {c : Char} {cs : List Char}

theorem pieceReader_eq {p : Piece} {rest : List Char} (h : Piece.first c cs = (p, rest))
    (hp : ∀ c, p ≠ .stray c) : pieceReader start c (c :: cs) = .ok (p, rest) := by
  rw [pieceReader, List.tail_cons, h]
  cases p with
  | stray c => exact (hp c rfl).elim
  | _ => rfl

/-- A piece of one character. -/
theorem ends_one {piece : Piece} (h : Piece.first c cs = (piece, cs))
    (hpiece : ∀ c, piece ≠ .stray c) :
    Ends 1 2 (fun _ => do advance; return piece : Nat → Walk Place input _) (pieceReader start c)
      (c :: cs) :=
  ends_advance (.pure piece cs) (pieceReader_eq h hpiece)

/-- A piece that goes on as long as the characters fit. -/
theorem ends_run {p : Char → Bool} {make : List Char → Piece} (hc : p c)
    (h : Piece.first c cs = (make (c :: cs.takeWhile p), cs.dropWhile p))
    (hmake : ∀ run c, make run ≠ .stray c) :
    Ends 1 2 (fun fuel => do let run ← walkWhile p fuel; return make run : Nat → Walk Place input _)
      (pieceReader start c) (c :: cs) := by
  refine .congr ((walkWhile_ends_cons hc (walkWhile_ends p cs)).bind fun run rest _ =>
    .pure (make run) rest) ?_
  change _ = whileReader p (c :: cs) >>= fun r => (pure (make r.1) : Reader Piece) r.2
  rw [pieceReader_eq h (hmake _), whileReader_cons hc]
  rfl

/-- A character that may go on with one other. -/
theorem ends_two {next : Char} {both : Piece}
    (hboth : ∀ rest, Piece.first c (next :: rest) = (both, rest)) (hpiece : ∀ c, both ≠ .stray c)
    (hone : cs.head? ≠ some next → Piece.first c cs = (.symbol c, cs)) :
    Ends 1 2 (fun _ => do advance; walkSecond c next both : Nat → Walk Place input _)
      (pieceReader start c) (c :: cs) := by
  by_cases hnext : cs.head? = some next
  · obtain ⟨rest, rfl⟩ := List.head?_eq_some_iff.mp hnext
    have hsecond : Ends 2 2 (fun _ => walkSecond c next both : Nat → Walk Place input _)
        (fun _ => .ok (both, rest)) (next :: rest) := by
      refine .look ?_
      simp only [if_pos hnext]
      exact ends_advance (.pure both rest) rfl
    exact ends_advance hsecond (pieceReader_eq (hboth rest) hpiece)
  · have hsecond : Ends 2 2 (fun _ => walkSecond c next both : Nat → Walk Place input _)
        (pure (.symbol c)) cs := by
      refine .look ?_
      simp only [if_neg hnext]
      exact .pure (Piece.symbol c) cs
    exact ends_advance hsecond (pieceReader_eq (hone hnext) (by simp))

end

theorem isWordChar_of_isWordStart {c : Char} (h : Piece.isWordStart c) : Piece.isWordChar c := by
  simp only [Piece.isWordStart, Piece.isWordChar, Char.isAlphanum, Bool.or_eq_true] at h ⊢
  tauto

theorem walkPiece_ends (start : Position) (c : Char) (cs : List Char) :
    Ends 1 2 (walkPiece start c : Nat → Walk Place input _) (pieceReader start c) (c :: cs) := by
  unfold walkPiece
  by_cases hbreak : c = '\n'
  · simp only [if_pos hbreak]
    exact ends_one (by rw [Piece.first, if_pos hbreak]) (by simp)
  simp only [if_neg hbreak]
  by_cases hblank : isBlank c
  · simp only [if_pos hblank]
    exact ends_one (by rw [Piece.first, if_neg hbreak, if_pos hblank]) (by simp)
  simp only [if_neg hblank]
  by_cases hcomment : c = '#'
  · simp only [if_pos hcomment]
    refine ends_run (by simpa using hbreak) ?_ (by simp)
    rw [Piece.first, if_neg hbreak, if_neg hblank, if_pos hcomment, List.tail_cons]
  simp only [if_neg hcomment]
  by_cases hdigit : c.isDigit
  · simp only [if_pos hdigit]
    refine ends_run hdigit ?_ (by simp)
    rw [Piece.first, if_neg hbreak, if_neg hblank, if_neg hcomment, if_pos hdigit]
  simp only [if_neg hdigit]
  by_cases hword : Piece.isWordStart c
  · simp only [if_pos hword]
    refine ends_run (isWordChar_of_isWordStart hword) ?_ (by simp)
    rw [Piece.first, if_neg hbreak, if_neg hblank, if_neg hcomment, if_neg hdigit, if_pos hword]
  simp only [if_neg hword]
  have hfirst (cs : List Char) : Piece.first c cs =
      if c = '=' ∧ cs.head? = some '=' then (.equals, cs.tail)
      else if c = '-' ∧ cs.head? = some '>' then (.arrow, cs.tail)
      else if Piece.symbols.contains c then (.symbol c, cs)
      else (.stray c, cs) := by
    rw [Piece.first, if_neg hbreak, if_neg hblank, if_neg hcomment, if_neg hdigit, if_neg hword]
  by_cases hequals : c = '='
  · subst hequals
    exact ends_two (by simp [hfirst]) (by simp) (by simp [hfirst, Piece.symbols])
  simp only [if_neg hequals]
  by_cases hminus : c = '-'
  · subst hminus
    exact ends_two (by simp [hfirst]) (by simp) (by simp [hfirst, Piece.symbols])
  simp only [if_neg hminus]
  have hsymbol : Piece.first c cs =
      if Piece.symbols.contains c then (.symbol c, cs) else (.stray c, cs) := by
    rw [hfirst, if_neg fun h => hequals h.1, if_neg fun h => hminus h.1]
  by_cases hknown : Piece.symbols.contains c
  · simp only [if_pos hknown]
    exact ends_one (by rw [hsymbol, if_pos hknown]) (by simp)
  · simp only [if_neg hknown]
    refine .throw ?_
    rw [pieceReader, List.tail_cons, hsymbol, if_neg hknown]

/-- All tokens of a text, behind those that stand in front of it. -/
def textReader (keepBreaks : Bool) (items : List Located) (start : Position) : Reader Tokens :=
  fun cs => do
    let ts ← Tokens.ofPieces keepBreaks (muted items) start (Piece.split cs)
    return (Tokens.prepend items ts, [])

/-- The token that has been found last tells whether a line break is muted. -/
theorem textReader_concat (keepBreaks : Bool) (items : List Located) (t : Token)
    (start stop : Position) (cs : List Char) :
    textReader keepBreaks (items ++ [⟨t, start⟩]) stop cs = (do
      let ts ← Tokens.cons t start <$>
        Tokens.ofPieces keepBreaks (decide (t = .lineBreak)) stop (Piece.split cs)
      return (Tokens.prepend items ts, [])) := by
  have hmuted : muted (items ++ [⟨t, start⟩]) = decide (t = .lineBreak) := by simp [muted]
  rw [textReader, hmuted]
  simp [Tokens.prepend, Tokens.cons]

/-- The tokens from a piece on. -/
def foundReader (keepBreaks : Bool) (items : List Located) (start : Position) (piece : Piece) :
    Reader Tokens := fun cs => do
  let items' ← found keepBreaks items start piece
  textReader keepBreaks items' (start.after piece.spelling) cs

theorem foundReader_eq (keepBreaks : Bool) (items : List Located) (start : Position) (p : Piece)
    (cs : List Char) : foundReader keepBreaks items start p cs = (do
      let ts ← Tokens.ofPieces keepBreaks (muted items) start (p :: Piece.split cs)
      return (Tokens.prepend items ts, [])) := by
  rw [foundReader]
  by_cases hp : p = .lineBreak
  · subst hp
    by_cases hkept : keepBreaks ∧ ¬ muted items
    · have hfound : found keepBreaks items start .lineBreak =
          .ok (items ++ [⟨.lineBreak, start⟩]) := if_pos ⟨rfl, hkept⟩
      rw [hfound, Tokens.ofPieces, if_pos (by simpa using hkept)]
      exact textReader_concat ..
    · have hfound : found keepBreaks items start .lineBreak = .ok items := if_neg fun h => hkept h.2
      rw [hfound, Tokens.ofPieces, if_neg (by simpa using hkept)]
      rfl
  · rw [Piece.ofPieces_cons (.inr hp), found]
    cases hreading : p.reading with
    | none =>
      dsimp only
      rw [if_neg fun h => hp h.1]
      rfl
    | some result =>
      cases result with
      | error detail => rfl
      | ok t =>
        have ht : t ≠ .lineBreak := Tokens.ne_lineBreak_of_reading hreading
        have hconcat := textReader_concat keepBreaks items t start (start.after p.spelling) cs
        rwa [decide_eq_false ht] at hconcat

theorem textReader_cons (keepBreaks : Bool) (items : List Located) (start : Position) (c : Char)
    (cs : List Char) :
    textReader keepBreaks items start (c :: cs) =
      (do let piece ← pieceReader start c; foundReader keepBreaks items start piece : Reader Tokens)
        (c :: cs) := by
  have hfound : textReader keepBreaks items start (c :: cs) =
      foundReader keepBreaks items start (Piece.first c cs).1 (Piece.first c cs).2 := by
    rw [foundReader_eq, textReader, Piece.split]
  change _ = pieceReader start c (c :: cs) >>= fun r => foundReader keepBreaks items start r.1 r.2
  rw [hfound]
  generalize hfirst : Piece.first c cs = r
  obtain ⟨p, rest⟩ := r
  by_cases hp : ∃ c, p = .stray c
  · obtain ⟨c', rfl⟩ := hp
    rw [pieceReader, List.tail_cons, hfirst]
    rfl
  · rw [pieceReader_eq hfirst fun c h => hp ⟨c, h⟩]
    rfl

theorem walkTokens_ends (keepBreaks : Bool) (items : List Located) (start : Position)
    (cs : List Char) :
    Ends 2 1 (walkTokens keepBreaks items start : Nat → Walk Place input _)
      (textReader keepBreaks items start) cs := by
  fun_induction Piece.split cs generalizing items start with
  | case1 =>
    refine .visit (fun _ => rfl) (by decide) (.look (.congr (.pure (Tokens.mk items start) []) ?_))
    rw [textReader, Piece.split, Tokens.ofPieces]
    change Except.ok (Tokens.mk (items ++ []) start, _) = _
    rw [List.append_nil]
    rfl
  | case2 c cs ih =>
    refine .visit (fun _ => rfl) (by decide) (.look ?_)
    simp only [List.head?_cons]
    refine .congr ((walkPiece_ends start c cs).bind fun piece rest h => ?_)
      (textReader_cons keepBreaks items start c cs)
    have hrest : rest = (Piece.first c cs).2 := by
      rw [pieceReader, List.tail_cons] at h
      split at h
      · cases h
      · exact (congrArg Prod.snd (Except.ok.inj h)).symm
    cases hfound : found keepBreaks items start piece with
    | error e =>
      refine .throw ?_
      rw [foundReader, hfound]
      rfl
    | ok items' =>
      refine .congr (hrest ▸ ih items' (start.after piece.spelling)) ?_
      rw [foundReader, hfound]
      rfl

end LayeredSets.Text
