import LayeredSets.Proofs.Token.Words
import Mathlib.Data.List.TakeWhile

/-!
# Texts as gaps and lexemes

A text is read from the left: a gap, a lexeme, a gap, a lexeme and so on, and a gap at the end. What
stands in a gap is no token; each lexeme spells one token, and is as long as it can be. The relation
says nothing about how a text is scanned, but the scanner finds exactly the tokens that it allows,
and fails exactly where it does not go on.
-/

namespace LayeredSets

open Text (isBlank)

/-- The position behind a text: the line counts the line breaks, the column what stands after the
last of them. -/
def Position.behind (text : List Char) : Position :=
  ⟨1 + text.count '\n', 1 + (text.reverse.takeWhile (· != '\n')).length⟩

/-- What stands in front of a rest and is no token: blanks, and comments that run up to a line break
or to the end. -/
inductive Gap : List Char → List Char → Prop
  | nil (rest : List Char) : Gap [] rest
  | blank {c : Char} {gap rest : List Char} (hc : isBlank c = true) (h : Gap gap rest) :
    Gap (c :: gap) rest
  | comment {body gap rest : List Char} (hbody : '\n' ∉ body)
    (hend : Piece.EndsLine (gap ++ rest)) (h : Gap gap rest) : Gap ('#' :: (body ++ gap)) rest

namespace Token

/-- The spellings of a token. A number has one for each number of leading zeros. -/
def SpelledBy : Token → List Char → Prop
  | word name, w => w = name.toList ∧ isName name = true
  | number value, w =>
    w ≠ [] ∧ (∀ c ∈ w, c.isDigit = true) ∧ Nat.ofDigitChars 10 w 0 = value.toNat
  | symbol c, w => w = [c] ∧ c ∈ Piece.symbols
  | equals, w => w = ['=', '=']
  | arrow, w => w = ['-', '>']
  | lineBreak, _ => False

/-- A character that would make another lexeme of the spelling in front of it. -/
def ExtendedBy : Token → Char → Prop
  | word _, c => Piece.isWordChar c = true
  | number _, c => c.isDigit = true
  | symbol s, c => (s = '=' ∧ c = '=') ∨ (s = '-' ∧ c = '>')
  | equals, _ | arrow, _ | lineBreak, _ => False

/-- The spelling goes no further. -/
def EndsBefore (t : Token) (rest : List Char) : Prop := ∀ c, rest.head? = some c → ¬ t.ExtendedBy c

end Token

/-- `front` stands in front of `rest`, ends with a lexeme or is empty, and has these tokens. -/
inductive Scanned : List Char → List Located → List Char → Prop
  | start (rest : List Char) : Scanned [] [] rest
  | token {front gap w rest : List Char} {items : List Located} {t : Token}
    (h : Scanned front items (gap ++ w ++ rest)) (hgap : Gap gap (w ++ rest)) (hw : t.SpelledBy w)
    (hend : t.EndsBefore rest) :
    Scanned (front ++ gap ++ w) (items ++ [⟨t, .behind (front ++ gap)⟩]) rest

/-- A character that can stand in a gap or begin a lexeme. -/
def Readable (c : Char) : Prop :=
  isBlank c = true ∨ c = '#' ∨ ∃ (t : Token) (w : List Char), t.SpelledBy (c :: w)

/-- Why a text cannot be read on from its first character. -/
inductive Fault : List Char → String → Prop
  | unreadable {c : Char} (rest : List Char) (h : ¬ Readable c) :
    Fault (c :: rest) ("unexpected character '" ++ c.toString ++ "'")
  | tooLarge {digits rest : List Char} (hne : digits ≠ [])
    (hdigits : ∀ c ∈ digits, c.isDigit = true)
    (hend : ∀ c, rest.head? = some c → c.isDigit = false)
    (hlarge : 2 ^ 64 ≤ Nat.ofDigitChars 10 digits 0) :
    Fault (digits ++ rest) s!"number {String.ofList digits} is too large"

/-! ## Positions -/

theorem Position.behind_concat (text : List Char) (c : Char) :
    behind (text ++ [c]) = (behind text).next c := by
  by_cases hc : c = '\n'
  · simp [behind, next, hc, Nat.add_assoc]
  · simp [behind, next, hc]
    omega

theorem Position.after_behind (front text : List Char) :
    (behind front).after text = behind (front ++ text) := by
  induction text generalizing front with
  | nil => simp
  | cons c text ih =>
    have h := ih (front ++ [c])
    rwa [behind_concat, List.append_assoc] at h

/-! ## Gaps -/

theorem Gap.append {a b rest : List Char} (h : Gap a (b ++ rest)) (h' : Gap b rest) :
    Gap (a ++ b) rest := by
  generalize htail : b ++ rest = tail at h
  induction h with
  | nil => exact h'
  | blank hc _ ih => exact (ih htail).blank hc
  | comment hbody hend _ ih =>
    subst htail
    rw [List.cons_append, List.append_assoc]
    exact (ih rfl).comment hbody (by rwa [List.append_assoc])

/-! ## What becomes of a piece -/

namespace Piece

/-- What a piece is where line breaks are dropped: nothing, a token, or an error. -/
def reading : Piece → Option (Except String Token)
  | blank _ | lineBreak | comment _ => none
  | word name => some (.ok (.word (String.ofList name)))
  | number digits =>
    if Text.decimalFrom 0 digits < UInt64.size then
      some (.ok (.number (UInt64.ofNat (Text.decimalFrom 0 digits))))
    else some (.error s!"number {String.ofList digits} is too large")
  | symbol c => some (.ok (.symbol c))
  | equals => some (.ok .equals)
  | arrow => some (.ok .arrow)
  | stray c => some (.error ("unexpected character '" ++ c.toString ++ "'"))

/-- A piece that is no line break that matters is nothing, a token or an error. -/
theorem ofPieces_cons {keepBreaks : Bool} {p : Piece} (h : keepBreaks = false ∨ p ≠ lineBreak)
    (muted : Bool) (position : Position) (pieces : List Piece) :
    Tokens.ofPieces keepBreaks muted position (p :: pieces) =
      match p.reading with
      | none => Tokens.ofPieces keepBreaks muted (position.after p.spelling) pieces
      | some (.ok t) =>
        Tokens.cons t position <$>
          Tokens.ofPieces keepBreaks false (position.after p.spelling) pieces
      | some (.error detail) => .error ⟨position, detail⟩ := by
  cases p with
  | number digits =>
    rw [Tokens.ofPieces, reading]
    split <;> rfl
  | lineBreak =>
    obtain rfl := h.resolve_right (absurd rfl)
    rfl
  | _ => rfl

/-- What the rest of a text says of the piece in front of it. -/
def ReadBefore (p : Piece) (rest : List Char) : Prop :=
  match p.reading with
  | none => Gap p.spelling rest
  | some (.ok t) => t.SpelledBy p.spelling ∧ t.EndsBefore rest
  | some (.error detail) => Fault (p.spelling ++ rest) detail

theorem head_dropWhile_eq_false {p : Char → Bool} (cs : List Char) (c : Char)
    (h : (cs.dropWhile p).head? = some c) : p c = false := by
  have := List.head?_dropWhile_not p cs
  rw [h] at this
  simpa using this

/-- A number is read as its value if that fits into a word. -/
theorem readBefore_number {c : Char} {cs rest : List Char} (hc : c.isDigit = true)
    (hcs : ∀ x ∈ cs, x.isDigit = true) (hrest : ∀ x, rest.head? = some x → x.isDigit = false) :
    (number (c :: cs)).ReadBefore rest := by
  have hdigits : ∀ x ∈ c :: cs, x.isDigit = true := List.forall_mem_cons.mpr ⟨hc, hcs⟩
  have hvalue := decimalFrom_eq 0 (c :: cs)
  rw [ReadBefore, reading]
  by_cases hsmall : Text.decimalFrom 0 (c :: cs) < UInt64.size
  · rw [if_pos hsmall]
    refine ⟨⟨List.cons_ne_nil c cs, hdigits, ?_⟩, fun x hx => ?_⟩
    · exact hvalue.symm.trans (UInt64.toNat_ofNat_of_lt' hsmall).symm
    · simp [Token.ExtendedBy, hrest x hx]
  · rw [if_neg hsmall]
    exact .tooLarge (List.cons_ne_nil c cs) hdigits hrest (hvalue ▸ not_lt.mp hsmall)

/-- The first piece of a text, whatever that begins with, is read as it should be. -/
theorem readBefore_first (c : Char) (rest : List Char) :
    (first c rest).1.ReadBefore (first c rest).2 := by
  unfold first
  split
  · exact .blank (by decide) (.nil rest)
  split
  · next hblank => exact .blank hblank (.nil rest)
  next hblank =>
  split
  · next hcomment =>
    have hgap : Gap ('#' :: (rest.takeWhile (· != '\n') ++ [])) (rest.dropWhile (· != '\n')) := by
      refine .comment (fun hmem => ?_) (fun c hc => ?_) (.nil _)
      · simpa using List.mem_takeWhile_imp hmem
      · simpa using head_dropWhile_eq_false rest c hc
    rwa [List.append_nil] at hgap
  next hcomment =>
  split
  · next hdigit =>
    exact readBefore_number hdigit (fun x hx => List.mem_takeWhile_imp hx)
      (head_dropWhile_eq_false rest)
  next hdigit =>
  split
  · next hword =>
    refine ⟨⟨by simp [spelling], ?_⟩, fun x hx => ?_⟩
    · exact isName_iff.mpr
        ⟨c, _, String.toList_ofList, hword, fun x hx => List.mem_takeWhile_imp hx⟩
    · simp [Token.ExtendedBy, head_dropWhile_eq_false rest x hx]
  next hword =>
  split
  · exact ⟨rfl, fun _ _ => id⟩
  next hequals =>
  split
  · exact ⟨rfl, fun _ _ => id⟩
  next harrow =>
  split
  · next hsymbol =>
    refine ⟨⟨rfl, by simpa using hsymbol⟩, fun x hx hext => ?_⟩
    rcases hext with ⟨hc, rfl⟩ | ⟨hc, rfl⟩
    · exact hequals ⟨hc, hx⟩
    · exact harrow ⟨hc, hx⟩
  · next hsymbol =>
    refine .unreadable rest ?_
    rintro (h | h | ⟨t, w, h⟩)
    · exact hblank h
    · exact hcomment h
    · cases t with
      | word name =>
        obtain ⟨d, ds, hname, hd, -⟩ := isName_iff.mp h.2
        obtain ⟨rfl, -⟩ := List.cons.inj (h.1.trans hname)
        exact hword hd
      | number value => exact hdigit (h.2.1 c List.mem_cons_self)
      | symbol d =>
        obtain ⟨rfl, -⟩ := List.cons.inj h.1
        exact hsymbol (by simpa using h.2)
      | equals => exact hsymbol (by rw [(List.cons.inj h).1]; decide)
      | arrow => exact hsymbol (by rw [(List.cons.inj h).1]; decide)
      | lineBreak => exact h

/-- A lexeme is a piece of its own. -/
theorem split_lexeme {t : Token} {w rest : List Char} (hw : t.SpelledBy w)
    (hend : t.EndsBefore rest) :
    ∃ p : Piece, p.reading = some (.ok t) ∧ p.spelling = w ∧
      split (w ++ rest) = p :: split rest := by
  cases t with
  | word name =>
    obtain ⟨rfl, hname⟩ := hw
    obtain ⟨c, cs, hlist, hc, hcs⟩ := isName_iff.mp hname
    rw [hlist]
    refine ⟨word (c :: cs), ?_, rfl, split_word hc hcs fun x hx => ?_⟩
    · rw [reading, ← hlist, String.ofList_toList]
    · simpa [Token.ExtendedBy] using hend x hx
  | number value =>
    obtain ⟨hne, hdigits, hvalue⟩ := hw
    obtain ⟨c, cs, rfl⟩ := List.exists_cons_of_ne_nil hne
    obtain ⟨hc, hcs⟩ := List.forall_mem_cons.mp hdigits
    refine ⟨number (c :: cs), ?_, rfl, split_number hc hcs fun x hx => ?_⟩
    · rw [reading, decimalFrom_eq, hvalue, if_pos value.toNat_lt, UInt64.ofNat_toNat]
    · simpa [Token.ExtendedBy] using hend x hx
  | symbol c =>
    obtain ⟨rfl, hc⟩ := hw
    refine ⟨symbol c, rfl, rfl, split_symbol hc ?_ ?_⟩
    · exact fun h => hend _ h.2 (.inl ⟨h.1, rfl⟩)
    · exact fun h => hend _ h.2 (.inr ⟨h.1, rfl⟩)
  | equals =>
    obtain rfl := hw
    exact ⟨equals, rfl, rfl, split_equals rest⟩
  | arrow =>
    obtain rfl := hw
    exact ⟨arrow, rfl, rfl, split_arrow rest⟩
  | lineBreak => exact hw.elim

/-- A text that cannot be read on begins with a piece that is an error. -/
theorem split_fault {rest : List Char} {detail : String} (h : Fault rest detail) :
    ∃ (p : Piece) (more : List Piece), p.reading = some (.error detail) ∧
      split rest = p :: more := by
  cases h with
  | @unreadable c rest h =>
    have hword : isWordStart c = false := by
      rw [← Bool.not_eq_true]
      intro hc
      refine h (.inr (.inr ⟨.word (String.ofList [c]), [], String.toList_ofList.symm, ?_⟩))
      exact isName_iff.mpr ⟨c, [], String.toList_ofList, hc, by simp⟩
    have hdigit : c.isDigit = false := by
      rw [← Bool.not_eq_true]
      intro hc
      have hsmall : Nat.ofDigitChars 10 [c] 0 < UInt64.size := by
        obtain ⟨hlow, hhigh⟩ := isDigit_range hc
        rw [Nat.ofDigitChars_eq_foldl]
        simp only [List.foldl_cons, List.foldl_nil, UInt64.size]
        omega
      exact h (.inr (.inr ⟨.number (UInt64.ofNat (Nat.ofDigitChars 10 [c] 0)), [], by simp,
        by simpa, (UInt64.toNat_ofNat_of_lt' hsmall).symm⟩))
    have hsymbol : c ∉ symbols := fun hc => h (.inr (.inr ⟨.symbol c, [], rfl, hc⟩))
    have hpair (x : Char) (hx : x ∈ symbols) (p : Prop) : ¬ (c = x ∧ p) := by
      rintro ⟨rfl, -⟩
      exact hsymbol hx
    refine ⟨stray c, split rest, rfl, ?_⟩
    rw [split, first, if_neg (by rintro rfl; exact h (.inl (by decide))),
      if_neg (fun hc => h (.inl hc)), if_neg (fun hc => h (.inr (.inl hc))),
      if_neg (by simp [hdigit]), if_neg (by simp [hword]),
      if_neg (hpair '=' (by decide) _), if_neg (hpair '-' (by decide) _),
      if_neg (by simpa using hsymbol)]
  | @tooLarge digits rest hne hdigits hend hlarge =>
    obtain ⟨c, cs, rfl⟩ := List.exists_cons_of_ne_nil hne
    obtain ⟨hc, hcs⟩ := List.forall_mem_cons.mp hdigits
    refine ⟨number (c :: cs), _, ?_, split_number hc hcs hend⟩
    rw [reading, decimalFrom_eq, if_neg (show ¬ _ < UInt64.size from not_lt.mpr hlarge)]

end Piece

/-! ## Scanning -/

namespace Tokens

/-- What stands in a gap changes nothing but the position. -/
theorem ofPieces_gap {gap rest : List Char} (h : Gap gap rest) (muted : Bool) (front : List Char) :
    ofPieces false muted (.behind front) (Piece.split (gap ++ rest)) =
      ofPieces false muted (.behind (front ++ gap)) (Piece.split rest) := by
  induction h generalizing front with
  | nil => simp
  | @blank c gap rest hc h ih =>
    have hsplit : ∃ p : Piece, p.reading = none ∧ p.spelling = [c] ∧
        Piece.split (c :: (gap ++ rest)) = p :: Piece.split (gap ++ rest) := by
      by_cases hbreak : c = '\n'
      · exact ⟨.lineBreak, rfl, by rw [hbreak]; rfl, by rw [hbreak, Piece.split_break]⟩
      · exact ⟨.blank c, rfl, rfl, by rw [Piece.split, Piece.first, if_neg hbreak, if_pos hc]⟩
    obtain ⟨p, hreading, hspelling, hsplit⟩ := hsplit
    rw [List.cons_append, hsplit, Piece.ofPieces_cons (.inl rfl), hreading, hspelling]
    dsimp only
    rw [Position.after_behind, ih, List.append_assoc, List.singleton_append]
  | @comment body gap rest hbody hend h ih =>
    have hsplit := Piece.split_comment hbody hend
    rw [List.cons_append] at hsplit
    rw [List.cons_append, List.append_assoc, hsplit, ofPieces, Piece.spelling,
      Position.after_behind, ih, List.append_assoc, List.cons_append]

/-- Once a front has been scanned, its tokens stand in front of those of the rest. -/
theorem ofPieces_scanned {front rest : List Char} {items : List Located}
    (h : Scanned front items rest) :
    ofPieces false true .start (Piece.split (front ++ rest)) =
      prepend items <$> ofPieces false true (.behind front) (Piece.split rest) := by
  induction h with
  | start rest => exact (id_map _).symm
  | @token front gap w rest items t h hgap hw hend ih =>
    obtain ⟨p, hreading, hspelling, hsplit⟩ := Piece.split_lexeme hw hend
    rw [List.append_assoc gap] at ih
    simp only [List.append_assoc] at ih ⊢
    rw [ih, ofPieces_gap hgap, hsplit, Piece.ofPieces_cons (.inl rfl), hreading, hspelling]
    dsimp only
    rw [Position.after_behind, ofPieces_muted, Functor.map_map, List.append_assoc]
    exact congrArg (· <$> _) (funext fun ts => (prepend_append items [_] ts).symm)

end Tokens

/-- The text has these tokens, and a gap at its end. -/
def HasTokens (text : List Char) (ts : Tokens) : Prop :=
  ∃ front gap, text = front ++ gap ∧ Scanned front ts.items gap ∧ Gap gap [] ∧
    ts.stop = .behind text

/-- The text has tokens up to a gap behind which it cannot be read on, for this reason. -/
def FailsAt (text : List Char) (e : ParseError) : Prop :=
  ∃ front items gap rest, text = front ++ gap ++ rest ∧ Scanned front items (gap ++ rest) ∧
    Gap gap rest ∧ e.position = .behind (front ++ gap) ∧ Fault rest e.detail

theorem HasTokens.tokenize {text : List Char} {ts : Tokens} (h : HasTokens text ts) :
    LayeredSets.tokenize text false = .ok ts := by
  obtain ⟨front, gap, rfl, hscanned, hgap, hstop⟩ := h
  have hrest := Tokens.ofPieces_gap hgap true front
  rw [List.append_nil] at hrest
  rw [LayeredSets.tokenize, Tokens.ofPieces_scanned hscanned, hrest, Piece.split, Tokens.ofPieces,
    ← hstop]
  simp [Tokens.prepend]

theorem FailsAt.tokenize {text : List Char} {e : ParseError} (h : FailsAt text e) :
    LayeredSets.tokenize text false = .error e := by
  obtain ⟨front, items, gap, rest, rfl, hscanned, hgap, hposition, hfault⟩ := h
  obtain ⟨p, more, hreading, hsplit⟩ := Piece.split_fault hfault
  rw [LayeredSets.tokenize, List.append_assoc, Tokens.ofPieces_scanned hscanned,
    Tokens.ofPieces_gap hgap, hsplit, Piece.ofPieces_cons (.inl rfl), hreading, ← hposition]
  rfl

/-- Every text can be read to its end or up to a fault: by induction on its pieces, a gap being
gathered until the next lexeme. -/
theorem hasTokens_or_failsAt (rest : List Char) {front gap : List Char} {items : List Located}
    (h : Scanned front items (gap ++ rest)) (hgap : Gap gap rest) :
    (∃ ts, HasTokens (front ++ gap ++ rest) ts) ∨ ∃ e, FailsAt (front ++ gap ++ rest) e := by
  fun_induction Piece.split rest generalizing front gap items with
  | case1 =>
    rw [List.append_nil] at h ⊢
    exact .inl ⟨⟨items, _⟩, front, gap, rfl, h, hgap, rfl⟩
  | case2 c rest ih =>
    have hspelling := Piece.spelling_first c rest
    have hread := Piece.readBefore_first c rest
    generalize (Piece.first c rest).1 = p, (Piece.first c rest).2 = rest' at *
    rw [← hspelling] at h hgap ⊢
    rw [Piece.ReadBefore] at hread
    split at hread
    · have := @ih front (gap ++ p.spelling) items (by rwa [List.append_assoc]) (hgap.append hread)
      simpa using this
    · rw [← List.append_assoc] at h
      have := @ih _ [] _ (h.token hgap hread.1 hread.2) (.nil rest')
      simpa using this
    · exact .inr ⟨⟨_, _⟩, front, items, gap, _, rfl, h, hgap, rfl, hread⟩

/-- A text has tokens exactly if it splits into gaps and lexemes, and then they are those of the
lexemes, in order, each with the position behind what stands in front of it, and the end is where
the text ends. Otherwise the scan fails at the first character behind a gap or a lexeme that begins
neither, or that begins a number which does not fit into a word, whichever comes first. -/
theorem tokenize_exact (text : List Char) :
    (∀ ts, tokenize text false = .ok ts ↔ HasTokens text ts) ∧
      (∀ e, tokenize text false = .error e ↔ FailsAt text e) ∧
      ((∃ e, tokenize text false = .error e) ↔ ¬ ∃ ts, HasTokens text ts) := by
  have htotal := hasTokens_or_failsAt text (.start text) (.nil text)
  simp only [List.nil_append] at htotal
  have hok (ts : Tokens) : tokenize text false = .ok ts ↔ HasTokens text ts := by
    refine ⟨fun h => ?_, HasTokens.tokenize⟩
    obtain ⟨ts', htokens⟩ | ⟨e, hfails⟩ := htotal
    · rwa [← Except.ok.inj (htokens.tokenize.symm.trans h)]
    · cases hfails.tokenize.symm.trans h
  have herror (e : ParseError) : tokenize text false = .error e ↔ FailsAt text e := by
    refine ⟨fun h => ?_, FailsAt.tokenize⟩
    obtain ⟨ts, htokens⟩ | ⟨e', hfails⟩ := htotal
    · cases htokens.tokenize.symm.trans h
    · rwa [← Except.error.inj (hfails.tokenize.symm.trans h)]
  refine ⟨hok, herror, ?_⟩
  simp only [← hok]
  cases tokenize text false <;> simp

end LayeredSets
