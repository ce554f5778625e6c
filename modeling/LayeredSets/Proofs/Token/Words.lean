import LayeredSets.Proofs.Token.Spells
import LayeredSets.Domain.Basic

/-!
# Words and tokens of a line

Names, handles and numbers as words, and lines that are put together from words.

`Lexes text tokens rest` says that `text` has the tokens `tokens` in front of `rest`, wherever it
stands. Blanks, symbols, words and numbers are put in front of a part one at a time.
-/

namespace LayeredSets

/-- A name as both input formats have them: a letter or an underscore, and any number of letters,
digits and underscores. -/
def isName (name : String) : Bool :=
  match name.toList with
  | [] => false
  | c :: cs => Piece.isWordStart c && cs.all Piece.isWordChar

theorem isName_iff {name : String} :
    isName name = true ↔ ∃ c cs, name.toList = c :: cs ∧ Piece.isWordStart c = true ∧
      ∀ x ∈ cs, Piece.isWordChar x = true := by
  rw [isName]
  split <;> simp_all

theorem lexeme_name {name : String} (h : isName name = true) : Lexeme name.toList (.word name) := by
  obtain ⟨c, cs, hname, hc, hcs⟩ := isName_iff.mp h
  have hword := Lexeme.word hc hcs
  rwa [← hname, String.ofList_toList] at hword

/-! ## Numbers -/

theorem decimalFrom_eq (acc : Nat) (cs : List Char) :
    Text.decimalFrom acc cs = Nat.ofDigitChars 10 cs acc := by
  rw [Nat.ofDigitChars_eq_foldl]
  induction cs generalizing acc with
  | nil => exact congrFun (show (Text.decimalFrom · []) = id from rfl) acc
  | cons c cs ih => exact ih _

theorem toList_numeral (n : Nat) :
    ∃ c cs, (toString n).toList = c :: cs ∧ c.isDigit = true ∧ (∀ x ∈ cs, x.isDigit = true) ∧
      Text.decimalFrom 0 (c :: cs) = n := by
  have hdigits : (toString n).toList = Nat.toDigits 10 n := Nat.toList_repr
  obtain ⟨c, cs, hcons⟩ := List.exists_cons_of_ne_nil (Nat.toDigits_ne_nil (n := n) (b := 10))
  have hall (x : Char) (hx : x ∈ c :: cs) : x.isDigit = true :=
    Nat.isDigit_of_mem_toDigits (by decide) (by decide) (hcons ▸ hx)
  refine ⟨c, cs, hdigits.trans hcons, hall c List.mem_cons_self,
    fun x hx => hall x (List.mem_cons_of_mem c hx), ?_⟩
  rw [decimalFrom_eq, ← hcons, Nat.ofDigitChars_toDigits (by decide) (by decide)]

theorem lexeme_number (value : UInt64) : Lexeme (toString value).toList (.number value) := by
  obtain ⟨c, cs, htext, hc, hcs, hvalue⟩ := toList_numeral value.toNat
  have htext' : (toString value).toList = c :: cs := htext
  rw [htext']
  exact .number hc hcs hvalue

theorem toString_toUInt64 (bits : UInt32) : toString bits.toUInt64 = toString bits := by
  change toString bits.toUInt64.toNat = toString bits.toNat
  rw [UInt32.toNat_toUInt64]

/-! ## Handles -/

/-- A letter and a numeral make a name. -/
theorem isName_numbered {letter : Char} (h : Piece.isWordStart letter = true) (n : Nat) :
    isName (letter.toString ++ toString n) = true := by
  obtain ⟨c, cs, htext, hc, hcs, -⟩ := toList_numeral n
  refine isName_iff.mpr ⟨letter, c :: cs, ?_, h, ?_⟩
  · rw [String.toList_append, htext, Char.toString_eq_singleton, String.toList_singleton]
    rfl
  have hword {x : Char} (hx : x.isDigit = true) : Piece.isWordChar x = true := by
    simp [Piece.isWordChar, Char.isAlphanum, hx]
  exact List.forall_mem_cons.mpr ⟨hword hc, fun x hx => hword (hcs x hx)⟩

/-- Its second character is a digit. -/
theorem numbered_ne {letter a b : Char} {n : Nat} {name : String} {rest : List Char}
    (hname : name.toList = a :: b :: rest) (hb : b.isDigit = false) :
    letter.toString ++ toString n ≠ name := by
  obtain ⟨c, cs, htext, hc, -⟩ := toList_numeral n
  rintro rfl
  rw [String.toList_append, htext, Char.toString_eq_singleton, String.toList_singleton,
    List.singleton_append, List.cons.injEq, List.cons.injEq] at hname
  rw [← hname.2.1, hc] at hb
  cases hb

theorem isName_set (set : SetId) : isName set.text = true :=
  @isName_numbered 's' (by decide) set.index.toNat

theorem isName_var (var : VarId) : isName var.text = true :=
  @isName_numbered 'v' (by decide) var.index.toNat

/-- A numeral can be told from what is in front of it. -/
theorem numbered_injective (letter : String) {m n : Nat}
    (h : letter ++ toString m = letter ++ toString n) : m = n := by
  have hlists := congrArg String.toList h
  rw [String.toList_append, String.toList_append] at hlists
  have hdigits : Nat.toDigits 10 m = Nat.toDigits 10 n := by
    simpa using List.append_cancel_left hlists
  calc
    m = Nat.ofDigitChars 10 (Nat.toDigits 10 m) 0 := Nat.ofDigitChars_ten_toDigits.symm
    _ = Nat.ofDigitChars 10 (Nat.toDigits 10 n) 0 := by rw [hdigits]
    _ = n := Nat.ofDigitChars_ten_toDigits

theorem setText_injective : Function.Injective SetId.text := fun _ _ h =>
  congrArg SetId.mk (UInt32.toNat_inj.mp (numbered_injective "s" h))

theorem varText_injective : Function.Injective VarId.text := fun _ _ h =>
  congrArg VarId.mk (UInt32.toNat_inj.mp (numbered_injective "v" h))

/-! ## Lines of words -/

theorem toString_self (text : String) : toString text = text := rfl

/-- Words with single blanks between them are a line of their tokens. -/
theorem spells_words {words : List String} {tokens : List Token}
    (h : List.Forall₂ (fun word t => Lexeme word.toList t) words tokens) (hwords : words ≠ []) :
    Spells (" ".intercalate words).toList tokens := by
  rw [String.toList_intercalate]
  induction h with
  | nil => exact absurd rfl hwords
  | @cons word t words tokens hword hrest ih =>
    cases hrest with
    | nil => simpa using Spells.last hword
    | cons _ _ =>
      have := Spells.cons hword (ih (List.cons_ne_nil _ _))
      simpa [List.intercalate_cons_cons] using this

/-- How a token is written. -/
def Token.text : Token → String
  | word name => name
  | number value => toString value
  | symbol c => c.toString
  | equals => "=="
  | arrow => "->"
  | lineBreak => "\n"

/-- Tokens that lines of words are made of. -/
def Token.IsWord : Token → Prop
  | word name => isName name = true
  | number _ | arrow => True
  | symbol c => c = '='
  | equals | lineBreak => False

theorem Token.IsWord.lexeme {t : Token} (h : t.IsWord) : Lexeme t.text.toList t := by
  cases t with
  | word name => exact lexeme_name h
  | number value => exact lexeme_number value
  | symbol c =>
    obtain rfl : c = '=' := h
    exact .assign
  | arrow => exact .arrow
  | equals | lineBreak => exact h.elim

/-- Tokens that are written with single blanks between them are a line. -/
theorem spells_texts {tokens : List Token} (h : ∀ t ∈ tokens, t.IsWord) (htokens : tokens ≠ []) :
    Spells (" ".intercalate (tokens.map Token.text)).toList tokens := by
  refine spells_words ?_ (by simpa using htokens)
  rw [List.forall₂_map_left_iff, List.forall₂_same]
  exact fun t ht => (h t ht).lexeme

theorem Lexeme.isBlank_eq_false {w : List Char} {t : Token} (h : Lexeme w t) {c : Char}
    (hc : c ∈ w) : Text.isBlank c = false := by
  have hword {x : Char} (hx : Piece.isWordChar x = true) : Text.isBlank x = false := by
    obtain ⟨hlow, hhigh⟩ := Piece.isWordChar_range hx
    exact Piece.isBlank_eq_false (by omega) (by omega)
  have hdigit {x : Char} (hx : x.isDigit = true) : Text.isBlank x = false := by
    obtain ⟨hlow, hhigh⟩ := Piece.isDigit_range hx
    exact Piece.isBlank_eq_false (by omega) (by omega)
  cases h with
  | word hstart hcs =>
    rcases List.mem_cons.mp hc with rfl | hc
    · obtain ⟨hlow, hhigh, -⟩ := Piece.isWordStart_range hstart
      exact Piece.isBlank_eq_false (by omega) (by omega)
    · exact hword (hcs c hc)
  | number hstart hcs =>
    rcases List.mem_cons.mp hc with rfl | hc
    · exact hdigit hstart
    · exact hdigit (hcs c hc)
  | assign =>
    rw [List.mem_singleton.mp hc]
    decide
  | arrow =>
    rcases List.mem_pair.mp hc with rfl | rfl <;> decide

/-- Nothing is trimmed off a line of words. -/
theorem Spells.trimEnd {line : List Char} {tokens : List Token} (h : Spells line tokens)
    (front : List Char) : Text.trimEnd (front ++ line) = front ++ line := by
  induction h generalizing front with
  | @last w t h =>
    have hne : w ≠ [] := by
      rintro rfl
      cases h
    obtain ⟨w, c, rfl⟩ := List.eq_nil_or_concat' w |>.resolve_left hne
    have hc := h.isBlank_eq_false (c := c) (by simp)
    simp [Text.trimEnd, hc]
  | @cons w line t tokens h hline ih =>
    have := ih (front ++ w ++ [' '])
    simpa using this

/-! ## Tokens of a part of a line -/

namespace Tokens

/-- Where line breaks are dropped, it does not matter whether the next one would be. -/
theorem ofPieces_muted (muted : Bool) (position : Position) (pieces : List Piece) :
    ofPieces false muted position pieces = ofPieces false true position pieces := by
  induction pieces generalizing muted position with
  | nil => rfl
  | cons piece pieces ih => cases piece <;> first | rfl | exact ih muted _

theorem prepend_append (items items' : List Located) (ts : Tokens) :
    prepend (items ++ items') ts = prepend items (prepend items' ts) := by
  simp [prepend]

/-- No character follows that could belong to a word or a number. -/
def Stops (rest : List Char) : Prop := ∀ c, rest.head? = some c → Piece.isWordChar c = false

theorem stops_cons {c : Char} (h : Piece.isWordChar c = false) (more : List Char) :
    Stops (c :: more) := by
  rintro _ ⟨⟩
  exact h

def Lexes (text : List Char) (tokens : List Token) (rest : List Char) : Prop :=
  ∀ line column, ∃ items column', items.map (·.token) = tokens ∧
    (∀ item ∈ items, item.position.line = line) ∧
      ofPieces false true ⟨line, column⟩ (Piece.split (text ++ rest)) =
        prepend items <$> ofPieces false true ⟨line, column'⟩ (Piece.split rest)

namespace Lexes

variable {text more rest : List Char} {t : Token} {tokens others : List Token}

@[simp] theorem nil (rest : List Char) : Lexes [] [] rest :=
  fun _ column => ⟨[], column, rfl, by simp, (id_map _).symm⟩

theorem append (h : Lexes text tokens (more ++ rest)) (h' : Lexes more others rest) :
    Lexes (text ++ more) (tokens ++ others) rest := by
  intro line column
  obtain ⟨items, column₁, rfl, hlines, heq⟩ := h line column
  obtain ⟨items', column₂, rfl, hlines', heq'⟩ := h' line column₁
  refine ⟨items ++ items', column₂, List.map_append, ?_, ?_⟩
  · intro item hitem
    exact (List.mem_append.mp hitem).elim (hlines item) (hlines' item)
  · rw [List.append_assoc, heq, heq', Functor.map_map]
    exact congrArg (· <$> _) (funext fun ts => (prepend_append items items' ts).symm)

/-- A piece that is a token is in front of the tokens after it. -/
theorem of_split (text : List Char) (piece : Piece) (hbreak : '\n' ∉ text)
    (hpiece : ∀ muted position pieces, ofPieces false muted position (piece :: pieces) =
      cons t position <$> ofPieces false false (position.after text) pieces)
    (hsplit : Piece.split (text ++ (more ++ rest)) = piece :: Piece.split (more ++ rest))
    (h : Lexes more tokens rest) : Lexes (text ++ more) (t :: tokens) rest := by
  intro line column
  obtain ⟨items, column', rfl, hlines, heq⟩ := h line (column + text.length)
  refine ⟨⟨t, ⟨line, column⟩⟩ :: items, column', rfl, by simpa using hlines, ?_⟩
  rw [List.append_assoc, hsplit, hpiece, ofPieces_muted, Position.after_eq hbreak, heq,
    Functor.map_map]
  rfl

theorem blank (h : Lexes more tokens rest) : Lexes (' ' :: more) tokens rest := by
  intro line column
  obtain ⟨items, column', rfl, hlines, heq⟩ := h line (column + 1)
  refine ⟨items, column', rfl, hlines, ?_⟩
  rw [List.cons_append, Piece.split_blank, ofPieces]
  exact heq

theorem symbol {c : Char} (hc : c ∈ Piece.symbols) (hequals : c ≠ '=') (harrow : c ≠ '-')
    (h : Lexes more tokens rest) : Lexes (c :: more) (.symbol c :: tokens) rest := by
  refine of_split [c] (.symbol c) ?_ (fun _ _ _ => rfl)
    (Piece.split_symbol hc (by simp [hequals]) (by simp [harrow])) h
  rintro hbreak
  obtain rfl := List.mem_singleton.mp hbreak
  exact absurd hc (by decide)

/-- An equals sign or a minus sign before a blank. -/
theorem symbol_blank {c : Char} (hc : c ∈ Piece.symbols) (h : Lexes more tokens rest) :
    Lexes (c :: ' ' :: more) (.symbol c :: tokens) rest := by
  refine of_split [c] (.symbol c) ?_ (fun _ _ _ => rfl)
    (Piece.split_symbol hc (by simp) (by simp)) h.blank
  rintro hbreak
  obtain rfl := List.mem_singleton.mp hbreak
  exact absurd hc (by decide)

theorem equals (h : Lexes more tokens rest) : Lexes ('=' :: '=' :: more) (.equals :: tokens) rest :=
  of_split ['=', '='] .equals (by decide) (fun _ _ _ => rfl)
    (Piece.split_equals _) h

theorem word {name : String} (hname : isName name = true) (hstop : Stops (more ++ rest))
    (h : Lexes more tokens rest) : Lexes (name.toList ++ more) (.word name :: tokens) rest := by
  have hbreak := (lexeme_name hname).break_notMem
  obtain ⟨c, cs, hlist, hc, hcs⟩ := isName_iff.mp hname
  have hback : String.ofList (c :: cs) = name := by rw [← hlist, String.ofList_toList]
  rw [hlist] at hbreak ⊢
  exact of_split (c :: cs) (.word (c :: cs)) hbreak (fun _ _ _ => by rw [ofPieces, hback]; rfl)
    (Piece.split_word hc hcs hstop) h

theorem number {value : UInt64} (hstop : Stops (more ++ rest)) (h : Lexes more tokens rest) :
    Lexes ((toString value).toList ++ more) (.number value :: tokens) rest := by
  have hbreak := (lexeme_number value).break_notMem
  obtain ⟨c, cs, hlist, hc, hcs, hvalue⟩ := toList_numeral value.toNat
  have htext : (toString value).toList = c :: cs := hlist
  rw [htext] at hbreak ⊢
  have hdigit (x : Char) (hx : (more ++ rest).head? = some x) : x.isDigit = false := by
    have hword := hstop x hx
    simp only [Piece.isWordChar, Char.isAlphanum, Bool.or_eq_false_iff] at hword
    exact hword.1.2
  refine of_split (c :: cs) (.number (c :: cs)) hbreak (fun muted position pieces => ?_)
    (Piece.split_number hc hcs hdigit) h
  rw [ofPieces]
  simp only [hvalue, UInt64.ofNat_toNat]
  rw [if_pos (show value.toNat < UInt64.size from value.toNat_lt)]
  rfl

theorem lastWord {name : String} (hname : isName name = true) (hstop : Stops rest) :
    Lexes name.toList [.word name] rest := by
  have h : Lexes (name.toList ++ []) [.word name] rest := (nil rest).word hname hstop
  rwa [List.append_nil] at h

theorem lastNumber (value : UInt64) (hstop : Stops rest) :
    Lexes (toString value).toList [.number value] rest := by
  have h : Lexes ((toString value).toList ++ []) [.number value] rest := (nil rest).number hstop
  rwa [List.append_nil] at h

theorem lastSymbol {c : Char} (hc : c ∈ Piece.symbols) (hequals : c ≠ '=') (harrow : c ≠ '-') :
    Lexes [c] [.symbol c] rest :=
  (nil rest).symbol hc hequals harrow

/-- Numbers with commas and blanks between them, up to a character that ends the last. -/
theorem numbers (value : UInt64) (values : List UInt64) (hstop : Stops (more ++ rest))
    (h : Lexes more tokens rest) :
    Lexes ((", ".intercalate ((value :: values).map toString)).toList ++ more)
      (.number value :: values.flatMap (fun value => [.symbol ',', .number value]) ++ tokens) rest := by
  induction values generalizing value with
  | nil => simpa using h.number hstop
  | cons value' values ih =>
    have htext : ", ".intercalate ((value :: value' :: values).map toString) =
        toString value ++ (", " ++ ", ".intercalate ((value' :: values).map toString)) := by
      simp [String.append_assoc]
    rw [htext, String.toList_append, List.append_assoc, String.toList_append]
    exact ((ih value').blank.symbol (by decide) (by decide) (by decide)).number
      (stops_cons (by decide) _)

end Lexes

/-- A text of one line is all tokens of it. -/
theorem Lexes.tokenize {text : List Char} {tokens : List Token} (h : Lexes text tokens []) :
    ∃ ts, tokenize text false = .ok ts ∧ ts.items.map (·.token) = tokens ∧
      ∀ item ∈ ts.items, item.position.line = 1 := by
  obtain ⟨items, column, htokens, hlines, heq⟩ := h 1 1
  refine ⟨⟨items, ⟨1, column⟩⟩, ?_, htokens, hlines⟩
  rw [List.append_nil] at heq
  rw [LayeredSets.tokenize, Position.start, heq, Piece.split]
  simp [ofPieces, prepend]

end Tokens
end LayeredSets
