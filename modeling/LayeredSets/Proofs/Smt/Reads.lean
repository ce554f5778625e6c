import LayeredSets.Proofs.Smt.Language
import LayeredSets.Proofs.Token.Words
import LayeredSets.Smt.Basic

/-!
# Printed formulas are read back

A text reads as an expression if the reader, wherever it comes upon the text, goes on with that
expression as one more item. Words do, and so do lists of what does with blanks in between. By
induction every formula reads as a term, and a whole script as the problem that it is meant to put.
-/

namespace LayeredSets.SmtLib

/-- Read what is left once the comments are gone. -/
def scan (outer : List (List Sexp)) (items : List Sexp) (word text : List Char) :
    Option (List Sexp) :=
  readFrom outer items word (uncomment false text)

/-- A character that words are made of. -/
def isPlain (c : Char) : Bool :=
  !(isSpace c || c == '(' || c == ')' || c == '"' || c == '|' || c == ';')

theorem isPlain_of_isAlphanum {c : Char} (h : c.isAlphanum = true) : isPlain c = true := by
  rw [isPlain, Bool.not_eq_true']
  simp only [isSpace, isLineBreak, Bool.or_eq_false_iff, beq_eq_false_iff_ne]
  refine ⟨⟨⟨⟨⟨⟨⟨?_, ?_⟩, ?_, ?_⟩, ?_⟩, ?_⟩, ?_⟩, ?_⟩, ?_⟩
  all_goals
    rintro rfl
    revert h
    decide

section

variable (outer : List (List Sexp)) (items : List Sexp) (word cs : List Char)

theorem scan_space {c : Char} (h : isSpace c = true) :
    scan outer items word (c :: cs) = scan outer (endWord items word) [] cs := by
  have hcomment : (c == ';') = false := by
    rw [beq_eq_false_iff_ne]
    rintro rfl
    revert h
    decide
  simp [scan, uncomment, readFrom, hcomment, h]

theorem scan_open : scan outer items word ('(' :: cs) = scan (endWord items word :: outer) [] [] cs := by
  simp [scan, uncomment, readFrom, show isSpace '(' = false by decide]

theorem scan_close (before : List Sexp) : scan (before :: outer) items word (')' :: cs) =
    scan outer (before ++ [.list (endWord items word)]) [] cs := by
  simp [scan, uncomment, readFrom, show isSpace ')' = false by decide]

theorem scan_plain {c : Char} (h : isPlain c = true) :
    scan outer items word (c :: cs) = scan outer items (word ++ [c]) cs := by
  simp only [isPlain, Bool.not_eq_true', Bool.or_eq_false_iff] at h
  simp [scan, uncomment, readFrom, h]

theorem scan_word {w : List Char} (h : ∀ c ∈ w, isPlain c = true) :
    scan outer items word (w ++ cs) = scan outer items (word ++ w) cs := by
  induction w generalizing word with
  | nil => simp
  | cons c w ih =>
    rw [List.cons_append, scan_plain _ _ _ _ (h c List.mem_cons_self),
      ih _ fun x hx => h x (List.mem_cons_of_mem c hx), List.append_assoc, List.singleton_append]

theorem scan_comment {body : List Char} (h : ∀ c ∈ body, isLineBreak c = false) :
    scan outer items word (';' :: body ++ '\n' :: cs) = scan outer items word ('\n' :: cs) := by
  have hinside : uncomment true (body ++ '\n' :: cs) = uncomment false ('\n' :: cs) := by
    induction body with
    | nil => rfl
    | cons c body ih =>
      rw [List.cons_append, uncomment, if_neg (by simp [h c]), ih fun x hx => h x (by simp [hx])]
  rw [scan, List.cons_append, uncomment, if_pos (by rfl), hinside, scan]

end

/-- A word that stands in front ends there. -/
def Stops (rest : List Char) : Prop :=
  ∀ c ∈ rest.head?, isSpace c = true ∨ c = '(' ∨ c = ')'

theorem stops_cons {c : Char} (h : isSpace c = true ∨ c = '(' ∨ c = ')') (cs : List Char) :
    Stops (c :: cs) := by
  simpa [Stops] using h

/-- Where a word ends, it is one more item. -/
theorem scan_endWord {rest : List Char} (h : Stops rest) (outer : List (List Sexp))
    (items : List Sexp) {word : List Char} (hword : word ≠ []) :
    scan outer items word rest = scan outer (items ++ [.atom (String.ofList word)]) [] rest := by
  have hend : endWord items word = items ++ [.atom (String.ofList word)] := by
    simp [endWord, hword]
  have hnone (items : List Sexp) : endWord items [] = items := rfl
  cases rest with
  | nil => rw [scan, scan, uncomment, readFrom, readFrom, hend, hnone]
  | cons c cs =>
    rcases h c rfl with hspace | rfl | rfl
    · rw [scan_space _ _ _ _ hspace, scan_space _ _ _ _ hspace, hend, hnone]
    · rw [scan_open, scan_open, hend, hnone]
    · cases outer with
      | nil => simp [scan, uncomment, readFrom, show isSpace ')' = false by decide]
      | cons before outer => rw [scan_close, scan_close, hend, hnone]

/-- The text is read as this expression. -/
def Reads (text : List Char) (s : Sexp) : Prop :=
  ∀ outer items rest, Stops rest →
    scan outer items [] (text ++ rest) = scan outer (items ++ [s]) [] rest

def isWord (w : String) : Bool := !w.toList.isEmpty && w.toList.all isPlain

theorem Reads.word {w : String} (h : isWord w = true) : Reads w.toList (.atom w) := by
  simp only [isWord, Bool.and_eq_true, Bool.not_eq_true', List.isEmpty_eq_false_iff,
    List.all_eq_true] at h
  intro outer items rest hrest
  rw [scan_word _ _ _ _ h.2, List.nil_append, scan_endWord hrest _ _ h.1, String.ofList_toList]

/-- What stands between parentheses, with blanks in between, is read as a list. -/
theorem Reads.list {texts : List (List Char)} {items : List Sexp}
    (h : List.Forall₂ Reads texts items) :
    Reads ('(' :: [' '].intercalate texts ++ [')']) (.list items) := by
  intro outer before rest hrest
  have key (read : List Sexp) : scan (before :: outer) read [] ([' '].intercalate texts ++ ')' :: rest) =
      scan outer (before ++ [.list (read ++ items)]) [] rest := by
    induction h generalizing read with
    | nil =>
      rw [List.intercalate_nil, List.nil_append, scan_close, List.append_nil]
      rfl
    | @cons text s texts items hs hrest ih =>
      cases hrest with
      | nil =>
        rw [List.intercalate_singleton, hs _ _ _ (stops_cons (by simp) _), scan_close]
        rfl
      | @cons text' s' texts' items' hs' hrest' =>
        rw [List.intercalate_cons_cons, List.append_assoc, List.append_assoc, List.singleton_append,
          hs _ _ _ (stops_cons (.inl (by decide)) _), scan_space _ _ _ _ (by decide)]
        exact (ih (read ++ [s])).trans (by rw [List.append_assoc, List.singleton_append])
  rw [List.cons_append, List.cons_append, scan_open, List.append_assoc, List.singleton_append]
  exact key []

/-! ## Numbers and symbols -/

theorem toList_number (n : Nat) :
    (toString n).toList ≠ [] ∧ ∀ c ∈ (toString n).toList, c.isDigit = true := by
  obtain ⟨c, cs, htext, hc, hcs, -⟩ := toList_numeral n
  rw [htext]
  exact ⟨List.cons_ne_nil _ _, List.forall_mem_cons.mpr ⟨hc, hcs⟩⟩

theorem isPlain_of_isDigit {c : Char} (h : c.isDigit = true) : isPlain c = true :=
  isPlain_of_isAlphanum (by simp [Char.isAlphanum, h])

theorem numeral?_toString (n : Nat) : numeral? (toString n) = some n := by
  have hdigits : (toString n).toList = Nat.toDigits 10 n := Nat.toList_repr
  rw [numeral?, hdigits, Nat.ofDigitChars_ten_toDigits]
  exact if_pos rfl

/-- The name of the constant with this number. -/
def constantName (index : Nat) : String := "v" ++ toString index

theorem toList_constantName (index : Nat) :
    (constantName index).toList = 'v' :: (toString index).toList :=
  String.toList_append

theorem constantName_injective : Function.Injective constantName := fun _ _ h =>
  numbered_injective "v" h

theorem isSymbol_constantName (index : Nat) : isSymbol (constantName index) = true := by
  obtain ⟨c, cs, htext, hc, hcs, -⟩ := toList_numeral index
  rw [isSymbol, toList_constantName, htext]
  simpa [hc] using hcs

theorem reads_number (n : Nat) : Reads (toString n).toList (.atom (toString n)) := by
  obtain ⟨hne, hdigits⟩ := toList_number n
  refine .word ?_
  simp only [isWord, Bool.and_eq_true, Bool.not_eq_true', List.isEmpty_eq_false_iff,
    List.all_eq_true]
  exact ⟨hne, fun c hc => isPlain_of_isDigit (hdigits c hc)⟩

/-- A word and a number make a word. -/
theorem reads_numbered {w : String} (h : isWord w = true) (n : Nat) :
    Reads (w ++ toString n).toList (.atom (w ++ toString n)) := by
  simp only [isWord, Bool.and_eq_true, Bool.not_eq_true', List.isEmpty_eq_false_iff,
    List.all_eq_true] at h
  refine .word ?_
  simp only [isWord, Bool.and_eq_true, Bool.not_eq_true', List.isEmpty_eq_false_iff,
    List.all_eq_true, String.toList_append, List.forall_mem_append]
  refine ⟨fun hnil => h.1 (List.append_eq_nil_iff.mp hnil).1, h.2, fun c hc => ?_⟩
  exact isPlain_of_isDigit ((toList_number n).2 c hc)

theorem reads_constantName (index : Nat) :
    Reads (constantName index).toList (.atom (constantName index)) :=
  reads_numbered rfl index

/-! ## Words and lists of formulas -/

/-- Connectives are read with their operands. -/
theorem read?_connective {word : String} {f : Term → Term → Term} {s t : Sexp} {a b : Term}
    (hword : Term.connective? word = some f) (hs : Term.read? s = some a) (ht : Term.read? t = some b) :
    Term.read? (.list [.atom word, s, t]) = some (f a b) := by
  have hne : word ≠ "_" ∧ word ≠ "exists" := by
    constructor <;>
    · rintro rfl
      cases hword
  rw [Term.read?, if_neg hne.1, if_neg hne.2, hword, hs, ht]
  rfl

theorem read?_constantName (index : Nat) :
    Term.read? (.atom (constantName index)) = some (.symbol (constantName index)) := by
  have hne {w : String} (hw : w.toList.head? ≠ some 'v') : constantName index ≠ w := by
    rintro rfl
    exact hw (by rw [toList_constantName]; rfl)
  rw [Term.read?, if_neg (hne (by decide)), if_neg (hne (by decide)),
    if_pos (isSymbol_constantName index)]

theorem read?_literal (value width : Nat) :
    Term.read? (.list [.atom "_", .atom ("bv" ++ toString value), .atom (toString width)]) =
      some (.literal value width) := by
  have hvalue : ("bv" ++ toString value).toList = 'b' :: 'v' :: (toString value).toList :=
    String.toList_append
  rw [Term.read?, if_pos rfl, Term.literal?, hvalue]
  simp only [String.ofList_toList, numeral?_toString]
  rfl

def sortSexp (bits : UInt32) : Sexp :=
  .list [.atom "_", .atom "BitVec", .atom (toString bits.toNat)]

theorem width?_sortSexp (bits : UInt32) : width? (sortSexp bits) = some bits.toNat := by
  rw [sortSexp, width?, if_pos ⟨rfl, rfl⟩, numeral?_toString]

theorem reads_sort (bits : UInt32) : Reads s!"(_ BitVec {bits})".toList (sortSexp bits) := by
  have hlist := Reads.list (.cons (Reads.word (w := "_") rfl)
    (.cons (Reads.word (w := "BitVec") rfl)
      (.cons (reads_number bits.toNat) .nil)))
  have htext : s!"(_ BitVec {bits})".toList = '(' :: [' '].intercalate
      ["_".toList, "BitVec".toList, (toString bits).toList] ++ [')'] := by
    simp [toString_self, List.intercalate_cons_cons]
  rw [htext]
  exact hlist

/-- A connective stands in front of its operands. -/
theorem exists_reads_connective (word : String) {f : Term → Term → Term} {left right : String}
    {a b : Term} (hf : Term.connective? word = some f)
    (hword : Reads word.toList (.atom word))
    (ha : ∃ s, Reads left.toList s ∧ Term.read? s = some a)
    (hb : ∃ s, Reads right.toList s ∧ Term.read? s = some b) :
    ∃ s, Reads ('(' :: [' '].intercalate [word.toList, left.toList, right.toList] ++ [')']) s ∧
      Term.read? s = some (f a b) := by
  obtain ⟨s, hs, ha⟩ := ha
  obtain ⟨t, ht, hb⟩ := hb
  exact ⟨_, .list (.cons hword (.cons hs (.cons ht .nil))), read?_connective hf ha hb⟩

theorem exists_reads_symbol (var : UInt32) : ∃ s, Reads (Formula.symbol var).toList s ∧
    Term.read? s = some (.symbol (constantName var.toNat)) :=
  ⟨_, reads_constantName var.toNat, read?_constantName _⟩

theorem exists_reads_literal (value : UInt64) (bits : UInt32) :
    ∃ s, Reads (Formula.literal value bits).toList s ∧
      Term.read? s = some (.literal value.toNat bits.toNat) := by
  have hlist := Reads.list (.cons (Reads.word (w := "_") rfl)
    (.cons (reads_numbered (w := "bv") rfl value.toNat)
      (.cons (reads_number bits.toNat) .nil)))
  have htext : (Formula.literal value bits).toList = '(' :: [' '].intercalate
      ["_".toList, ("bv" ++ toString value).toList, (toString bits).toList] ++ [')'] := by
    simp [Formula.literal, toString_self, List.intercalate_cons_cons]
  exact ⟨_, htext ▸ hlist, read?_literal _ _⟩

theorem exists_reads_quantifier {body : String} {t : Term} (var bits : UInt32)
    (h : ∃ s, Reads body.toList s ∧ Term.read? s = some t) :
    ∃ s, Reads ('(' :: [' '].intercalate ["exists".toList,
        '(' :: ('(' :: [' '].intercalate [(Formula.symbol var).toList, s!"(_ BitVec {bits})".toList] ++
          [')']) ++ [')'], body.toList] ++ [')']) s ∧
      Term.read? s = some (.exists (constantName var.toNat) bits.toNat t) := by
  obtain ⟨s, hs, ht⟩ := h
  have hbinding := Reads.list (.cons (reads_constantName var.toNat) (.cons (reads_sort bits) .nil))
  have hbindings := Reads.list (.cons hbinding .nil)
  rw [List.intercalate_singleton] at hbindings
  have hlist := Reads.list (.cons (Reads.word (w := "exists") rfl)
    (.cons hbindings (.cons hs .nil)))
  refine ⟨_, hlist, ?_⟩
  rw [Term.read?, if_neg (by decide), if_pos rfl, binder?, width?_sortSexp, ht]
  rfl

end LayeredSets.SmtLib

namespace LayeredSets.Formula

open SmtLib

/-- The term that a formula stands for. -/
def term : Formula → SmtLib.Term
  | constant value => .constant value
  | equalsValue var value bits =>
    .equal (.symbol (constantName var.toNat)) (.literal value.toNat bits.toNat)
  | equalsVar a b => .equal (.symbol (constantName a.toNat)) (.symbol (constantName b.toNat))
  | or a b => .or a.term b.term
  | and a b => .and a.term b.term
  | xor a b => .xor a.term b.term
  | not a => .not a.term
  | .exists var bits body => .exists (constantName var.toNat) bits.toNat body.term

/-- The text of a formula is read as its term. -/
theorem exists_reads (f : Formula) : ∃ s, Reads f.text.toList s ∧ SmtLib.Term.read? s = some f.term := by
  induction f with
  | constant value =>
    cases value
    · exact ⟨_, .word (w := "false") rfl, rfl⟩
    · exact ⟨_, .word (w := "true") rfl, rfl⟩
  | equalsValue var value bits =>
    have htext : (equalsValue var value bits).text.toList = '(' :: [' '].intercalate
        ["=".toList, (symbol var).toList, (literal value bits).toList] ++ [')'] := by
      simp [text, toString_self, List.intercalate_cons_cons]
    rw [htext]
    exact exists_reads_connective "=" rfl (.word rfl)
      (exists_reads_symbol var) (exists_reads_literal value bits)
  | equalsVar a b =>
    have htext : (equalsVar a b).text.toList = '(' :: [' '].intercalate
        ["=".toList, (symbol a).toList, (symbol b).toList] ++ [')'] := by
      simp [text, toString_self, List.intercalate_cons_cons]
    rw [htext]
    exact exists_reads_connective "=" rfl (.word rfl)
      (exists_reads_symbol a) (exists_reads_symbol b)
  | or a b iha ihb =>
    have htext : (or a b).text.toList = '(' :: [' '].intercalate
        ["or".toList, a.text.toList, b.text.toList] ++ [')'] := by
      simp [text, toString_self, List.intercalate_cons_cons]
    rw [htext]
    exact exists_reads_connective "or" rfl (.word rfl) iha ihb
  | and a b iha ihb =>
    have htext : (and a b).text.toList = '(' :: [' '].intercalate
        ["and".toList, a.text.toList, b.text.toList] ++ [')'] := by
      simp [text, toString_self, List.intercalate_cons_cons]
    rw [htext]
    exact exists_reads_connective "and" rfl (.word rfl) iha ihb
  | xor a b iha ihb =>
    have htext : (xor a b).text.toList = '(' :: [' '].intercalate
        ["xor".toList, a.text.toList, b.text.toList] ++ [')'] := by
      simp [text, toString_self, List.intercalate_cons_cons]
    rw [htext]
    exact exists_reads_connective "xor" rfl (.word rfl) iha ihb
  | not a ih =>
    obtain ⟨s, hs, ha⟩ := ih
    have htext : (not a).text.toList = '(' :: [' '].intercalate
        ["not".toList, a.text.toList] ++ [')'] := by
      simp [text, toString_self, List.intercalate_cons_cons]
    rw [htext]
    refine ⟨_, .list (.cons (.word (w := "not") rfl) (.cons hs .nil)), ?_⟩
    rw [SmtLib.Term.read?, if_pos rfl, ha]
    rfl
  | «exists» var bits body ih =>
    have htext : (Formula.exists var bits body).text.toList = '(' :: [' '].intercalate
        ["exists".toList,
          '(' :: ('(' :: [' '].intercalate [(symbol var).toList, s!"(_ BitVec {bits})".toList] ++
            [')']) ++ [')'], body.text.toList] ++ [')'] := by
      simp [text, toString_self, List.intercalate_cons_cons]
    rw [htext]
    exact exists_reads_quantifier var bits ih

theorem ofText?_text (f : Formula) : SmtLib.Term.ofText? f.text = some f.term := by
  obtain ⟨s, hs, hterm⟩ := f.exists_reads
  have hread : readText f.text = some [s] := by
    have h := hs [] [] [] (by simp [Stops])
    rw [List.append_nil] at h
    exact h
  rw [SmtLib.Term.ofText?, hread]
  exact hterm

end LayeredSets.Formula

namespace LayeredSets.SmtLib

/-! ## Scripts -/

/-- The constants of variables with these widths. -/
def constants (widths : List UInt32) : Constants :=
  widths.zipIdx.map fun (bits, index) => (constantName index, bits.toNat)

theorem nodup_constants (widths : List UInt32) : ((constants widths).map Prod.fst).Nodup := by
  have hnames : (constants widths).map Prod.fst = (widths.zipIdx.map Prod.snd).map constantName := by
    rw [constants, List.map_map, List.map_map]
    rfl
  rw [hnames, List.zipIdx_map_snd]
  exact List.Nodup.map constantName_injective List.nodup_range'

/-- A line of its own is one more item. -/
theorem Reads.scan_line {text : List Char} {s : Sexp} (h : Reads text s) (items : List Sexp)
    (rest : List Char) : scan [] items [] (text ++ '\n' :: rest) = scan [] (items ++ [s]) [] rest := by
  rw [h _ _ _ (stops_cons (.inl (by decide)) _), scan_space _ _ _ _ (by decide)]
  rfl

def declarationSexp (index : Nat) (bits : UInt32) : Sexp :=
  .list [.atom "declare-const", .atom (constantName index), sortSexp bits]

theorem scan_declaration (v : Variable) (index : Nat) (items : List Sexp) (rest : List Char)
    (hname : ∀ c ∈ v.name.toList, isLineBreak c = false) :
    scan [] items [] ((v.declaration index).toList ++ rest) =
      scan [] (items ++ [declarationSexp index v.bits]) [] rest := by
  have hlist : Reads _ (declarationSexp index v.bits) :=
    Reads.list (.cons (Reads.word (w := "declare-const") rfl)
      (.cons (reads_constantName index) (.cons (reads_sort v.bits) .nil)))
  have htext : (v.declaration index).toList ++ rest =
      ';' :: (' ' :: v.name.toList) ++ '\n' :: ('(' :: [' '].intercalate
        ["declare-const".toList, (constantName index).toList, s!"(_ BitVec {v.bits})".toList] ++
          [')'] ++ '\n' :: rest) := by
    simp [Variable.declaration, toString_self, List.intercalate_cons_cons, toList_constantName]
  have hcomment : ∀ c ∈ ' ' :: v.name.toList, isLineBreak c = false :=
    List.forall_mem_cons.mpr ⟨by decide, hname⟩
  rw [htext, scan_comment _ _ _ _ hcomment, scan_space _ _ _ _ (by decide)]
  exact hlist.scan_line items rest

/-- The declarations come one after the other. -/
theorem scan_declarations (vars : List (Variable × Nat)) (items : List Sexp) (rest : List Char)
    (hnames : ∀ v ∈ vars, ∀ c ∈ v.1.name.toList, isLineBreak c = false) :
    scan [] items [] ((String.join (vars.map fun (v, index) => v.declaration index)).toList ++ rest) =
      scan [] (items ++ vars.map fun (v, index) => declarationSexp index v.bits) [] rest := by
  induction vars generalizing items with
  | nil => simp
  | cons v vars ih =>
    rw [List.map_cons, String.join_cons, String.toList_append, List.append_assoc,
      scan_declaration v.1 v.2 _ _ (hnames v List.mem_cons_self),
      ih _ fun w hw => hnames w (List.mem_cons_of_mem v hw), List.append_assoc, List.map_cons,
      List.singleton_append]

/-- The declarations of constants for variables with these widths. -/
def declarations (widths : List UInt32) : List Sexp :=
  widths.zipIdx.map fun (bits, index) => declarationSexp index bits

/-- The items of a question: the declarations, what is asserted, and the commands to answer. -/
theorem readText_queryScript {vars : List Variable} {f : Formula} {s : Sexp}
    (hs : Reads f.text.toList s) (hnames : ∀ v ∈ vars, ∀ c ∈ v.name.toList, isLineBreak c = false) :
    readText (queryScript vars f.text) =
      some (declarations (vars.map (·.bits)) ++
        [.list [.atom "assert", s], .list [.atom "check-sat"], .list [.atom "exit"]]) := by
  have hassert := Reads.list (.cons (Reads.word (w := "assert") rfl)
    (.cons hs .nil))
  have hcheck := Reads.list (.cons (Reads.word (w := "check-sat") rfl) .nil)
  have hexit := Reads.list (.cons (Reads.word (w := "exit") rfl) .nil)
  have htail : s!"(assert {f.text})\n(check-sat)\n(exit)\n".toList =
      '(' :: [' '].intercalate ["assert".toList, f.text.toList] ++ [')'] ++ '\n' ::
        ('(' :: [' '].intercalate ["check-sat".toList] ++ [')'] ++ '\n' ::
          ('(' :: [' '].intercalate ["exit".toList] ++ [')'] ++ '\n' :: [])) := by
    simp [toString_self, List.intercalate_cons_cons]
  have hall : ∀ v ∈ vars.zipIdx, ∀ c ∈ v.1.name.toList, isLineBreak c = false :=
    fun v hv => hnames v.1 (List.fst_mem_of_mem_zipIdx hv)
  change scan [] [] [] (queryScript vars f.text).toList = _
  rw [queryScript, String.toList_append, scan_declarations _ _ _ hall, htail, hassert.scan_line,
    hcheck.scan_line, hexit.scan_line]
  simp [scan, uncomment, readFrom, endWord, declarations, List.zipIdx_map]

/-- Constants may be declared as long as their names are new. -/
theorem ofCommands?_declarations {declared : List (String × Nat)} {p : Problem}
    {commands : List Command} (hsymbol : ∀ c ∈ declared, isSymbol c.1 = true ∧ 0 < c.2)
    (hnodup : ((p.constants ++ declared).map Prod.fst).Nodup) :
    p.ofCommands? (declared.map (fun c => .declareConst c.1 c.2) ++ commands) =
      Problem.ofCommands? { p with constants := p.constants ++ declared } commands := by
  induction declared generalizing p with
  | nil => simp
  | cons c declared ih =>
    have hc := hsymbol c List.mem_cons_self
    have hnew : p.constants.scope c.1 = none := by
      rw [Constants.scope, List.lookup_eq_none_iff]
      intro other hother
      rw [List.map_append, List.nodup_append] at hnodup
      have := hnodup.2.2 other.1 (List.mem_map_of_mem hother) c.1 (by simp)
      simpa using this.symm
    rw [List.map_cons, List.cons_append, Problem.ofCommands?, if_pos ⟨hc.1, hc.2, hnew⟩,
      ih (fun d hd => hsymbol d (List.mem_cons_of_mem c hd)) (by simpa using hnodup)]
    simp

/-- Declarations are read as such. -/
theorem read?_declarations (widths : List UInt32) : (declarations widths).mapM Command.read? =
    some ((constants widths).map fun c => .declareConst c.1 c.2) := by
  rw [declarations, constants]
  induction widths.zipIdx with
  | nil => rfl
  | cons v vars ih =>
    have hfirst : Command.read? (declarationSexp v.2 v.1) =
        some (.declareConst (constantName v.2) v.1.toNat) := by
      rw [declarationSexp, Command.read?, if_pos rfl, width?_sortSexp]
      rfl
    rw [List.map_cons, List.mapM_cons, hfirst, ih]
    rfl

/-- A question reads as the problem whether its formula has a model. -/
theorem read?_queryScript {vars : List Variable} {f : Formula}
    (hnames : ∀ v ∈ vars, ∀ c ∈ v.name.toList, isLineBreak c = false)
    (hpos : ∀ v ∈ vars, 0 < v.bits.toNat)
    (hsort : f.term.sort? (constants (vars.map (·.bits))).scope = some .bool) :
    Problem.read? (queryScript vars f.text) = some ⟨constants (vars.map (·.bits)), [f.term]⟩ := by
  obtain ⟨s, hs, hterm⟩ := f.exists_reads
  have hassert : Command.read? (.list [.atom "assert", s]) = some (.assert f.term) := by
    rw [Command.read?, if_pos rfl, hterm]
    rfl
  rw [Problem.read?, readText_queryScript hs hnames]
  change (List.mapM Command.read? _ >>= fun commands => Problem.ofCommands? ⟨[], []⟩ commands) = _
  rw [List.mapM_append, read?_declarations, List.mapM_cons, hassert]
  refine (ofCommands?_declarations ?_ (nodup_constants _)).trans ?_
  · intro c hc
    obtain ⟨⟨bits, index⟩, hmem, rfl⟩ := List.mem_map.mp hc
    obtain ⟨v, hv, rfl⟩ := List.mem_map.mp (List.fst_mem_of_mem_zipIdx hmem)
    exact ⟨isSymbol_constantName _, hpos v hv⟩
  · exact (if_pos hsort).trans rfl

end LayeredSets.SmtLib
