import LayeredSets.Observer.Recording
import LayeredSets.Proofs.Explicit.Apply
import LayeredSets.Proofs.Run
import LayeredSets.Proofs.Token.Words
import LayeredSets.Proofs.Trace.Parse

/-!
# Lines of recordings

The line that is recorded of a successful call is read as one step, and it is the step that makes
this call with the handles of the recording. The line of a failed call is read as a comment.
-/

namespace LayeredSets

open Trace (Reads)

/-- A declaration has a name as both input formats have them. -/
def Call.Named {k : Answer} : Call k → Prop
  | declare name _ => isName name = true
  | _ => True

/-- A declaration has a positive width. -/
def Call.Wide {k : Answer} : Call k → Prop
  | declare _ bits => 0 < bits.toNat
  | _ => True

/-- An operation as it is recorded: a query keeps its answer in check mode only. -/
def Trace.Op.inMode (checkMode : Bool) : Op → Op
  | query q expected => query q (if checkMode then expected else none)
  | o => o

@[simp] theorem Trace.Op.inMode_true (o : Op) : o.inMode true = o := by
  cases o <;> rfl

namespace Recording

/-- The step that stands for a successful call. -/
def stepOp : {k : Answer} → Call k → k.Value → Trace.Op
  | _, .declare name bits, v => .declare v.text name bits
  | _, .top, s => .define s.text .top
  | _, .bottom, s => .define s.text .bottom
  | _, .varEqConst var value, s => .define s.text (.const var.text value)
  | _, .varEqVar a b, s => .define s.text (.eqvar a.text b.text)
  | _, .singleton point, s => .define s.text (.single point)
  | _, .union a b, s => .define s.text (.union a.text b.text)
  | _, .intersect a b, s => .define s.text (.inter a.text b.text)
  | _, .difference a b, s => .define s.text (.diff a.text b.text)
  | _, .complement a, s => .define s.text (.compl a.text)
  | _, .exists set var, s => .define s.text (.exists set.text var.text)
  | _, .isEmpty set, answer => .query (.empty set.text) (some answer)
  | _, .equal a b, answer => .query (.equal a.text b.text) (some answer)
  | _, .subset a b, answer => .query (.subset a.text b.text) (some answer)
  | _, .release set, () => .release set.text

/-- Handles are never mistaken for the first words of other lines. -/
theorem numbered_notMem_leading (letter : Char) (n : Nat) :
    letter.toString ++ toString n ∉ Trace.leading := by
  have hletters : ∀ word ∈ Trace.leading, ∃ a b rest, word.toList = a :: b :: rest ∧
      b.isDigit = false := by
    simp [Trace.leading]
  intro hmem
  obtain ⟨a, b, rest, hword, hb⟩ := hletters _ hmem
  exact numbered_ne hword hb rfl

/-- The step of a successful call is one that can be read. -/
theorem valid_stepOp {k : Answer} {call : Call k} (value : k.Value) (hwide : call.Wide) :
    (stepOp call value).Valid := by
  have hset (set : SetId) : set.text ∉ Trace.leading := numbered_notMem_leading 's' set.index.toNat
  cases call with
  | declare name bits =>
    exact ⟨numbered_notMem_leading 'v' value.index.toNat, UInt32.lt_iff_toNat_lt.mpr hwide⟩
  | isEmpty | equal | subset | release => trivial
  | _ => exact hset value

/-- Handles, names, keywords and numbers are all that the line of a step has. -/
theorem isWord_stepOp {k : Answer} {call : Call k} (value : k.Value) (hnamed : call.Named)
    (checkMode : Bool) : ∀ t ∈ ((stepOp call value).inMode checkMode).spelling, t.IsWord := by
  have hset (set : SetId) : (Token.word set.text).IsWord := isName_set set
  have hvar (var : VarId) : (Token.word var.text).IsWord := isName_var var
  have hnumber (n : UInt64) : (Token.number n).IsWord := trivial
  have hassign : (Token.symbol '=').IsWord := rfl
  have harrow : Token.arrow.IsWord := trivial
  have hkeyword : ∀ word ∈ ["declare", "top", "bottom", "const", "eqvar", "single", "union", "inter",
      "diff", "compl", "exists", "empty", "equal", "subset", "release", "true", "false"],
      (Token.word word).IsWord := by
    unfold Token.IsWord
    decide
  have hanswer (answer : Bool) : (Token.word (toString answer)).IsWord :=
    hkeyword _ (by cases answer <;> decide)
  cases call with
  | declare name bits =>
    have hname : (Token.word name).IsWord := hnamed
    simp [stepOp, Trace.Op.inMode, Trace.Op.spelling, *]
  | isEmpty | equal | subset =>
    cases checkMode <;>
      simp [stepOp, Trace.Op.inMode, Trace.Op.spelling, Trace.Query.spelling, Trace.answerSpelling, *]
  | _ => simp [stepOp, Trace.Op.inMode, Trace.Op.spelling, Trace.Definition.spelling, *]

/-! ## The lines themselves -/

theorem trimEnd_blank (cs : List Char) : Text.trimEnd (cs ++ [' ']) = Text.trimEnd cs := by
  simp [Text.trimEnd, show Text.isBlank ' ' = true by decide]

/-- The blank that an empty point would leave at the end of the line is trimmed off. -/
theorem stepLine_singleton (checkMode : Bool) (point : List UInt64) (set : SetId) :
    stepLine checkMode (.singleton point) (.set set) =
      " ".intercalate ((stepOp (.singleton point) set).spelling.map Token.text) := by
  have hline := spells_texts (@isWord_stepOp .set (.singleton point) set trivial true)
    (List.cons_ne_nil _ _)
  have htrim := hline.trimEnd []
  rw [← String.toList_inj]
  cases point with
  | nil =>
    have hblank := (trimEnd_blank _).trans htrim
    simpa [stepLine, stepOp, Trace.Op.inMode, Trace.Op.spelling, Trace.Definition.spelling,
      Token.text, toString_self] using hblank
  | cons first point =>
    simpa [stepLine, stepOp, Trace.Op.inMode, Trace.Op.spelling, Trace.Definition.spelling,
      Token.text, toString_self, Function.comp_def, List.intercalate_cons_cons] using htrim

/-- The line of a successful call has the tokens of its step, with single blanks between them. -/
theorem stepLine_eq {k : Answer} (checkMode : Bool) (call : Call k) (value : k.Value) :
    stepLine checkMode call (k.reply value) =
      " ".intercalate (((stepOp call value).inMode checkMode).spelling.map Token.text) := by
  cases call with
  | singleton point => exact stepLine_singleton checkMode point value
  | declare name bits =>
    rw [← String.toList_inj]
    simp [stepLine, Answer.reply, stepOp, Trace.Op.inMode, Trace.Op.spelling, Token.text,
      toString_self, toString_toUInt64]
  | isEmpty | equal | subset =>
    rw [← String.toList_inj]
    cases checkMode <;>
      simp [stepLine, Answer.reply, queryLine, stepOp, Trace.Op.inMode, Trace.Op.spelling,
        Trace.Query.spelling, Trace.answerSpelling, Token.text, toString_self]
  | _ =>
    rw [← String.toList_inj]
    simp [stepLine, Answer.reply, stepOp, Trace.Op.inMode, Trace.Op.spelling,
      Trace.Definition.spelling, Token.text, toString_self]

/-- The line of a query ends with the answer. -/
theorem line_query (call : Call .bool) :
    ∃ query, ∀ answer, line true call (.ok (.bool answer)) = query ++ " -> " ++ toString answer := by
  cases call <;> exact ⟨_, fun _ => rfl⟩

/-! ## Lines without a step -/

/-- There is no line break in a text. -/
def OnLine (text : String) : Prop := '\n' ∉ text.toList

instance (text : String) : Decidable (OnLine text) :=
  inferInstanceAs (Decidable ('\n' ∉ text.toList))

theorem OnLine.append {a b : String} (ha : OnLine a) (hb : OnLine b) : OnLine (a ++ b) := by
  rw [OnLine, String.toList_append, List.mem_append, not_or]
  exact ⟨ha, hb⟩

theorem onLine_lexeme {word : String} {t : Token} (h : Lexeme word.toList t) : OnLine word :=
  h.break_notMem

theorem onLine_numeral (n : Nat) : OnLine (toString n) := by
  obtain ⟨c, cs, htext, hc, hcs, -⟩ := toList_numeral n
  rw [OnLine, htext]
  rintro (_ | ⟨_, hmem⟩)
  · cases hc
  · cases hcs _ hmem

theorem onLine_intercalate {separator : String} (hseparator : OnLine separator)
    {words : List String} (h : ∀ word ∈ words, OnLine word) :
    OnLine (separator.intercalate words) := by
  induction words with
  | nil => simp [OnLine]
  | cons word words ih =>
    obtain ⟨hword, hwords⟩ := List.forall_mem_cons.mp h
    cases words with
    | nil => simpa using hword
    | cons next words =>
      rw [String.intercalate_cons_of_ne_nil (List.cons_ne_nil _ _)]
      exact (hword.append hseparator).append (ih hwords)

theorem onLine_call {k : Answer} {call : Call k} (h : call.Named) : OnLine call.text := by
  have hset (set : SetId) : OnLine set.text := onLine_lexeme (lexeme_name (isName_set set))
  have hvar (var : VarId) : OnLine var.text := onLine_lexeme (lexeme_name (isName_var var))
  have hnumber (value : UInt64) : OnLine (toString value) := onLine_numeral value.toNat
  have hcomma : OnLine ", " := by decide
  have harguments : ∀ argument ∈ call.arguments, OnLine argument := by
    cases call with
    | declare name bits =>
      intro argument hargument
      rcases List.mem_pair.mp hargument with rfl | rfl
      · exact onLine_lexeme (lexeme_name h)
      · exact onLine_numeral bits.toNat
    | singleton point =>
      refine List.forall_mem_singleton.mpr ?_
      exact (OnLine.append (by decide) (onLine_intercalate hcomma (by simp [hnumber]))).append
        (by decide)
    | _ => simp [Call.arguments, hset, hvar, hnumber]
  have hkind : OnLine call.kind := by cases call <;> simp [OnLine, Call.kind]
  exact ((hkind.append (by decide)).append (onLine_intercalate hcomma harguments)).append
    (by decide)

theorem onLine_message {e : DomainError} (h : e.Plain) : OnLine e.message := by
  cases e with
  | unsupported operation domain => exact h.elim
  | backend message => exact h.elim
  | unknownSet set => exact .append (by decide) (onLine_lexeme (lexeme_name (isName_set set)))
  | unknownVariable var => exact .append (by decide) (onLine_lexeme (lexeme_name (isName_var var)))
  | invalidWidth bits =>
    exact .append (.append (by decide) (onLine_numeral bits.toNat)) (by decide)
  | valueOutOfRange value bits =>
    exact .append (.append (.append (.append (by decide) (onLine_numeral value.toNat)) (by decide))
      (onLine_numeral bits.toNat)) (by decide)
  | widthMismatch left right =>
    exact .append (.append (.append (.append (by decide) (onLine_numeral left.toNat)) (by decide))
      (onLine_numeral right.toNat)) (by decide)
  | arityMismatch expected got =>
    exact .append (.append (.append (.append (by decide) (onLine_numeral got)) (by decide))
      (onLine_numeral expected)) (by decide)
  | universeTooLarge bits limit =>
    exact .append (.append (.append (by decide) (onLine_numeral bits.toNat)) (by decide))
      (onLine_numeral limit.toNat)

/-! ## Reading what was recorded -/

/-- The line of a call that succeeded is read as its step. -/
theorem reads_step {k : Answer} {call : Call k} (value : k.Value) (hnamed : call.Named)
    (hwide : call.Wide) (checkMode : Bool) :
    Reads (line checkMode call (.ok (k.reply value))).toList
      (some ((stepOp call value).inMode checkMode)) := by
  have hne : ((stepOp call value).inMode checkMode).spelling ≠ [] := by
    cases call <;> simp [stepOp, Trace.Op.inMode, Trace.Op.spelling, Trace.Query.spelling]
  have hvalid : ((stepOp call value).inMode checkMode).Valid := by
    have h := valid_stepOp value hwide
    cases hop : stepOp call value <;> rw [hop] at h <;> exact h
  rw [line, stepLine_eq]
  exact .op (spells_texts (isWord_stepOp value hnamed checkMode) hne) hvalid

theorem reads_ok {k : Answer} {call : Call k} (value : k.Value) (hnamed : call.Named)
    (hwide : call.Wide) :
    Reads (line true call (.ok (k.reply value))).toList (some (stepOp call value)) := by
  have h := reads_step value hnamed hwide true
  rwa [Trace.Op.inMode_true] at h

/-- The line of a call that failed is no step, if its message does not go on on another line. -/
theorem reads_error {k : Answer} {call : Call k} (hnamed : call.Named) {e : DomainError}
    (he : OnLine e.message) (checkMode : Bool) :
    Reads (line checkMode call (.error e)).toList none := by
  have honLine : OnLine (s!" failed: {call.text}: {e.message}") :=
    .append (.append (.append (by decide) (onLine_call hnamed)) (by decide)) he
  have hline : (line checkMode call (.error e)).toList =
      '#' :: (s!" failed: {call.text}: {e.message}").toList := by
    simp [line, toString_self]
  rw [hline]
  exact .comment honLine

/-- The header is made of comments. -/
theorem reads_header (checkMode : Bool) :
    List.Forall₂ Reads ((header checkMode).map String.toList)
      (List.replicate (header checkMode).length none) := by
  have comment {line : String} {body : List Char} (hline : line.toList = '#' :: body)
      (hbody : '\n' ∉ body) : Reads line.toList none := hline ▸ .comment hbody
  cases checkMode with
  | false => exact .cons (comment rfl (by decide)) .nil
  | true => exact .cons (comment rfl (by decide)) (.cons (comment rfl (by decide)) .nil)

theorem reads_header_append (checkMode : Bool) {lines : List String} {ops : List (Option Trace.Op)}
    (h : List.Forall₂ Reads (lines.map String.toList) ops) :
    List.Forall₂ Reads ((header checkMode ++ lines).map String.toList)
      (List.replicate (header checkMode).length none ++ ops) := by
  rw [List.map_append]
  exact List.rel_append (reads_header checkMode) h

end Recording
end LayeredSets
