import LayeredSets.Proofs.Script.Transport
import LayeredSets.Proofs.Script.Printed
import LayeredSets.Proofs.Script.Exact
import LayeredSets.Explicit.Basic
import Mathlib

/-!
# Printing what was read

All names in a script that was read can be read again, and so its expressions and queries are read
again as they are printed. Among them is the query that the failure of an assertion shows.
-/

namespace LayeredSets

/-! ## Words of a text -/

namespace Piece

theorem first_word {c : Char} {rest name : List Char} (h : (first c rest).1 = .word name) :
    isName (String.ofList name) = true := by
  unfold first at h
  repeat' split at h
  all_goals cases h
  next hstart =>
    refine isName_iff.mpr ⟨c, rest.takeWhile isWordChar, String.toList_ofList, hstart, ?_⟩
    exact fun x hx => List.mem_takeWhile_imp hx

theorem isName_of_mem_split {text name : List Char} (h : .word name ∈ split text) :
    isName (String.ofList name) = true := by
  fun_induction split text with
  | case1 => cases h
  | case2 c rest ih =>
    rcases List.mem_cons.mp h with heq | hrest
    · exact first_word heq.symm
    · exact ih hrest

end Piece

theorem Tokens.mem_of_ofPieces {keepBreaks muted : Bool} {position : Position} {pieces : List Piece}
    {ts : Tokens} {name : String} (h : ofPieces keepBreaks muted position pieces = .ok ts)
    (hname : .word name ∈ ts.items.map (·.token)) :
    ∃ w, .word w ∈ pieces ∧ name = String.ofList w := by
  induction pieces generalizing muted position ts with
  | nil =>
    cases h
    cases hname
  | cons piece pieces ih =>
    have hlater {muted' : Bool} {position' : Position} {rest : Tokens}
        (hrest : ofPieces keepBreaks muted' position' pieces = .ok rest)
        (hmem : .word name ∈ rest.items.map (·.token)) :
        ∃ w, .word w ∈ piece :: pieces ∧ name = String.ofList w :=
      (ih hrest hmem).imp fun w hw => ⟨List.mem_cons_of_mem _ hw.1, hw.2⟩
    -- a piece that is a token comes first, whatever it is
    have htoken {t : Token} {muted' : Bool} {position' : Position}
        (h : cons t position <$> ofPieces keepBreaks muted' position' pieces = .ok ts)
        (ht : t = .word name → ∃ w, .word w ∈ piece :: pieces ∧ name = String.ofList w) :
        ∃ w, .word w ∈ piece :: pieces ∧ name = String.ofList w := by
      cases hrest : ofPieces keepBreaks muted' position' pieces with
      | error e =>
        rw [hrest] at h
        cases h
      | ok rest =>
        rw [hrest] at h
        obtain rfl := Except.ok.inj h
        rcases List.mem_cons.mp hname with heq | hmem
        · exact ht heq.symm
        · exact hlater hrest hmem
    cases piece with
    | word w => exact htoken h fun ht => ⟨w, List.mem_cons_self, (Token.word.inj ht).symm⟩
    | blank c => exact hlater h hname
    | comment body => exact hlater h hname
    | lineBreak =>
      rw [ofPieces] at h
      split at h
      · exact htoken h (by simp)
      · exact hlater h hname
    | number digits =>
      rw [ofPieces] at h
      simp only at h
      split at h
      · exact htoken h (by simp)
      · cases h
    | symbol c => exact htoken h (by simp)
    | equals => exact htoken h (by simp)
    | arrow => exact htoken h (by simp)
    | stray c => cases h
/-- Every word among the tokens of a text has the form of a name. -/
theorem isName_of_tokenize {text : List Char} {keepBreaks : Bool} {ts : Tokens} {name : String}
    (h : tokenize text keepBreaks = .ok ts) (hname : .word name ∈ ts.items.map (·.token)) :
    isName name = true := by
  obtain ⟨w, hw, rfl⟩ := Tokens.mem_of_ofPieces h hname
  exact Piece.isName_of_mem_split hw

namespace Script

/-! ## Names of a derivation -/

/-- All names in what a rule makes of an expression with such names have the property. -/
def Rule.AllNames (P : String → Prop) : (r : Rule) → r.Meaning → Prop
  | terms, f | unaries, f => ∀ left : Expr, (∀ n ∈ left.names, P n) → ∀ n ∈ (f left).names, P n
  | expr, e | term, e | unary, e | atom, e => ∀ n ∈ e.names, P n

variable {P : String → Prop}

theorem Expr.forall_names_append {a b : Expr} (ha : ∀ n ∈ a.names, P n) (hb : ∀ n ∈ b.names, P n) :
    ∀ n ∈ a.names ++ b.names, P n :=
  fun n hn => (List.mem_append.mp hn).elim (ha n) (hb n)

theorem Derivation.allNames {r : Rule} (d : Derivation r)
    (h : ∀ n : Name, .word n.word ∈ d.tokens → P n.word) : r.AllNames P d.meaning := by
  induction d with
  | expr first more ih ih' =>
    exact ih' (fun n hn => h n (by simp [tokens, hn])) _ (ih fun n hn => h n (by simp [tokens, hn]))
  | noTerms => exact fun _ hleft => hleft
  | union next more ih ih' =>
    intro left hleft
    have hnext := ih fun n hn => h n (by simp [tokens, hn])
    exact ih' (fun n hn => h n (by simp [tokens, hn])) _ (Expr.forall_names_append hleft hnext)
  | difference next more ih ih' =>
    intro left hleft
    have hnext := ih fun n hn => h n (by simp [tokens, hn])
    exact ih' (fun n hn => h n (by simp [tokens, hn])) _ (Expr.forall_names_append hleft hnext)
  | term first more ih ih' =>
    exact ih' (fun n hn => h n (by simp [tokens, hn])) _ (ih fun n hn => h n (by simp [tokens, hn]))
  | noUnaries => exact fun _ hleft => hleft
  | intersect next more ih ih' =>
    intro left hleft
    have hnext := ih fun n hn => h n (by simp [tokens, hn])
    exact ih' (fun n hn => h n (by simp [tokens, hn])) _ (Expr.forall_names_append hleft hnext)
  | complement operand ih => exact ih fun n hn => h n (by simp [tokens, hn])
  | unary operand ih => exact ih h
  | group inner ih => exact ih fun n hn => h n (by simp [tokens, hn])
  | top | bottom | point values => exact fun _ hn => absurd hn List.not_mem_nil
  | «exists» var body ih =>
    have hbody := ih fun n hn => h n (by simp [tokens, hn])
    exact List.forall_mem_cons.mpr ⟨h var (by simp [tokens]), hbody⟩
  | name n => exact List.forall_mem_singleton.mpr (h n (by simp [tokens]))
  | equalsValue var value => exact List.forall_mem_singleton.mpr (h var (by simp [tokens]))
  | equalsVar a b =>
    exact List.forall_mem_cons.mpr ⟨h a (by simp [tokens]),
      List.forall_mem_singleton.mpr (h b (by simp [tokens]))⟩

theorem QueryDerivation.allNames (d : QueryDerivation)
    (h : ∀ n : Name, .word n.word ∈ d.tokens → P n.word) : ∀ n ∈ d.meaning.names, P n := by
  cases d with
  | empty a => exact a.allNames fun n hn => h n (by simp [tokens, hn])
  | equal a b | subset a b =>
    exact Expr.forall_names_append (a.allNames fun n hn => h n (by simp [tokens, hn]))
      (b.allNames fun n hn => h n (by simp [tokens, hn]))

/-! ## Statements that were read -/

/-- A statement's expression or query is read again as it is printed. -/
def Reprints : Command → Prop
  | .var _ _ => True
  | .define name e =>
    parse ("let " ++ name ++ " = " ++ e.text ++ ";").toList = .ok [⟨1, .define name e⟩]
  | .print q | .assert q => parse ("print " ++ q.text ++ ";").toList = .ok [⟨1, .print q⟩]

theorem StatementDerivation.reprints (d : StatementDerivation)
    (h : ∀ n : Name, .word n.word ∈ d.tokens → isName n.word = true) : Reprints d.meaning := by
  have hidentifier (n : Name) (hn : .word n.word ∈ d.body) : IsIdentifier n.word :=
    ⟨h n (List.mem_append_left _ hn), n.free⟩
  cases d with
  | var name bits positive => trivial
  | define name e =>
    exact parse_define name.word e.meaning (hidentifier name (by simp [body]))
      (e.allNames fun n hn => hidentifier n (by simp [body, hn]))
  | print q | assert q =>
    exact parse_print q.meaning (q.allNames fun n hn => hidentifier n (by simp [body, hn]))

theorem ProgramDerivation.mem_script {program : ProgramDerivation} {items : List Located}
    {s : Statement} (h : s ∈ program.script items) : ∃ d ∈ program, s.command = d.meaning := by
  induction program generalizing items with
  | nil => cases h
  | cons d program ih =>
    rcases List.mem_cons.mp h with rfl | hs
    · exact ⟨d, List.mem_cons_self, rfl⟩
    · obtain ⟨d', hd', heq⟩ := ih hs
      exact ⟨d', List.mem_cons_of_mem _ hd', heq⟩

theorem reprints_of_parse {text : List Char} {script : Script} (h : parse text = .ok script)
    {s : Statement} (hs : s ∈ script) : Reprints s.command := by
  obtain ⟨ts, htokens, hstatements⟩ := bind_eq_ok h
  obtain ⟨program, hprogram⟩ := derives_statements ts script hstatements
  obtain rfl := Except.ok.inj (hstatements.symm.trans (program.parses ts hprogram))
  obtain ⟨d, hd, heq⟩ := ProgramDerivation.mem_script hs
  rw [heq]
  refine d.reprints fun n hn => isName_of_tokenize htokens ?_
  rw [← hprogram]
  exact List.mem_flatMap.mpr ⟨d, hd, hn⟩

/-! ## Failed assertions -/

section

variable {σ α : Type} (ops : Operations σ) (line : Nat)

/-- All errors but that of an assertion. -/
def NoAssertion (e : RunError) : Prop := ∀ text line, e ≠ .assertionFailed text line

open Action

theorem fails_call {k : Answer} (c : Call k) : Fails NoAssertion (call ops line c) := by
  refine ⟨fun s host e h => ?_⟩
  simp only [call, mapError, within] at h
  cases hr : (ops.step c s.domain host).1 with
  | error e' =>
    rw [hr] at h
    obtain rfl := Except.error.inj h
    rintro _ _ ⟨⟩
  | ok a =>
    rw [hr] at h
    cases h

instance (c : Call .var) : Fails NoAssertion (call ops line c) := fails_call ops line c

instance (c : Call .set) : Fails NoAssertion (call ops line c) := fails_call ops line c

instance (c : Call .unit) : Fails NoAssertion (call ops line c) := fails_call ops line c

instance (name : String) : Fails NoAssertion (findVar line name : Run σ VarId) :=
  have (s : State σ) : Fails NoAssertion
      (require (s.vars.get? name) (.undefinedVariable name line) : Run σ VarId) :=
    fails_require nofun _
  inferInstanceAs (Fails NoAssertion (Action.get >>= _))

instance (name : String) : Fails NoAssertion (findSet line name : Run σ SetId) :=
  have (s : State σ) : Fails NoAssertion
      (require (s.sets.get? name) (.undefinedSet name line) : Run σ SetId) :=
    fails_require nofun _
  inferInstanceAs (Fails NoAssertion (Action.get >>= _))

instance (value : Value) : Fails NoAssertion (release ops line value) := by
  rw [release]
  infer_instance

instance {x : Run σ SetId} [Fails NoAssertion x] : Fails NoAssertion (fresh x) :=
  inferInstanceAs (Fails NoAssertion (x >>= fun set => pure (Value.mk set true)))

/-- The outcome of a call is handed on after something that does not fail with an assertion. -/
theorem fails_handOn {k : Answer} (c : Call k) {x : Run σ Unit} (hx : Fails NoAssertion x) :
    Fails NoAssertion (do
      let result ← (call ops line c).outcome
      x
      ofExcept result : Run σ k.Value) :=
  fails_outcome_bind (fails_call ops line c)
    (fun a => inferInstanceAs (Fails NoAssertion (x >>= fun _ => pure a)))
    fun e he => have : Fails NoAssertion (ofExcept (.error e) : Run σ k.Value) := fails_fail he
      inferInstance

theorem fails_useOne {k : Answer} {x : Run σ Value} [Fails NoAssertion x] (c : SetId → Call k) :
    Fails NoAssertion (useOne ops line x c) :=
  have (a : Value) := fails_handOn ops line (c a.set) (x := release ops line a) inferInstance
  inferInstanceAs (Fails NoAssertion (x >>= _))

theorem fails_useTwo {k : Answer} {x y : Run σ Value} [Fails NoAssertion x] [Fails NoAssertion y]
    (c : SetId → SetId → Call k) : Fails NoAssertion (useTwo ops line x y c) := by
  have (a b : Value) : Fails NoAssertion (do
      let result ← (call ops line (c a.set b.set)).outcome
      release ops line a
      release ops line b
      ofExcept result : Run σ k.Value) := by
    have h := fails_handOn ops line (c a.set b.set)
      (x := release ops line a >>= fun _ => release ops line b) inferInstance
    simpa only [bind_assoc] using h
  exact inferInstanceAs (Fails NoAssertion (x >>= _))

instance {x : Run σ Value} [Fails NoAssertion x] (c : SetId → Call .set) :
    Fails NoAssertion (useOne ops line x c) := fails_useOne ops line c

instance {x y : Run σ Value} [Fails NoAssertion x] [Fails NoAssertion y]
    (c : SetId → SetId → Call .set) : Fails NoAssertion (useTwo ops line x y c) :=
  fails_useTwo ops line c

theorem fails_eval (e : Expr) : Fails NoAssertion (eval ops line e) := by
  induction e <;> rw [eval] <;> infer_instance

theorem fails_ask (q : Query) : Fails NoAssertion (ask ops line q) := by
  have h := fails_eval ops line
  cases q <;> rw [ask]
  · exact fails_useOne ops line _
  · exact fails_useTwo ops line _
  · exact fails_useTwo ops line _

instance (value : Value) : Fails NoAssertion (owned ops line value) := by
  rw [owned]
  infer_instance

instance (name : String) (set : SetId) : Fails NoAssertion (bindName ops line name set) := by
  have hrelease (previous : Option SetId) : Fails NoAssertion (previous.elim (pure ())
      fun previous => call ops line (.release previous) : Run σ Unit) := by
    cases previous
    · exact inferInstanceAs (Fails _ (pure ()))
    · exact inferInstanceAs (Fails _ (call ops line _))
  rw [bindName]
  infer_instance

theorem fails_define (name : String) (e : Expr) : Fails NoAssertion (define ops line name e) := by
  have heval := fails_eval ops line e
  rw [define_eq]
  infer_instance

theorem fails_declare (name : String) (bits : UInt32) :
    Fails NoAssertion (declare ops line name bits) := by
  have : Fails NoAssertion (fail (.redeclared name line) : Run σ Unit) := fails_fail nofun
  rw [declare]
  infer_instance

theorem fails_write (piece : String) : Fails NoAssertion (write piece : Run σ Unit) := by
  have : Fails NoAssertion (fail (.output "sink is full") : Run σ Unit) := fails_fail nofun
  rw [write]
  infer_instance

/-- Only an assertion fails as one, on its line and with the text of its query. -/
def FromAssertion (c : Command) (e : RunError) : Prop :=
  ∀ text l, e = .assertionFailed text l → l = line ∧ ∃ q, c = .assert q ∧ text = q.text

theorem NoAssertion.fromAssertion {c : Command} {x : Run σ α} (hx : Fails NoAssertion x) :
    Fails (FromAssertion line c) x :=
  ⟨fun s host e h text l heq => absurd heq (hx.fails s host e h text l)⟩

theorem fails_execute (c : Command) : Fails (FromAssertion line c) (execute ops line c) := by
  cases c with
  | var name bits => exact NoAssertion.fromAssertion line (fails_declare ops line name bits)
  | define name e => exact NoAssertion.fromAssertion line (fails_define ops line name e)
  | print q =>
    have hask := fails_ask ops line q
    have hwrite (piece : String) := @fails_write σ piece
    refine NoAssertion.fromAssertion line ?_
    rw [execute]
    infer_instance
  | assert q =>
    have hask : Fails (FromAssertion line (.assert q)) (ask ops line q) :=
      NoAssertion.fromAssertion line (fails_ask ops line q)
    have hfail : Fails (FromAssertion line (.assert q))
        (fail (.assertionFailed q.text line) : Run σ Unit) := by
      refine fails_fail ?_
      rintro _ _ ⟨⟩
      exact ⟨rfl, q, rfl, rfl⟩
    rw [execute]
    infer_instance

/-- A script that fails with an assertion has it. -/
theorem exists_assertion {script : Script} {s : State σ} {host : Host} {text : String} {line : Nat}
    (h : (script.run ops s host).1 = .error (.assertionFailed text line)) :
    ∃ q, ⟨line, .assert q⟩ ∈ script ∧ text = q.text := by
  have hforM : ((List.forM script fun statement =>
      execute ops statement.line statement.command) s host).1 =
        .error (.assertionFailed text line) := by
    rw [Script.run, bind_apply] at h
    split at h
    · cases h
    · next heq =>
      rw [heq]
      exact congrArg Except.error (Except.error.inj h)
  obtain ⟨statement, hmem, s', host', hfails⟩ := exists_of_forM_error script hforM
  obtain ⟨rfl, q, hq, htext⟩ :=
    (fails_execute ops statement.line statement.command).fails s' host' _ hfails text line rfl
  exact ⟨q, hq ▸ hmem, htext⟩

end

/-- A query or an expression whose names can be read is read as it is printed, in a statement of its
own. So everything that was read can be printed and read again, and what the failure of an assertion
shows is read as the query of the assertion. -/
theorem parse_printed :
    (∀ q : Query, (∀ n ∈ q.names, IsIdentifier n) →
      parse ("print " ++ q.text ++ ";").toList = .ok [⟨1, .print q⟩]) ∧
    (∀ (name : String) (e : Expr), IsIdentifier name → (∀ n ∈ e.names, IsIdentifier n) →
      parse ("let " ++ name ++ " = " ++ e.text ++ ";").toList = .ok [⟨1, .define name e⟩]) ∧
    ∀ (text : List Char) (script : Script), parse text = .ok script →
      (∀ s ∈ script, Reprints s.command) ∧
      ∀ {σ : Type} (ops : Operations σ) (s : State σ) (host : Host) (shown : String) (line : Nat),
        (script.run ops s host).1 = .error (.assertionFailed shown line) →
          ∃ q, ⟨line, .assert q⟩ ∈ script ∧ shown = q.text ∧
            parse ("print " ++ shown ++ ";").toList = .ok [⟨1, .print q⟩] := by
  refine ⟨parse_print, parse_define, fun text script hparse =>
    ⟨fun s hs => reprints_of_parse hparse hs, fun {σ} ops s host shown line h => ?_⟩⟩
  obtain ⟨q, hq, rfl⟩ := exists_assertion ops h
  exact ⟨q, hq, rfl, reprints_of_parse hparse hq⟩

/-- Nested operations, the largest value and a name that begins with a keyword, and an assertion
that fails on the second line. -/
theorem parse_printed_sample :
    let e : Expr := .difference (.complement (.point [0, 18446744073709551615])) (.name "topmost")
    let q : Query := .subset (.exists "x" (.equalsVar "x" "_y1")) e
    parse "print subset((exists x . x == _y1), (!(\x7b0, 18446744073709551615\x7d) - topmost));".toList =
        .ok [⟨1, .print q⟩] ∧
      parse "let _y1 = (!(\x7b0, 18446744073709551615\x7d) - topmost);".toList =
        .ok [⟨1, .define "_y1" e⟩] ∧
      Reprints (.assert (.empty .top)) ∧
      parse "print empty(top);".toList = .ok [⟨1, .print (.empty .top)⟩] := by
  intro e q
  have hidentifier (n : String) (hn : n ∈ ["x", "_y1", "topmost"]) : IsIdentifier n := by
    fin_cases hn
    all_goals exact ⟨by decide +kernel, by decide⟩
  have hq := parse_printed.1 q fun n hn => hidentifier n (by fin_cases hn <;> decide)
  have he := parse_printed.2.1 "_y1" e (hidentifier _ (by decide))
    fun n hn => hidentifier n (by fin_cases hn; decide)
  have hparse : parse "\nassert empty(top);".toList = .ok [⟨2, .assert (.empty .top)⟩] := by
    cbv
  have hrun : (Script.run Explicit.operations [⟨2, .assert (.empty .top)⟩] (.new (.new 4) none)
      Host.initial).1 = .error (.assertionFailed "empty(top)" 2) := by
    rfl
  have hread := parse_printed.2.2 _ _ hparse
  obtain ⟨q', hq', -, hshown⟩ := hread.2 _ _ _ _ _ hrun
  obtain rfl : q' = .empty .top := by simpa using hq'
  exact ⟨hq, he, hread.1 _ (List.mem_singleton_self _), hshown⟩

end Script
end LayeredSets
