import LayeredSets.Proofs.Action
import LayeredSets.Proofs.Script.Statements

/-!
# Scripts do what they mean

By induction over the statements, a script on a domain that keeps to a limit prints the answers that
it means, and ends with the error of the first statement that fails, if there is one. The explicit
domain is such a domain as long as its handles last.
-/

namespace LayeredSets.Script

open Action

variable {σ : Type} {ops : Operations σ} {M : Meaning ops} {s : State σ} {limit : UInt32} {env : Env}
  {line : Nat} {e : RunError}

/-! ## Errors tell their line -/

theorem line_of_var {name : String} (h : env.var line name = .error e) : e.line = some line := by
  rw [Env.var] at h
  split at h
  · cases h
  · cases h
    rfl

theorem line_of_set {name : String} (h : env.set line name = .error e) : e.line = some line := by
  rw [Env.set] at h
  split at h
  · cases h
  · cases h
    rfl

theorem line_of_value {expr : Expr} (h : env.value line expr = .error e) : e.line = some line := by
  induction expr with
  | top | bottom => cases h
  | name name => exact line_of_set h
  | equalsValue var value =>
    rcases bind_eq_error h with h | ⟨⟨i, bits⟩, -, h⟩
    · exact line_of_var h
    · dsimp only at h
      split at h
      · cases h
      · cases h
        rfl
  | equalsVar a b =>
    rcases bind_eq_error h with h | ⟨⟨i, left⟩, -, h⟩
    · exact line_of_var h
    · rcases bind_eq_error h with h | ⟨⟨j, right⟩, -, h⟩
      · exact line_of_var h
      · dsimp only at h
        split at h
        · cases h
        · cases h
          rfl
  | point values =>
    rw [Env.value] at h
    split at h
    · cases hpoint : Ideal.checkPoint env.widths values with
      | ok _ =>
        rw [hpoint] at h
        cases h
      | error e =>
        rw [hpoint] at h
        cases h
        rfl
    · cases h
      rfl
  | union a b iha ihb | intersect a b iha ihb | difference a b iha ihb =>
    rcases bind_eq_error h with h | ⟨_, -, h⟩
    · exact iha h
    · rcases bind_eq_error h with h | ⟨_, -, h⟩
      · exact ihb h
      · cases h
  | complement a ih =>
    rcases bind_eq_error h with h | ⟨_, -, h⟩
    · exact ih h
    · cases h
  | «exists» var body ih =>
    rcases bind_eq_error h with h | ⟨_, -, h⟩
    · exact line_of_var h
    · rcases bind_eq_error h with h | ⟨_, -, h⟩
      · exact ih h
      · cases h

theorem line_of_question {q : Query} (h : env.question line q = .error e) :
    e.line = some line := by
  cases q with
  | empty a =>
    rcases bind_eq_error h with h | ⟨_, -, h⟩
    · exact line_of_value h
    · cases h
  | equal a b | subset a b =>
    rcases bind_eq_error h with h | ⟨_, -, h⟩
    · exact line_of_value h
    · rcases bind_eq_error h with h | ⟨_, -, h⟩
      · exact line_of_value h
      · cases h

theorem line_of_checkDeclaration {name : String} {bits : UInt32}
    (h : env.checkDeclaration limit line name bits = .error e) : e.line = some line := by
  rw [Env.checkDeclaration] at h
  split_ifs at h <;> cases h <;> rfl

theorem line_of_execute {c : Command} (h : env.execute limit line c = .error e) :
    e.line = some line := by
  cases c with
  | var name bits =>
    rcases bind_eq_error h with h | ⟨_, -, h⟩
    · exact line_of_checkDeclaration h
    · cases h
  | define name expr =>
    rcases bind_eq_error h with h | ⟨_, -, h⟩
    · exact line_of_value h
    · cases h
  | print q =>
    rcases bind_eq_error h with h | ⟨_, -, h⟩
    · exact line_of_question h
    · cases h
  | assert q =>
    rcases bind_eq_error h with h | ⟨_, -, h⟩
    · exact line_of_question h
    · split at h
      · cases h
      · cases h
        rfl

/-! ## Answers are printed by the statements that print -/

theorem length_of_execute {c : Command} {printed : Option Bool} {env' : Env}
    (h : env.execute limit line c = .ok (printed, env')) :
    printed.toList.length = if c.isPrint then 1 else 0 := by
  cases c with
  | var name bits =>
    obtain ⟨_, -, ⟨⟩⟩ := bind_eq_ok h
    rfl
  | define name expr =>
    obtain ⟨_, -, ⟨⟩⟩ := bind_eq_ok h
    rfl
  | print q =>
    obtain ⟨_, -, ⟨⟩⟩ := bind_eq_ok h
    rfl
  | assert q =>
    obtain ⟨asked, -, h⟩ := bind_eq_ok h
    split at h
    · cases h
      rfl
    · cases h

theorem Env.Runs.length_answers {script : Script} {answers : List Bool} {env' : Env}
    (h : Env.Runs limit env script answers env') :
    answers.length = script.countP fun statement => statement.command.isPrint := by
  induction h with
  | nil => rfl
  | cons first rest ih =>
    rw [List.length_append, length_of_execute first, ih, List.countP_cons, Nat.add_comm]

/-! ## Runs -/

/-- Either all statements succeed, or the first that does not ends the run. -/
theorem ends_statements (hlimit : limit.toNat ≤ 2 ^ 32 - 64) (hM : Bounded M limit) (script : Script)
    (h : Stands M limit env s) (hout : s.output.limit = none) :
    Ends (OnDomain M.Spent)
      (List.forM script fun statement => execute ops statement.line statement.command) s fun o t =>
      ∃ before answers env', Env.Runs limit env before answers env' ∧
        t.output = ⟨s.output.text ++ answerLines answers, none⟩ ∧
        (before = script ∧ o = .ok () ∨ ∃ statement after e, script = before ++ statement :: after ∧
          env'.execute limit statement.line statement.command = .error e ∧ o = .error e) := by
  have hnothing : s.output = ⟨s.output.text ++ answerLines [], none⟩ := by
    rw [answerLines_nil, String.append_empty, ← hout]
  induction script generalizing env s with
  | nil => exact Ends.pure ⟨[], [], env, .nil env, hnothing, .inl ⟨rfl, rfl⟩⟩
  | cons statement script ih =>
    have hfirst := ends_execute hlimit hM statement.line statement.command h hout
    change Ends _ (execute ops statement.line statement.command >>= fun _ => List.forM script _) s _
    cases hexecute : env.execute limit statement.line statement.command with
    | error e =>
      rw [hexecute] at hfirst
      refine Ends.bind hfirst ?_ ?_
      · rintro _ t ⟨⟨⟩, _⟩
      · rintro _ t ⟨⟨⟩, ht⟩
        refine ⟨[], [], env, .nil env, ht.trans hnothing, .inr ⟨statement, script, e, rfl, hexecute, rfl⟩⟩
    | ok result =>
      obtain ⟨printed, next⟩ := result
      rw [hexecute] at hfirst
      refine Ends.bind hfirst ?_ ?_
      · rintro _ t ⟨-, hnext, ht⟩
        have htout : t.output.limit = none := by rw [ht]
        refine (ih hnext htout (by rw [answerLines_nil, String.append_empty, ← htout])).mono ?_
        rintro o u ⟨before, answers, env', hruns, hu, hend⟩
        refine ⟨statement :: before, _, env', .cons hexecute hruns, ?_, ?_⟩
        · rw [hu, ht, answerLines_append, String.append_assoc]
        · rcases hend with ⟨rfl, rfl⟩ | ⟨failing, after, e, rfl, hfails, rfl⟩
          · exact .inl ⟨rfl, rfl⟩
          · exact .inr ⟨failing, after, e, rfl, hfails, rfl⟩
      · rintro e t ⟨⟨⟩, _⟩

theorem ends_run (hlimit : limit.toNat ≤ 2 ^ 32 - 64) (hM : Bounded M limit) (script : Script)
    (h : Stands M limit env s) (hout : s.output.limit = none) :
    Ends (OnDomain M.Spent) (script.run ops) s fun o t =>
      ∃ before answers env', Env.Runs limit env before answers env' ∧
        t.output = ⟨s.output.text ++ answerLines answers, none⟩ ∧
        (before = script ∧ o = .ok script.length ∨
          ∃ statement after e, script = before ++ statement :: after ∧
            env'.execute limit statement.line statement.command = .error e ∧ o = .error e) := by
  refine Ends.bind (ends_statements hlimit hM script h hout) ?_ ?_
  · rintro _ t ⟨before, answers, env', hruns, ht, ⟨rfl, -⟩ | ⟨_, _, _, _, _, ⟨⟩⟩⟩
    exact Ends.pure ⟨before, answers, env', hruns, ht, .inl ⟨rfl, rfl⟩⟩
  · rintro e t ⟨before, answers, env', hruns, ht, ⟨_, ⟨⟩⟩ | ⟨statement, after, e, hsplit, hfails, ⟨⟩⟩⟩
    exact ⟨before, answers, env', hruns, ht, .inr ⟨statement, after, e, hsplit, hfails, rfl⟩⟩

/-! ## The explicit domain -/

/-- What a tapped explicit domain means within a limit that sums of widths cannot pass unnoticed. -/
def bottom (limit : UInt32) (hlimit : limit.toNat ≤ 2 ^ 32 - 64) :
    Meaning (Tap.operations Explicit.operations) :=
  Bottom.meaning.restrict (Bottom.Narrow limit) fun k call => Bottom.keeps_narrow hlimit k call

theorem bounded_bottom (hlimit : limit.toNat ≤ 2 ^ 32 - 64) :
    Bounded (bottom limit hlimit) limit where
  limit h := h.2.same
  declare {s} name bits h host _ := by
    obtain ⟨m, hm⟩ := h.1.represents
    have hwithin : s.inner.ideal.Within := by
      refine ⟨?_, ?_⟩
      · rw [Explicit.ideal, h.2.same]
        exact hlimit
      · rw [Explicit.ideal, h.2.same]
        exact h.2.bits
    have hagree := hm.ideal.declare hwithin name bits
    change (Explicit.step (.declare name bits) s.inner host).1 =
      (s.inner.ideal.declare bits).map Prod.fst
    rw [Explicit.step, Explicit.apply]
    cases hd : s.inner.declare name bits <;> cases hi : s.inner.ideal.declare bits <;>
      rw [hd, hi] at hagree
    · exact congrArg Except.error hagree
    · exact hagree.elim
    · exact hagree.elim
    · exact congrArg Except.ok hagree.1

theorem Stands.new (hlimit : limit.toNat ≤ 2 ^ 32 - 64) :
    Stands (bottom limit hlimit) limit .empty (.new ⟨[], Explicit.new limit⟩ none) where
  good := ⟨.new limit, .new limit⟩
  few := by decide
  widths := rfl
  index h := by cases h
  vars _ := rfl
  sets _ := .none
  distinct h := by cases h
  narrow := Nat.zero_le _
  bits := Nat.zero_le _

/-- A script on a fresh explicit domain does what it means, as long as fewer than `2 ^ 32` sets are
made. It prints the answers of the statements before the first one that fails, a line for each
that prints, and ends with the error of that one; or else with the number of its statements. -/
theorem run_faithful (hlimit : limit.toNat ≤ 2 ^ 32 - 64) (script : Script) (host : Host)
    (hfew : (script.run (Tap.operations Explicit.operations)
      (.new ⟨[], Explicit.new limit⟩ none) host).2.1.domain.layer.sets < 2 ^ 32) :
    let run := script.run Explicit.operations (.new (Explicit.new limit) none) host
    ∃ before answers env, Env.Runs limit .empty before answers env ∧
      answers.length = before.countP (fun statement => statement.command.isPrint) ∧
      run.2.1.output.text = answerLines answers ∧
      (before = script ∧ run.1 = .ok script.length ∨
        ∃ statement after e, script = before ++ statement :: after ∧
          env.execute limit statement.line statement.command = .error e ∧
          e.line = some statement.line ∧ run.1 = .error e) := by
  intro run
  -- The taps count the sets that are made; without them the run is the same.
  obtain ⟨before, answers, env, hruns, htext, hend⟩ :=
    ends_run hlimit (bounded_bottom hlimit) script (.new hlimit) rfl host (not_le.mpr hfew)
  have hcarried := carries_run (Tap.carries Explicit.operations) script
    (.new ⟨[], Explicit.new limit⟩ none) host
  have hresult : run.1 = _ := congrArg (·.1) hcarried
  have houtput : run.2.1.output = _ := congrArg (·.2.1.output) hcarried
  refine ⟨before, answers, env, hruns, hruns.length_answers, ?_, ?_⟩
  · rw [houtput]
    refine (congrArg Output.text htext).trans ?_
    exact String.empty_append
  · rw [hresult]
    refine hend.imp_right ?_
    rintro ⟨statement, after, e, hsplit, hfails, herror⟩
    exact ⟨statement, after, e, hsplit, hfails, line_of_execute hfails, herror⟩

/-- A name outlives a declaration and the set that it was made of, and then an assertion fails. -/
theorem run_faithful_sample :
    let script : Script := [⟨1, .var "x" 2⟩, ⟨2, .define "a" (.equalsValue "x" 1)⟩,
      ⟨3, .var "y" 1⟩, ⟨4, .define "b" (.complement (.name "a"))⟩,
      ⟨5, .define "a" (.exists "x" (.name "b"))⟩, ⟨6, .print (.subset (.name "b") (.name "a"))⟩,
      ⟨7, .print (.empty (.name "b"))⟩, ⟨8, .assert (.equal (.name "a") (.name "b"))⟩,
      ⟨9, .print (.empty .bottom)⟩]
    (3 : UInt32).toNat ≤ 2 ^ 32 - 64 ∧
      (script.run (Tap.operations Explicit.operations)
        (.new ⟨[], Explicit.new 3⟩ none) Host.initial).2.1.domain.layer.sets < 2 ^ 32 ∧
      ∃ before answers env, Env.Runs 3 .empty before answers env ∧
        answerLines answers = "true\nfalse\n" ∧
        ∃ statement after, script = before ++ statement :: after ∧
          env.execute 3 statement.line statement.command =
            .error (.assertionFailed "equal(a, b)" 8) := by
  intro script
  have hlimit : (3 : UInt32).toNat ≤ 2 ^ 32 - 64 := by decide
  have hfew : (script.run (Tap.operations Explicit.operations)
      (.new ⟨[], Explicit.new 3⟩ none) Host.initial).2.1.domain.layer.sets < 2 ^ 32 := by
    decide +kernel
  have hresult : (script.run Explicit.operations (.new (Explicit.new 3) none) Host.initial).1 =
      .error (.assertionFailed "equal(a, b)" 8) := by
    decide +kernel
  have htext : (script.run Explicit.operations (.new (Explicit.new 3) none)
      Host.initial).2.1.output.text = "true\nfalse\n" := by
    decide +kernel
  obtain ⟨before, answers, env, hruns, -, hlines, hend⟩ :=
    run_faithful hlimit script Host.initial hfew
  rw [hresult] at hend
  rw [htext] at hlines
  rcases hend with ⟨-, ⟨⟩⟩ | ⟨statement, after, e, hsplit, hfails, hline, herror⟩
  obtain rfl := Except.error.inj herror
  exact ⟨hlimit, hfew, before, answers, env, hruns, hlines.symm, statement, after, hsplit, hfails⟩

end LayeredSets.Script
