import LayeredSets.Proofs.Invocation.Arguments

/-!
# Arguments behind others

The words of the environment stand behind the explicit arguments. If these are complete, that is,
nothing in them asks for help or ends the options, then what stands behind them is read as it would
be on its own.
-/

namespace LayeredSets.Invocation

/-! ## One invocation after the other -/

/-- The commands of both, and the input of whichever has one. -/
def followedBy (I J : Invocation) : Except ConfigError Invocation :=
  match I.input, J.input with
  | some first, some second => .error (.extraInput first second)
  | first, second => .ok ⟨I.commands ++ J.commands, first <|> second, J.help⟩

/-- What comes of some arguments behind `I`, from what comes of them alone. -/
structure Continues (I : Invocation) (alone behind : Except ConfigError Invocation) : Prop where
  ok {J : Invocation} : alone = .ok J → behind = I.followedBy J
  error {e : ConfigError} : alone = .error e → ∃ e', behind = .error e'
  /-- Behind an input, another may be one too many before that error is met. -/
  same {e : ConfigError} : alone = .error e → I.input = none → behind = .error e

/-- A reader that goes on from an invocation gives behind `I` what it gives alone. -/
def ReadsBehind (I : Invocation) (read : Invocation → Except ConfigError Invocation) : Prop :=
  ∀ X, Continues I (read X) (I.followedBy X >>= read)

variable {I : Invocation} {read next : Invocation → Except ConfigError Invocation}

theorem followedBy_of_input_eq_none (h : I.input = none) (J : Invocation) :
    I.followedBy J = .ok ⟨I.commands ++ J.commands, J.input, J.help⟩ := by
  obtain ⟨commands, input, help⟩ := I
  cases h
  cases hJ : J.input <;> simp [followedBy, hJ]

theorem followedBy_empty (h : I.help = false) : I.followedBy .empty = .ok I := by
  obtain ⟨commands, input, help⟩ := I
  cases h
  cases input <;> simp [followedBy, empty]

theorem Continues.of_eq {X : Invocation} {behind : Except ConfigError Invocation}
    (h : behind = I.followedBy X) : Continues I (.ok X) behind where
  ok h' := Except.ok.inj h' ▸ h
  error h' := nomatch h'
  same h' := nomatch h'

theorem ReadsBehind.done : ReadsBehind I .ok := fun _ => .of_eq (bind_pure _)

theorem ReadsBehind.wrong (e : ConfigError) : ReadsBehind I fun _ => .error e := by
  intro X
  refine ⟨nofun, fun _ => ?_, fun h hnone => ?_⟩
  · cases I.followedBy X with
    | error e' => exact ⟨e', rfl⟩
    | ok Y => exact ⟨e, rfl⟩
  · rw [followedBy_of_input_eq_none hnone]
    exact h

theorem Continues.bind {alone behind : Except ConfigError Invocation}
    (h : Continues I alone behind) (hnext : ReadsBehind I next) :
    Continues I (alone >>= next) (behind >>= next) := by
  cases alone with
  | ok X => exact h.ok rfl ▸ hnext X
  | error e =>
    refine ⟨nofun, fun _ => ?_, fun he hnone => ?_⟩
    · obtain ⟨e', rfl⟩ := h.error rfl
      exact ⟨e', rfl⟩
    · rw [h.same rfl hnone]
      exact he

theorem ReadsBehind.bind (hread : ReadsBehind I read) (hnext : ReadsBehind I next) :
    ReadsBehind I fun X => read X >>= next := by
  intro X
  rw [← bind_assoc]
  exact (hread X).bind hnext

theorem ReadsBehind.help : ReadsBehind I fun X => .ok { X with help := true } := by
  intro X
  refine .of_eq ?_
  cases hI : I.input <;> cases hX : X.input <;> simp [followedBy, hI, hX] <;> rfl

theorem ReadsBehind.addCommand (entry : Entry) (value : Option String) :
    ReadsBehind I fun X => .ok (X.addCommand entry value) := by
  intro X
  refine .of_eq ?_
  cases hI : I.input <;> cases hX : X.input <;>
    simp [followedBy, Invocation.addCommand, hI, hX, Bind.bind, Except.bind]

theorem ReadsBehind.addInput (path : String) : ReadsBehind I (·.addInput path) := by
  intro X
  beta_reduce
  cases hX : X.input with
  | none =>
    have halone : X.addInput path = .ok { X with input := some path } := by
      rw [Invocation.addInput, hX]
    rw [halone]
    refine .of_eq ?_
    cases hI : I.input <;> simp [followedBy, Invocation.addInput, hI, hX, Bind.bind, Except.bind]
  | some first =>
    have halone : X.addInput path = .error (.extraInput first path) := by
      rw [Invocation.addInput, hX]
    -- with an input in `I`, `first` is already one too many
    have hbehind : I.followedBy X >>= (·.addInput path) =
        I.followedBy X >>= fun _ => .error (.extraInput first path) := by
      cases hI : I.input <;> simp [followedBy, Invocation.addInput, hI, hX, Bind.bind, Except.bind]
    rw [halone, hbehind]
    exact ReadsBehind.wrong _ X

theorem ReadsBehind.add : ∀ item : Item, ReadsBehind I (·.add item)
  | .command c => .addCommand c.entry c.value
  | .input path => .addInput path

theorem ReadsBehind.addInputs : ∀ inputs : List String, ReadsBehind I (·.addInputs inputs)
  | [] => .done
  | argument :: rest => .bind (.add (.input argument)) (addInputs rest)

theorem ReadsBehind.parseFrom (registry : Registry) (words : List String) :
    ReadsBehind I (parseFrom registry · words) := by
  induction arguments registry words with
  | nil => exact .done
  | help hform => simpa only [Invocation.parseFrom, hform] using .help
  | terminator => exact .addInputs _
  | given h _ ih => simpa only [h.parseFrom] using .bind (.add _) ih
  | wrong e h => simpa only [h] using .wrong e

/-! ## Where the options end -/

/-- Behind complete arguments stands the terminator, not as the value of an option. -/
def Terminated (registry : Registry) (words : List String) : Prop :=
  ∃ front inputs, words = front ++ "--" :: inputs ∧ Complete registry front

variable {registry : Registry} {words : List String}

/-- What is read to its end without asking for help is complete, up to a terminator. -/
theorem complete_or_terminated {inv inv' : Invocation}
    (hread : parseFrom registry inv words = .ok inv') (hhelp : inv'.help = false) :
    Complete registry words ∨ Terminated registry words := by
  induction arguments registry words generalizing inv with
  | nil => exact .inl .nil
  | help hform =>
    rw [parseFrom, hform] at hread
    cases hread
    cases hhelp
  | terminator => exact .inr ⟨[], _, rfl, .nil⟩
  | given h _ ih =>
    rw [h.parseFrom] at hread
    obtain ⟨inv'', -, hrest⟩ := bind_eq_ok hread
    refine (ih hrest).imp (.cons h) ?_
    rintro ⟨front, inputs, rfl, hfront⟩
    exact ⟨_, inputs, (List.append_assoc ..).symm, .cons h hfront⟩
  | wrong e h => cases (h inv).symm.trans hread

theorem addInputs_eq_error {inv : Invocation} {inputs : List String} {e : ConfigError}
    (h : inv.addInputs inputs = .error e) : ∃ first second, e = .extraInput first second := by
  induction inputs generalizing inv with
  | nil => cases h
  | cons input inputs ih =>
    rcases bind_eq_error h with h | ⟨inv', -, h⟩
    · rw [addInput] at h
      split at h
      · exact ⟨_, _, (Except.error.inj h).symm⟩
      · cases h
    · exact ih h

/-- A single dash is an unknown argument, except where the options have ended. -/
theorem terminated_iff (hread : parse registry words = .ok I) (hhelp : I.help = false) :
    Terminated registry words ↔
      parse registry (words ++ ["-"]) ≠ .error (.unknownArgument "-") := by
  constructor
  · rintro ⟨front, inputs, rfl, hfront⟩ h
    rw [hfront.parse] at hread
    obtain ⟨inv, hinv, -⟩ := bind_eq_ok hread
    rw [List.append_assoc, hfront.parse, hinv] at h
    have hinputs : inv.addInputs (inputs ++ ["-"]) = .error (.unknownArgument "-") := h
    obtain ⟨first, second, he⟩ := addInputs_eq_error hinputs
    cases he
  · intro h
    refine (complete_or_terminated hread hhelp).resolve_left fun hcomplete => h ?_
    rw [hcomplete.parse, hread]
    rfl

/-- Behind complete arguments, words are read as on their own: their commands come after those in
front, and an input on either side is the input, while one on both sides is an error. -/
theorem parse_append (hread : parse registry words = .ok I) (hhelp : I.help = false)
    (hterminated : ¬ Terminated registry words) :
    (∀ more, I.Continues (parse registry more) (parse registry (words ++ more))) ∧
      ∀ environment, I.Continues (parse registry (mergeArguments [] environment))
        (parse registry (mergeArguments words environment)) := by
  have hcomplete := (complete_or_terminated hread hhelp).resolve_right hterminated
  have happend (more : List String) :
      I.Continues (parse registry more) (parse registry (words ++ more)) := by
    have h := ReadsBehind.parseFrom (I := I) registry more .empty
    rw [followedBy_empty hhelp] at h
    rw [hcomplete.parse, hread]
    exact h
  exact ⟨happend, fun environment => happend _⟩

/-- The terminator that is taken as a value does not end the options. -/
theorem parse_append_sample : ∃ front back,
    parse (.standard .none) ["--explicit", "--log", "--", "in.strace"] = .ok front ∧
      front.help = false ∧
      ¬ Terminated (.standard .none) ["--explicit", "--log", "--", "in.strace"] ∧
      parse (.standard .none) (mergeArguments [] (some " --stats\n")) = .ok back ∧
      parse (.standard .none)
          (mergeArguments ["--explicit", "--log", "--", "in.strace"] (some " --stats\n")) =
        front.followedBy back := by
  have hterminated : ¬ Terminated (.standard .none) ["--explicit", "--log", "--", "in.strace"] :=
    fun h => (terminated_iff rfl rfl).mp h rfl
  exact ⟨_, _, rfl, rfl, hterminated, rfl, ((parse_append rfl rfl hterminated).2 _).ok rfl⟩

end LayeredSets.Invocation
