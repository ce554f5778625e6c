import LayeredSets.Proofs.Explicit.Beside

/-!
# Runs with unused variables

Two runs on fresh domains, without and with declarations that no other call refers to. Each call of
the shorter run has its counterpart in the longer one, and the sets of the longer one are larger by
what the additional variables can be.
-/

namespace LayeredSets

/-- The shorter run. -/
def shortRun (limit : UInt32) (entries : List Padded) (host : Host) :
    List Outcome × Explicit × Host :=
  Explicit.operations.run (Padded.calls entries) (.new limit) host

namespace LongRun

def run (limit : UInt32) (entries : List Padded) (host : Host) : LongRun :=
  entries.foldl step ⟨.new limit, host, [], [], 0⟩

theorem run_concat (limit : UInt32) (entries : List Padded) (entry : Padded) (host : Host) :
    run limit (entries ++ [entry]) host = (run limit entries host).step entry := by
  simp [run]

end LongRun

/-- The additional declarations are in nobody's way. -/
structure Padding (limit : UInt32) (entries : List Padded) (host : Host) : Prop where
  /-- No point is made. -/
  points : ∀ request ∈ Padded.calls entries, ∀ point, request ≠ ⟨.singleton point⟩
  /-- Every variable that is passed was returned by an earlier call. -/
  vars : ∀ (i : Nat) (request : Request), (Padded.calls entries)[i]? = some request →
    ∀ var ∈ request.call.vars, (.ok (.var var) : Outcome) ∈ (shortRun limit entries host).1.take i
  /-- No declaration fails for the additional ones. -/
  declares : ∀ (i : Nat) (var : VarId), (shortRun limit entries host).1[i]? = some (.ok (.var var)) →
    ∃ var', (LongRun.run limit entries host).outcomes[i]? = some (.ok (.var var'))
  /-- If the limit is so high that sums of widths could pass it unnoticed, they do not do so. -/
  room : 2 ^ 32 - 64 < limit.toNat →
    bitCount ((LongRun.run limit entries host).state.vars.map (·.bits)) < 2 ^ 32

/-! ## Runs -/

/-- Variables are never removed. -/
theorem Explicit.vars_prefix_respond (d : Explicit) (request : Request) (host : Host) :
    d.vars <+: (operations.respond request d host).2.1.vars := by
  obtain @⟨k, call⟩ := request
  cases happly : d.apply call with
  | error e =>
    rw [respond_of_apply_error happly]
  | ok answer =>
    obtain ⟨value, after⟩ := answer
    obtain ⟨host', hrespond⟩ := respond_of_ok happly host
    rw [hrespond]
    cases makes_of_apply happly with
    | declared hdeclare =>
      obtain ⟨-, -, -, rfl⟩ := declare_eq_ok hdeclare
      exact List.prefix_append _ _
    | made | answered | released => exact List.prefix_refl _

theorem Padded.calls_append (entries later : List Padded) :
    calls (entries ++ later) = calls entries ++ calls later :=
  List.filterMap_append

theorem shortRun_append (limit : UInt32) (entries later : List Padded) (host : Host) :
    shortRun limit (entries ++ later) host =
      let before := shortRun limit entries host
      let after := Explicit.operations.run (Padded.calls later) before.2.1 before.2.2
      (before.1 ++ after.1, after.2) := by
  rw [shortRun, Padded.calls_append, Operations.run_append]
  rfl

theorem shortRun_extra (limit : UInt32) (entries : List Padded) (name : String) (bits : UInt32)
    (host : Host) :
    shortRun limit (entries ++ [.extra name bits]) host = shortRun limit entries host := by
  simp [shortRun, Padded.calls]

theorem shortRun_call (limit : UInt32) (entries : List Padded) (request : Request) (host : Host) :
    shortRun limit (entries ++ [.call request]) host =
      let before := shortRun limit entries host
      let answered := Explicit.operations.respond request before.2.1 before.2.2
      (before.1 ++ [answered.1], answered.2) :=
  shortRun_append ..

namespace LongRun

theorem outcomes_prefix_step (l : LongRun) (entry : Padded) :
    l.outcomes <+: (l.step entry).outcomes := by
  cases entry with
  | call => exact List.prefix_append _ _
  | extra => exact List.prefix_refl _

@[simp] theorem outcomes_step_call (l : LongRun) (request : Request) :
    (l.step (.call request)).outcomes = l.outcomes ++
      [(Explicit.operations.respond (request.renumber (handle l.given)) l.state l.host).1] := rfl

theorem vars_prefix_step (l : LongRun) (entry : Padded) :
    l.state.vars <+: (l.step entry).state.vars := by
  cases entry <;> exact Explicit.vars_prefix_respond _ _ _

theorem length_outcomes (limit : UInt32) (entries : List Padded) (host : Host) :
    (run limit entries host).outcomes.length = (shortRun limit entries host).1.length := by
  induction entries using List.reverseRecOn with
  | nil => rfl
  | append_singleton entries entry ih =>
    rw [run_concat]
    cases entry with
    | call request => simp [shortRun_call, step, ih]
    | extra name bits => rw [shortRun_extra, ← ih]; rfl

end LongRun

namespace Padding

variable {limit : UInt32} {entries : List Padded} {entry : Padded} {host : Host}

/-- The runs can be stopped before the last entry. -/
theorem init (h : Padding limit (entries ++ [entry]) host) : Padding limit entries host := by
  obtain ⟨later, hlong⟩ := (LongRun.run limit entries host).outcomes_prefix_step entry
  obtain ⟨last, hvars⟩ := (LongRun.run limit entries host).vars_prefix_step entry
  rw [← LongRun.run_concat] at hlong hvars
  have hcalls := Padded.calls_append entries [entry]
  refine ⟨fun request hmem => ?_, fun i request hi var hvar => ?_, fun i var hi => ?_,
    fun hlarge => ?_⟩
  · exact h.points request (hcalls ▸ List.mem_append_left _ hmem)
  · have hlt : i < (Padded.calls entries).length := (List.getElem?_eq_some_iff.mp hi).1
    have hmem := h.vars i request (by rw [hcalls, List.getElem?_append_left hlt, hi]) var hvar
    rw [shortRun_append] at hmem
    rwa [List.take_append_of_le_length (by simpa [shortRun] using hlt.le)] at hmem
  · have hlt : i < (shortRun limit entries host).1.length := (List.getElem?_eq_some_iff.mp hi).1
    have hmade := h.declares i var
    rw [shortRun_append, ← hlong, List.getElem?_append_left hlt,
      List.getElem?_append_left (LongRun.length_outcomes limit entries host ▸ hlt)] at hmade
    exact hmade hi
  · have hroom := h.room hlarge
    rw [← hvars, List.map_append, bitCount_append] at hroom
    omega

/-- Entry by entry, the runs stay side by side. -/
theorem beside (h : Padding limit entries host) :
    ∃ mask m n, Beside limit mask m n (shortRun limit entries host).2.1
      (shortRun limit entries host).1 (LongRun.run limit entries host) := by
  induction entries using List.reverseRecOn with
  | nil => exact ⟨[], .new limit, .new limit, .new limit host⟩
  | append_singleton entries entry ih =>
    obtain ⟨mask, m, n, hbeside⟩ := ih h.init
    have hroom := h.room
    rw [LongRun.run_concat] at hroom ⊢
    cases entry with
    | extra name bits =>
      rw [shortRun_extra]
      obtain ⟨mask', n', hnext⟩ := hbeside.extra name fun hmax =>
        hbeside.long.sum_lt hbeside.room _ (fun hlarge => hroom (hbeside.limit ▸ hlarge)) hmax
      exact ⟨mask', m, n', hnext⟩
    | call request =>
      have hdeclares := h.declares
      have hlength : (shortRun limit entries host).1.length = (Padded.calls entries).length :=
        Operations.length_run ..
      have hvars := h.vars (Padded.calls entries).length request (by simp [Padded.calls])
      have hpoint := h.points request (by simp [Padded.calls])
      rw [shortRun_call] at hdeclares hvars ⊢
      rw [LongRun.run_concat] at hdeclares
      by_cases hk : request.kind = .var
      · obtain @⟨k, call⟩ := request
        obtain rfl : k = .var := hk
        obtain ⟨name, bits⟩ := call
        refine hbeside.declare name (fun hmax => ?_) _ fun var hvar => ?_
        · exact hbeside.long.sum_lt hbeside.room _ (fun hlarge => hroom (hbeside.limit ▸ hlarge)) hmax
        · have hmade := hdeclares (shortRun limit entries host).1.length var (by simp [hvar])
          rw [← LongRun.length_outcomes, LongRun.outcomes_step_call,
            List.getElem?_concat_length] at hmade
          exact hmade.imp fun _ => Option.some.inj
      · have hreturned (var : VarId) (hvar : var ∈ request.call.vars) :
            (.ok (.var var) : Outcome) ∈ (shortRun limit entries host).1 := by
          have hmem := hvars var hvar
          rwa [← hlength, List.take_left] at hmem
        obtain ⟨m', n', hnext⟩ := hbeside.call hk hreturned hpoint (shortRun limit entries host).2.2
        exact ⟨mask, m', n', hnext⟩

theorem take (h : Padding limit entries host) (i : Nat) : Padding limit (entries.take i) host := by
  induction entries using List.reverseRecOn with
  | nil => simpa using h
  | append_singleton entries entry ih =>
    by_cases hi : i ≤ entries.length
    · rw [List.take_append_of_le_length hi]
      exact ih h.init
    · rwa [List.take_of_length_le (by simp; omega)]

end Padding

/-- Variables that no call refers to change no answer. Each call has the same outcome with them as
without, under other handles for the variables, and at every point each set is larger by the number
of values that the additional variables can have. -/
theorem LongRun.run_unused {limit : UInt32} {entries : List Padded} {host : Host}
    (h : Padding limit entries host) :
    let long := run limit entries host
    long.given.Nodup ∧
    List.Forall₂ (Counterpart (handle long.given)) (shortRun limit entries host).1 long.outcomes ∧
    ∀ i set,
      let short := shortRun limit (entries.take i) host
      let long := run limit (entries.take i) host
      long.state.cardinality set = (· * 2 ^ long.added) <$> short.2.1.cardinality set := by
  intro long
  obtain ⟨mask, m, n, hbeside⟩ := h.beside
  refine ⟨?_, hbeside.outcomes, fun i set => ?_⟩
  · rw [hbeside.given]
    exact nodup_handles (hbeside.pads.length ▸ hbeside.length_lt)
  · obtain ⟨_, _, _, hstopped⟩ := (h.take i).beside
    exact hstopped.cardinality set

/-- Additional variables before, between and after the variables of the shorter run, with a failing
one among them, and sets from before and after each of them. -/
theorem LongRun.run_unused_sample :
    let entries : List Padded :=
      [.extra "p" 1, .call ⟨.declare "x" 2⟩, .call ⟨.varEqConst ⟨0⟩ 1⟩, .extra "q" 3,
        .call ⟨.complement ⟨1⟩⟩, .call ⟨.declare "y" 2⟩, .extra "r" 64, .call ⟨.varEqVar ⟨0⟩ ⟨1⟩⟩,
        .call ⟨.difference ⟨2⟩ ⟨3⟩⟩, .call ⟨.exists ⟨4⟩ ⟨0⟩⟩, .call ⟨.declare "z" 12⟩, .extra "s" 1,
        .call ⟨.release ⟨1⟩⟩, .call ⟨.union ⟨1⟩ ⟨2⟩⟩, .call ⟨.isEmpty ⟨5⟩⟩]
    let long := run 12 entries Host.initial
    Padding 12 entries Host.initial ∧
      long.outcomes = [.ok (.var ⟨1⟩), .ok (.set ⟨1⟩), .ok (.set ⟨2⟩), .ok (.var ⟨3⟩), .ok (.set ⟨3⟩),
        .ok (.set ⟨4⟩), .ok (.set ⟨5⟩), .error (.universeTooLarge 20 12), .ok .unit,
        .error (.unknownSet ⟨1⟩), .ok (.bool false)] ∧
      long.state.cardinality ⟨4⟩ = .ok (9 * 2 ^ 5) := by
  intro entries long
  have hshort : (shortRun 12 entries Host.initial).1 =
      [.ok (.var ⟨0⟩), .ok (.set ⟨1⟩), .ok (.set ⟨2⟩), .ok (.var ⟨1⟩), .ok (.set ⟨3⟩), .ok (.set ⟨4⟩),
        .ok (.set ⟨5⟩), .error (.universeTooLarge 16 12), .ok .unit, .error (.unknownSet ⟨1⟩),
        .ok (.bool false)] := by
    decide +kernel
  have hlong : long.outcomes = [.ok (.var ⟨1⟩), .ok (.set ⟨1⟩), .ok (.set ⟨2⟩), .ok (.var ⟨3⟩),
      .ok (.set ⟨3⟩), .ok (.set ⟨4⟩), .ok (.set ⟨5⟩), .error (.universeTooLarge 20 12), .ok .unit,
      .error (.unknownSet ⟨1⟩), .ok (.bool false)] := by
    decide +kernel
  have hpadding : Padding 12 entries Host.initial := by
    refine ⟨fun request hmem point => ?_, fun i request hi => ?_, fun i var hi => ?_, fun h => ?_⟩
    · rintro rfl
      simp [entries, Padded.calls] at hmem
    · rw [hshort]
      have hlt : i < 11 := (List.getElem?_eq_some_iff.mp hi).1
      interval_cases i <;> cases hi <;> decide
    · rw [hshort] at hi
      have hlt : i < 11 := (List.getElem?_eq_some_iff.mp hi).1
      change ∃ var', long.outcomes[i]? = _
      rw [hlong]
      interval_cases i <;> cases hi <;> exact ⟨_, rfl⟩
    · exact absurd h (by decide)
  refine ⟨hpadding, hlong, ?_⟩
  have hsize := (run_unused hpadding).2.2 entries.length ⟨4⟩
  rw [List.take_length] at hsize
  have hadded : long.added = 5 := by decide +kernel
  have hbefore : (shortRun 12 entries Host.initial).2.1.cardinality ⟨4⟩ = .ok 9 := by decide +kernel
  rw [hsize, hbefore, hadded]
  rfl

end LayeredSets
