import LayeredSets.Proofs.Guarded.Basic
import LayeredSets.Proofs.Smt.Agrees

/-!
# The solver domain with its guards

The solver domain enumerates nothing. It shifts a value to see whether it fits, and it counts
variables and sets; whatever the solver answers, no guard there ever stops a run that leaves some
handles unused.
-/

namespace LayeredSets.Smt

/-- The formula that a call stores, a value being shifted to see whether it fits. -/
def guardedMade (d : Smt) : Call .set → Except Halt Formula
  | .varEqConst var value => do
    let bits ← (d.bitsOf var).mapError .error
    Guard.shift bits
    if !fits value bits then throw (.error (.valueOutOfRange value bits))
    else return .equalsValue var.index value bits
  | call => (d.made call).mapError .error

def guardedReact (d : Smt) : {k : Answer} → Call k → Except Halt (Reaction k.Value)
  | .var, .declare name bits =>
    if !isValidWidth bits then throw (.error (.invalidWidth bits))
    else do
      let vars := d.vars ++ [⟨name, bits⟩]
      let index ← Guard.sub (UInt32.ofNat vars.length) 1
      return .answer ⟨index⟩ { d with vars }
  | .set, call => do
    let f ← d.guardedMade call
    let issued ← Guard.add d.issued 1
    return .answer ⟨issued⟩ { d with sets := d.sets.insert ⟨issued⟩ f, issued }
  | .bool, call => (d.react call).mapError .error
  | .unit, call => (d.react call).mapError .error

def guardedStep {k : Answer} (call : Call k) : Action Halt Smt k.Value := fun d host =>
  match d.guardedReact call with
  | .error halt => (.error halt, d, host)
  | .ok (.answer value d) => (.ok value, d, host)
  | .ok (.question f ofUnsat) =>
    let (answer, host) := d.isUnsatisfiable f host
    ((answer.map ofUnsat).mapError .error, d, host)

/-- Declared widths are valid, and what has been given out is counted. -/
structure Counted (past : List Outcome) (d : Smt) : Prop where
  valid : ∀ v ∈ d.vars, v.bits.toNat ≤ 63
  vars : d.vars.length = declaredVars past
  issued : d.issued.toNat = (issuedSets past).length

variable {d : Smt} {past : List Outcome}

/-- The guards stop nothing where the plain calls react. -/
theorem guardedStep_eq {k : Answer} {call : Call k} (host : Host)
    (h : d.guardedReact call = (d.react call).mapError .error) :
    guardedStep call d host = Guarded.plain (step call) d host := by
  rw [guardedStep, h, Guarded.plain, Action.mapError, step]
  rcases d.react call with e | ⟨value, after⟩ | ⟨f, ofUnsat⟩ <;> rfl

theorem guardedMade_eq (h : ∀ v ∈ d.vars, v.bits.toNat ≤ 63) (call : Call .set) :
    d.guardedMade call = (d.made call).mapError .error := by
  cases call with
  | varEqConst var value =>
    rw [guardedMade, made, bitsOf]
    cases hv : d.vars[var.index.toNat]? with
    | none => rfl
    | some v =>
      have hshift := Guard.shift_eq (h v (List.mem_of_getElem? hv))
      simp only [Except.mapError, bind, Except.bind, hshift]
      split <;> rfl
  | _ => rfl

namespace Counted

variable {o : Outcome}

/-- A call that gives out nothing. -/
theorem silent (h : Counted past d) (hset : issuedSets [o] = []) (hvar : declaredVars [o] = 0)
    {sets : Table SetId Formula} : Counted (past ++ [o]) { d with sets } where
  valid := h.valid
  vars := by rw [declaredVars_append, hvar, h.vars, Nat.add_zero]
  issued := by rw [issuedSets_append, hset, List.append_nil, h.issued]

theorem declared (h : Counted past d) {name : String} {bits : UInt32}
    (hvalid : isValidWidth bits = true) (var : VarId) :
    Counted (past ++ [.ok (.var var)]) { d with vars := d.vars ++ [⟨name, bits⟩] } where
  valid := List.forall_mem_append.mpr
    ⟨h.valid, List.forall_mem_singleton.mpr ((isValidWidth_iff bits).mp hvalid).2⟩
  vars := by
    rw [declaredVars_append, List.length_append, h.vars]
    rfl
  issued := by
    rw [issuedSets_append, h.issued, List.length_append]
    rfl

theorem stored (h : Counted past d) (f : Formula) (hroom : d.issued.toNat + 1 < 2 ^ 32) :
    Counted (past ++ [.ok (.set (d.store f).1)]) (d.store f).2 where
  valid := h.valid
  vars := by
    rw [declaredVars_append, store, h.vars]
    rfl
  issued := by
    rw [issuedSets_append, store, List.length_append, ← h.issued, UInt32.toNat_add]
    exact Nat.mod_eq_of_lt hroom

theorem respond_declare (h : Counted past d) (name : String) (bits : UInt32) (host : Host)
    (hfew : Few (past ++ [(operations.respond ⟨.declare name bits⟩ d host).1])) :
    let answered := operations.respond ⟨.declare name bits⟩ d host
    guardedStep (.declare name bits) d host = Guarded.plain (step (.declare name bits)) d host ∧
      Counted (past ++ [answered.1]) answered.2.1 := by
  intro answered
  by_cases hvalid : isValidWidth bits = true
  · have hanswered : answered = (.ok (.var ⟨UInt32.ofNat d.vars.length⟩),
        { d with vars := d.vars ++ [⟨name, bits⟩] }, host) := by
      simp only [answered, Operations.respond, operations, step, react, declare, hvalid]
      rfl
    have hroom : d.vars.length + 1 < 2 ^ 32 := by
      have hvars := hfew.vars
      rw [show operations.respond ⟨.declare name bits⟩ d host = answered from rfl, hanswered,
        declaredVars_append, ← h.vars] at hvars
      exact hvars
    rw [hanswered]
    refine ⟨guardedStep_eq host ?_, h.declared hvalid _⟩
    simp only [guardedReact, react, declare, hvalid, List.length_append, List.length_singleton,
      Guard.sub_one_eq hroom]
    rfl
  · have hanswered : answered = (.error (.invalidWidth bits), d, host) := by
      simp only [answered, Operations.respond, operations, step, react, declare, hvalid]
      rfl
    rw [hanswered]
    refine ⟨guardedStep_eq host ?_, h.silent rfl rfl⟩
    simp only [guardedReact, react, declare, hvalid]
    rfl

theorem respond_set (h : Counted past d) (call : Call .set) (host : Host)
    (hfew : Few (past ++ [(operations.respond ⟨call⟩ d host).1])) :
    let answered := operations.respond ⟨call⟩ d host
    guardedStep call d host = Guarded.plain (step call) d host ∧
      Counted (past ++ [answered.1]) answered.2.1 := by
  intro answered
  have hguarded := guardedMade_eq h.valid call
  cases hmade : d.made call with
  | error e =>
    have hanswered : answered = (.error e, d, host) := by
      simp only [answered, Operations.respond, operations, step, react_set, hmade]
      rfl
    rw [hanswered]
    refine ⟨guardedStep_eq host ?_, h.silent rfl rfl⟩
    rw [guardedReact, hguarded, react_set, hmade]
    rfl
  | ok f =>
    have hanswered : answered = (.ok (.set (d.store f).1), (d.store f).2, host) := by
      simp only [answered, Operations.respond, operations, step, react_set, hmade]
      rfl
    have hroom : d.issued.toNat + 1 < 2 ^ 32 := by
      have hsets := hfew.sets
      rw [show operations.respond ⟨call⟩ d host = answered from rfl, hanswered, issuedSets_append,
        List.length_append, ← h.issued] at hsets
      exact hsets
    rw [hanswered]
    refine ⟨guardedStep_eq host ?_, h.stored f hroom⟩
    rw [guardedReact, hguarded, react_set, hmade]
    simp only [Except.mapError, bind, Except.bind, Guard.add_eq (a := d.issued) (b := 1) hroom]
    rfl

/-- One call: no guard stops it, and what it gives out is counted. -/
theorem respond (h : Counted past d) (request : Request) (host : Host)
    (hfew : Few (past ++ [(operations.respond request d host).1])) :
    guardedStep request.call d host = Guarded.plain (operations.step request.call) d host ∧
      Counted (past ++ [(operations.respond request d host).1])
        (operations.respond request d host).2.1 := by
  obtain @⟨k, call⟩ := request
  cases k with
  | var =>
    obtain ⟨name, bits⟩ := call
    exact h.respond_declare name bits host hfew
  | set => exact h.respond_set call host hfew
  | bool =>
    refine ⟨guardedStep_eq host rfl, ?_⟩
    simp only [Operations.respond, operations, step, react_bool]
    cases d.asked call with
    | error e => exact h.silent rfl rfl
    | ok f =>
      simp only [Functor.map, Except.map]
      rcases (d.isUnsatisfiable f host).1 with e | answer
      · exact h.silent rfl rfl
      · exact h.silent rfl rfl
  | unit =>
    refine ⟨guardedStep_eq host rfl, ?_⟩
    cases call with
    | release set =>
      simp only [Operations.respond, operations, step, react]
      cases d.formula set with
      | error e => exact h.silent rfl rfl
      | ok f => exact h.silent rfl rfl

end Counted

/-- Written out with its guards, the solver domain runs as it does without them. -/
theorem guardedRun_eq (label : String) (solver : Solver) (requests : List Request) (host : Host)
    (hfew : Few (operations.run requests (new label solver) host).1) :
    Guarded.run guardedStep requests (new label solver) host =
      .ok (operations.run requests (new label solver) host) := by
  have hstart : Counted [] (new label solver) := ⟨by simp [new], rfl, rfl⟩
  exact Guarded.run_eq (fun _ _ request host hs hfew => hs.respond request host hfew) requests
    hstart host hfew

end LayeredSets.Smt
