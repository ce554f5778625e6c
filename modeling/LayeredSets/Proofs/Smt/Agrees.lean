import LayeredSets.Proofs.Explicit.Exact
import LayeredSets.Proofs.Smt.Means
import LayeredSets.Smt.Basic

/-!
# The solver domain agrees with the explicit one

While every stored formula means the set that the ideal domain has under its handle, a call comes to
what the ideal domain makes of it: formulas are built as the sets are, and a query asks for a model
of a formula that has none exactly if the answer is yes. So a solver domain and an explicit one
that are given the same calls give the same answers, as long as the explicit one has room.
-/

namespace LayeredSets

open SmtLib

/-- A call that the solver domain takes: no single point, and no name that would end a comment. -/
def Call.Plain : {k : Answer} → Call k → Prop
  | _, .singleton _ => False
  | _, .declare name _ => ∀ c ∈ name.toList, isLineBreak c = false
  | _, _ => True

namespace Smt

/-! ## Calls by kind -/

/-- The formula that a call stores. -/
def made (d : Smt) : Call .set → Except DomainError Formula
  | .top => return .constant true
  | .bottom => return .constant false
  | .varEqConst var value => do
    let bits ← d.bitsOf var
    if !fits value bits then throw (.valueOutOfRange value bits)
    return .equalsValue var.index value bits
  | .varEqVar a b => do
    let left ← d.bitsOf a
    let right ← d.bitsOf b
    if left != right then throw (.widthMismatch left right)
    return .equalsVar a.index b.index
  | .singleton _ => throw (.unsupported "singleton" d.label)
  | .union a b => return (← d.formula a).or (← d.formula b)
  | .intersect a b => return (← d.formula a).and (← d.formula b)
  | .difference a b => return (← d.formula a).diff (← d.formula b)
  | .complement a => return (← d.formula a).not
  | .exists set var => do
    let bits ← d.bitsOf var
    return .exists var.index bits (← d.formula set)

/-- The formula that a query asks about. -/
def asked (d : Smt) : Call .bool → Except DomainError Formula
  | .isEmpty a => d.formula a
  | .equal a b => return (← d.formula a).xor (← d.formula b)
  | .subset a b => return (← d.formula a).diff (← d.formula b)

theorem react_set (d : Smt) (call : Call .set) :
    d.react call = (fun f => .ofStored (d.store f)) <$> d.made call := by
  cases call with
  | varEqConst var value =>
    simp only [react, made, map_bind]
    refine bind_congr fun bits => ?_
    split <;> rfl
  | varEqVar a b =>
    simp only [react, made, map_bind]
    refine bind_congr fun left => bind_congr fun right => ?_
    split <;> rfl
  | singleton => rfl
  | _ => simp [react, made, combine]

theorem react_bool (d : Smt) (call : Call .bool) :
    d.react call = (fun f => .question f id) <$> d.asked call := by
  cases call <;> simp [react, asked]

end Smt

namespace Smt

/-- Only queries ask the solver. -/
theorem exists_asked {d : Smt} {k : Answer} {call : Call k} {f : Formula} {ofUnsat : Bool → k.Value}
    (h : d.react call = .ok (.question f ofUnsat)) : ∃ query, d.asked query = .ok f := by
  cases k with
  | var =>
    obtain ⟨name, bits⟩ := call
    simp only [react] at h
    cases hd : d.declare name bits <;> rw [hd] at h <;> cases h
  | set =>
    rw [react_set] at h
    cases hd : d.made call <;> rw [hd] at h <;> cases h
  | bool =>
    rw [react_bool] at h
    cases hd : d.asked call with
    | error e =>
      rw [hd] at h
      cases h
    | ok g =>
      rw [hd] at h
      cases h
      exact ⟨call, hd⟩
  | unit =>
    cases call with
    | release set =>
      simp only [react] at h
      cases hd : d.formula set <;> rw [hd] at h <;> cases h

end Smt

/-! ## What formulas stand for -/

/-- The ideal state that the formulas of a solver domain stand for. -/
structure Describes (d : Smt) (m : Ideal) : Prop where
  solver : Decides d.solver
  names : ∀ v ∈ d.vars, ∀ c ∈ v.name.toList, isLineBreak c = false
  widths : d.vars.map (·.bits) = m.widths
  valid : ∀ bits ∈ m.widths, 0 < bits.toNat ∧ bits.toNat ≤ 63
  sets : ∀ set, Option.Rel (fun f s => f.Means m.widths s) (d.sets.get? set) (m.sets set)
  issued : d.issued = UInt32.ofNat m.issued

namespace Describes

variable {d : Smt} {m : Ideal}

theorem new {label : String} {solver : Solver} (h : Decides solver) (limit : UInt32) :
    Describes (Smt.new label solver) (Ideal.new limit) where
  solver := h
  names _ h := by cases h
  widths := rfl
  valid _ h := by cases h
  sets _ := .none
  issued := rfl

theorem bitsOf (h : Describes d m) (var : VarId) : d.bitsOf var = m.width var := by
  simp only [Smt.bitsOf, Ideal.width, ← h.widths, List.getElem?_map]
  cases d.vars[var.index.toNat]? <;> rfl

theorem formula (h : Describes d m) (set : SetId) :
    Agree (fun f s => f.Means m.widths s) (d.formula set) (m.set set) := by
  have hset := h.sets set
  simp only [Smt.formula, Ideal.set]
  generalize d.sets.get? set = f at hset ⊢
  generalize m.sets set = s at hset ⊢
  cases hset with
  | none => rfl
  | some hmeans => exact hmeans

/-- The formula that is stored means the set that the call makes. -/
theorem made (h : Describes d m) (call : Call .set) (hplain : call.Plain) :
    Agree (fun f s => f.Means m.widths s) (d.made call) (m.made call) := by
  cases call with
  | top => exact .top m.widths
  | bottom => exact .bottom m.widths
  | varEqConst var value =>
    simp only [Smt.made, Ideal.made, h.bitsOf]
    refine .same_bind _ fun bits hbits => ?_
    obtain ⟨hi, rfl⟩ := Represents.width_eq_ok hbits
    have hvalid := h.valid _ (List.getElem_mem hi)
    rw [Ideal.checkValue]
    by_cases hvalue : value.toNat < 2 ^ m.widths[var.index.toNat].toNat
    · simp only [(fits_iff hvalid.2).mpr hvalue, hvalue, Bool.not_true, Bool.false_eq_true, if_false,
        if_true]
      exact .equalsValue hi hvalid.1 hvalue
    · have hfits : fits value m.widths[var.index.toNat] = false := by
        rw [← Bool.not_eq_true, fits_iff hvalid.2]
        exact hvalue
      simp only [hfits, hvalue, Bool.not_false, if_true, if_false]
      rfl
  | varEqVar a b =>
    simp only [Smt.made, Ideal.made, h.bitsOf]
    refine .same_bind _ fun left hleft => .same_bind _ fun right hright => ?_
    obtain ⟨hi, rfl⟩ := Represents.width_eq_ok hleft
    obtain ⟨hj, rfl⟩ := Represents.width_eq_ok hright
    by_cases heq : m.widths[a.index.toNat] = m.widths[b.index.toNat]
    · simp only [heq, bne_self_eq_false, Bool.false_eq_true, if_false, ne_eq, not_true_eq_false]
      exact .equalsVar hi hj heq
    · simp only [bne_iff_ne.mpr heq, if_true, ne_eq, heq, not_false_eq_true]
      rfl
  | singleton point => exact hplain.elim
  | union a b => exact (h.formula a).bind fun _ _ hf => (h.formula b).bind fun _ _ hg => hf.or hg
  | intersect a b => exact (h.formula a).bind fun _ _ hf => (h.formula b).bind fun _ _ hg => hf.and hg
  | difference a b =>
    exact (h.formula a).bind fun _ _ hf => (h.formula b).bind fun _ _ hg => hf.diff hg
  | complement a => exact (h.formula a).bind fun _ _ hf => hf.not
  | «exists» set var =>
    simp only [Smt.made, Ideal.made, h.bitsOf]
    refine .same_bind _ fun bits hbits => ?_
    obtain ⟨hi, rfl⟩ := Represents.width_eq_ok hbits
    exact (h.formula set).bind fun f s hf => hf.exists hi (h.valid _ (List.getElem_mem hi)).1

/-- A query asks about a formula that has no model exactly if the answer is yes. -/
theorem asked (h : Describes d m) (call : Call .bool) :
    Agree (fun f q => ∃ s, f.Means m.widths s ∧ (s = ∅ ↔ q)) (d.asked call) (m.question call) := by
  cases call with
  | isEmpty a =>
    rw [Smt.asked, ← bind_pure (d.formula a)]
    exact (h.formula a).bind fun f s hf => ⟨s, hf, Iff.rfl⟩
  | equal a b =>
    refine (h.formula a).bind fun f s hf => (h.formula b).bind fun g t hg => ?_
    exact ⟨_, hf.xor hg, symmDiff_eq_bot⟩
  | subset a b =>
    refine (h.formula a).bind fun f s hf => (h.formula b).bind fun g t hg => ?_
    exact ⟨_, hf.diff hg, Set.sdiff_eq_empty⟩

/-- The script about a formula is read as the question whether it has a model. -/
theorem read?_script (h : Describes d m) {f : Formula} {s : Set Valuation}
    (hf : f.Means m.widths s) :
    Problem.read? (d.script f) = some ⟨constants m.widths, [f.term]⟩ := by
  rw [Smt.script, ← h.widths]
  refine read?_queryScript h.names (fun v hv => ?_) (h.widths ▸ hf.sort)
  exact (h.valid v.bits (h.widths ▸ List.mem_map_of_mem hv)).1

/-- The solver tells whether there is a model. -/
theorem isUnsatisfiable (h : Describes d m) {f : Formula} {s : Set Valuation}
    (hf : f.Means m.widths s) (host : Host) :
    ∃ answer, (d.isUnsatisfiable f host).1 = .ok answer ∧ (answer = true ↔ s = ∅) := by
  obtain ⟨hsat, hunsat⟩ := h.solver _ _ host (h.read?_script hf)
  rw [hf.satisfiable_iff] at hsat hunsat
  simp only [Smt.isUnsatisfiable]
  generalize d.solver.ask (d.script f) host = r at hsat hunsat
  obtain ⟨verdict, host'⟩ := r
  by_cases hs : s = ∅
  · obtain rfl : verdict = .ok .unsat := hunsat (not_not.mpr hs)
    exact ⟨true, rfl, iff_of_true rfl hs⟩
  · obtain rfl : verdict = .ok .sat := hsat hs
    exact ⟨false, rfl, iff_of_false Bool.false_ne_true hs⟩

/-! ## How the state changes -/

theorem store (h : Describes d m) {f : Formula} {s : Set Valuation} (hf : f.Means m.widths s) :
    (d.store f).1 = (m.store s).1 ∧ Describes (d.store f).2 (m.store s).2 := by
  have hid : d.issued + 1 = UInt32.ofNat (m.issued + 1) := by
    rw [h.issued, UInt32.ofNat_add]
    rfl
  refine ⟨congrArg SetId.mk hid, h.solver, h.names, h.widths, h.valid, fun set => ?_, hid⟩
  simp only [Smt.store, Ideal.store, hid]
  by_cases hset : set = ⟨UInt32.ofNat (m.issued + 1)⟩
  · rw [hset, Table.get?_insert_self, Function.update_self]
    exact .some hf
  · rw [Table.get?_insert_of_ne _ _ hset, Function.update_of_ne hset]
    exact h.sets set

theorem release (h : Describes d m) (set : SetId) :
    Describes { d with sets := d.sets.erase set } (m.release set) := by
  refine ⟨h.solver, h.names, h.widths, h.valid, fun other => ?_, h.issued⟩
  simp only [Ideal.release]
  by_cases hset : other = set
  · rw [hset, Table.get?_erase_self, Function.update_self]
    exact .none
  · rw [Table.get?_erase_of_ne _ hset, Function.update_of_ne hset]
    exact h.sets other

/-- The formulas stay as they are and mean cylinders from now on. -/
theorem grow (h : Describes d m) {name : String} (hname : ∀ c ∈ name.toList, isLineBreak c = false)
    {bits : UInt32} (hpos : 0 < bits.toNat) (hmax : bits.toNat ≤ 63) :
    Describes { d with vars := d.vars ++ [⟨name, bits⟩] } (m.grow bits) where
  solver := h.solver
  names v hv := by
    rcases List.mem_append.mp hv with hold | hnew
    · exact h.names v hold
    · rw [List.mem_singleton.mp hnew]
      exact hname
  widths := by simp [Ideal.grow, h.widths]
  valid width hwidth := by
    rcases List.mem_append.mp hwidth with hold | hnew
    · exact h.valid width hold
    · rw [List.mem_singleton.mp hnew]
      exact ⟨hpos, hmax⟩
  sets set := by
    have hset := h.sets set
    simp only [Ideal.grow]
    generalize d.sets.get? set = f at hset
    generalize m.sets set = s at hset
    cases hset with
    | none => exact .none
    | some hf => exact .some (hf.grow bits)
  issued := h.issued

/-! ## Calls -/

open Classical in
/-- A call other than a declaration. -/
theorem respond (h : Describes d m) {k : Answer} (hk : k ≠ .var) (call : Call k)
    (hplain : call.Plain) (host : Host) :
    (Smt.operations.respond ⟨call⟩ d host).1 = (m.respond ⟨call⟩).1 ∧
      Describes (Smt.operations.respond ⟨call⟩ d host).2.1 (m.respond ⟨call⟩).2 := by
  cases k with
  | var => exact absurd rfl hk
  | set =>
    have hmade := h.made call hplain
    simp only [Operations.respond, Smt.operations, Smt.step, Smt.react_set, Ideal.respond, Ideal.apply]
    cases hd : d.made call <;> cases hm : m.made call <;> rw [hd, hm] at hmade
    · exact ⟨congrArg Except.error hmade, h⟩
    · exact hmade.elim
    · exact hmade.elim
    · obtain ⟨hid, hstate⟩ := h.store hmade
      exact ⟨congrArg (fun set => Except.ok (Reply.set set)) hid, hstate⟩
  | bool =>
    have hasked := h.asked call
    simp only [Operations.respond, Smt.operations, Smt.step, Smt.react_bool, Ideal.respond, Ideal.apply]
    cases hd : d.asked call <;> cases hm : m.question call <;> rw [hd, hm] at hasked
    · exact ⟨congrArg Except.error hasked, h⟩
    · exact hasked.elim
    · exact hasked.elim
    · next f q =>
      obtain ⟨s, hf, hq⟩ := hasked
      obtain ⟨answer, hanswer, htrue⟩ := h.isUnsatisfiable hf host
      have hdecide : answer = decide q := by
        rw [Bool.eq_iff_iff, decide_eq_true_iff, htrue, hq]
      have hreply : ((d.isUnsatisfiable f host).1.map id).map Answer.bool.reply =
          .ok (.bool (decide q)) := by
        rw [hanswer, hdecide]
        rfl
      exact ⟨hreply, h⟩
  | unit =>
    cases call with
    | release set =>
      have hset := h.formula set
      simp only [Operations.respond, Smt.operations, Smt.step, Smt.react, Ideal.respond, Ideal.apply]
      cases hd : d.formula set <;> cases hm : m.set set <;> rw [hd, hm] at hset
      · exact ⟨congrArg Except.error hset, h⟩
      · exact hset.elim
      · exact hset.elim
      · exact ⟨rfl, h.release set⟩

end Describes

/-! ## Runs -/

/-- One call on either domain: the same outcome, and both stand for the same sets afterwards. -/
theorem Describes.lockstep {d : Smt} {e : Explicit} {m : Ideal} (hd : Describes d m)
    (he : Represents e m) (request : Request) (hplain : request.call.Plain)
    (host host' : Host)
    (hroom : ∀ total limit,
      (Explicit.operations.respond request e host).1 ≠ .error (.universeTooLarge total limit)) :
    (Smt.operations.respond request d host').1 = (Explicit.operations.respond request e host).1 ∧
      ∃ m', Represents (Explicit.operations.respond request e host).2.1 m' ∧
        Describes (Smt.operations.respond request d host').2.1 m' := by
  obtain @⟨k, call⟩ := request
  by_cases hk : k = .var
  · subst hk
    obtain ⟨name, bits⟩ := call
    have hvars : d.vars.length = e.vars.length := by
      rw [he.length, ← hd.widths, List.length_map]
    simp only [Operations.respond, Explicit.operations, Explicit.step, Explicit.apply, Smt.operations,
      Smt.step, Smt.react] at hroom ⊢
    cases hdeclare : e.declare name bits with
    | error err =>
      rcases Explicit.declare_eq_error hdeclare with ⟨hinvalid, rfl⟩ | ⟨-, total, rfl⟩
      · have hsmt : d.declare name bits = .error (.invalidWidth bits) := by
          rw [Smt.declare, hinvalid]
          rfl
        rw [hsmt]
        exact ⟨rfl, m, he, hd⟩
      · rw [hdeclare] at hroom
        exact absurd rfl (hroom total e.limit)
    | ok x =>
      obtain ⟨var, after⟩ := x
      obtain ⟨hvalid, -, rfl, rfl⟩ := Explicit.declare_eq_ok hdeclare
      obtain ⟨hpos, hmax⟩ := (isValidWidth_iff bits).mp hvalid
      have hsmt : d.declare name bits =
          .ok (⟨UInt32.ofNat d.vars.length⟩, { d with vars := d.vars ++ [⟨name, bits⟩] }) := by
        rw [Smt.declare, hvalid]
        rfl
      rw [hsmt, hvars]
      exact ⟨rfl, m.grow bits, he.grow name hpos hmax, hd.grow hplain hpos hmax⟩
  · obtain ⟨hexplicit, hrepresents⟩ :=
      @Represents.respond_of_agree _ _ he ⟨call⟩ (he.apply_of_ne hk call) host
    obtain ⟨hsmt, hdescribes⟩ := hd.respond hk call hplain host'
    exact ⟨hsmt.trans hexplicit.symm, _, hrepresents, hdescribes⟩

/-- By induction on the calls. -/
theorem Describes.run {d : Smt} {e : Explicit} {m : Ideal} (hd : Describes d m)
    (he : Represents e m) (requests : List Request)
    (hplain : ∀ request ∈ requests, request.call.Plain) (host host' : Host)
    (hroom : ∀ total limit,
      .error (.universeTooLarge total limit) ∉ (Explicit.operations.run requests e host).1) :
    (Smt.operations.run requests d host').1 = (Explicit.operations.run requests e host).1 ∧
      ∃ m', Represents (Explicit.operations.run requests e host).2.1 m' ∧
        Describes (Smt.operations.run requests d host').2.1 m' := by
  induction requests generalizing d e m host host' with
  | nil => exact ⟨rfl, m, he, hd⟩
  | cons request requests ih =>
    simp only [Operations.run_cons, List.mem_cons, not_or] at hroom ⊢
    obtain ⟨hfirst, m', he', hd'⟩ := hd.lockstep he request (hplain _ List.mem_cons_self) host host'
      fun total limit => Ne.symm (hroom total limit).1
    obtain ⟨hrest, hend⟩ := ih hd' he' (fun r hr => hplain r (List.mem_cons_of_mem _ hr)) _ _
      fun total limit => (hroom total limit).2
    exact ⟨congrArg₂ List.cons hfirst hrest, hend⟩

/-- Whatever is asked of a fresh solver domain whose solver decides all questions, it answers as an
explicit domain with enough room does. Afterwards each stored text says a formula over the constants
of the declared variables, and its models are the valuations of the set under the same handle; and
what is put to the solver declares these constants, each with its width, and asserts a formula. -/
theorem smt_agrees {label : String} {solver : Solver} (hsolver : Decides solver) (limit : UInt32)
    (requests : List Request) (hplain : ∀ request ∈ requests, request.call.Plain)
    (host host' : Host)
    (hroom : ∀ total bound, .error (.universeTooLarge total bound) ∉
      (Explicit.operations.run requests (Explicit.new limit) host).1) :
    let explicit := Explicit.operations.run requests (Explicit.new limit) host
    let smt := Smt.operations.run requests (Smt.new label solver) host'
    let widths := smt.2.1.vars.map (·.bits)
    smt.1 = explicit.1 ∧
      (∀ set f, smt.2.1.sets.get? set = some f → ∃ t r, SmtLib.Term.ofText? f.text = some t ∧
        t.sort? (constants widths).scope = some .bool ∧
        (∀ name ∈ t.free, ∃ i < widths.length, name = constantName i) ∧
        explicit.2.1.sets.get? set = some r ∧
        t.models (constants widths) = denote (explicit.2.1.vars.map (·.bits)) r) ∧
      ∀ (k : Answer) (call : Call k) f ofUnsat, smt.2.1.react call = .ok (.question f ofUnsat) →
        ∃ s t, readText (smt.2.1.script f) = some (declarations widths ++
            [.list [.atom "assert", s], .list [.atom "check-sat"], .list [.atom "exit"]]) ∧
          SmtLib.Term.read? s = some t ∧
          Problem.read? (smt.2.1.script f) = some ⟨constants widths, [t]⟩ := by
  intro explicit smt widths
  obtain ⟨houtcomes, m, he, hd⟩ :=
    (Describes.new hsolver limit).run (.new limit) requests hplain host host' hroom
  have hwidths : widths = m.widths := hd.widths
  refine ⟨houtcomes, ?_, ?_⟩
  · intro set f hf
    have hset := hd.sets set
    rw [hf, he.sets set] at hset
    cases hr : explicit.2.1.sets.get? set with
    | none =>
      rw [hr] at hset
      cases hset
    | some r =>
      rw [hr] at hset
      obtain ⟨hmeans⟩ := hset
      rw [hwidths]
      refine ⟨f.term, r, f.ofText?_text, hmeans.sort, fun name hname => ?_, rfl, ?_⟩
      · exact exists_of_scope (SmtLib.Term.isSome_of_free hmeans.sort hname)
      · rw [hmeans.models_eq, he.widths]
  · intro k call f ofUnsat hreact
    obtain ⟨query, hquery⟩ := Smt.exists_asked hreact
    have hasked := hd.asked query
    rw [hquery] at hasked
    cases hq : m.question query with
    | error e =>
      rw [hq] at hasked
      exact hasked.elim
    | ok q =>
      rw [hq] at hasked
      obtain ⟨s, hmeans, -⟩ := hasked
      obtain ⟨sexp, hreads, hterm⟩ := f.exists_reads
      exact ⟨sexp, f.term, readText_queryScript hreads hd.names, hterm,
        hwidths ▸ hd.read?_script hmeans⟩

open Classical in
/-- A solver that looks at the models themselves. -/
noncomputable def SmtLib.reference : Solver where
  ask text host :=
    match Problem.read? text with
    | some p => (.ok (if p.Satisfiable then .sat else .unsat), host)
    | none => (.error "not a question", host)

theorem SmtLib.decides_reference : Decides reference := by
  intro text p host hread
  simp only [reference, hread]
  exact ⟨fun h => by rw [if_pos h], fun h => by rw [if_neg h]⟩

/-- A set outlives a declaration, a variable is quantified twice, and calls fail. -/
theorem smt_agrees_sample :
    let requests : List Request :=
      [⟨.declare "x" 2⟩, ⟨.varEqConst ⟨0⟩ 1⟩, ⟨.declare "y; (" 2⟩, ⟨.varEqVar ⟨0⟩ ⟨1⟩⟩,
        ⟨.intersect ⟨1⟩ ⟨2⟩⟩, ⟨.exists ⟨3⟩ ⟨0⟩⟩, ⟨.exists ⟨4⟩ ⟨0⟩⟩, ⟨.varEqConst ⟨1⟩ 1⟩,
        ⟨.equal ⟨5⟩ ⟨6⟩⟩, ⟨.subset ⟨5⟩ ⟨1⟩⟩, ⟨.varEqConst ⟨0⟩ 4⟩, ⟨.isEmpty ⟨9⟩⟩]
    Decides reference ∧ (∀ request ∈ requests, request.call.Plain) ∧
      (Smt.operations.run requests (Smt.new "z3" reference) Host.initial).1 =
        [.ok (.var ⟨0⟩), .ok (.set ⟨1⟩), .ok (.var ⟨1⟩), .ok (.set ⟨2⟩), .ok (.set ⟨3⟩),
          .ok (.set ⟨4⟩), .ok (.set ⟨5⟩), .ok (.set ⟨6⟩), .ok (.bool true), .ok (.bool false),
          .error (.valueOutOfRange 4 2), .error (.unknownSet ⟨9⟩)] := by
  intro requests
  have hplain : ∀ request ∈ requests, request.call.Plain := by
    simp [requests, Call.Plain, isLineBreak]
  have hexplicit : (Explicit.operations.run requests (Explicit.new 4) Host.initial).1 =
      [.ok (.var ⟨0⟩), .ok (.set ⟨1⟩), .ok (.var ⟨1⟩), .ok (.set ⟨2⟩), .ok (.set ⟨3⟩),
        .ok (.set ⟨4⟩), .ok (.set ⟨5⟩), .ok (.set ⟨6⟩), .ok (.bool true), .ok (.bool false),
        .error (.valueOutOfRange 4 2), .error (.unknownSet ⟨9⟩)] := by
    decide +kernel
  have hroom : ∀ total bound, .error (.universeTooLarge total bound) ∉
      (Explicit.operations.run requests (Explicit.new 4) Host.initial).1 := by
    simp [hexplicit]
  refine ⟨decides_reference, hplain, ?_⟩
  rw [(smt_agrees decides_reference 4 requests hplain Host.initial Host.initial hroom).1, hexplicit]

end LayeredSets
