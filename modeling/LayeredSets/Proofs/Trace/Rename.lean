import LayeredSets.Proofs.Trace.Custody

/-!
# Replays under other names

The handles of a trace are nothing but names. Two replays whose tables say the same about
corresponding names make the same calls and come to the same end, step by step. And since a step
looks its handles up before it makes its call, one that stands for nothing never gets as far as the
domain.
-/

namespace LayeredSets

namespace Trace

/-! ## Other names -/

/-- New names for the variables and for the sets of a trace. -/
structure Renaming where
  var : String → String
  set : String → String

def Renaming.handle (ρ : Renaming) : Handle → Handle
  | .var name => .var (ρ.var name)
  | .set name => .set (ρ.set name)

def Definition.rename (ρ : Renaming) : Definition → Definition
  | .top => .top
  | .bottom => .bottom
  | .const var value => .const (ρ.var var) value
  | .eqvar a b => .eqvar (ρ.var a) (ρ.var b)
  | .single values => .single values
  | .union a b => .union (ρ.set a) (ρ.set b)
  | .inter a b => .inter (ρ.set a) (ρ.set b)
  | .diff a b => .diff (ρ.set a) (ρ.set b)
  | .compl a => .compl (ρ.set a)
  | .exists set var => .exists (ρ.set set) (ρ.var var)

def Query.rename (ρ : Renaming) : Query → Query
  | .empty set => .empty (ρ.set set)
  | .equal a b => .equal (ρ.set a) (ρ.set b)
  | .subset a b => .subset (ρ.set a) (ρ.set b)

/-- Rename the handles of a step. The name that a variable is declared under is none. -/
def Op.rename (ρ : Renaming) : Op → Op
  | .declare target name bits => .declare (ρ.var target) name bits
  | .define target d => .define (ρ.set target) (d.rename ρ)
  | .query q expected => .query (q.rename ρ) expected
  | .release handle => .release (ρ.set handle)

end Trace

def Trace.rename (ρ : Trace.Renaming) (trace : Trace) : Trace :=
  trace.map fun step => ⟨step.line, step.op.rename ρ⟩

namespace Trace

open Action

variable {σ α β : Type}

/-- The handles that stand in a step. -/
def Op.handles : Op → List Handle
  | .declare target .. => [.var target]
  | .define target d => .set target :: d.uses
  | .query q _ => q.uses
  | .release handle => [.set handle]

/-- The handles that stand in a trace. -/
def handles (trace : Trace) : Set Handle := {handle | ∃ step ∈ trace, handle ∈ step.op.handles}

/-- The handle is looked up at this line. -/
def Uses (trace : Trace) (handle : Handle) (line : Nat) : Prop :=
  ∃ step ∈ trace, step.line = line ∧ handle ∈ step.op.uses

/-- The same result, but for the name of a handle that is looked up and unknown. -/
inductive Alike (ρ : Renaming) (uses : Handle → Nat → Prop) :
    Except RunError α → Except RunError α → Prop
  | ok (a : α) : Alike ρ uses (.ok a) (.ok a)
  | error {e : RunError} (h : ∀ name line, e ≠ .unknownHandle name line) :
    Alike ρ uses (.error e) (.error e)
  | unknown {handle : Handle} {line : Nat} (h : uses handle line) :
    Alike ρ uses (.error (handle.unknown line)) (.error ((ρ.handle handle).unknown line))

/-! ## Tables that correspond -/

/-- The handles in `known` stand in `s` for what their new names stand for in `t`, and the replays
have come equally far otherwise. -/
structure Renames (ρ : Renaming) (known : Set Handle) (s t : State σ) : Prop where
  domain : t.domain = s.domain
  checked : t.checked = s.checked
  vars : ∀ name, .var name ∈ known → t.vars.get? (ρ.var name) = s.vars.get? name
  sets : ∀ name, .set name ∈ known → t.sets.get? (ρ.set name) = s.sets.get? name

/-- Two replays that end together: in states that correspond, with the same host and the same result,
but for the name of an unknown handle. -/
structure EndTogether (ρ : Renaming) (known : Set Handle) (uses : Handle → Nat → Prop)
    (x y : Except RunError α × State σ × Host) : Prop where
  states : Renames ρ known x.2.1 y.2.1
  host : y.2.2 = x.2.2
  results : Alike ρ uses x.1 y.1

variable {ρ : Renaming} {known : Set Handle} {uses : Handle → Nat → Prop} {s t : State σ}

/-- Two replays go on together until both fail or both are at their end. -/
theorem EndTogether.bind {x y : Run σ α} {f g : α → Run σ β} {host : Host}
    (h : EndTogether ρ known uses (x s host) (y t host))
    (hfg : ∀ a s t host, Renames ρ known s t →
      EndTogether ρ known uses (f a s host) (g a t host)) :
    EndTogether ρ known uses ((x >>= f) s host) ((y >>= g) t host) := by
  rw [bind_apply, bind_apply]
  generalize x s host = r at h
  generalize y t host = r' at h
  obtain ⟨r, s', host'⟩ := r
  obtain ⟨r', t', host''⟩ := r'
  obtain ⟨hstates, rfl, hresults⟩ := h
  cases hresults with
  | ok a => exact hfg a s' t' _ hstates
  | error he => exact ⟨hstates, rfl, .error he⟩
  | unknown hline => exact ⟨hstates, rfl, .unknown hline⟩

namespace Renames

theorem refl_new (domain : σ) : Renames ρ known (.new domain) (.new domain) :=
  ⟨rfl, rfl, fun _ _ => rfl, fun _ _ => rfl⟩

theorem varOf (h : Renames ρ known s t) {name : String} (hname : .var name ∈ known) :
    t.varOf (ρ.var name) = (s.varOf name).mapError ρ.handle := by
  rw [State.varOf, State.varOf, h.vars name hname]
  cases s.vars.get? name <;> rfl

theorem setOf (h : Renames ρ known s t) {name : String} (hname : .set name ∈ known) :
    t.setOf (ρ.set name) = (s.setOf name).mapError ρ.handle := by
  rw [State.setOf, State.setOf, h.sets name hname]
  cases s.sets.get? name <;> rfl

theorem definition_call (h : Renames ρ known s t) {d : Definition}
    (hd : ∀ handle ∈ d.uses, handle ∈ known) :
    (d.rename ρ).call t = (d.call s).mapError ρ.handle := by
  cases d with
  | top | bottom | single => rfl
  | const name value =>
    have hname := hd (.var name) (by simp [Definition.uses])
    simp only [Definition.rename, Definition.call, h.varOf hname]
    cases s.varOf name <;> rfl
  | eqvar a b =>
    have ha := hd (.var a) (by simp [Definition.uses])
    have hb := hd (.var b) (by simp [Definition.uses])
    simp only [Definition.rename, Definition.call, h.varOf ha, h.varOf hb]
    cases s.varOf a <;> cases s.varOf b <;> rfl
  | union a b | inter a b | diff a b =>
    have ha := hd (.set a) (by simp [Definition.uses])
    have hb := hd (.set b) (by simp [Definition.uses])
    simp only [Definition.rename, Definition.call, h.setOf ha, h.setOf hb]
    cases s.setOf a <;> cases s.setOf b <;> rfl
  | compl a =>
    have ha := hd (.set a) (by simp [Definition.uses])
    simp only [Definition.rename, Definition.call, h.setOf ha]
    cases s.setOf a <;> rfl
  | «exists» a name =>
    have ha := hd (.set a) (by simp [Definition.uses])
    have hname := hd (.var name) (by simp [Definition.uses])
    simp only [Definition.rename, Definition.call, h.setOf ha, h.varOf hname]
    cases s.setOf a <;> cases s.varOf name <;> rfl

theorem query_call (h : Renames ρ known s t) {q : Query} (hq : ∀ handle ∈ q.uses, handle ∈ known) :
    (q.rename ρ).call t = (q.call s).mapError ρ.handle := by
  cases q with
  | empty a =>
    have ha := hq (.set a) (by simp [Query.uses])
    simp only [Query.rename, Query.call, h.setOf ha]
    cases s.setOf a <;> rfl
  | equal a b | subset a b =>
    have ha := hq (.set a) (by simp [Query.uses])
    have hb := hq (.set b) (by simp [Query.uses])
    simp only [Query.rename, Query.call, h.setOf ha, h.setOf hb]
    cases s.setOf a <;> cases s.setOf b <;> rfl

/-- Both replays make the same call, or neither makes one. -/
theorem request (h : Renames ρ known s t) {op : Op} (hop : ∀ handle ∈ op.handles, handle ∈ known) :
    (op.rename ρ).request t = (op.request s).mapError ρ.handle := by
  cases op with
  | declare => rfl
  | define target d =>
    simp only [Op.rename, Op.request,
      h.definition_call fun handle hd => hop handle (List.mem_cons_of_mem _ hd)]
    cases d.call s <;> rfl
  | query q expected =>
    simp only [Op.rename, Op.request, h.query_call hop]
    cases q.call s <;> rfl
  | release name =>
    simp only [Op.rename, Op.request, h.setOf (hop _ List.mem_cons_self)]
    cases s.setOf name <;> rfl

theorem var_beq (hinj : Set.InjOn ρ.handle known) {a b : String} (ha : .var a ∈ known)
    (hb : .var b ∈ known) : (ρ.var a == ρ.var b) = (a == b) := by
  have hiff := hinj.eq_iff ha hb
  simp only [Renaming.handle, Handle.var.injEq] at hiff
  rw [Bool.eq_iff_iff, beq_iff_eq, beq_iff_eq, hiff]

theorem set_beq (hinj : Set.InjOn ρ.handle known) {a b : String} (ha : .set a ∈ known)
    (hb : .set b ∈ known) : (ρ.set a == ρ.set b) = (a == b) := by
  have hiff := hinj.eq_iff ha hb
  simp only [Renaming.handle, Handle.set.injEq] at hiff
  rw [Bool.eq_iff_iff, beq_iff_eq, beq_iff_eq, hiff]

theorem onDomain (h : Renames ρ known s t) (domain : σ) :
    Renames ρ known { s with domain } { t with domain } :=
  ⟨rfl, h.checked, h.vars, h.sets⟩

theorem declared (h : Renames ρ known s t) (hinj : Set.InjOn ρ.handle known) {target : String}
    (htarget : .var target ∈ known) (var : VarId) :
    Renames ρ known { s with vars := s.vars.insert target var }
      { t with vars := t.vars.insert (ρ.var target) var } := by
  refine ⟨h.domain, h.checked, fun name hname => ?_, h.sets⟩
  rw [Table.get?_insert, Table.get?_insert, h.vars name hname, var_beq hinj hname htarget]

theorem defined (h : Renames ρ known s t) (hinj : Set.InjOn ρ.handle known) {target : String}
    (htarget : .set target ∈ known) (set : SetId) :
    Renames ρ known { s with sets := s.sets.insert target set }
      { t with sets := t.sets.insert (ρ.set target) set } := by
  refine ⟨h.domain, h.checked, h.vars, fun name hname => ?_⟩
  rw [Table.get?_insert, Table.get?_insert, h.sets name hname, set_beq hinj hname htarget]

theorem released (h : Renames ρ known s t) (hinj : Set.InjOn ρ.handle known) {target : String}
    (htarget : .set target ∈ known) :
    Renames ρ known { s with sets := s.sets.erase target }
      { t with sets := t.sets.erase (ρ.set target) } := by
  refine ⟨h.domain, h.checked, h.vars, fun name hname => ?_⟩
  rw [Table.get?_erase, Table.get?_erase, h.sets name hname, set_beq hinj hname htarget]

theorem confirm (h : Renames ρ known s t) (line : Nat) (actual : Bool) (expected : Option Bool) :
    let x := confirm line actual s expected
    let y := confirm line actual t expected
    Renames ρ known x.2 y.2 ∧ Alike ρ uses x.1 y.1 := by
  intro x y
  rcases expected with _ | expected
  · exact ⟨h, .ok ()⟩
  · simp only [x, y, Trace.confirm]
    split
    · exact ⟨⟨h.domain, congrArg (· + 1) h.checked, h.vars, h.sets⟩, .ok ()⟩
    · refine ⟨h, .error ?_⟩
      rintro _ _ ⟨⟩

/-- What is left of the step leads to the same end. -/
theorem finish (h : Renames ρ known s t) (hinj : Set.InjOn ρ.handle known) {op : Op}
    (hop : ∀ handle ∈ op.handles, handle ∈ known) (line : Nat) (answered : Outcome × σ × Host) :
    EndTogether ρ known uses (op.finish line s answered) ((op.rename ρ).finish line t answered) := by
  obtain ⟨_ | reply, domain, host⟩ := answered
  · exact ⟨h.onDomain domain, rfl, .error nofun⟩
  · have hsame := h.onDomain domain
    cases op with
    | declare target name bits =>
      cases reply with
      | var var => exact ⟨hsame.declared hinj (hop _ List.mem_cons_self) var, rfl, .ok ()⟩
      | set | bool | unit => exact ⟨hsame, rfl, .ok ()⟩
    | define target d =>
      cases reply with
      | set set => exact ⟨hsame.defined hinj (hop _ List.mem_cons_self) set, rfl, .ok ()⟩
      | var | bool | unit => exact ⟨hsame, rfl, .ok ()⟩
    | query q expected =>
      cases reply with
      | bool actual =>
        obtain ⟨hstates, hresults⟩ := hsame.confirm line actual expected
        exact ⟨hstates, rfl, hresults⟩
      | var | set | unit => exact ⟨hsame, rfl, .ok ()⟩
    | release name =>
      cases reply with
      | unit => exact ⟨hsame.released hinj (hop _ List.mem_cons_self), rfl, .ok ()⟩
      | var | set | bool => exact ⟨hsame, rfl, .ok ()⟩

/-! ## Runs that correspond -/

variable {ops : Operations σ}

theorem execute (h : Renames ρ known s t) (hinj : Set.InjOn ρ.handle known) {step : Step}
    (hstep : ∀ handle ∈ step.op.handles, handle ∈ known)
    (huses : ∀ handle ∈ step.op.uses, uses handle step.line) (host : Host) :
    EndTogether ρ known uses (execute ops step.line step.op s host)
      (Trace.execute ops step.line (step.op.rename ρ) t host) := by
  have hcall := h.request hstep
  cases hrequest : step.op.request s with
  | error handle =>
    rw [hrequest] at hcall
    have hfind := request_eq_error_iff.mp hrequest
    rw [execute_of_unknown hrequest, execute_of_unknown hcall]
    exact ⟨h, rfl, .unknown (huses handle (List.mem_of_find?_eq_some hfind))⟩
  | ok request =>
    rw [hrequest] at hcall
    rw [execute_of_known hrequest, execute_of_known hcall, h.domain]
    exact h.finish hinj hstep step.line _

/-- A run, by induction on its steps, each of which takes states that correspond to such states. -/
theorem steps (h : Renames ρ known s t) (hinj : Set.InjOn ρ.handle known) (trace : Trace)
    (hknown : ∀ step ∈ trace, ∀ handle ∈ step.op.handles, handle ∈ known)
    (huses : ∀ step ∈ trace, ∀ handle ∈ step.op.uses, uses handle step.line) (host : Host) :
    EndTogether ρ known uses
      (trace.forM (fun step => Trace.execute ops step.line step.op) s host)
      ((trace.rename ρ).forM (fun step => Trace.execute ops step.line step.op) t host) := by
  induction trace generalizing s t host with
  | nil => exact ⟨h, rfl, .ok ()⟩
  | cons step rest ih =>
    obtain ⟨hstep, hrest⟩ := List.forall_mem_cons.mp hknown
    obtain ⟨hstep', hrest'⟩ := List.forall_mem_cons.mp huses
    exact (h.execute hinj hstep hstep' host).bind fun _ s t host hst => ih hst hrest hrest' host

/-- Replays of a trace under its own names and under new ones. -/
theorem run (trace : Trace) (hinj : Set.InjOn ρ.handle (handles trace)) (domain : σ) (host : Host) :
    EndTogether ρ (handles trace) (Uses trace) (run ops trace (.new domain) host)
      (Trace.run ops (trace.rename ρ) (.new domain) host) := by
  have hstart : Renames ρ (handles trace) (.new domain) (.new domain) := refl_new domain
  refine (hstart.steps hinj trace (fun step hstep handle hh => ⟨step, hstep, hh⟩)
    (fun step hstep handle hh => ⟨step, hstep, rfl, hh⟩) host).bind fun _ s t host hst => ?_
  rw [Trace.rename, List.length_map]
  exact ⟨hst, rfl, .ok _⟩

end Renames

/-! ## Handles that are unknown -/

theorem knows_steps {known : Finset Handle} {ops : Operations σ} (trace : Trace) {s t : State σ}
    (h : s.Knows known) {host host' : Host}
    (hok : trace.forM (fun step => execute ops step.line step.op) s host = (.ok (), t, host')) :
    t.Knows (leave known trace) := by
  induction trace generalizing s known host with
  | nil =>
    cases hok
    exact h
  | cons step rest ih =>
    change (execute ops step.line step.op >>= fun _ => rest.forM _) s host = _ at hok
    rw [bind_apply] at hok
    rcases hstep : execute ops step.line step.op s host with ⟨e | _, s', host''⟩
    · rw [hstep] at hok
      cases hok
    · rw [hstep] at hok
      exact ih (knows_execute h hstep) hok

/-- The first handle of a step that stands for nothing is reported, and the replay ends there. -/
theorem run_unknown {ops : Operations σ} {before after : Trace} {step : Step} {handle : Handle}
    {domain : σ} {host : Host} (hbefore : (run ops before (.new domain) host).1.isOk = true)
    (hfirst : step.op.uses.find? (· ∉ leave ∅ before) = some handle) :
    run ops (before ++ step :: after) (.new domain) host =
      (.error (handle.unknown step.line), (run ops before (.new domain) host).2) := by
  let take (trace : Trace) : Run σ Unit := trace.forM fun step => execute ops step.line step.op
  have hrun (trace : Trace) : run ops trace = take trace >>= fun _ => pure trace.length := rfl
  have hsplit : take (before ++ step :: after) =
      take before >>= fun _ => execute ops step.line step.op >>= fun _ => take after :=
    List.forM_append
  rcases hsteps : take before (.new domain) host with ⟨e | _, t, host'⟩
  · rw [hrun, bind_apply_error hsteps] at hbefore
    cases hbefore
  · have hknows : t.Knows (leave ∅ before) := knows_steps before (.new domain) hsteps
    have hrequest : step.op.request t = .error handle := by
      rw [request_eq_error_iff, ← hfirst]
      congr 1
      funext handle
      rw [Bool.eq_iff_iff]
      simp [← hknows handle]
    rw [hrun, hrun, hsplit, bind_assoc, bind_apply_ok hsteps, bind_apply_ok hsteps, bind_assoc,
      bind_apply_error (execute_of_unknown hrequest host')]
    rfl

/-- New names for the handles of a trace, no two of them the same, change nothing about its replay:
the calls are the same and find the same domain, and the result is the same but for the name of an
unknown handle. All that the domain is given is there, since a step that uses a name which stands
for nothing ends before its call. -/
theorem run_renamed (limit : UInt32) (trace : Trace) (ρ : Renaming)
    (hinj : Set.InjOn ρ.handle (handles trace)) (host : Host) :
    let watch := Watch.operations id Explicit.operations
    let start : State (Atop (List Sighting) Explicit) := .new ⟨[], .new limit⟩
    let ran := run Explicit.operations trace (.new (.new limit)) host
    let watched := run watch trace start host
    let renamed := run watch (trace.rename ρ) start host
    let tapped := run (Tap.operations Explicit.operations) trace (.new ⟨[], .new limit⟩) host
    ran = (watched.1, watched.2.1.map (·.inner), watched.2.2) ∧
    (renamed.2.1.domain = watched.2.1.domain ∧ renamed.2.1.checked = watched.2.1.checked ∧
      renamed.2.2 = watched.2.2 ∧ Alike ρ (Uses trace) watched.1 renamed.1) ∧
    (tapped.2.1.domain.layer.sets < 2 ^ 32 →
      ∀ seen ∈ watched.2.1.domain.layer, seen.bottom.Provides seen.request.call) ∧
    ∀ before step after handle, trace = before ++ step :: after →
      (run watch before start host).1.isOk = true →
      step.op.uses.find? (· ∉ leave ∅ before) = some handle →
      watched = (.error (handle.unknown step.line), (run watch before start host).2) := by
  intro watch start ran watched renamed tapped
  have htogether : EndTogether ρ (handles trace) (Uses trace) watched renamed :=
    Renames.run trace hinj _ host
  refine ⟨carries_run (Watch.carries id Explicit.operations) trace start host,
    ⟨htogether.states.domain, htogether.states.checked, htogether.host, htogether.results⟩,
    fun hfew => ?_, ?_⟩
  · -- The same watch on a tapped domain sees the same, and there every call has a backing.
    let both := run (Watch.operations Bottom.backing.base (Tap.operations Explicit.operations)) trace
      (.new ⟨[], ⟨[], .new limit⟩⟩) host
    have hwatched : watched = (both.1, both.2.1.map (Atop.map (·.inner)), both.2.2) :=
      carries_run (Watch.carries_map (Tap.carries Explicit.operations) id) trace
        (.new ⟨[], ⟨[], .new limit⟩⟩) host
    have htapped : tapped = (both.1, both.2.1.map (·.inner), both.2.2) :=
      carries_run (Watch.carries Bottom.backing.base (Tap.operations Explicit.operations)) trace
        (.new ⟨[], ⟨[], .new limit⟩⟩) host
    rw [htapped] at hfew
    have hstart : Bottom.backing.watched.Good ⟨[], ⟨[], .new limit⟩⟩ :=
      ⟨Bottom.Sound.new limit, List.forall_mem_nil _⟩
    have hends := ends_run hstart (Explicit.live_new limit) trace host (not_le.mpr hfew)
    rw [hwatched]
    exact hends.1.good.2
  · rintro before step after handle rfl hbefore hfirst
    exact run_unknown hbefore hfirst

attribute [local irreducible] run in
/-- The names of the variables are swapped, and the last step uses a set that has been released. -/
theorem run_renamed_sample :
    let trace : Trace := [⟨1, .declare "a" "x" 2⟩, ⟨2, .declare "b" "y" 2⟩,
      ⟨3, .define "a" (.eqvar "a" "b")⟩, ⟨4, .define "b" (.exists "a" "b")⟩,
      ⟨5, .query (.subset "a" "b") (some true)⟩, ⟨6, .release "a"⟩,
      ⟨7, .define "b" (.diff "b" "a")⟩]
    let ρ : Renaming := ⟨fun name => if name = "a" then "b" else "a", fun name => name ++ "1"⟩
    let watch := Watch.operations id Explicit.operations
    let start : State (Atop (List Sighting) Explicit) := .new ⟨[], .new 20⟩
    let watched := run watch trace start Host.initial
    let renamed := run watch (trace.rename ρ) start Host.initial
    let tapped := run (Tap.operations Explicit.operations) trace (.new ⟨[], .new 20⟩) Host.initial
    Set.InjOn ρ.handle (handles trace) ∧ tapped.2.1.domain.layer.sets < 2 ^ 32 ∧
      watched.1 = .error (.unknownHandle "a" 7) ∧ renamed.1 = .error (.unknownHandle "a1" 7) ∧
      renamed.2.1.domain = watched.2.1.domain ∧ renamed.2.1.checked = 1 ∧
      ∀ seen ∈ watched.2.1.domain.layer, seen.bottom.Provides seen.request.call := by
  intro trace ρ watch start watched renamed tapped
  have hlist : ∀ a ∈ trace.flatMap (·.op.handles), ∀ b ∈ trace.flatMap (·.op.handles),
      ρ.handle a = ρ.handle b → a = b := by
    decide +kernel
  have hinj : Set.InjOn ρ.handle (handles trace) := by
    rintro a ⟨step, hstep, ha⟩ b ⟨step', hstep', hb⟩ hab
    exact hlist a (List.mem_flatMap.mpr ⟨step, hstep, ha⟩) b
      (List.mem_flatMap.mpr ⟨step', hstep', hb⟩) hab
  have hfew : tapped.2.1.domain.layer.sets < 2 ^ 32 := by decide +kernel
  obtain ⟨-, ⟨hdomain, hchecked, -, -⟩, hseen, -⟩ := run_renamed 20 trace ρ hinj Host.initial
  exact ⟨hinj, hfew, by decide +kernel, by decide +kernel, hdomain,
    hchecked.trans (by decide +kernel), hseen hfew⟩

end Trace

end LayeredSets
