import LayeredSets.Proofs.Layer.Transport
import LayeredSets.Proofs.Action
import LayeredSets.Trace.Run

/-!
# One step of a replay

A step looks up its handles, makes one call, and settles what came of it. The first part sees
nothing of the domain and the call sees nothing of the names, so that each can be reasoned about
apart from the other.
-/

namespace LayeredSets.Trace

variable {σ τ α β : Type}

/-- A name in a trace. Variables and sets have names of their own. -/
inductive Handle
  | var (name : String)
  | set (name : String)
  deriving DecidableEq, Repr

def Handle.name : Handle → String
  | .var name | .set name => name

/-- The error of a step that uses a handle which stands for nothing. -/
def Handle.unknown (line : Nat) (handle : Handle) : RunError := .unknownHandle handle.name line

namespace State

/-- The variable that a name stands for. -/
def varOf (s : State σ) (name : String) : Except Handle VarId :=
  match s.vars.get? name with
  | some var => .ok var
  | none => .error (.var name)

/-- The set that a name stands for. -/
def setOf (s : State σ) (name : String) : Except Handle SetId :=
  match s.sets.get? name with
  | some set => .ok set
  | none => .error (.set name)

/-- Does the handle stand for anything? -/
def knows (s : State σ) : Handle → Bool
  | .var name => (s.vars.get? name).isSome
  | .set name => (s.sets.get? name).isSome

/-- The same replay on another domain. -/
def map (f : σ → τ) (s : State σ) : State τ := ⟨f s.domain, s.vars, s.sets, s.checked⟩

theorem get?_of_varOf {s : State σ} {name : String} {var : VarId} (h : s.varOf name = .ok var) :
    s.vars.get? name = some var := by
  rw [varOf] at h
  cases hget : s.vars.get? name <;> simp_all

theorem get?_of_setOf {s : State σ} {name : String} {set : SetId} (h : s.setOf name = .ok set) :
    s.sets.get? name = some set := by
  rw [setOf] at h
  cases hget : s.sets.get? name <;> simp_all

end State

/-! ## What is looked up -/

/-- The handles that stand in a definition, in the order in which they are looked up. -/
def Definition.uses : Definition → List Handle
  | .top | .bottom | .single _ => []
  | .const var _ => [.var var]
  | .eqvar a b => [.var a, .var b]
  | .union a b | .inter a b | .diff a b => [.set a, .set b]
  | .compl a => [.set a]
  | .exists set var => [.set set, .var var]

def Query.uses : Query → List Handle
  | .empty set => [.set set]
  | .equal a b | .subset a b => [.set a, .set b]

/-- The handles that a step looks up, in order. -/
def Op.uses : Op → List Handle
  | .declare .. => []
  | .define _ definition => definition.uses
  | .query q _ => q.uses
  | .release handle => [.set handle]

/-- The call that a definition stands for, or the first handle that stands for nothing. -/
def Definition.call (s : State σ) : Definition → Except Handle (Call .set)
  | .top => return .top
  | .bottom => return .bottom
  | .const var value => return .varEqConst (← s.varOf var) value
  | .eqvar a b => return .varEqVar (← s.varOf a) (← s.varOf b)
  | .single values => return .singleton values
  | .union a b => return .union (← s.setOf a) (← s.setOf b)
  | .inter a b => return .intersect (← s.setOf a) (← s.setOf b)
  | .diff a b => return .difference (← s.setOf a) (← s.setOf b)
  | .compl a => return .complement (← s.setOf a)
  | .exists set var => return .exists (← s.setOf set) (← s.varOf var)

def Query.call (s : State σ) : Query → Except Handle (Call .bool)
  | .empty set => return .isEmpty (← s.setOf set)
  | .equal a b => return .equal (← s.setOf a) (← s.setOf b)
  | .subset a b => return .subset (← s.setOf a) (← s.setOf b)

/-- The call that a step makes, or the first handle that stands for nothing. -/
def Op.request (s : State σ) : Op → Except Handle Request
  | .declare _ name bits => .ok ⟨.declare name bits⟩
  | .define _ definition => return ⟨← definition.call s⟩
  | .query q _ => return ⟨← q.call s⟩
  | .release handle => return ⟨.release (← s.setOf handle)⟩

open Action

/-- The handle to blame if nothing was found. -/
def blamed : Except Handle α → Option Handle
  | .ok _ => none
  | .error handle => some handle

/-- In the state `s` the action looks up `handles` and does no more: it gives what is found, or names
the first handle that stands for nothing. -/
structure Finds (line : Nat) (s : State σ) (handles : List Handle) (x : Run σ α)
    (found : Except Handle α) : Prop where
  apply : ∀ host, x s host = (found.mapError (Handle.unknown line), s, host)
  blamed : blamed found = handles.find? (!s.knows ·)

namespace Finds

variable {line : Nat} {s : State σ} {handles handles' : List Handle} {x : Run σ α}
  {found : Except Handle α}

protected theorem pure (a : α) : Finds line s [] (pure a) (pure a) := ⟨fun _ => rfl, rfl⟩

protected theorem bind (h : Finds line s handles x found) {f : α → Run σ β}
    {g : α → Except Handle β} (hfg : ∀ a, Finds line s handles' (f a) (g a)) :
    Finds line s (handles ++ handles') (x >>= f) (found >>= g) := by
  cases found with
  | error handle =>
    refine ⟨fun host => bind_apply_error (h.apply host), ?_⟩
    rw [List.find?_append, ← h.blamed]
    rfl
  | ok a =>
    refine ⟨fun host => (bind_apply_ok (h.apply host)).trans ((hfg a).apply host), ?_⟩
    rw [List.find?_append, ← h.blamed]
    exact (hfg a).blamed

variable (line s)

theorem var (name : String) : Finds line s [.var name] (findVar line name) (s.varOf name) := by
  constructor
  · intro host
    simp only [findVar, State.varOf, bind_apply, Action.get]
    cases s.vars.get? name <;> rfl
  · rw [List.find?_singleton, State.knows, State.varOf]
    cases s.vars.get? name <;> rfl

theorem set (name : String) : Finds line s [.set name] (findSet line name) (s.setOf name) := by
  constructor
  · intro host
    simp only [findSet, State.setOf, bind_apply, Action.get]
    cases s.sets.get? name <;> rfl
  · rw [List.find?_singleton, State.knows, State.setOf]
    cases s.sets.get? name <;> rfl

theorem definition (d : Definition) : Finds line s d.uses (resolve line d) (d.call s) := by
  cases d with
  | top | bottom | single => exact .pure _
  | const name value => exact (var line s name).bind fun _ => .pure _
  | eqvar a b => exact (var line s a).bind fun _ => (var line s b).bind fun _ => .pure _
  | union a b | inter a b | diff a b =>
    exact (set line s a).bind fun _ => (set line s b).bind fun _ => .pure _
  | compl a => exact (set line s a).bind fun _ => .pure _
  | «exists» a name => exact (set line s a).bind fun _ => (var line s name).bind fun _ => .pure _

theorem query (q : Query) : Finds line s q.uses (resolveQuery line q) (q.call s) := by
  cases q with
  | empty a => exact (set line s a).bind fun _ => .pure _
  | equal a b | subset a b => exact (set line s a).bind fun _ => (set line s b).bind fun _ => .pure _

end Finds

/-- A step that cannot make its call blames the first handle that stands for nothing. -/
theorem blamed_request (s : State σ) (op : Op) :
    blamed (op.request s) = op.uses.find? (!s.knows ·) := by
  have hmap {k : Answer} (found : Except Handle (Call k)) :
      blamed (do return (⟨← found⟩ : Request)) = blamed found := by
    cases found <;> rfl
  cases op with
  | declare => rfl
  | define target d => exact (hmap _).trans (Finds.definition 0 s d).blamed
  | query q expected => exact (hmap _).trans (Finds.query 0 s q).blamed
  | release name =>
    refine Eq.trans ?_ (Finds.set 0 s name).blamed
    rw [Op.request]
    cases s.setOf name <;> rfl

theorem request_eq_error_iff {s : State σ} {op : Op} {handle : Handle} :
    op.request s = .error handle ↔ op.uses.find? (!s.knows ·) = some handle := by
  rw [← blamed_request]
  cases op.request s <;> simp [blamed]

/-! ## What comes of a step -/

/-- What comes of comparing an answer with the recorded one. -/
def confirm (line : Nat) (actual : Bool) (s : State σ) : Option Bool → Except RunError Unit × State σ
  | none => (.ok (), s)
  | some expected =>
    if expected = actual then (.ok (), { s with checked := s.checked + 1 })
    else (.error (.checkFailed expected actual line), s)

/-- What a step does with the reply to its call. -/
def Op.settle (line : Nat) : Op → Reply → State σ → Except RunError Unit × State σ
  | .declare target .., .var var, s => (.ok (), { s with vars := s.vars.insert target var })
  | .define target _, .set made, s => (.ok (), { s with sets := s.sets.insert target made })
  | .query _ expected, .bool actual, s => confirm line actual s expected
  | .release handle, .unit, s => (.ok (), { s with sets := s.sets.erase handle })
  | _, _, s => (.ok (), s)

/-- What is left of a step once its call has been answered. -/
def Op.finish (line : Nat) (op : Op) (s : State σ) :
    Outcome × σ × Host → Except RunError Unit × State σ × Host
  | (.error e, domain, host) => (.error (.domain line e), { s with domain }, host)
  | (.ok reply, domain, host) =>
    let settled := op.settle line reply { s with domain }
    (settled.1, settled.2, host)

variable {ops : Operations σ} {line : Nat} {s : State σ} {op : Op}

/-- A step that names something unknown does not reach the domain. -/
theorem execute_of_unknown {handle : Handle} (h : op.request s = .error handle) (host : Host) :
    execute ops line op s host = (.error (handle.unknown line), s, host) := by
  cases op with
  | declare => cases h
  | define target d =>
    obtain h | ⟨_, -, ⟨⟩⟩ := bind_eq_error h
    have hlook := (Finds.definition line s d).apply host
    rw [h] at hlook
    exact bind_apply_error hlook
  | query q expected =>
    obtain h | ⟨_, -, ⟨⟩⟩ := bind_eq_error h
    have hlook := (Finds.query line s q).apply host
    rw [h] at hlook
    exact bind_apply_error hlook
  | release name =>
    obtain h | ⟨_, -, ⟨⟩⟩ := bind_eq_error h
    have hlook := (Finds.set line s name).apply host
    rw [h] at hlook
    exact bind_apply_error hlook

theorem check_apply (actual : Bool) (expected : Option Bool) (s : State σ) (host : Host) :
    check line actual expected s host =
      ((confirm line actual s expected).1, (confirm line actual s expected).2, host) := by
  rcases expected with _ | expected
  · rfl
  · simp only [check, confirm]
    split <;> rfl

theorem call_bind_apply {k : Answer} (c : Call k) {f : k.Value → Run σ Unit}
    (hf : ∀ value t host, f value t host =
      ((op.settle line (k.reply value) t).1, (op.settle line (k.reply value) t).2, host))
    (host : Host) :
    (call ops line c >>= f) s host = op.finish line s (ops.respond ⟨c⟩ s.domain host) := by
  have hcall : call ops line c s host = ((ops.step c s.domain host).1.mapError (.domain line),
      { s with domain := (ops.step c s.domain host).2.1 }, (ops.step c s.domain host).2.2) := rfl
  have hrespond : ops.respond ⟨c⟩ s.domain host = ((ops.step c s.domain host).1.map k.reply,
      (ops.step c s.domain host).2.1, (ops.step c s.domain host).2.2) := rfl
  rw [bind_apply, hcall, hrespond]
  generalize ops.step c s.domain host = r
  obtain ⟨e | value, domain, host'⟩ := r
  · rfl
  · exact hf value _ host'

/-- A step whose handles are known makes its call. -/
theorem execute_of_known {request : Request} (h : op.request s = .ok request) (host : Host) :
    execute ops line op s host = op.finish line s (ops.respond request s.domain host) := by
  cases op with
  | declare target name bits =>
    obtain rfl := Except.ok.inj h
    refine call_bind_apply _ ?_ host
    exact fun _ _ _ => rfl
  | define target d =>
    obtain ⟨c, hc, ⟨⟩⟩ := bind_eq_ok h
    have hlook := (Finds.definition line s d).apply host
    rw [hc] at hlook
    refine (bind_apply_ok hlook).trans (call_bind_apply c ?_ host)
    exact fun _ _ _ => rfl
  | query q expected =>
    obtain ⟨c, hc, ⟨⟩⟩ := bind_eq_ok h
    have hlook := (Finds.query line s q).apply host
    rw [hc] at hlook
    refine (bind_apply_ok hlook).trans (call_bind_apply c (fun actual t host => ?_) host)
    exact check_apply actual expected t host
  | release name =>
    obtain ⟨set, hset, ⟨⟩⟩ := bind_eq_ok h
    have hlook := (Finds.set line s name).apply host
    rw [hset] at hlook
    refine (bind_apply_ok hlook).trans (call_bind_apply _ ?_ host)
    exact fun _ _ _ => rfl

/-! ## What a step leaves alone -/

/-- All that a comparison changes is the number of answers confirmed. -/
theorem exists_confirm (line : Nat) (actual : Bool) (s : State σ) (expected : Option Bool) :
    ∃ checked, (confirm line actual s expected).2 = { s with checked } := by
  rcases expected with _ | expected
  · exact ⟨s.checked, rfl⟩
  · simp only [confirm]
    split
    · exact ⟨s.checked + 1, rfl⟩
    · exact ⟨s.checked, rfl⟩

theorem settle_domain (line : Nat) (op : Op) (reply : Reply) (s : State σ) :
    (op.settle line reply s).2.domain = s.domain := by
  cases op <;> cases reply <;> try rfl
  case query.bool q expected actual =>
    obtain ⟨checked, hchecked⟩ := exists_confirm line actual s expected
    rw [Op.settle, hchecked]

/-- The domain changes by the call alone. -/
@[simp] theorem finish_domain (line : Nat) (op : Op) (s : State σ) (answered : Outcome × σ × Host) :
    (op.finish line s answered).2.1.domain = answered.2.1 := by
  obtain ⟨_ | reply, domain, host⟩ := answered
  · rfl
  · exact settle_domain line op reply _

@[simp] theorem finish_host (line : Nat) (op : Op) (s : State σ) (answered : Outcome × σ × Host) :
    (op.finish line s answered).2.2 = answered.2.2 := by
  obtain ⟨_ | reply, domain, host⟩ := answered <;> rfl

/-- What every call keeps is kept by every step. -/
theorem keeps_execute {I : σ → Host → Prop} (h : ∀ (k : Answer) (c : Call k), Keeps I (ops.step c))
    (line : Nat) (op : Op) : Keeps (fun s host => I s.domain host) (execute ops line op) := by
  refine ⟨fun s host hs => ?_⟩
  cases hrequest : op.request s with
  | error handle =>
    rw [execute_of_unknown hrequest]
    exact hs
  | ok request =>
    rw [execute_of_known hrequest, finish_domain, finish_host]
    exact (h _ request.call).keeps s.domain host hs

/-! ## The same steps on another domain -/

section

variable {f : σ → τ} {a : Operations σ} {b : Operations τ}

/-- Handles are looked up apart from the domain. -/
theorem request_map (f : σ → τ) (s : State σ) (op : Op) : op.request (s.map f) = op.request s := by
  cases op with
  | declare | release => rfl
  | define target d => cases d <;> rfl
  | query q expected => cases q <;> rfl

theorem confirm_map (f : σ → τ) (line : Nat) (actual : Bool) (s : State σ) (expected : Option Bool) :
    confirm line actual (s.map f) expected =
      ((confirm line actual s expected).1, (confirm line actual s expected).2.map f) := by
  rcases expected with _ | expected
  · rfl
  · simp only [confirm]
    split <;> rfl

theorem settle_map (f : σ → τ) (line : Nat) (op : Op) (reply : Reply) (s : State σ) :
    op.settle line reply (s.map f) =
      ((op.settle line reply s).1, (op.settle line reply s).2.map f) := by
  cases op <;> cases reply <;> first | rfl | exact confirm_map f line _ s _

theorem finish_map (f : σ → τ) (line : Nat) (op : Op) (s : State σ)
    (answered : Outcome × σ × Host) :
    op.finish line (s.map f) (answered.1, f answered.2.1, answered.2.2) =
      let ended := op.finish line s answered
      (ended.1, ended.2.1.map f, ended.2.2) := by
  obtain ⟨_ | reply, domain, host⟩ := answered
  · rfl
  · simp only [Op.finish]
    exact congrArg (fun ended => (ended.1, ended.2, host)) (settle_map f line op reply ⟨domain, _, _, _⟩)

theorem carries_execute (h : a.Carries f b) (line : Nat) (op : Op) :
    Carries (State.map f) (execute a line op) (execute b line op) := by
  intro s host
  cases hrequest : op.request s with
  | error handle =>
    rw [execute_of_unknown hrequest, execute_of_unknown ((request_map f s op).trans hrequest)]
  | ok request =>
    rw [execute_of_known hrequest, execute_of_known ((request_map f s op).trans hrequest)]
    exact (congrArg _ (h.respond request s.domain host)).trans (finish_map f line op s _)

theorem carries_run (h : a.Carries f b) (trace : Trace) :
    Carries (State.map f) (run a trace) (run b trace) :=
  (Carries.forM (fun _ => carries_execute h _ _) trace).bind fun _ => Carries.pure _ _

end

/-! ## The handles that stand for something -/

/-- What stands for something once the step has been taken, if this did before it. -/
def Op.leave (known : Finset Handle) : Op → Finset Handle
  | .declare target .. => insert (.var target) known
  | .define target _ => insert (.set target) known
  | .query .. => known
  | .release handle => known.erase (.set handle)

/-- What stands for something once all steps of the trace have been taken. -/
def leave (known : Finset Handle) (trace : Trace) : Finset Handle :=
  trace.foldl (fun known step => step.op.leave known) known

/-- These handles stand for something, and no others. -/
def State.Knows (s : State σ) (known : Finset Handle) : Prop :=
  ∀ handle, s.knows handle = true ↔ handle ∈ known

namespace State.Knows

variable {known : Finset Handle}

theorem new (domain : σ) : (State.new domain).Knows ∅ := by
  rintro (name | name) <;> simp [knows, State.new]

theorem declared (h : s.Knows known) (name : String) (var : VarId) :
    { s with vars := s.vars.insert name var }.Knows (insert (Handle.var name) known) := by
  rintro (other | other)
  · rw [Finset.mem_insert, ← h, knows, knows, Table.get?_insert]
    by_cases hname : other = name <;> simp [hname]
  · exact (h (.set other)).trans (by simp)

theorem defined (h : s.Knows known) (name : String) (set : SetId) :
    { s with sets := s.sets.insert name set }.Knows (insert (Handle.set name) known) := by
  rintro (other | other)
  · exact (h (.var other)).trans (by simp)
  · rw [Finset.mem_insert, ← h, knows, knows, Table.get?_insert]
    by_cases hname : other = name <;> simp [hname]

theorem released (h : s.Knows known) (name : String) :
    { s with sets := s.sets.erase name }.Knows (known.erase (Handle.set name)) := by
  rintro (other | other)
  · exact (h (.var other)).trans (by simp)
  · rw [Finset.mem_erase, ← h, knows, knows, Table.get?_erase]
    by_cases hname : other = name <;> simp [hname]

theorem similar (h : s.Knows known) (domain : σ) (checked : Nat) :
    { s with domain, checked }.Knows known := h

end State.Knows

/-- The reply settles what the step is about. -/
theorem knows_finish {known : Finset Handle} (h : s.Knows known) {request : Request}
    (hrequest : op.request s = .ok request) (outcome : Except DomainError request.kind.Value)
    (domain : σ) (host : Host) :
    let ended := op.finish line s (outcome.map request.kind.reply, domain, host)
    ended.1 = .ok () → ended.2.1.Knows (op.leave known) := by
  intro ended hok
  cases outcome with
  | error e => cases hok
  | ok value =>
    cases op with
    | declare target name bits =>
      obtain rfl := Except.ok.inj hrequest
      exact (h.similar domain s.checked).declared target value
    | define target d =>
      obtain ⟨c, -, ⟨⟩⟩ := bind_eq_ok hrequest
      exact (h.similar domain s.checked).defined target value
    | query q expected =>
      obtain ⟨c, -, ⟨⟩⟩ := bind_eq_ok hrequest
      obtain ⟨checked, hchecked⟩ := exists_confirm line value { s with domain } expected
      have hended : ended.2.1 = { s with domain, checked } := hchecked
      exact hended ▸ h.similar domain checked
    | release name =>
      obtain ⟨set, -, ⟨⟩⟩ := bind_eq_ok hrequest
      exact (h.similar domain s.checked).released name

theorem knows_execute {known : Finset Handle} (h : s.Knows known) {t : State σ} {host host' : Host}
    (hok : execute ops line op s host = (.ok (), t, host')) : t.Knows (op.leave known) := by
  cases hrequest : op.request s with
  | error handle =>
    rw [execute_of_unknown hrequest] at hok
    cases hok
  | ok request =>
    rw [execute_of_known hrequest] at hok
    have hknows : (op.finish line s (ops.respond request s.domain host)).1 = .ok () →
        (op.finish line s (ops.respond request s.domain host)).2.1.Knows (op.leave known) :=
      knows_finish h hrequest _ _ _
    rw [hok] at hknows
    exact hknows rfl

end LayeredSets.Trace
