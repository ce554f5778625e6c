import LayeredSets.Proofs.Layer.Transport
import LayeredSets.Script.Run

/-!
# Scripts are natural in their domain

A script knows its domain by the calls that it makes. What every call keeps is kept by the whole run,
and a map that carries one domain to another carries runs on the one to runs on the other.
-/

namespace LayeredSets.Script

open Action

variable {σ τ : Type}

theorem write_apply (piece : String) (s : State σ) (host : Host) :
    (write piece : Run σ Unit) s host =
      if s.output.hasRoom piece then
        (.ok (), { s with output.text := s.output.text ++ piece }, host)
      else (.error (.output "sink is full"), s, host) := by
  rw [write]
  change (if s.output.hasRoom piece then
    Action.set { s with output.text := s.output.text ++ piece }
    else fail (.output "sink is full") : Run σ Unit) s host = _
  split <;> rfl

/-- Looking up changes nothing. -/
theorem ends_require_bind {α β : Type} {spent : State σ → Prop} {s : State σ}
    {look : State σ → Option α} {e : RunError} {f : α → Run σ β}
    {Q : Except RunError β → State σ → Prop}
    (hok : ∀ a, look s = some a → Ends spent (f a) s Q)
    (herror : look s = none → Q (.error e) s) :
    Ends spent ((do let s ← Action.get; require (look s) e) >>= f) s Q := by
  intro host hleft
  have hlook : (do let s ← Action.get; require (look s) e : Run σ α) s host =
      require (look s) e s host := rfl
  cases ha : look s with
  | none =>
    rw [ha] at hlook
    rw [bind_apply_error hlook]
    exact herror ha
  | some a =>
    rw [ha] at hlook
    rw [bind_apply_ok hlook] at hleft ⊢
    exact hok a ha host hleft

/-- Bind a name to a set, and give up the set that it was bound to. -/
def bindName (ops : Operations σ) (line : Nat) (name : String) (set : SetId) : Run σ Unit := do
  let s ← Action.get
  Action.set { s with sets := s.sets.insert name set }
  (s.sets.get? name).elim (pure ()) fun previous => call ops line (.release previous)

theorem define_eq (ops : Operations σ) (line : Nat) (name : String) (e : Expr) :
    define ops line name e = eval ops line e >>= owned ops line >>= bindName ops line name := by
  rw [define, bind_assoc]
  refine congrArg _ (funext fun value => congrArg _ (funext fun set => ?_))
  refine congrArg _ (funext fun s => congrArg _ (funext fun _ => ?_))
  cases s.sets.get? name <;> rfl

/-- What comes of binding a name is what comes of releasing its set, if it has one. -/
theorem ends_bindName {ops : Operations σ} {line : Nat} {spent : State σ → Prop} {name : String}
    {set : SetId} {s : State σ} {Q : Except RunError Unit → State σ → Prop}
    (hnew : s.sets.get? name = none → Q (.ok ()) { s with sets := s.sets.insert name set })
    (hold : ∀ previous, s.sets.get? name = some previous →
      Ends spent (call ops line (.release previous)) { s with sets := s.sets.insert name set } Q) :
    Ends spent (bindName ops line name set) s Q := by
  suffices hends : Ends spent ((s.sets.get? name).elim (pure ()) fun previous =>
      call ops line (.release previous) : Run σ Unit) { s with sets := s.sets.insert name set } Q from
    fun host hleft => hends host hleft
  cases hprevious : s.sets.get? name with
  | none => exact Ends.pure (hnew hprevious)
  | some previous => exact hold previous hprevious

/-! ## What is kept -/

section

variable {I : σ → Host → Prop} {ops : Operations σ} {line : Nat}

/-- Every call keeps it. -/
class Kept (I : σ → Host → Prop) (ops : Operations σ) : Prop where
  keeps : ∀ (k : Answer) (c : Call k), Keeps I (ops.step c)

/-- A property of the domain, as one of the state of a run. -/
abbrev OfDomain (I : σ → Host → Prop) (s : State σ) (host : Host) : Prop := I s.domain host

variable [hops : Kept I ops]

theorem keeps_call {k : Answer} (c : Call k) : Keeps (OfDomain I) (call ops line c) :=
  ⟨fun s host h => (hops.keeps k c).keeps s.domain host h⟩

instance (c : Call .var) : Keeps (OfDomain I) (call ops line c) := keeps_call c

instance (c : Call .set) : Keeps (OfDomain I) (call ops line c) := keeps_call c

instance (c : Call .bool) : Keeps (OfDomain I) (call ops line c) := keeps_call c

instance (c : Call .unit) : Keeps (OfDomain I) (call ops line c) := keeps_call c

instance (name : String) : Keeps (OfDomain I) (findVar line name : Run σ VarId) :=
  inferInstanceAs (Keeps _ (Action.get >>= _))

instance (name : String) : Keeps (OfDomain I) (findSet line name : Run σ SetId) :=
  inferInstanceAs (Keeps _ (Action.get >>= _))

instance (value : Value) : Keeps (OfDomain I) (release ops line value) := by
  rw [release]
  infer_instance

instance {α : Type} (result : Except RunError α) :
    Keeps (OfDomain I) (ofExcept result : Run σ α) := by
  cases result
  · exact inferInstanceAs (Keeps _ (fail _))
  · exact inferInstanceAs (Keeps _ (pure _))

instance {x : Run σ SetId} [Keeps (OfDomain I) x] : Keeps (OfDomain I) (fresh x) :=
  inferInstanceAs (Keeps _ (x >>= fun set => pure (Value.mk set true)))

theorem keeps_useOne {k : Answer} {x : Run σ Value} [Keeps (OfDomain I) x] (c : SetId → Call k) :
    Keeps (OfDomain I) (useOne ops line x c) :=
  have (a : Value) : Keeps (OfDomain I) (call ops line (c a.set)) := keeps_call _
  inferInstanceAs (Keeps _ (x >>= _))

theorem keeps_useTwo {k : Answer} {x y : Run σ Value} [Keeps (OfDomain I) x]
    [Keeps (OfDomain I) y] (c : SetId → SetId → Call k) :
    Keeps (OfDomain I) (useTwo ops line x y c) :=
  have (a b : Value) : Keeps (OfDomain I) (call ops line (c a.set b.set)) := keeps_call _
  inferInstanceAs (Keeps _ (x >>= _))

instance {x : Run σ Value} [Keeps (OfDomain I) x] (c : SetId → Call .set) :
    Keeps (OfDomain I) (useOne ops line x c) := keeps_useOne c

instance {x y : Run σ Value} [Keeps (OfDomain I) x] [Keeps (OfDomain I) y]
    (c : SetId → SetId → Call .set) : Keeps (OfDomain I) (useTwo ops line x y c) := keeps_useTwo c

theorem keeps_eval (e : Expr) : Keeps (OfDomain I) (eval ops line e) := by
  induction e <;> rw [eval] <;> infer_instance

instance (e : Expr) : Keeps (OfDomain I) (eval ops line e) := keeps_eval e

instance (q : Query) : Keeps (OfDomain I) (ask ops line q) := by
  cases q <;> rw [ask]
  · exact keeps_useOne _
  · exact keeps_useTwo _
  · exact keeps_useTwo _

instance (value : Value) : Keeps (OfDomain I) (owned ops line value) := by
  rw [owned]
  infer_instance

/-- Binding a name changes the state of the run, but not the domain. -/
instance (name : String) (set : SetId) : Keeps (OfDomain I) (bindName ops line name set) := by
  have hrelease (previous : Option SetId) : Keeps (OfDomain I) (previous.elim (pure ())
      fun previous => call ops line (.release previous) : Run σ Unit) := by
    cases previous
    · exact inferInstanceAs (Keeps _ (pure ()))
    · exact inferInstanceAs (Keeps _ (call ops line _))
  exact ⟨fun s host h => (hrelease (s.sets.get? name)).keeps
    { s with sets := s.sets.insert name set } host h⟩

instance (name : String) (e : Expr) : Keeps (OfDomain I) (define ops line name e) := by
  rw [define_eq]
  infer_instance

instance (name : String) (bits : UInt32) : Keeps (OfDomain I) (declare ops line name bits) := by
  have hbind (var : VarId) : Keeps (OfDomain I)
      (modify fun s => { s with vars := s.vars.insert name var } : Run σ Unit) :=
    keeps_modify fun _ _ h => h
  rw [declare]
  infer_instance

instance (piece : String) : Keeps (OfDomain I) (write piece : Run σ Unit) := by
  refine ⟨fun s host h => ?_⟩
  rw [write_apply]
  split <;> exact h

instance (c : Command) : Keeps (OfDomain I) (execute ops line c) := by
  cases c <;> rw [execute] <;> infer_instance

instance (script : Script) : Keeps (OfDomain I) (script.run ops) := by
  have hforM : Keeps (OfDomain I) (List.forM script fun statement =>
      execute ops statement.line statement.command) := inferInstance
  exact inferInstanceAs (Keeps _ (_ >>= fun _ => pure script.length))

end

/-- A property of the domain alone, as one of the state of a run. -/
def OnDomain (P : σ → Prop) (s : State σ) : Prop := P s.domain

instance {P : σ → Prop} {α : Type} {x : Run σ α} [h : Keeps (OfDomain fun d _ => P d) x] :
    Keeps (fun s _ => OnDomain P s) x := h

/-! ## What is carried -/

/-- Map the domain in the state of a run. -/
def State.map (f : σ → τ) (s : State σ) : State τ := { s with domain := f s.domain }

section

variable {f : σ → τ} {a : Operations σ} {b : Operations τ} {line : Nat}

theorem carries_call (h : a.Carries f b) {k : Answer} (c : Call k) :
    Carries (State.map f) (call a line c) (call b line c) := by
  intro s host
  simp only [call, mapError, within, State.map, h.step c s.domain host]

theorem carries_findVar (f : σ → τ) (line : Nat) (name : String) :
    Carries (State.map f) (findVar line name) (findVar line name) :=
  Carries.get_bind fun _ => Carries.require _ _ _

theorem carries_findSet (f : σ → τ) (line : Nat) (name : String) :
    Carries (State.map f) (findSet line name) (findSet line name) :=
  Carries.get_bind fun _ => Carries.require _ _ _

theorem carries_release (h : a.Carries f b) (value : Value) :
    Carries (State.map f) (release a line value) (release b line value) := by
  rw [release, release]
  exact Carries.ite (carries_call h _) (Carries.pure _ _)

theorem carries_ofExcept {α : Type} (f : σ → τ) (result : Except RunError α) :
    Carries (State.map f) (ofExcept result : Run σ α) (ofExcept result) := by
  cases result
  · exact Carries.fail _ _
  · exact Carries.pure _ _

theorem carries_fresh {x : Run σ SetId} {y : Run τ SetId} (hxy : Carries (State.map f) x y) :
    Carries (State.map f) (fresh x) (fresh y) :=
  hxy.bind fun _ => Carries.pure _ _

theorem carries_useOne (h : a.Carries f b) {k : Answer} {x : Run σ Value} {y : Run τ Value}
    (hxy : Carries (State.map f) x y) (c : SetId → Call k) :
    Carries (State.map f) (useOne a line x c) (useOne b line y c) :=
  hxy.bind fun _ => (carries_call h _).outcome.bind fun _ => (carries_release h _).bind fun _ =>
    carries_ofExcept f _

theorem carries_useTwo (h : a.Carries f b) {k : Answer} {x x' : Run σ Value} {y y' : Run τ Value}
    (hxy : Carries (State.map f) x y) (hxy' : Carries (State.map f) x' y')
    (c : SetId → SetId → Call k) :
    Carries (State.map f) (useTwo a line x x' c) (useTwo b line y y' c) :=
  hxy.bind fun _ => hxy'.bind fun _ => (carries_call h _).outcome.bind fun _ =>
    (carries_release h _).bind fun _ => (carries_release h _).bind fun _ => carries_ofExcept f _

theorem carries_eval (h : a.Carries f b) (e : Expr) :
    Carries (State.map f) (eval a line e) (eval b line e) := by
  induction e with
  | top | bottom | point => exact carries_fresh (carries_call h _)
  | name n => exact (carries_findSet f line n).bind fun _ => Carries.pure _ _
  | equalsValue var value =>
    exact (carries_findVar f line var).bind fun _ => carries_fresh (carries_call h _)
  | equalsVar x y =>
    exact (carries_findVar f line x).bind fun _ => (carries_findVar f line y).bind fun _ =>
      carries_fresh (carries_call h _)
  | union x y ihx ihy | intersect x y ihx ihy | difference x y ihx ihy =>
    exact carries_fresh (carries_useTwo h ihx ihy _)
  | complement x ih => exact carries_fresh (carries_useOne h ih _)
  | «exists» var body ih =>
    exact (carries_findVar f line var).bind fun _ => carries_fresh (carries_useOne h ih _)

theorem carries_ask (h : a.Carries f b) (q : Query) :
    Carries (State.map f) (ask a line q) (ask b line q) := by
  cases q with
  | empty x => exact carries_useOne h (carries_eval h x) _
  | equal x y | subset x y => exact carries_useTwo h (carries_eval h x) (carries_eval h y) _

theorem carries_define (h : a.Carries f b) (name : String) (e : Expr) :
    Carries (State.map f) (define a line name e) (define b line name e) := by
  have howned (value : Value) :
      Carries (State.map f) (owned a line value) (owned b line value) := by
    rw [owned, owned]
    exact Carries.ite (Carries.pure _ _) (carries_call h _)
  rw [define_eq, define_eq]
  refine ((carries_eval h e).bind howned).bind fun set =>
    Carries.get_bind fun s => Carries.bind (fun _ _ => rfl) fun _ => ?_
  change Carries _ _ ((s.sets.get? name).elim (pure ()) _)
  cases s.sets.get? name
  · exact Carries.pure _ _
  · exact carries_call h _

theorem carries_declare (h : a.Carries f b) (name : String) (bits : UInt32) :
    Carries (State.map f) (declare a line name bits) (declare b line name bits) := by
  have hrest : Carries (State.map f)
      (do
        let var ← call a line (.declare name bits)
        modify fun s => { s with vars := s.vars.insert name var } : Run σ Unit)
      (do
        let var ← call b line (.declare name bits)
        modify fun s => { s with vars := s.vars.insert name var }) :=
    (carries_call h _).bind fun _ => Carries.modify fun _ => rfl
  refine Carries.get_bind fun s => ?_
  exact Carries.ite ((Carries.fail _ _).bind fun _ => hrest) ((Carries.pure _ ()).bind fun _ => hrest)

theorem carries_write (f : σ → τ) (piece : String) :
    Carries (State.map f) (write piece) (write piece) := by
  refine Carries.get_bind fun s => Carries.ite (fun _ _ => rfl) (Carries.fail _ _)

theorem carries_execute (h : a.Carries f b) (c : Command) :
    Carries (State.map f) (execute a line c) (execute b line c) := by
  cases c with
  | var name bits => exact carries_declare h name bits
  | define name e => exact carries_define h name e
  | print q =>
    exact (carries_ask h q).bind fun _ => (carries_write f _).bind fun _ => carries_write f _
  | assert q =>
    exact (carries_ask h q).bind fun _ => Carries.ite (Carries.fail _ _) (Carries.pure _ _)

/-- Whole scripts are carried along. -/
theorem carries_run (h : a.Carries f b) (script : Script) :
    Carries (State.map f) (script.run a) (script.run b) :=
  (Carries.forM (fun _ => carries_execute h _) script).bind fun _ => Carries.pure _ _

end

end LayeredSets.Script
