import LayeredSets.Proofs.Chain.Live
import LayeredSets.Proofs.Chain.Watch
import LayeredSets.Proofs.Script.Transport
import LayeredSets.Script.Run

/-!
# Who owns the sets of a script

Between two calls every live set belongs to a name, or to the value of an operand that has yet to
be used, or is left over. An expression that is evaluated adds the set of its value, unless that
belongs to a name already. If it fails, it adds what the operands that were ready have left behind.
In either case it calls the domain with nothing but what is there.

Of two operands the left one is evaluated first. If the right one then fails, the set that the left
one has come to is dropped without being released, unless it belongs to a name. Nothing else is left
behind: whatever an operation has been applied to is released, and the right operand of an operation
fails before the operation is tried.
-/

/-! ## What failing statements leave behind -/

namespace LayeredSets

namespace Script

/-- Names stand for the same, and the same variables are declared. -/
structure State.SameScope (s t : State Explicit) : Prop where
  vars : t.vars = s.vars
  sets : t.sets = s.sets
  declared : t.domain.vars = s.domain.vars

end Script

open Script (State)

variable {s t : State Explicit}

namespace Expr

/-- Does the expression stand for the set of a name, and not for one of its own? -/
def isName : Expr → Bool
  | name _ => true
  | _ => false

/-- Does the evaluation fail? -/
def fails (s : State Explicit) : Expr → Bool
  | top | bottom => false
  | name n => (s.sets.get? n).isNone
  | equalsValue var value =>
    (s.vars.get? var).all fun var => !s.domain.accepts (.varEqConst var value)
  | equalsVar a b =>
    (s.vars.get? a).all fun a => (s.vars.get? b).all fun b => !s.domain.accepts (.varEqVar a b)
  | point values => !s.domain.accepts (.singleton values)
  | union a b | intersect a b | difference a b => fails s a || fails s b
  | complement a => fails s a
  | .exists var body => (s.vars.get? var).isNone || fails s body

/-- What two operands leave behind that leave `left` and `right` when they fail by themselves. -/
def pairDrops (s : State Explicit) (a b : Expr) (left right : Nat) : Nat :=
  if a.fails s then left else right + if b.fails s && !a.isName then 1 else 0

/-- How many sets the evaluation leaves behind without anyone to release them. -/
def drops (s : State Explicit) : Expr → Nat
  | union a b | intersect a b | difference a b => pairDrops s a b (drops s a) (drops s b)
  | complement a => drops s a
  | .exists var body => if (s.vars.get? var).isNone then 0 else drops s body
  | _ => 0

end Expr

namespace Query

def fails (s : State Explicit) : Query → Bool
  | empty a => a.fails s
  | equal a b | subset a b => a.fails s || b.fails s

def drops (s : State Explicit) : Query → Nat
  | empty a => a.drops s
  | equal a b | subset a b => Expr.pairDrops s a b (a.drops s) (b.drops s)

end Query

/-- How many sets the statement leaves behind if it fails. -/
def Command.drops (s : State Explicit) : Command → Nat
  | var .. => 0
  | define _ e => e.drops s
  | print query | assert query => query.drops s

/-! ## Nothing is left behind by what does not fail -/

theorem Expr.pairDrops_eq_zero {a b : Expr} {left right : Nat} (ha : a.fails s = false)
    (hb : b.fails s = false) (hright : right = 0) : pairDrops s a b left right = 0 := by
  simp [pairDrops, ha, hb, hright]

theorem Expr.drops_eq_zero (e : Expr) (h : e.fails s = false) : e.drops s = 0 := by
  induction e with
  | top | bottom | name | equalsValue | equalsVar | point => rfl
  | union a b iha ihb | intersect a b iha ihb | difference a b iha ihb =>
    obtain ⟨ha, hb⟩ := Bool.or_eq_false_iff.mp h
    exact pairDrops_eq_zero ha hb (ihb hb)
  | complement a ih => exact ih h
  | «exists» var body ih =>
    obtain ⟨hvar, hbody⟩ := Bool.or_eq_false_iff.mp h
    simp [drops, ih hbody]

theorem Query.drops_eq_zero (q : Query) (h : q.fails s = false) : q.drops s = 0 := by
  cases q with
  | empty a => exact a.drops_eq_zero h
  | equal a b | subset a b =>
    obtain ⟨ha, hb⟩ := Bool.or_eq_false_iff.mp h
    exact Expr.pairDrops_eq_zero ha hb (b.drops_eq_zero hb)

/-! ## Sets that come and go make no difference -/

namespace Script.State.SameScope

theorem refl (s : State Explicit) : s.SameScope s := ⟨rfl, rfl, rfl⟩

theorem trans {u : State Explicit} (h : s.SameScope t) (h' : t.SameScope u) : s.SameScope u :=
  ⟨h'.vars.trans h.vars, h'.sets.trans h.sets, h'.declared.trans h.declared⟩

theorem fails_eq (h : s.SameScope t) (e : Expr) : e.fails t = e.fails s := by
  have haccepts (c : Call .set) (hc : c.sets = []) : t.domain.accepts c = s.domain.accepts c :=
    Explicit.accepts_congr h.declared hc
  induction e with
  | top | bottom => rfl
  | name n => simp only [Expr.fails, h.sets]
  | equalsValue var value =>
    simp only [Expr.fails, h.vars, fun var => haccepts (.varEqConst var value) rfl]
  | equalsVar a b => simp only [Expr.fails, h.vars, fun a b => haccepts (.varEqVar a b) rfl]
  | point values => simp only [Expr.fails, haccepts (.singleton values) rfl]
  | union a b iha ihb | intersect a b iha ihb | difference a b iha ihb =>
    simp only [Expr.fails, iha, ihb]
  | complement a ih => exact ih
  | «exists» var body ih => simp only [Expr.fails, h.vars, ih]

theorem drops_eq (h : s.SameScope t) (e : Expr) : e.drops t = e.drops s := by
  induction e with
  | top | bottom | name | equalsValue | equalsVar | point => rfl
  | union a b iha ihb | intersect a b iha ihb | difference a b iha ihb =>
    simp only [Expr.drops, Expr.pairDrops, h.fails_eq, iha, ihb]
  | complement a ih => exact ih
  | «exists» var body ih => simp only [Expr.drops, h.vars, ih]

end Script.State.SameScope
end LayeredSets

/-! ## Owners -/

namespace LayeredSets

/-- What has to be released once the value has been used. -/
def Script.Value.own (value : Script.Value) : Finset SetId :=
  if value.owned then {value.set} else ∅

theorem Script.Value.card_own (value : Script.Value) :
    value.own.card = if value.owned then 1 else 0 := by
  rw [own]
  split <;> rfl

namespace Backing

open Action Script

variable {σ : Type} {ops : Operations σ} (B : Backing ops)

instance : Kept (fun d _ => B.Spent d) ops := ⟨B.keeps⟩

/-- The state of a run, seen down to the explicit domain. -/
def view (s : State σ) : State Explicit := s.map B.base

@[simp] theorem view_domain (s : State σ) : (B.view s).domain = B.base s.domain := rfl

@[simp] theorem view_vars (s : State σ) : (B.view s).vars = s.vars := rfl

@[simp] theorem view_sets (s : State σ) : (B.view s).sets = s.sets := rfl

/-- The live sets of the domain. -/
abbrev live (s : State σ) : Set SetId := (B.base s.domain).live

/-- Nothing has changed but that the sets `more` have become live. -/
structure Gains (s t : State σ) (more : Finset SetId) : Prop where
  good : B.Good t.domain
  scope : (B.view s).SameScope (B.view t)
  fresh : ∀ set ∈ more, set ∉ B.live s
  live : B.live t = B.live s ∪ ↑more

variable {B} {s t u : State σ} {line : Nat}

namespace Gains

theorem refl (hs : B.Good s.domain) : B.Gains s s ∅ := ⟨hs, .refl _, by simp, by simp⟩

theorem subset {more : Finset SetId} (h : B.Gains s t more) : B.live s ⊆ B.live t := by
  rw [h.live]
  exact Set.subset_union_left

theorem mem {more : Finset SetId} (h : B.Gains s t more) {set : SetId} (hset : set ∈ more) :
    set ∈ B.live t := by
  rw [h.live]
  exact .inr hset

theorem trans {x y : Finset SetId} (h : B.Gains s t x) (h' : B.Gains t u y) :
    Disjoint x y ∧ B.Gains s u (x ∪ y) := by
  refine ⟨Finset.disjoint_left.mpr fun set hx hy => h'.fresh set hy (h.mem hx), h'.good,
    h.scope.trans h'.scope, fun set hset => ?_, ?_⟩
  · rcases Finset.mem_union.mp hset with hx | hy
    · exact h.fresh set hx
    · exact fun hlive => h'.fresh set hy (h.subset hlive)
  · rw [h'.live, h.live, Finset.coe_union, Set.union_assoc]

theorem withOutput {more : Finset SetId} (h : B.Gains s t more) (out : Output) :
    B.Gains s { t with output := out } more :=
  ⟨h.good, ⟨h.scope.vars, h.scope.sets, h.scope.declared⟩, h.fresh, h.live⟩

end Gains

/-! ## Calls -/

theorem ends_step {k : Answer} (c : Call k) {Q : Except RunError k.Value → State σ → Prop}
    (hs : B.Good s.domain) (hc : (B.base s.domain).Provides c)
    (hQ : ∀ o d, B.Good d → (B.base s.domain).Follows c o (B.base d) →
      Q (o.mapError (.domain line)) { s with domain := d }) :
    Ends (OnDomain B.Spent) (call ops line c) s Q :=
  fun host hleft =>
    have ⟨hgood, hfollows⟩ := B.step c hs hc host hleft
    hQ _ _ hgood hfollows

/-- A call that makes a set or asks about sets. -/
theorem ends_call {k : Answer} (c : Call k) (hk : k = .set ∨ k = .bool) (hs : B.Good s.domain)
    (hc : (B.base s.domain).Provides c) :
    Ends (OnDomain B.Spent) (call ops line c) s fun o t =>
      o.isOk = (B.base s.domain).accepts c ∧ B.Gains s t (held o) := by
  refine ends_step c hs hc fun o d hgood hfollows => ?_
  obtain ⟨hfresh, hlive⟩ := hfollows.live_eq (B.tidy hs) hk
  have hvars := hfollows.vars_of_ne (by rcases hk with rfl | rfl <;> simp)
  rw [held_mapError, ← hfollows.isOk]
  exact ⟨by cases o <;> rfl, hgood, ⟨rfl, rfl, hvars⟩, hfresh, hlive⟩

/-- A set that is live can be released. -/
theorem ends_release_call {set : SetId} (hs : B.Good s.domain) (hset : set ∈ B.live s) :
    Ends (OnDomain B.Spent) (call ops line (.release set)) s fun o t =>
      o = .ok () ∧ B.Good t.domain ∧ (B.view s).SameScope (B.view t) ∧
        B.live t = B.live s \ {set} := by
  have hc : (B.base s.domain).Provides (.release set) :=
    ⟨List.forall_mem_singleton.mpr hset, List.forall_mem_nil _⟩
  refine ends_step _ hs hc fun o d hgood hfollows => ?_
  have hok := hfollows.isOk
  rw [Explicit.accepts_of_provides hc (List.cons_ne_nil _ _)] at hok
  cases o with
  | error e => cases hok
  | ok _ => exact ⟨rfl, hgood, ⟨rfl, rfl, hfollows.of_release.1⟩, hfollows.live_release⟩

/-- A value is released if it has to be. -/
theorem ends_release (value : Value) {more : Finset SetId} (h : B.Gains s t more)
    (hvalue : value.own ⊆ more) :
    Ends (OnDomain B.Spent) (release ops line value) t fun o u =>
      o = .ok () ∧ B.Gains s u (more \ value.own) := by
  rw [release, Value.own] at *
  split at hvalue
  · next howned =>
    rw [if_pos howned, if_pos howned]
    have hmore : value.set ∈ more := Finset.singleton_subset_iff.mp hvalue
    have hnew : value.set ∉ B.live s := h.fresh _ hmore
    refine (ends_release_call h.good (h.mem hmore)).mono ?_
    rintro o u ⟨rfl, hgood, hscope, hlive⟩
    refine ⟨rfl, hgood, h.scope.trans hscope, ?_, ?_⟩
    · exact fun set hset => h.fresh set (Finset.mem_sdiff.mp hset).1
    · rw [hlive, h.live, Set.union_sdiff_distrib, Set.sdiff_singleton_eq_self hnew]
      simp
  · next howned =>
    rw [if_neg howned, if_neg howned, Finset.sdiff_empty]
    exact Ends.pure ⟨rfl, h⟩

/-! ## What comes of an evaluation -/

variable (B) in
/-- What comes of a call on operands, if it fails as told and then leaves this number of sets. -/
def Delivers (s : State σ) (fails : Bool) (drops : Nat) {k : Answer} (o : Except RunError k.Value)
    (t : State σ) : Prop :=
  match o with
  | .ok _ => fails = false ∧ B.Gains s t (held o)
  | .error _ => fails = true ∧ ∃ lost : Finset SetId, lost.card = drops ∧ B.Gains s t lost

variable (B) in
/-- What comes of an evaluation, if it fails as told and then leaves this number of sets. The value
is that of a name, or else has to be released. -/
def Evaluates (s : State σ) (named fails : Bool) (drops : Nat) (o : Except RunError Value)
    (t : State σ) : Prop :=
  match o with
  | .ok value =>
    fails = false ∧ value.owned = !named ∧ value.set ∈ B.live t ∧ B.Gains s t value.own
  | .error _ => fails = true ∧ ∃ lost : Finset SetId, lost.card = drops ∧ B.Gains s t lost

theorem ends_fresh {x : Run σ SetId} {fails : Bool} {drops : Nat}
    (h : Ends (OnDomain B.Spent) x s (B.Delivers (k := .set) s fails drops)) :
    Ends (OnDomain B.Spent) (fresh x) s (B.Evaluates s false fails drops) := by
  refine Ends.bind h ?_ ?_
  · rintro set t ⟨hfails, hst⟩
    exact Ends.pure ⟨hfails, rfl, hst.mem (Finset.mem_singleton_self set), hst⟩
  · intro e t ht
    exact ht

/-- A call that makes a set and is given none. -/
theorem ends_leaf {c : Call .set} (hsets : c.sets = []) (hs : B.Good s.domain)
    (hvars : ∀ var ∈ c.vars, var.index.toNat < (B.base s.domain).vars.length) :
    Ends (OnDomain B.Spent) (fresh (call ops line c)) s
      (B.Evaluates s false (!(B.base s.domain).accepts c) 0) := by
  refine ends_fresh ((ends_call c (.inl rfl) hs ⟨by simp [hsets], hvars⟩).mono ?_)
  rintro (e | set) t ⟨hok, hst⟩
  · exact ⟨by simp [← hok, Except.isOk, Except.toBool], ∅, rfl, hst⟩
  · exact ⟨by simp [← hok, Except.isOk, Except.toBool], hst⟩

/-! ## Operands -/

section

variable {k : Answer} {x y : Run σ Value} {named fails named' fails' : Bool} {drops drops' : Nat}

instance (value : Value) (result : Except RunError k.Value) :
    Keeps (fun s _ => OnDomain B.Spent s) (do
      release ops line value
      ofExcept result : Run σ k.Value) :=
  inferInstanceAs (Keeps (OfDomain fun d _ => B.Spent d) _)

/-- A call on operands that are there does not fail. -/
theorem ends_use (c : Call k) (hk : k = .set ∨ k = .bool) (hsets : c.sets ≠ [])
    (hs : B.Good s.domain) (hc : (B.base s.domain).Provides c) :
    Ends (OnDomain B.Spent) (call ops line c) s fun o t =>
      (∃ value, o = .ok value) ∧ B.Gains s t (held o) := by
  refine (ends_call c hk hs hc).mono ?_
  rintro (e | value) t ⟨hok, hst⟩
  · rw [Explicit.accepts_of_provides hc hsets] at hok
    cases hok
  · exact ⟨⟨value, rfl⟩, hst⟩

/-- One operand is used, and released in any case. -/
theorem ends_useOne (hk : k = .set ∨ k = .bool) {c : SetId → Call k}
    (hsets : ∀ a, (c a).sets = [a])
    (hvars : ∀ a, ∀ var ∈ (c a).vars, var.index.toNat < (B.base s.domain).vars.length)
    (hx : Ends (OnDomain B.Spent) x s (B.Evaluates s named fails drops)) :
    Ends (OnDomain B.Spent) (useOne ops line x c) s (B.Delivers s fails drops) := by
  have hcall (a : Value) : Keeps (fun s _ => OnDomain B.Spent s) (call ops line (c a.set)) :=
    keeps_call (I := fun d _ => B.Spent d) _
  refine Ends.bind hx ?_ ?_
  · rintro a t ⟨hfails, -, hlive, hst⟩
    have hprovides : (B.base t.domain).Provides (c a.set) :=
      ⟨hsets a.set ▸ List.forall_mem_singleton.mpr hlive,
        fun var hvar => hst.scope.declared ▸ hvars a.set var hvar⟩
    refine Ends.outcome_bind (ends_use (c a.set) hk (by simp [hsets]) hst.good hprovides) ?_
    rintro _ u ⟨⟨value, rfl⟩, htu⟩
    obtain ⟨hnew, hsu⟩ := hst.trans htu
    refine Ends.bind (ends_release a hsu Finset.subset_union_left) ?_ ?_
    · rintro _ w ⟨-, hsw⟩
      rw [Finset.union_sdiff_cancel_left hnew] at hsw
      exact Ends.pure ⟨hfails, hsw⟩
    · rintro e w ⟨⟨⟩, -⟩
  · intro e t ht
    exact ht

/-- Two operands are used, and both are released. If the second one fails, the first one is left,
unless it belongs to a name. -/
theorem ends_useTwo [Keeps (fun s _ => OnDomain B.Spent s) y] (hk : k = .set ∨ k = .bool)
    {c : SetId → SetId → Call k} (hsets : ∀ a b, (c a b).sets = [a, b])
    (hvars : ∀ a b, (c a b).vars = [])
    (hx : Ends (OnDomain B.Spent) x s (B.Evaluates s named fails drops))
    (hy : ∀ t more, B.Gains s t more →
      Ends (OnDomain B.Spent) y t (B.Evaluates t named' fails' drops')) :
    Ends (OnDomain B.Spent) (useTwo ops line x y c) s (B.Delivers s (fails || fails')
      (if fails then drops else drops' + if fails' && !named then 1 else 0)) := by
  have hcall (a b : Value) :
      Keeps (fun s _ => OnDomain B.Spent s) (call ops line (c a.set b.set)) :=
    keeps_call (I := fun d _ => B.Spent d) _
  refine Ends.bind hx ?_ ?_
  · rintro a t ⟨rfl, howned, hlive, hst⟩
    refine Ends.bind (hy t _ hst) ?_ ?_
    · rintro b u ⟨rfl, -, hlive', htu⟩
      have hprovides : (B.base u.domain).Provides (c a.set b.set) := by
        refine ⟨?_, by simp [hvars]⟩
        rw [hsets]
        exact List.forall_mem_cons.mpr ⟨htu.subset hlive, List.forall_mem_singleton.mpr hlive'⟩
      obtain ⟨hapart, hsu⟩ := hst.trans htu
      refine Ends.outcome_bind (ends_use _ hk (by simp [hsets]) hsu.good hprovides) ?_
      rintro _ v ⟨⟨value, rfl⟩, huv⟩
      obtain ⟨hnew, hsv⟩ := hsu.trans huv
      have hleft (made : Finset SetId) : a.own ⊆ a.own ∪ b.own ∪ made :=
        Finset.subset_union_left.trans Finset.subset_union_left
      have hright (made : Finset SetId) : b.own ⊆ (a.own ∪ b.own ∪ made) \ a.own :=
        Finset.subset_sdiff.mpr
          ⟨Finset.subset_union_right.trans Finset.subset_union_left, hapart.symm⟩
      refine Ends.bind (ends_release a hsv (hleft _)) ?_ ?_
      · rintro _ w ⟨-, hsw⟩
        refine Ends.bind (ends_release b hsw (hright _)) ?_ ?_
        · rintro _ z ⟨-, hsz⟩
          rw [sdiff_sdiff_left, Finset.sup_eq_union, Finset.union_sdiff_cancel_left hnew] at hsz
          exact Ends.pure ⟨rfl, hsz⟩
        · rintro e z ⟨⟨⟩, -⟩
      · rintro e w ⟨⟨⟩, -⟩
    · rintro e u ⟨rfl, lost, hcard, htu⟩
      obtain ⟨hapart, hsu⟩ := hst.trans htu
      refine ⟨rfl, _, ?_, hsu⟩
      rw [Finset.card_union_of_disjoint hapart, a.card_own, howned, hcard]
      simp [Nat.add_comm]
  · rintro e t ⟨rfl, hlost⟩
    exact ⟨rfl, hlost⟩

end

/-! ## Expressions -/

variable (B) in
/-- The names of a script stand for declared variables and for live sets, no two for the same
set. -/
structure Orderly (s : State σ) : Prop where
  good : B.Good s.domain
  vars : ∀ {name var}, s.vars.get? name = some var →
    var.index.toNat < (B.base s.domain).vars.length
  sets : ∀ {name set}, s.sets.get? name = some set → set ∈ B.live s
  distinct : ∀ {a b set}, s.sets.get? a = some set → s.sets.get? b = some set → a = b

theorem Orderly.gains {more : Finset SetId} (h : B.Orderly s) (hst : B.Gains s t more) :
    B.Orderly t where
  good := hst.good
  vars hname := by
    rw [show (B.base t.domain).vars = (B.base s.domain).vars from hst.scope.declared]
    exact h.vars (hst.scope.vars ▸ hname)
  sets hname := hst.subset (h.sets (hst.scope.sets ▸ hname))
  distinct ha hb := h.distinct (hst.scope.sets ▸ ha) (hst.scope.sets ▸ hb)

/-- Evaluation goes as it should wherever the names are in order. -/
abbrev Evaluable (B : Backing ops) (line : Nat) (e : Expr) : Prop :=
  ∀ s, B.Orderly s → Ends (OnDomain B.Spent) (eval ops line e) s
    (B.Evaluates s e.isName (e.fails (B.view s)) (e.drops (B.view s)))

section

variable {k : Answer} {a b : Expr}

theorem ends_one (h : B.Orderly s) (ha : B.Evaluable line a) (hk : k = .set ∨ k = .bool)
    {c : SetId → Call k} (hsets : ∀ a, (c a).sets = [a])
    (hvars : ∀ a, ∀ var ∈ (c a).vars, var.index.toNat < (B.base s.domain).vars.length) :
    Ends (OnDomain B.Spent) (useOne ops line (eval ops line a) c) s
      (B.Delivers s (a.fails (B.view s)) (a.drops (B.view s))) :=
  ends_useOne hk hsets hvars (ha s h)

theorem ends_two (h : B.Orderly s) (ha : B.Evaluable line a) (hb : B.Evaluable line b)
    (hk : k = .set ∨ k = .bool) {c : SetId → SetId → Call k} (hsets : ∀ a b, (c a b).sets = [a, b])
    (hvars : ∀ a b, (c a b).vars = []) :
    Ends (OnDomain B.Spent) (useTwo ops line (eval ops line a) (eval ops line b) c) s
      (B.Delivers s (a.fails (B.view s) || b.fails (B.view s))
        (Expr.pairDrops (B.view s) a b (a.drops (B.view s)) (b.drops (B.view s)))) := by
  have hright (t : State σ) (more : Finset SetId) (hst : B.Gains s t more) :=
    hst.scope.fails_eq b ▸ hst.scope.drops_eq b ▸ hb t (h.gains hst)
  exact ends_useTwo hk hsets hvars (ha s h) hright

end

theorem evaluable (line : Nat) (e : Expr) : B.Evaluable line e := by
  induction e with
  | top | bottom | point => exact fun s h => ends_leaf rfl h.good (by simp [Call.vars])
  | name n =>
    intro s h
    refine ends_require_bind (fun set hset => ?_) fun hnone => ?_
    · exact Ends.pure ⟨by simp [Expr.fails, hset], rfl, h.sets hset, .refl h.good⟩
    · exact ⟨by simp [Expr.fails, hnone], ∅, rfl, .refl h.good⟩
  | equalsValue var value =>
    intro s h
    refine ends_require_bind (fun v hv => ?_) fun hnone => ?_
    · have hleaf : Ends _ (fresh (call ops line (.varEqConst v value))) s _ :=
        ends_leaf rfl h.good (by simpa [Call.vars] using h.vars hv)
      simpa [Expr.isName, Expr.fails, Expr.drops, hv] using hleaf
    · exact ⟨by simp [Expr.fails, hnone], ∅, rfl, .refl h.good⟩
  | equalsVar a b =>
    intro s h
    refine ends_require_bind (fun v hv => ?_) fun hnone => ?_
    · refine ends_require_bind (fun w hw => ?_) fun hnone => ?_
      · have hleaf : Ends _ (fresh (call ops line (.varEqVar v w))) s _ :=
          ends_leaf rfl h.good (by simpa [Call.vars] using ⟨h.vars hv, h.vars hw⟩)
        simpa [Expr.isName, Expr.fails, Expr.drops, hv, hw] using hleaf
      · exact ⟨by simp [Expr.fails, hv, hnone], ∅, rfl, .refl h.good⟩
    · exact ⟨by simp [Expr.fails, hnone], ∅, rfl, .refl h.good⟩
  | union a b iha ihb | intersect a b iha ihb | difference a b iha ihb =>
    exact fun s h => ends_fresh (ends_two h iha ihb (.inl rfl) (fun _ _ => rfl) fun _ _ => rfl)
  | complement a ih =>
    exact fun s h => ends_fresh (ends_one h ih (.inl rfl) (fun _ => rfl) (by simp [Call.vars]))
  | «exists» var body ih =>
    intro s h
    refine ends_require_bind (fun v hv => ?_) fun hnone => ?_
    · have hbody := ends_fresh (ends_one h ih (.inl rfl) (c := fun set => .exists set v)
        (fun _ => rfl) fun _ => by simpa [Call.vars] using h.vars hv)
      simpa [Expr.isName, Expr.fails, Expr.drops, hv] using hbody
    · exact ⟨by simp [Expr.fails, hnone], ∅, by simp [Expr.drops, hnone], .refl h.good⟩

theorem ends_ask (line : Nat) (q : Query) (h : B.Orderly s) :
    Ends (OnDomain B.Spent) (ask ops line q) s
      (B.Delivers (k := .bool) s (q.fails (B.view s)) (q.drops (B.view s))) := by
  cases q with
  | empty a => exact ends_one h (evaluable line a) (.inr rfl) (fun _ => rfl) (by simp [Call.vars])
  | equal a b | subset a b =>
    exact ends_two h (evaluable line a) (evaluable line b) (.inr rfl) (fun _ _ => rfl)
      fun _ _ => rfl

end Backing
end LayeredSets
