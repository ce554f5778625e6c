import LayeredSets.Proofs.Chain.Transparent
import LayeredSets.Proofs.Script.Custody

/-!
# Scripts account for their sets

A statement that succeeds changes what is live by the sets of names alone. One that fails changes
neither names nor variables, but leaves the sets behind that it has lost on the way. By induction,
names never share a set, the domain is never asked for what is not there, and as long as nothing
fails, the live sets are those of the names.
-/

namespace LayeredSets

open Action

namespace Script

variable {σ τ : Type}

/-- Run scripts one after the other, whether or not they fail. -/
def runEach (ops : Operations σ) :
    List Script → State σ → Host → List (Except RunError Nat) × State σ × Host
  | [], s, host => ([], s, host)
  | script :: scripts, s, host =>
    let (result, s, host) := script.run ops s host
    let (results, s, host) := runEach ops scripts s host
    (result :: results, s, host)

theorem runEach_keeps {I : σ → Host → Prop} {ops : Operations σ} [Kept I ops]
    (scripts : List Script) (s : State σ) (host : Host) (h : I s.domain host) :
    I (runEach ops scripts s host).2.1.domain (runEach ops scripts s host).2.2 := by
  induction scripts generalizing s host with
  | nil => exact h
  | cons script scripts ih =>
    have hrun : Keeps (OfDomain I) (script.run ops) := inferInstance
    exact ih _ _ (hrun.keeps s host h)

/-- Scripts run on one domain as on another that it is carried to. -/
theorem runEach_carried {f : σ → τ} {a : Operations σ} {b : Operations τ} (h : a.Carries f b)
    (scripts : List Script) (s : State σ) (host : Host) :
    runEach b scripts (s.map f) host = ((runEach a scripts s host).1,
      (runEach a scripts s host).2.1.map f, (runEach a scripts s host).2.2) := by
  induction scripts generalizing s host with
  | nil => rfl
  | cons script scripts ih => simp only [runEach, carries_run h script s host, ih]

end Script

namespace Backing

open Script

variable {σ : Type} {ops : Operations σ} {B : Backing ops} {s t u : State σ} {line : Nat}

variable (B) in
/-- The live sets that no name stands for. -/
def orphans (s : State σ) : Set SetId := {set ∈ B.live s | ∀ name, s.sets.get? name ≠ some set}

theorem Gains.orphans_eq (h : B.Gains s t ∅) : B.orphans t = B.orphans s := by
  have hlive : B.live t = B.live s := by simpa using h.live
  have hsets : t.sets = s.sets := h.scope.sets
  rw [orphans, orphans, hlive, hsets]

/-! ## Statements -/

variable (B) in
/-- What comes of a statement that leaves this number of sets behind if it fails. -/
def Settles (s : State σ) (drops : Nat) (o : Except RunError Unit) (t : State σ) : Prop :=
  match o with
  | .ok _ => B.Orderly t ∧ B.orphans t = B.orphans s
  | .error _ => ∃ lost : Finset SetId, lost.card = drops ∧ B.Gains s t lost

/-- A set that a name can own, made of an expression. -/
theorem ends_own (line : Nat) (e : Expr) (h : B.Orderly s) :
    Ends (OnDomain B.Spent) (eval ops line e >>= owned ops line) s
      (B.Delivers (k := .set) s (e.fails (B.view s)) (e.drops (B.view s))) := by
  refine Ends.bind (evaluable line e s h) ?_ ?_
  · rintro ⟨set, _ | _⟩ t ⟨hfails, -, hlive, hst⟩
    · have hprovides : (B.base t.domain).Provides (.union set set) :=
        ⟨by simpa [Call.sets] using hlive, by simp [Call.vars]⟩
      refine (ends_use (.union set set) (.inl rfl) (by simp [Call.sets]) hst.good hprovides).mono ?_
      rintro _ u ⟨⟨copy, rfl⟩, htu⟩
      have hsu := (hst.trans htu).2
      exact ⟨hfails, by simpa [Value.own] using hsu⟩
    · exact Ends.pure ⟨hfails, hst⟩
  · intro e t ht
    exact ht

/-- A name is bound to a new set, and the one that it stood for before is gone. -/
theorem Orderly.bind {name : String} {x : SetId} (h : B.Orderly s) (hgood : B.Good t.domain)
    (hvars : t.vars = s.vars) (hsets : t.sets = s.sets.insert name x)
    (hdeclared : (B.base t.domain).vars = (B.base s.domain).vars) (hx : x ∉ B.live s)
    (hlive : ∀ y, y ∈ B.live t ↔ y = x ∨ y ∈ B.live s ∧ s.sets.get? name ≠ some y) :
    B.Orderly t ∧ B.orphans t = B.orphans s := by
  have hname : t.sets.get? name = some x := by rw [hsets, Table.get?_insert_self]
  have hother {n : String} (hn : n ≠ name) : t.sets.get? n = s.sets.get? n := by
    rw [hsets, Table.get?_insert_of_ne _ _ hn]
  have hnew {n : String} (hn : n ≠ name) : t.sets.get? n ≠ some x :=
    fun hfound => hx (h.sets (hother hn ▸ hfound))
  refine ⟨⟨hgood, ?_, ?_, ?_⟩, ?_⟩
  · intro n var hn
    rw [hdeclared]
    exact h.vars (hvars ▸ hn)
  · intro n y hn
    rw [hlive]
    by_cases hne : n = name
    · rw [hne, hname] at hn
      exact .inl (Option.some.inj hn).symm
    · rw [hother hne] at hn
      exact .inr ⟨h.sets hn, fun hy => hne (h.distinct hn hy)⟩
  · intro a b y ha hb
    by_cases hna : a = name <;> by_cases hnb : b = name
    · rw [hna, hnb]
    · rw [hna, hname] at ha
      exact absurd (ha ▸ hb) (hnew hnb)
    · rw [hnb, hname] at hb
      exact absurd (hb ▸ ha) (hnew hna)
    · exact h.distinct (hother hna ▸ ha) (hother hnb ▸ hb)
  · ext y
    simp only [orphans, Set.mem_ofPred_eq, hlive]
    constructor
    · rintro ⟨rfl | ⟨hy, hprevious⟩, hnone⟩
      · exact absurd hname (hnone name)
      · refine ⟨hy, fun n hn => ?_⟩
        by_cases hne : n = name
        · exact hprevious (hne ▸ hn)
        · exact hnone n ((hother hne).trans hn)
    · rintro ⟨hy, hnone⟩
      refine ⟨.inr ⟨hy, hnone name⟩, fun n hn => ?_⟩
      by_cases hne : n = name
      · rw [hne, hname] at hn
        exact hx (Option.some.inj hn ▸ hy)
      · exact hnone n ((hother hne).symm.trans hn)

theorem ends_define (name : String) (e : Expr) (h : B.Orderly s) :
    Ends (OnDomain B.Spent) (define ops line name e) s (B.Settles s (e.drops (B.view s))) := by
  rw [define_eq]
  refine Ends.bind (ends_own line e h) ?_ ?_
  · rintro x u ⟨-, hsu⟩
    let b : State σ := { u with sets := u.sets.insert name x }
    have hsets : u.sets = s.sets := hsu.scope.sets
    have hb : b.sets = s.sets.insert name x := congrArg (·.insert name x) hsets
    have hx : x ∉ B.live s := hsu.fresh x (Finset.mem_singleton_self x)
    have hlive : ∀ y, y ∈ B.live b ↔ y = x ∨ y ∈ B.live s := by
      intro y
      rw [show B.live b = _ from hsu.live]
      simp [held]
    refine ends_bindName (fun hnone => ?_) fun p hprevious => ?_
    · rw [hsets] at hnone
      refine h.bind hsu.good hsu.scope.vars hb hsu.scope.declared hx fun y => (hlive y).trans ?_
      simp [hnone]
    · rw [hsets] at hprevious
      have hp := h.sets hprevious
      have hrelease : Ends (OnDomain B.Spent) (call ops line (.release p)) b _ :=
        ends_release_call hsu.good ((hlive p).mpr (.inr hp))
      refine hrelease.mono ?_
      rintro o t ⟨rfl, hgood, hscope, hrest⟩
      refine h.bind hgood (hscope.vars.trans hsu.scope.vars) (hscope.sets.trans hb)
        (hscope.declared.trans hsu.scope.declared) hx fun y => ?_
      have hpx : p ≠ x := fun heq => hx (heq ▸ hp)
      rw [hrest, Set.mem_sdiff, hlive, hprevious]
      simp only [Set.mem_singleton_iff, ne_eq, Option.some.injEq]
      grind
  · rintro e t ⟨-, hlost⟩
    exact hlost

/-- A variable is declared, and its name was free. -/
theorem Orderly.declared {name : String} {v : Variable} (h : B.Orderly s)
    (hgood : B.Good t.domain) (hsets : t.sets = s.sets)
    (hvars : t.vars = s.vars.insert name ⟨UInt32.ofNat (B.base s.domain).vars.length⟩)
    (hdeclared : (B.base t.domain).vars = (B.base s.domain).vars ++ [v])
    (hlive : B.live t = B.live s) : B.Orderly t ∧ B.orphans t = B.orphans s := by
  refine ⟨⟨hgood, ?_, ?_, ?_⟩, ?_⟩
  · intro n var hn
    rw [hdeclared, List.length_append, List.length_singleton]
    rw [hvars] at hn
    by_cases hne : n = name
    · rw [hne, Table.get?_insert_self, Option.some.injEq] at hn
      rw [← hn]
      exact Nat.lt_succ_of_le (by simpa using Nat.mod_le _ _)
    · rw [Table.get?_insert_of_ne _ _ hne] at hn
      exact Nat.lt_succ_of_lt (h.vars hn)
  · intro n y hn
    rw [hlive]
    exact h.sets (hsets ▸ hn)
  · exact fun ha hb => h.distinct (hsets ▸ ha) (hsets ▸ hb)
  · rw [orphans, orphans, hlive, hsets]

theorem ends_declare (name : String) (bits : UInt32) (h : B.Orderly s) :
    Ends (OnDomain B.Spent) (declare ops line name bits) s (B.Settles s 0) := by
  have hbind (var : VarId) : Keeps (fun s _ => OnDomain B.Spent s)
      (modify fun s => { s with vars := s.vars.insert name var } : Run σ Unit) :=
    keeps_modify fun _ _ h => h
  -- Until the name is bound, the state is between two that are in order.
  have hcall : Ends (OnDomain B.Spent) (call ops line (.declare name bits)) s fun o t =>
      match o with
      | .ok var =>
        let u := { t with vars := t.vars.insert name var }
        B.Orderly u ∧ B.orphans u = B.orphans s
      | .error _ => B.Gains s t ∅ := by
    refine ends_step _ h.good ⟨by simp [Call.sets], by simp [Call.vars]⟩ ?_
    rintro (e | var) d hgood hfollows
    · have hsame := hfollows.similar_of_error
      exact ⟨hgood, ⟨rfl, rfl, hsame.vars⟩, by simp, by simpa using hsame.live⟩
    · obtain ⟨rfl, hdeclared, hsets⟩ := hfollows.of_declare
      have hlive : (B.base d).live = B.live s := by
        ext set
        simp only [Explicit.live, Set.mem_ofPred_eq, hsets]
      exact h.declared hgood rfl rfl hdeclared hlive
  rw [declare]
  refine Ends.get_bind ?_
  by_cases hknown : s.vars.contains name = true
  · simp only [hknown, if_true]
    exact fun host _ => ⟨∅, rfl, .refl h.good⟩
  · simp only [hknown, Bool.false_eq_true, if_false]
    refine Ends.bind hcall ?_ ?_
    · exact fun var t ht host _ => ht
    · exact fun e t hst => ⟨∅, rfl, hst⟩

theorem ends_write (piece : String) {more : Finset SetId} (h : B.Gains s t more) :
    Ends (OnDomain B.Spent) (write piece) t fun _ u => B.Gains s u more := by
  intro host _
  rw [write_apply]
  split
  · exact h.withOutput _
  · exact h

theorem ends_execute (line : Nat) (c : Command) (h : B.Orderly s) :
    Ends (OnDomain B.Spent) (execute ops line c) s (B.Settles s (c.drops (B.view s))) := by
  have hasked {q : Query} {t : State σ} (hq : q.fails (B.view s) = false) (hst : B.Gains s t ∅) :
      ∃ lost : Finset SetId, lost.card = q.drops (B.view s) ∧ B.Gains s t lost :=
    ⟨∅, (q.drops_eq_zero hq).symm, hst⟩
  cases c with
  | var name bits => exact ends_declare name bits h
  | define name e => exact ends_define name e h
  | print q =>
    refine Ends.bind (ends_ask line q h) ?_ ?_
    · rintro answer t ⟨hq, hst⟩
      refine Ends.bind (ends_write (toString answer) hst) ?_ ?_
      · intro _ u hsu
        refine (ends_write "\n" hsu).mono ?_
        rintro (e | _) w hsw
        · exact hasked hq hsw
        · exact ⟨h.gains hsw, hsw.orphans_eq⟩
      · intro e u hsu
        exact hasked hq hsu
    · rintro e t ⟨-, hlost⟩
      exact hlost
  | assert q =>
    refine Ends.bind (ends_ask line q h) ?_ ?_
    · rintro answer t ⟨hq, hst⟩
      cases answer with
      | true => exact Ends.pure ⟨h.gains hst, hst.orphans_eq⟩
      | false => exact Ends.fail (hasked hq hst)
    · rintro e t ⟨-, hlost⟩
      exact hlost

/-! ## Runs -/

/-- By induction over the statements, the first that fails being the last. -/
theorem ends_run (script : Script) (h : B.Orderly s) :
    Ends (OnDomain B.Spent) (script.run ops) s fun o t =>
      B.Orderly t ∧ (o.isOk → B.orphans t = B.orphans s) := by
  have hstatements : Ends (OnDomain B.Spent) (List.forM script fun statement =>
      execute ops statement.line statement.command) s fun o t =>
        B.Orderly t ∧ (o.isOk → B.orphans t = B.orphans s) := by
    induction script generalizing s with
    | nil => exact Ends.pure ⟨h, fun _ => rfl⟩
    | cons statement script ih =>
      refine Ends.bind (ends_execute statement.line statement.command h) ?_ ?_
      · rintro _ t ⟨ht, horphans⟩
        exact (ih ht).mono fun o u hu => ⟨hu.1, fun hok => (hu.2 hok).trans horphans⟩
      · rintro e t ⟨lost, -, hst⟩
        exact ⟨h.gains hst, nofun⟩
  refine Ends.bind hstatements ?_ ?_
  · exact fun _ t ht => Ends.pure ⟨ht.1, fun _ => ht.2 rfl⟩
  · exact fun e t ht => ⟨ht.1, nofun⟩

theorem runEach_orderly (scripts : List Script) (h : B.Orderly s) (host : Host)
    (hleft : ¬ B.Spent (runEach ops scripts s host).2.1.domain) :
    let ran := runEach ops scripts s host
    B.Orderly ran.2.1 ∧ ((∀ result ∈ ran.1, result.isOk) → B.orphans ran.2.1 = B.orphans s) := by
  induction scripts generalizing s host with
  | nil => exact ⟨h, fun _ => rfl⟩
  | cons script scripts ih =>
    intro ran
    have hmid : ¬ B.Spent (script.run ops s host).2.1.domain := fun hspent =>
      hleft (runEach_keeps (I := fun d _ => B.Spent d) scripts _ _ hspent)
    obtain ⟨hnext, hfirst⟩ := ends_run script h host hmid
    obtain ⟨hend, hrest⟩ := ih hnext _ hleft
    refine ⟨hend, fun hok => ?_⟩
    obtain ⟨hscript, hscripts⟩ := List.forall_mem_cons.mp hok
    exact (hrest hscripts).trans (hfirst hscript)

theorem Orderly.new {d : σ} (hd : B.Good d) (room : Option Nat) : B.Orderly (.new d room) where
  good := hd
  vars h := by cases h
  sets h := by cases h
  distinct h := by cases h

theorem orphans_new (d : σ) (room : Option Nat) : B.orphans (.new d room) = (B.base d).live := by
  simp [orphans, State.new]

variable (B) in
/-- What is true of scripts on a domain that is backed, a watch being set on one of two runs. -/
theorem runEach_owns_backed {d : σ} (hd : B.Good d) (room : Option Nat) (scripts : List Script)
    (host : Host) :
    let ran := runEach ops scripts (.new d room) host
    let watched := runEach (Watch.operations B.base ops) scripts (.new ⟨[], d⟩ room) host
    ¬ B.Spent ran.2.1.domain →
      (∀ seen ∈ watched.2.1.domain.layer, seen.bottom.Provides seen.request.call) ∧
      (∀ a b set, ran.2.1.sets.get? a = some set → ran.2.1.sets.get? b = some set → a = b) ∧
      ((∀ result ∈ ran.1, result.isOk) → (B.base d).live = ∅ →
        ∀ set, set ∈ B.live ran.2.1 ↔ ∃ name, ran.2.1.sets.get? name = some set) := by
  intro ran watched hleft
  have hran : ran = (watched.1, watched.2.1.map (·.inner), watched.2.2) :=
    runEach_carried (Watch.carries B.base ops) scripts (.new ⟨[], d⟩ room) host
  have hgood : B.watched.Good ⟨[], d⟩ := ⟨hd, List.forall_mem_nil _⟩
  obtain ⟨horderly, horphans⟩ :=
    runEach_orderly scripts (Orderly.new hgood room) host (by rwa [hran] at hleft)
  rw [hran]
  refine ⟨horderly.good.2, fun a b set => horderly.distinct, fun hok hempty set => ?_⟩
  have hnone := horphans hok
  rw [orphans_new] at hnone
  constructor
  · intro hset
    by_contra hname
    have horphan : set ∈ B.watched.orphans watched.2.1 :=
      ⟨hset, fun name hfound => hname ⟨name, hfound⟩⟩
    rw [hnone] at horphan
    exact Set.notMem_empty set (hempty ▸ horphan)
  · rintro ⟨name, hfound⟩
    exact horderly.sets hfound

end Backing

namespace Domain

open Script

/-- Whatever scripts are run on a chain, the interpreter never asks for what is not there: a watch
finds every set live and every variable declared that a call is given, also in statements that fail.
No two names share a set. And as long as all statements have succeeded, the live sets are exactly
those of the names. -/
theorem runEach_owns (limit : UInt32) (layers : List Layer) (room : Option Nat)
    (scripts : List Script) (host : Host) :
    let d := stack limit layers
    let bottom := stackBottom limit layers
    let ran := runEach d.shape.operations scripts (.new d.state room) host
    let watched := runEach (Watch.operations bottom d.shape.operations) scripts
      (.new ⟨[], d.state⟩ room) host
    let tapped := runEach d.shape.tapped scripts (.new (d.shape.tap d.state) room) host
    (∀ t ∈ d.shape.transcripts tapped.2.1.domain,
      t.sets < 2 ^ 32 ∧ (2 ^ 32 - 64 < limit.toNat → t.vars < 2 ^ 32)) →
    ran = (watched.1, watched.2.1.map (·.inner), watched.2.2) ∧
      (∀ seen ∈ watched.2.1.domain.layer, seen.bottom.Provides seen.request.call) ∧
      (∀ a b set, ran.2.1.sets.get? a = some set → ran.2.1.sets.get? b = some set → a = b) ∧
      ((∀ result ∈ ran.1, result.isOk) →
        ∀ set, set ∈ (bottom ran.2.1.domain).live ↔ ∃ name, ran.2.1.sets.get? name = some set) := by
  intro d bottom ran watched tapped hroom
  obtain ⟨base, Good, hrests, hgood, hstart, hmem, hinner⟩ := exists_rests_bottom limit layers
  have hbase : hrests.backing.base = fun t => bottom (d.shape.untap t) := funext hinner
  have hleft : ¬ (base tapped.2.1.domain).Spent := by
    refine Bottom.not_spent (fun hlimit => ?_) (hroom _ (hmem _))
    have : Kept (fun t _ => (base t).Narrow limit) d.shape.tapped :=
      ⟨hrests.preserves (Bottom.keeps_narrow hlimit)⟩
    exact runEach_keeps (I := fun t _ => (base t).Narrow limit) scripts _ host
      (hstart ▸ Bottom.Narrow.new limit)
  obtain ⟨hseen, hdistinct, hlive⟩ :=
    hrests.backing.runEach_owns_backed hgood room scripts host hleft
  -- Without the taps, the runs are the same.
  have hran : ran = (tapped.1, tapped.2.1.map d.shape.untap, tapped.2.2) := by
    refine Eq.trans ?_ (runEach_carried d.shape.carries_untap scripts _ host)
    simp only [ran, State.map, State.new, Shape.untap_tap]
  have hwatched : watched.2.1.domain.layer = (runEach (Watch.operations hrests.backing.base
      d.shape.tapped) scripts (.new ⟨[], d.shape.tap d.state⟩ room) host).2.1.domain.layer := by
    rw [hbase]
    have hcarried := runEach_carried (Watch.carries_map d.shape.carries_untap bottom) scripts
      (.new ⟨[], d.shape.tap d.state⟩ room) host
    simp only [State.map, State.new, Atop.map, Shape.untap_tap] at hcarried
    exact congrArg (·.2.1.domain.layer) hcarried
  refine ⟨runEach_carried (Watch.carries bottom d.shape.operations) scripts
    (.new ⟨[], d.state⟩ room) host, hwatched ▸ hseen, ?_, fun hok set => ?_⟩
  · rw [hran]
    exact hdistinct
  · rw [hran] at hok ⊢
    have hempty : (hrests.backing.base (d.shape.tap d.state)).live = ∅ := by
      rw [show hrests.backing.base (d.shape.tap d.state) = _ from congrArg Atop.inner hstart]
      exact Explicit.live_new limit
    have hset := hlive hok hempty set
    rw [Backing.live, hbase] at hset
    exact hset

-- Runs that are compared are not to be evaluated.
attribute [local irreducible] runEach in
/-- A name is copied, bound again to what is made of itself, and asked about; a point is made on the
way. -/
theorem runEach_owns_sample :
    let layers : List Layer := [.equalities, .observer (.stats (.new false)), .points]
    let scripts : List Script :=
      [[⟨1, .var "x" 2⟩, ⟨2, .define "a" (.equalsValue "x" 1)⟩, ⟨3, .define "b" (.name "a")⟩],
        [⟨1, .define "a" (.complement (.union (.name "a") (.point [3])))⟩,
          ⟨2, .assert (.empty (.intersect (.name "b") (.name "a")))⟩]]
    let d := stack 20 layers
    let bottom := stackBottom 20 layers
    let ran := runEach d.shape.operations scripts (.new d.state none) Host.initial
    let watched := runEach (Watch.operations bottom d.shape.operations) scripts
      (.new ⟨[], d.state⟩ none) Host.initial
    let tapped := runEach d.shape.tapped scripts (.new (d.shape.tap d.state) none) Host.initial
    (∀ t ∈ d.shape.transcripts tapped.2.1.domain,
      t.sets < 2 ^ 32 ∧ (2 ^ 32 - 64 < (20 : UInt32).toNat → t.vars < 2 ^ 32)) ∧
      watched.2.1.domain.layer.length = 12 ∧
      (∀ seen ∈ watched.2.1.domain.layer, seen.bottom.Provides seen.request.call) ∧
      (∀ result ∈ ran.1, result.isOk) ∧
      ∀ set, set ∈ (bottom ran.2.1.domain).live ↔ ∃ name, ran.2.1.sets.get? name = some set := by
  intro layers scripts d bottom ran watched tapped
  have hroom : ∀ t ∈ d.shape.transcripts tapped.2.1.domain,
      t.sets < 2 ^ 32 ∧ (2 ^ 32 - 64 < (20 : UInt32).toNat → t.vars < 2 ^ 32) := by
    decide +kernel
  have hcalls : watched.2.1.domain.layer.length = 12 := by decide +kernel
  have hok : ∀ result ∈ ran.1, result.isOk := by decide +kernel
  obtain ⟨-, hseen, -, hlive⟩ := runEach_owns 20 layers none scripts Host.initial hroom
  exact ⟨hroom, hcalls, hseen, hok, hlive hok⟩

end Domain

namespace Script

/-- Calls made on a fresh explicit domain, and then scripts run on it. -/
def reach {σ : Type} (ops : Operations σ) (d : σ) (requests : List Request) (room : Option Nat)
    (scripts : List Script) (host : Host) : State σ × Host :=
  let (_, d, host) := ops.run requests d host
  let (_, s, host) := runEach ops scripts (.new d room) host
  (s, host)

theorem reach_carried {σ τ : Type} {f : σ → τ} {a : Operations σ} {b : Operations τ}
    (h : a.Carries f b) (d : σ) (requests : List Request) (room : Option Nat)
    (scripts : List Script) (host : Host) :
    reach b (f d) requests room scripts host =
      ((reach a d requests room scripts host).1.map f,
        (reach a d requests room scripts host).2) := by
  simp only [reach, h.run requests d host]
  have hscripts := runEach_carried h scripts (.new (a.run requests d host).2.1 room)
    (a.run requests d host).2.2
  simp only [State.map, State.new] at hscripts ⊢
  rw [hscripts]

theorem orderly_reach (limit : UInt32) (requests : List Request) (room : Option Nat)
    (scripts : List Script) (host : Host)
    (hleft : ¬ Bottom.Full (reach (Tap.operations Explicit.operations) ⟨[], Explicit.new limit⟩
      requests room scripts host).1.domain) :
    Bottom.backing.Orderly (reach (Tap.operations Explicit.operations) ⟨[], Explicit.new limit⟩
      requests room scripts host).1 := by
  have : Kept (fun s _ => Bottom.Full s) (Tap.operations Explicit.operations) :=
    ⟨fun _ call => Bottom.keeps_full call⟩
  have hsound := Bottom.sound_run requests (.new limit) host fun hfull => hleft
    (runEach_keeps (I := fun s _ => Bottom.Full s) scripts (.new _ room) _ hfull)
  have hnew : Bottom.backing.Orderly (.new _ room) := .new hsound room
  exact (Backing.runEach_orderly scripts hnew _ hleft).1

/-- A statement that fails, in whatever state it is tried, leaves the declared variables and the
names as they are, and what was live stays live. New live sets are those of the operands that it has
dropped, one for each that was ready when the operand on the right of it failed. -/
theorem execute_failure_leaves (limit : UInt32) (requests : List Request) (room : Option Nat)
    (scripts : List Script) (statement : Statement) (host : Host) :
    let tap := Tap.operations Explicit.operations
    let tapped := reach tap ⟨[], Explicit.new limit⟩ requests room scripts host
    let before := reach Explicit.operations (Explicit.new limit) requests room scripts host
    let after := execute Explicit.operations statement.line statement.command before.1 before.2
    (execute tap statement.line statement.command tapped.1 tapped.2).2.1.domain.layer.sets < 2 ^ 32 →
      ∀ e, after.1 = .error e →
        after.2.1.vars = before.1.vars ∧ after.2.1.sets = before.1.sets ∧
        after.2.1.domain.vars = before.1.domain.vars ∧
        ∃ lost : Finset SetId, lost.card = statement.command.drops before.1 ∧
          (∀ set ∈ lost, set ∉ before.1.domain.live) ∧
          after.2.1.domain.live = before.1.domain.live ∪ ↑lost := by
  intro tap tapped before after hfew e herror
  have hbefore : before = (tapped.1.map (·.inner), tapped.2) :=
    reach_carried (Tap.carries Explicit.operations) ⟨[], .new limit⟩ requests room scripts host
  have hafter : after = _ :=
    (congrArg (fun b => execute _ statement.line statement.command b.1 b.2) hbefore).trans
      (carries_execute (Tap.carries Explicit.operations) statement.command tapped.1 tapped.2)
  have hleft := not_le.mpr hfew
  have hkeeps : Keeps (fun s _ => OnDomain Bottom.backing.Spent s)
      (execute tap statement.line statement.command) := inferInstance
  have horderly := orderly_reach limit requests room scripts host fun hfull =>
    hleft (hkeeps.keeps tapped.1 tapped.2 hfull)
  have hsettles := Backing.ends_execute statement.line statement.command horderly tapped.2 hleft
  rw [hafter] at herror
  simp only [hafter, hbefore]
  rw [herror] at hsettles
  obtain ⟨lost, hcard, hgains⟩ := hsettles
  exact ⟨hgains.scope.vars, hgains.scope.sets, hgains.scope.declared, lost, hcard,
    hgains.fresh, hgains.live⟩

attribute [local irreducible] reach in
/-- Two operands are ready when an undefined name is met: a complement and a point. -/
theorem execute_failure_leaves_sample :
    let requests : List Request := [⟨.declare "y" 1⟩, ⟨.top⟩]
    let scripts : List Script := [[⟨1, .var "x" 2⟩, ⟨2, .define "a" (.equalsValue "x" 1)⟩]]
    let statement : Statement := ⟨1, .define "b" (.intersect (.name "a")
      (.difference (.complement (.name "a")) (.union (.point [1, 0]) (.name "c"))))⟩
    let tap := Tap.operations Explicit.operations
    let tapped := reach tap ⟨[], Explicit.new 20⟩ requests none scripts Host.initial
    let before := reach Explicit.operations (Explicit.new 20) requests none scripts Host.initial
    let after := execute Explicit.operations statement.line statement.command before.1 before.2
    (execute tap statement.line statement.command tapped.1 tapped.2).2.1.domain.layer.sets < 2 ^ 32 ∧
      after.1 = .error (.undefinedSet "c" 1) ∧
      ∃ lost : Finset SetId, lost.card = 2 ∧ (∀ set ∈ lost, set ∉ before.1.domain.live) ∧
        after.2.1.domain.live = before.1.domain.live ∪ ↑lost := by
  intro requests scripts statement tap tapped before after
  have hfew : (execute tap statement.line statement.command
      tapped.1 tapped.2).2.1.domain.layer.sets < 2 ^ 32 := by
    decide +kernel
  have hfails : after.1 = .error (.undefinedSet "c" 1) := by decide +kernel
  have hdrops : statement.command.drops before.1 = 2 := by decide +kernel
  obtain ⟨-, -, -, hlost⟩ :=
    execute_failure_leaves 20 requests none scripts statement Host.initial hfew _ hfails
  exact ⟨hfew, hfails, hdrops ▸ hlost⟩

/-- The set of all valuations is made and then dropped, since the operand beside it is unknown. -/
theorem execute_failure_not_clean :
    let s : State Explicit := .new (Explicit.new 20) none
    let after := execute Explicit.operations 1 (.define "a" (.union .top (.name "b"))) s Host.initial
    after.1 = .error (.undefinedSet "b" 1) ∧
      ⟨1⟩ ∉ s.domain.live ∧ ⟨1⟩ ∈ after.2.1.domain.live := by
  decide +kernel

end Script

end LayeredSets
