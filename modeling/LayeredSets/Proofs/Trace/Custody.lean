import LayeredSets.Proofs.Chain.Watch
import LayeredSets.Proofs.Trace.Step
import LayeredSets.Trace.Parser

/-!
# Who holds the sets of a replay

The handles of a replay stand for declared variables and for live sets, no two of them for the same
set. So a step never calls the domain with anything that is not there. A definition that takes over
a handle leaves the set that it stood for without one, and nothing else does.
-/

namespace LayeredSets.Trace

open Action

variable {σ : Type} {ops : Operations σ} (B : Backing ops)

/-- The live sets of the domain. -/
abbrev live (s : State σ) : Set SetId := (B.base s.domain).live

/-- The handles stand for declared variables and for live sets, no two for the same set. -/
structure Orderly (s : State σ) : Prop where
  good : B.Good s.domain
  vars : ∀ {name var}, s.vars.get? name = some var →
    var.index.toNat < (B.base s.domain).vars.length
  sets : ∀ {name set}, s.sets.get? name = some set → set ∈ live B s
  distinct : ∀ {a b set}, s.sets.get? a = some set → s.sets.get? b = some set → a = b

/-- The live sets that no handle stands for. -/
def orphans (s : State σ) : Set SetId :=
  {set | set ∈ live B s ∧ ∀ name, s.sets.get? name ≠ some set}

/-- The set that loses its handle to the set that the step defines. -/
def Op.displaced (s : State σ) : Op → Finset SetId
  | .define target _ => (s.sets.get? target).toFinset
  | _ => ∅

variable {B} {s t : State σ} {line : Nat} {op : Op}

theorem mem_displaced_define {target : String} {d : Definition} {set : SetId} :
    set ∈ (Op.define target d).displaced s ↔ s.sets.get? target = some set := by
  simp [Op.displaced]

namespace Orderly

theorem new {domain : σ} (h : B.Good domain) : Orderly B (.new domain) :=
  ⟨h, nofun, nofun, nofun⟩

/-! ## The call of a step -/

theorem live_of_setOf (h : Orderly B s) {name : String} {set : SetId}
    (hset : s.setOf name = .ok set) : set ∈ live B s :=
  h.sets (State.get?_of_setOf hset)

theorem declared_of_varOf (h : Orderly B s) {name : String} {var : VarId}
    (hvar : s.varOf name = .ok var) : var.index.toNat < (B.base s.domain).vars.length :=
  h.vars (State.get?_of_varOf hvar)

theorem provides_definition (h : Orderly B s) {d : Definition} {c : Call .set}
    (hc : d.call s = .ok c) : (B.base s.domain).Provides c := by
  cases d with
  | top | bottom | single =>
    obtain rfl := Except.ok.inj hc
    exact ⟨List.forall_mem_nil _, List.forall_mem_nil _⟩
  | const name value =>
    obtain ⟨var, hvar, ⟨⟩⟩ := bind_eq_ok hc
    exact ⟨List.forall_mem_nil _, List.forall_mem_singleton.mpr (h.declared_of_varOf hvar)⟩
  | eqvar a b =>
    obtain ⟨v, hv, hrest⟩ := bind_eq_ok hc
    obtain ⟨w, hw, ⟨⟩⟩ := bind_eq_ok hrest
    exact ⟨List.forall_mem_nil _, List.forall_mem_cons.mpr
      ⟨h.declared_of_varOf hv, List.forall_mem_singleton.mpr (h.declared_of_varOf hw)⟩⟩
  | union a b | inter a b | diff a b =>
    obtain ⟨x, hx, hrest⟩ := bind_eq_ok hc
    obtain ⟨y, hy, ⟨⟩⟩ := bind_eq_ok hrest
    refine ⟨List.forall_mem_cons.mpr ⟨h.live_of_setOf hx, ?_⟩, List.forall_mem_nil _⟩
    exact List.forall_mem_singleton.mpr (h.live_of_setOf hy)
  | compl a =>
    obtain ⟨x, hx, ⟨⟩⟩ := bind_eq_ok hc
    exact ⟨List.forall_mem_singleton.mpr (h.live_of_setOf hx), List.forall_mem_nil _⟩
  | «exists» a name =>
    obtain ⟨x, hx, hrest⟩ := bind_eq_ok hc
    obtain ⟨var, hvar, ⟨⟩⟩ := bind_eq_ok hrest
    exact ⟨List.forall_mem_singleton.mpr (h.live_of_setOf hx),
      List.forall_mem_singleton.mpr (h.declared_of_varOf hvar)⟩

theorem provides_query (h : Orderly B s) {q : Query} {c : Call .bool} (hc : q.call s = .ok c) :
    (B.base s.domain).Provides c := by
  cases q with
  | empty a =>
    obtain ⟨x, hx, ⟨⟩⟩ := bind_eq_ok hc
    exact ⟨List.forall_mem_singleton.mpr (h.live_of_setOf hx), List.forall_mem_nil _⟩
  | equal a b | subset a b =>
    obtain ⟨x, hx, hrest⟩ := bind_eq_ok hc
    obtain ⟨y, hy, ⟨⟩⟩ := bind_eq_ok hrest
    refine ⟨List.forall_mem_cons.mpr ⟨h.live_of_setOf hx, ?_⟩, List.forall_mem_nil _⟩
    exact List.forall_mem_singleton.mpr (h.live_of_setOf hy)

/-- Whatever a step calls the domain with is there. -/
theorem provides (h : Orderly B s) {request : Request} (hrequest : op.request s = .ok request) :
    (B.base s.domain).Provides request.call := by
  cases op with
  | declare target name bits =>
    obtain rfl := Except.ok.inj hrequest
    exact ⟨List.forall_mem_nil _, List.forall_mem_nil _⟩
  | define target d =>
    obtain ⟨c, hc, ⟨⟩⟩ := bind_eq_ok hrequest
    exact h.provides_definition hc
  | query q expected =>
    obtain ⟨c, hc, ⟨⟩⟩ := bind_eq_ok hrequest
    exact h.provides_query hc
  | release name =>
    obtain ⟨set, hset, ⟨⟩⟩ := bind_eq_ok hrequest
    exact ⟨List.forall_mem_singleton.mpr (h.live_of_setOf hset), List.forall_mem_nil _⟩

/-! ## What comes of it -/

/-- Nothing that the handles stand for has changed. -/
theorem similar (h : Orderly B s) {domain : σ} (hgood : B.Good domain)
    (hsimilar : (B.base s.domain).Similar (B.base domain)) (checked : Nat) :
    let t : State σ := { s with domain, checked }
    Orderly B t ∧ orphans B t = orphans B s := by
  intro t
  have hlive : live B t = live B s := hsimilar.live
  refine ⟨⟨hgood, fun hname => ?_, fun hname => ?_, h.distinct⟩, ?_⟩
  · rw [hsimilar.vars]
    exact h.vars hname
  · rw [hlive]
    exact h.sets hname
  · rw [orphans, hlive]
    rfl

theorem declared (h : Orderly B s) {domain : σ} (hgood : B.Good domain) {name : String}
    {bits : UInt32} {var : VarId}
    (hfollows : (B.base s.domain).Follows (.declare name bits) (.ok var) (B.base domain))
    (target : String) :
    let t : State σ := { s with domain, vars := s.vars.insert target var }
    Orderly B t ∧ orphans B t = orphans B s := by
  intro t
  obtain ⟨rfl, hvars, hsets⟩ := hfollows.of_declare
  have hlive : live B t = live B s := by
    ext set
    exact exists_congr fun r => by rw [hsets]
  have hcount : (B.base domain).vars.length = (B.base s.domain).vars.length + 1 := by
    rw [hvars, List.length_append, List.length_singleton]
  refine ⟨⟨hgood, fun {other var} hname => ?_, fun hname => ?_, h.distinct⟩, ?_⟩
  · rw [Table.get?_insert] at hname
    split at hname
    · obtain rfl := Option.some.inj hname
      exact hcount ▸ Nat.lt_succ_of_le (Nat.mod_le _ _)
    · exact hcount ▸ Nat.lt_succ_of_lt (h.vars hname)
  · rw [hlive]
    exact h.sets hname
  · rw [orphans, hlive]
    rfl

theorem defined (h : Orderly B s) {domain : σ} (hgood : B.Good domain) {c : Call .set} {set : SetId}
    (hfollows : (B.base s.domain).Follows c (.ok set) (B.base domain)) (target : String)
    (d : Definition) :
    let t : State σ := { s with domain, sets := s.sets.insert target set }
    Orderly B t ∧ orphans B t = orphans B s ∪ ↑((Op.define target d).displaced s) := by
  intro t
  obtain ⟨hfresh, hunion⟩ := hfollows.live_eq (B.tidy h.good) (.inl rfl)
  have hnew : set ∉ live B s := hfresh set (Finset.mem_singleton_self set)
  have hlive (x : SetId) : x ∈ live B t ↔ x ∈ live B s ∨ x = set := by
    rw [show live B t = _ from hunion]
    exact or_congr_right Finset.mem_singleton
  have hget (name : String) :
      t.sets.get? name = if name = target then some set else s.sets.get? name := by
    simp [t, Table.get?_insert]
  have hsets (name : String) (x : SetId) : s.sets.get? name = some x → x ∈ live B s := h.sets
  have hdistinct (a b : String) (x : SetId) :
      s.sets.get? a = some x → s.sets.get? b = some x → a = b := h.distinct
  refine ⟨⟨hgood, fun hname => ?_, fun hname => ?_, fun ha hb => ?_⟩, ?_⟩
  · rw [hfollows.vars_of_ne (by simp)]
    exact h.vars hname
  · grind
  · grind
  · ext x
    simp only [orphans, Set.mem_union, Set.mem_ofPred_eq, Finset.mem_coe, mem_displaced_define]
    grind

theorem released (h : Orderly B s) {domain : σ} (hgood : B.Good domain) {name : String} {set : SetId}
    (hname : s.sets.get? name = some set)
    (hfollows : (B.base s.domain).Follows (.release set) (.ok ()) (B.base domain)) :
    let t : State σ := { s with domain, sets := s.sets.erase name }
    Orderly B t ∧ orphans B t = orphans B s := by
  intro t
  have hlive (x : SetId) : x ∈ live B t ↔ x ∈ live B s ∧ x ≠ set := by
    rw [show live B t = _ from hfollows.live_release]
    rfl
  have hget (other : String) :
      t.sets.get? other = if other = name then none else s.sets.get? other := by
    simp [t, Table.get?_erase]
  have hsets (other : String) (x : SetId) : s.sets.get? other = some x → x ∈ live B s := h.sets
  have hdistinct (a b : String) (x : SetId) :
      s.sets.get? a = some x → s.sets.get? b = some x → a = b := h.distinct
  refine ⟨⟨hgood, fun hother => ?_, fun hother => ?_, fun ha hb => ?_⟩, ?_⟩
  · rw [hfollows.of_release.1]
    exact h.vars hother
  · grind
  · grind
  · ext x
    simp only [orphans, Set.mem_ofPred_eq]
    grind

/-- A step changes nothing but what it is about, and strands the set whose handle it takes over. -/
theorem finish (h : Orderly B s) {request : Request} (hrequest : op.request s = .ok request)
    {outcome : Except DomainError request.kind.Value} {domain : σ} (hgood : B.Good domain)
    (hfollows : (B.base s.domain).Follows request.call outcome (B.base domain)) (host : Host) :
    let ended := op.finish line s (outcome.map request.kind.reply, domain, host)
    Orderly B ended.2.1 ∧
      (ended.1 = .ok () → orphans B ended.2.1 = orphans B s ∪ ↑(op.displaced s)) := by
  intro ended
  cases outcome with
  | error e =>
    exact ⟨(h.similar hgood hfollows.similar_of_error s.checked).1, nofun⟩
  | ok value =>
    cases op with
    | declare target name bits =>
      obtain rfl := Except.ok.inj hrequest
      have ⟨horderly, horphans⟩ := h.declared hgood hfollows target
      exact ⟨horderly, fun _ => horphans.trans (by simp [Op.displaced])⟩
    | define target d =>
      obtain ⟨c, -, ⟨⟩⟩ := bind_eq_ok hrequest
      have ⟨horderly, horphans⟩ := h.defined hgood hfollows target d
      exact ⟨horderly, fun _ => horphans⟩
    | query q expected =>
      obtain ⟨c, -, ⟨⟩⟩ := bind_eq_ok hrequest
      obtain ⟨checked, hchecked⟩ := exists_confirm line value { s with domain } expected
      have ⟨horderly, horphans⟩ :=
        h.similar hgood (Explicit.follows_bool_iff.mp hfollows).2 checked
      have hended : ended.2.1 = { s with domain, checked } := hchecked
      rw [hended]
      exact ⟨horderly, fun _ => horphans.trans (by simp [Op.displaced])⟩
    | release name =>
      obtain ⟨set, hset, ⟨⟩⟩ := bind_eq_ok hrequest
      have ⟨horderly, horphans⟩ := h.released hgood (State.get?_of_setOf hset) hfollows
      exact ⟨horderly, fun _ => horphans.trans (by simp [Op.displaced])⟩

end Orderly

theorem Orderly.mem_live_iff (h : Orderly B s) {set : SetId} :
    set ∈ live B s ↔ set ∈ orphans B s ∨ ∃ name, s.sets.get? name = some set := by
  constructor
  · intro hset
    by_cases hname : ∃ name, s.sets.get? name = some set
    · exact .inr hname
    · exact .inl ⟨hset, fun name hget => hname ⟨name, hget⟩⟩
  · rintro (horphan | ⟨name, hget⟩)
    · exact horphan.1
    · exact h.sets hget

/-! ## Runs -/

/-- How many handles the step takes over, if these stand for something. -/
def Op.reassigns (known : Finset Handle) : Op → Nat
  | .define target _ => if .set target ∈ known then 1 else 0
  | _ => 0

/-- How often the trace defines a set under a handle that stands for another. -/
def reassigned (known : Finset Handle) : Trace → Nat
  | [] => 0
  | step :: rest => step.op.reassigns known + reassigned (step.op.leave known) rest

theorem card_displaced {known : Finset Handle} (h : s.Knows known) (op : Op) :
    (op.displaced s).card = op.reassigns known := by
  cases op with
  | define target d =>
    rw [Op.displaced, Op.reassigns, Option.card_toFinset]
    have := h (.set target)
    simp only [State.knows] at this
    cases hget : s.sets.get? target <;> simp_all
  | declare | query | release => rfl

/-- What a set loses its handle to is not what another one has lost it to before. -/
theorem notMem_orphans_of_displaced {set : SetId} (h : set ∈ op.displaced s) :
    set ∉ orphans B s := by
  cases op with
  | define target d => exact fun horphan => horphan.2 target (mem_displaced_define.mp h)
  | declare | query | release => exact absurd h (Finset.notMem_empty set)

theorem ends_execute {known : Finset Handle} (h : Orderly B s) (hknown : s.Knows known)
    (line : Nat) (op : Op) :
    Ends (fun t => B.Spent t.domain) (execute ops line op) s fun o t =>
      Orderly B t ∧ (o = .ok () →
        t.Knows (op.leave known) ∧ orphans B t = orphans B s ∪ ↑(op.displaced s)) := by
  intro host hleft
  cases hrequest : op.request s with
  | error handle =>
    rw [execute_of_unknown hrequest]
    exact ⟨h, nofun⟩
  | ok request =>
    rw [execute_of_known hrequest] at hleft ⊢
    have hspent : ¬ B.Spent (op.finish line s (ops.respond request s.domain host)).2.1.domain := hleft
    rw [finish_domain] at hspent
    obtain ⟨hgood, hfollows⟩ := B.step request.call h.good (h.provides hrequest) host hspent
    obtain ⟨horderly, horphans⟩ := h.finish hrequest hgood hfollows _
    exact ⟨horderly, fun hok => ⟨knows_finish hknown hrequest _ _ _ hok, horphans hok⟩⟩

/-- A run, by induction on its steps: each strands what it displaces, and nothing else. -/
theorem ends_steps {known : Finset Handle} (h : Orderly B s) (hknown : s.Knows known)
    (trace : Trace) :
    Ends (fun t => B.Spent t.domain) (trace.forM fun step => execute ops step.line step.op) s
      fun o t => Orderly B t ∧ (o = .ok () → ∃ lost : Finset SetId,
        lost.card = reassigned known trace ∧ (∀ set ∈ lost, set ∉ orphans B s) ∧
          orphans B t = orphans B s ∪ ↑lost) := by
  induction trace generalizing s known with
  | nil => exact Ends.pure ⟨h, fun _ => ⟨∅, rfl, by simp, by simp⟩⟩
  | cons step rest ih =>
    have hkeeps (step : Step) := keeps_execute (I := fun d _ => B.Spent d) B.keeps step.line step.op
    refine Ends.bind (ends_execute h hknown step.line step.op) ?_ ?_
    · rintro _ t ⟨ht, hok⟩
      obtain ⟨hknown', horphans⟩ := hok rfl
      refine (ih ht hknown').mono fun o u hu => ⟨hu.1, fun ho => ?_⟩
      obtain ⟨lost, hcard, hnew, hlost⟩ := hu.2 ho
      have hapart : Disjoint (step.op.displaced s) lost := by
        refine Finset.disjoint_left.mpr fun set hset hmem => hnew set hmem ?_
        rw [horphans]
        exact .inr hset
      refine ⟨step.op.displaced s ∪ lost, ?_, fun set hset => ?_, ?_⟩
      · rw [Finset.card_union_of_disjoint hapart, hcard, card_displaced hknown]
        rfl
      · rcases Finset.mem_union.mp hset with hset | hset
        · exact notMem_orphans_of_displaced hset
        · exact fun horphan => hnew set hset (horphans ▸ .inl horphan)
      · rw [hlost, horphans, Finset.coe_union, Set.union_assoc]
    · rintro e t ⟨ht, -⟩
      exact ⟨ht, nofun⟩

theorem orphans_new (domain : σ) : orphans B (.new domain) = (B.base domain).live := by
  ext set
  simp [orphans, State.new]

/-- A replay that goes through strands as many sets as it has handles reassigned. -/
theorem ends_run {domain : σ} (h : B.Good domain) (hempty : (B.base domain).live = ∅)
    (trace : Trace) :
    Ends (fun t => B.Spent t.domain) (run ops trace) (.new domain) fun o t =>
      Orderly B t ∧ (o.isOk = true → ∃ lost : Finset SetId,
        lost.card = reassigned ∅ trace ∧ orphans B t = ↑lost) := by
  refine Ends.bind (ends_steps (.new h) (.new domain) trace) ?_ ?_
  · rintro _ t ⟨ht, hok⟩
    obtain ⟨lost, hcard, -, hlost⟩ := hok rfl
    refine Ends.pure ⟨ht, fun _ => ⟨lost, hcard, ?_⟩⟩
    rw [hlost, orphans_new, hempty, Set.empty_union]
  · rintro e t ⟨ht, -⟩
    exact ⟨ht, nofun⟩

/-- A replay on a fresh explicit domain that goes through leaves as many sets without a handle as it
has defined sets under handles that stood for others. Every other live set has its handle. -/
theorem run_strands (limit : UInt32) (trace : Trace) (host : Host) :
    let tapped := run (Tap.operations Explicit.operations) trace (.new ⟨[], .new limit⟩) host
    let ran := run Explicit.operations trace (.new (.new limit)) host
    tapped.2.1.domain.layer.sets < 2 ^ 32 → ran.1.isOk = true →
    (∃ lost : Finset SetId, lost.card = reassigned ∅ trace ∧
      (∀ set ∈ lost, ∀ name, ran.2.1.sets.get? name ≠ some set) ∧
      ∀ set, set ∈ ran.2.1.domain.live ↔
        set ∈ lost ∨ ∃ name, ran.2.1.sets.get? name = some set) ∧
    ((∀ set ∈ ran.2.1.domain.live, ∃ name, ran.2.1.sets.get? name = some set) ↔
      reassigned ∅ trace = 0) := by
  intro tapped ran hfew hok
  have hran : ran = (tapped.1, tapped.2.1.map (·.inner), tapped.2.2) :=
    carries_run (Tap.carries Explicit.operations) trace (.new ⟨[], .new limit⟩) host
  obtain ⟨horderly, hlost⟩ := ends_run (B := Bottom.backing) (Bottom.Sound.new limit)
    (Explicit.live_new limit) trace host (not_le.mpr hfew)
  rw [hran] at hok
  obtain ⟨lost, hcard, horphans⟩ := hlost hok
  have hlive (set : SetId) : set ∈ ran.2.1.domain.live ↔
      set ∈ lost ∨ ∃ name, ran.2.1.sets.get? name = some set := by
    rw [hran, ← Finset.mem_coe, ← horphans]
    exact horderly.mem_live_iff
  have hnameless (set : SetId) (hset : set ∈ lost) (name : String) :
      ran.2.1.sets.get? name ≠ some set := by
    rw [hran]
    exact ((Set.ext_iff.mp horphans set).mpr hset).2 name
  refine ⟨⟨lost, hcard, hnameless, hlive⟩, ?_⟩
  rw [← hcard, Finset.card_eq_zero]
  constructor
  · intro hall
    refine Finset.eq_empty_of_forall_notMem fun set hset => ?_
    obtain ⟨name, hname⟩ := hall set ((hlive set).mpr (.inl hset))
    exact hnameless set hset name hname
  · rintro rfl set hset
    simpa using (hlive set).mp hset

attribute [local irreducible] run in
/-- The handles "a" and "b" are taken over, "a" once more after its release, which strands
nothing. -/
theorem run_strands_sample :
    let trace : Trace := [⟨1, .define "a" .top⟩, ⟨2, .define "b" (.compl "a")⟩,
      ⟨3, .define "a" (.union "a" "b")⟩, ⟨4, .release "a"⟩, ⟨5, .define "a" .bottom⟩,
      ⟨6, .define "b" (.inter "a" "b")⟩]
    let tapped := run (Tap.operations Explicit.operations) trace (.new ⟨[], .new 20⟩) Host.initial
    let ran := run Explicit.operations trace (.new (.new 20)) Host.initial
    tapped.2.1.domain.layer.sets < 2 ^ 32 ∧ ran.1 = .ok 6 ∧
      ∃ lost : Finset SetId, lost.card = 2 ∧
        ∀ set, set ∈ ran.2.1.domain.live ↔
          set ∈ lost ∨ ∃ name, ran.2.1.sets.get? name = some set := by
  intro trace tapped ran
  have hfew : tapped.2.1.domain.layer.sets < 2 ^ 32 := by decide +kernel
  have hok : ran.1 = .ok 6 := by decide +kernel
  obtain ⟨⟨lost, hcard, -, hlive⟩, -⟩ :=
    run_strands 20 trace Host.initial hfew (hok ▸ rfl : ran.1.isOk = true)
  exact ⟨hfew, hok, lost, hcard.trans (by decide +kernel), hlive⟩

/-- The set of all valuations loses its handle to the empty set, and stays. -/
theorem run_not_tidy :
    ∃ trace, parse "a = top\na = bottom".toList = .ok trace ∧
      let ran := run Explicit.operations trace (.new (.new 20)) Host.initial
      ran.1 = .ok 2 ∧ ⟨1⟩ ∈ ran.2.1.domain.live ∧
        ∀ name, ran.2.1.sets.get? name ≠ some ⟨1⟩ := by
  let trace : Trace := [⟨1, .define "a" .top⟩, ⟨2, .define "a" .bottom⟩]
  have hentries : (run Explicit.operations trace (.new (.new 20)) Host.initial).2.1.sets.entries =
      [("a", ⟨2⟩)] := by
    decide +kernel
  refine ⟨trace, by decide +kernel, by decide +kernel, by decide +kernel, fun name hname => ?_⟩
  rw [Table.get?, hentries, List.find?_singleton] at hname
  split at hname <;> cases hname

end LayeredSets.Trace
