import LayeredSets.Proofs.Run
import LayeredSets.Proofs.Action
import LayeredSets.Domain.Chain

/-!
# Layers are natural in what is below them

If two domains do the same, as far as two relations tell, one of their states and one of hosts, then
so do domains with the same layer on top of them. In particular, if a map of states carries the
operations of one domain to those of another, then it also carries those of a layer on top of the
first to those of the same layer on top of the second.

A property of the domain below that none of its calls destroys is not destroyed by the calls on a
layer on top of it either, since the layer reaches that domain through its calls only.
-/

namespace LayeredSets

/-- The two domains do the same, as far as the relations tell. -/
structure Operations.Couples {σ τ : Type} (S : σ → τ → Prop) (H : Host → Host → Prop)
    (a : Operations σ) (b : Operations τ) : Prop where
  step : ∀ {k : Answer} (call : Call k), Action.Couples S H (a.step call) (b.step call)
  describe : ∀ s t, S s t → a.describe s = b.describe t
  dispose : ∀ s t, S s t → ∀ host host', H host host' → H (a.dispose s host) (b.dispose t host')

/-- The map carries all that the first domain does to what the second does. -/
structure Operations.Carries {σ τ : Type} (f : σ → τ) (a : Operations σ) (b : Operations τ) :
    Prop where
  step : ∀ {k : Answer} (call : Call k), Action.Carries f (a.step call) (b.step call)
  describe : ∀ s, b.describe (f s) = a.describe s
  dispose : ∀ s host, b.dispose (f s) host = a.dispose s host

theorem Operations.carries_iff {σ τ : Type} {f : σ → τ} {a : Operations σ} {b : Operations τ} :
    a.Carries f b ↔ a.Couples (f · = ·) (· = ·) b := by
  constructor
  · intro h
    refine ⟨fun call => Action.carries_iff.mp (h.step call), ?_, ?_⟩
    · rintro s _ rfl
      exact (h.describe s).symm
    · rintro s _ rfl host _ rfl
      exact (h.dispose s host).symm
  · intro h
    exact ⟨fun call => Action.carries_iff.mpr (h.step call), fun s => (h.describe s _ rfl).symm,
      fun s host => (h.dispose s _ rfl host _ rfl).symm⟩

namespace Atop

variable {ω σ τ : Type}

def map (f : σ → τ) (s : Atop ω σ) : Atop ω τ := ⟨s.layer, f s.inner⟩

/-- The layers are related, and so is what is below them. -/
def Related (L : ω → ω → Prop) (S : σ → τ → Prop) (s : Atop ω σ) (t : Atop ω τ) : Prop :=
  L s.layer t.layer ∧ S s.inner t.inner

theorem related_map (f : σ → τ) :
    Related (ω := ω) (· = ·) (f · = ·) = fun s t => map f s = t := by
  funext ⟨layer, s⟩ ⟨layer', t⟩
  simp [Related, map]

end Atop

namespace Action.Couples

variable {ε ω σ τ α : Type} {L : ω → ω → Prop} {S : σ → τ → Prop} {H : Host → Host → Prop}

theorem below {x : Action ε σ α} {y : Action ε τ α} (h : Couples S H x y) :
    Couples (Atop.Related L S) H (Atop.below x) (Atop.below y) := by
  intro s t hs host host' hhost
  obtain ⟨houtcome, hstate, hafter⟩ := h s.inner t.inner hs.2 host host' hhost
  exact ⟨houtcome, ⟨hs.1, hstate⟩, hafter⟩

theorem modifyLayer (g : ω → ω) :
    Couples (ε := ε) (Atop.Related (· = ·) S) H (Atop.modifyLayer g) (Atop.modifyLayer g) :=
  Couples.modify fun _ _ hs => ⟨congrArg g hs.1, hs.2⟩

end Action.Couples

section

variable {σ τ : Type} {S : σ → τ → Prop} {H : Host → Host → Prop} {a : Operations σ}
  {b : Operations τ}

open Action

/-! ## Runs -/

theorem Operations.Couples.respond (h : a.Couples S H b) (request : Request) {s : σ} {t : τ}
    (hs : S s t) {host host' : Host} (hhost : H host host') :
    (a.respond request s host).1 = (b.respond request t host').1 ∧
      S (a.respond request s host).2.1 (b.respond request t host').2.1 ∧
        H (a.respond request s host).2.2 (b.respond request t host').2.2 := by
  obtain ⟨houtcome, hafter⟩ := h.step request.call s t hs host host' hhost
  exact ⟨congrArg (Except.map request.kind.reply) houtcome, hafter⟩

theorem Operations.Carries.respond {f : σ → τ} (h : a.Carries f b) (request : Request) (s : σ)
    (host : Host) :
    b.respond request (f s) host = ((a.respond request s host).1,
      f (a.respond request s host).2.1, (a.respond request s host).2.2) := by
  simp only [Operations.respond, h.step request.call s host]

/-- Whole runs do the same. -/
theorem Operations.Couples.run (h : a.Couples S H b) (requests : List Request) {s : σ} {t : τ}
    (hs : S s t) {host host' : Host} (hhost : H host host') :
    (a.run requests s host).1 = (b.run requests t host').1 ∧
      S (a.run requests s host).2.1 (b.run requests t host').2.1 ∧
        H (a.run requests s host).2.2 (b.run requests t host').2.2 := by
  induction requests generalizing s t host host' with
  | nil => exact ⟨rfl, hs, hhost⟩
  | cons request requests ih =>
    obtain ⟨houtcome, hstate, hafter⟩ := h.respond request hs hhost
    obtain ⟨houtcomes, hend⟩ := ih hstate hafter
    exact ⟨congrArg₂ List.cons houtcome houtcomes, hend⟩

/-- Whole runs are carried along. -/
theorem Operations.Carries.run {f : σ → τ} (h : a.Carries f b) (requests : List Request) (s : σ)
    (host : Host) :
    b.run requests (f s) host =
      ((a.run requests s host).1, f (a.run requests s host).2.1, (a.run requests s host).2.2) := by
  obtain ⟨houtcomes, hstate, hhost⟩ := (Operations.carries_iff.mp h).run requests
    (rfl : f s = f s) (rfl : host = host)
  exact Prod.ext houtcomes.symm (Prod.ext hstate.symm hhost.symm)

/-! ## Observers -/

/-- Observers that are related do the same to related hosts. -/
structure Observer.Coupled (L : Observer → Observer → Prop) (H : Host → Host → Prop) : Prop where
  observe : ∀ {o o' : Observer}, L o o' → ∀ {k : Answer} (call : Call k) (outcome : Outcome)
    {host host' : Host}, H host host' →
      L (o.observe call outcome host).1 (o'.observe call outcome host').1 ∧
        H (o.observe call outcome host).2 (o'.observe call outcome host').2
  label : ∀ {o o' : Observer}, L o o' → o.label = o'.label
  dispose : ∀ {o o' : Observer}, L o o' → ∀ {host host' : Host}, H host host' →
    H (o.dispose host) (o'.dispose host')

theorem Observed.couples {L : Observer → Observer → Prop} (hobservers : Observer.Coupled L H)
    (h : a.Couples S H b) :
    (Observed.operations a).Couples (Atop.Related L S) H (Observed.operations b) where
  step {k} call s t hs host host' hhost := by
    obtain ⟨houtcome, hstate, hafter⟩ := h.step call s.inner t.inner hs.2 host host' hhost
    have hobserved := hobservers.observe hs.1 call
      ((b.step call t.inner host').1.map k.reply) hafter
    simp only [Observed.operations, Observed.step, houtcome]
    exact ⟨trivial, ⟨hobserved.1, hstate⟩, hobserved.2⟩
  describe s t hs := by
    simp only [Observed.operations, hobservers.label hs.1, h.describe s.inner t.inner hs.2]
  dispose s t hs host host' hhost :=
    hobservers.dispose hs.1 (h.dispose s.inner t.inner hs.2 host host' hhost)

theorem Observed.carries {f : σ → τ} (h : a.Carries f b) :
    (Observed.operations a).Carries (Atop.map f) (Observed.operations b) where
  step call s host := by
    simp only [Observed.operations, Observed.step, Atop.map, h.step call s.inner host]
  describe s := by simp only [Observed.operations, Atop.map, h.describe]
  dispose s host := by simp only [Observed.operations, Atop.map, h.dispose]

/-! ## Remembered equalities -/

theorem Equalities.couples_askUnlessKnown (x y : SetId) {ask : Act (Atop Equalities σ) Bool}
    {ask' : Act (Atop Equalities τ) Bool} (h : Couples (Atop.Related (· = ·) S) H ask ask') :
    Couples (Atop.Related (· = ·) S) H (askUnlessKnown x y ask) (askUnlessKnown x y ask') := by
  refine Couples.get_bind fun s t hs => ?_
  rw [hs.1]
  refine Couples.ite ?_ h
  exact (Couples.modifyLayer countShortcut).bind fun _ => Couples.pure true

theorem Equalities.couples (h : a.Couples S H b) :
    (Equalities.operations a).Couples (Atop.Related (· = ·) S) H (Equalities.operations b) where
  step {k} call := by
    cases call with
    | equal x y =>
      refine couples_askUnlessKnown x y ((h.step _).below.bind fun answer => ?_)
      split
      · exact (Couples.modifyLayer _).bind fun _ => Couples.pure answer
      · exact Couples.pure answer
    | subset x y => exact couples_askUnlessKnown x y (h.step _).below
    | release x => exact (h.step _).below.bind fun _ => Couples.modifyLayer _
    | _ => exact (h.step _).below
  describe s t hs := by simp only [Equalities.operations, h.describe s.inner t.inner hs.2]
  dispose s t hs := h.dispose s.inner t.inner hs.2

theorem Equalities.carries {f : σ → τ} (h : a.Carries f b) :
    (Equalities.operations a).Carries (Atop.map f) (Equalities.operations b) := by
  rw [Operations.carries_iff, ← Atop.related_map]
  exact couples (Operations.carries_iff.mp h)

/-! ## Points from constraints -/

theorem Points.couples_narrow (h : a.Couples S H b) (constraints : List (VarId × UInt64))
    (set : SetId) : Couples S H (narrow a constraints set) (narrow b constraints set) := by
  induction constraints generalizing set with
  | nil => exact Couples.pure set
  | cons constraint rest ih =>
    obtain ⟨var, value⟩ := constraint
    refine (h.step (.varEqConst var value)).outcome.bind fun o => ?_
    cases o with
    | error e => exact (h.step _).bind fun _ => Couples.fail e
    | ok made =>
      exact (h.step _).bind fun narrowed => (h.step _).bind fun _ => (h.step _).bind fun _ =>
        ih narrowed

theorem Points.couples (h : a.Couples S H b) :
    (Points.operations a).Couples (Atop.Related (· = ·) S) H (Points.operations b) where
  step {k} call := by
    cases call with
    | declare name bits =>
      exact (h.step _).below.bind fun var => (Couples.modifyLayer _).bind fun _ => Couples.pure var
    | singleton values =>
      refine Couples.get_bind fun s t hs => ?_
      rw [hs.1]
      exact Couples.ite (Couples.fail _) (Couples.below
        ((h.step .top).bind fun set => couples_narrow h _ set))
    | _ => exact (h.step _).below
  describe s t hs := by simp only [Points.operations, h.describe s.inner t.inner hs.2]
  dispose s t hs := h.dispose s.inner t.inner hs.2

theorem Points.carries {f : σ → τ} (h : a.Carries f b) :
    (Points.operations a).Carries (Atop.map f) (Points.operations b) := by
  rw [Operations.carries_iff, ← Atop.related_map]
  exact couples (Operations.carries_iff.mp h)

/-! ## Domains of two kinds -/

theorem Operations.couples_sum {σ' τ' : Type} {S' : σ' → τ' → Prop} {a' : Operations σ'}
    {b' : Operations τ'} (h : a.Couples S H b) (h' : a'.Couples S' H b') :
    (a.sum a').Couples (Sum.LiftRel S S') H (b.sum b') where
  step call s t hs host host' hhost := by
    cases hs with
    | inl hs =>
      obtain ⟨houtcome, hstate, hafter⟩ := h.step call _ _ hs host host' hhost
      exact ⟨houtcome, .inl hstate, hafter⟩
    | inr hs =>
      obtain ⟨houtcome, hstate, hafter⟩ := h'.step call _ _ hs host host' hhost
      exact ⟨houtcome, .inr hstate, hafter⟩
  describe s t hs := by
    cases hs with
    | inl hs => exact h.describe _ _ hs
    | inr hs => exact h'.describe _ _ hs
  dispose s t hs := by
    cases hs with
    | inl hs => exact h.dispose _ _ hs
    | inr hs => exact h'.dispose _ _ hs

theorem Operations.carries_sum {σ' τ' : Type} {f : σ → τ} {f' : σ' → τ'} {a' : Operations σ'}
    {b' : Operations τ'} (h : a.Carries f b) (h' : a'.Carries f' b') :
    (a.sum a').Carries (Sum.map f f') (b.sum b') := by
  have hlift : Sum.LiftRel (f · = ·) (f' · = ·) = (Sum.map f f' · = ·) := by
    funext s t
    cases s <;> cases t <;> simp
  rw [carries_iff, ← hlift]
  exact couples_sum (carries_iff.mp h) (carries_iff.mp h')

end

/-! ## Properties that are kept -/

section

open Action

variable {σ : Type} {I : σ → Host → Prop}

section

variable {ε ω α : Type} {x : Action ε σ α}

instance [hx : Keeps I x] : Keeps (fun s : Atop ω σ => I s.inner) (Atop.below x) :=
  ⟨fun s host h => hx.keeps s.inner host h⟩

instance (f : ω → ω) :
    Keeps (fun s : Atop ω σ => I s.inner) (Atop.modifyLayer (ε := ε) f) :=
  ⟨fun _ _ h => h⟩

end

variable (inner : Operations σ) [h : ∀ (k : Answer) (call : Call k), Keeps I (inner.step call)]

/-- An observer may change the host. -/
instance Observed.keeps_step {J : σ → Prop}
    [h : ∀ (k : Answer) (call : Call k), Keeps (fun s _ => J s) (inner.step call)] {k : Answer}
    (call : Call k) :
    Keeps (fun (s : Atop Observer σ) _ => J s.inner) (Observed.step inner call) :=
  ⟨fun s host hs => (h k call).keeps s.inner host hs⟩

instance Equalities.keeps_step {k : Answer} (call : Call k) :
    Keeps (fun s : Atop Equalities σ => I s.inner) (Equalities.step inner call) := by
  cases call <;> unfold Equalities.step
  all_goals try unfold askUnlessKnown
  all_goals infer_instance

/-- A constraint that could not be made ends the chain of intersections. -/
theorem Points.keeps_narrow_made (rest : List (VarId × UInt64)) (set : SetId)
    [∀ narrowed, Keeps I (Points.narrow inner rest narrowed)] (made : Except DomainError SetId) :
    Keeps I (match made with
      | .error e => do
        inner.step (.release set)
        Action.fail e
      | .ok made => do
        let narrowed ← inner.step (.intersect set made)
        inner.step (.release set)
        inner.step (.release made)
        narrow inner rest narrowed : Act σ SetId) := by
  cases made <;> infer_instance

instance Points.keeps_narrow (constraints : List (VarId × UInt64)) (set : SetId) :
    Keeps I (Points.narrow inner constraints set) := by
  induction constraints generalizing set with
  | nil =>
    unfold narrow
    infer_instance
  | cons constraint rest ih =>
    unfold narrow
    have := keeps_narrow_made (I := I) inner rest set
    infer_instance

instance Points.keeps_step {k : Answer} (call : Call k) :
    Keeps (fun s : Atop Points σ => I s.inner) (Points.step inner call) := by
  have (declared : List VarId) (values : List UInt64) :
      Keeps I (point inner declared values) := by
    unfold point
    infer_instance
  cases call <;> unfold Points.step <;> infer_instance

end

end LayeredSets
