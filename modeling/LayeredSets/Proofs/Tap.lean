import LayeredSets.Proofs.Layer.Transport
import LayeredSets.Proofs.Packed.Transport

/-!
# Taps

A tap sits between a domain and its caller and writes down every call with what the caller gets
back. A tapped domain has a tap on each of the domains it is made of. Taps change nothing else, so
what they write down is what the domains of the plain one are asked and answer.
-/

namespace LayeredSets

/-- A call, what came of it, and the host as the caller finds it afterwards. -/
structure Event where
  request : Request
  outcome : Outcome
  host : Host

abbrev Transcript : Type := List Event

namespace Transcript

def outcomes (t : Transcript) : List Outcome := t.map (·.outcome)

/-- How many sets were made. -/
def sets (t : Transcript) : Nat := (issuedSets t.outcomes).length

/-- How many variables were declared. -/
def vars (t : Transcript) : Nat :=
  t.outcomes.countP fun
    | .ok (.var _) => true
    | _ => false

end Transcript

namespace Tap

variable {σ : Type}

def step (inner : Operations σ) {k : Answer} (call : Call k) : Act (Atop Transcript σ) k.Value :=
  fun s host =>
    let (outcome, domain, host) := inner.step call s.inner host
    (outcome, ⟨s.layer ++ [⟨⟨call⟩, outcome.map k.reply, host⟩], domain⟩, host)

def operations (inner : Operations σ) : Operations (Atop Transcript σ) where
  step := step inner
  describe s := inner.describe s.inner
  dispose s host := inner.dispose s.inner host

theorem carries (inner : Operations σ) : (operations inner).Carries (·.inner) inner where
  step _ _ _ := rfl
  describe _ := rfl
  dispose _ _ := rfl

instance keeps_step {I : σ → Host → Prop} (inner : Operations σ) {k : Answer} (call : Call k)
    [h : Action.Keeps I (inner.step call)] :
    Action.Keeps (fun s : Atop Transcript σ => I s.inner) (step inner call) :=
  ⟨fun s host hs => h.keeps s.inner host hs⟩

/-- What a tap writes down is what its caller asks and gets. -/
theorem layer_run (inner : Operations σ) (requests : List Request) (s : Atop Transcript σ)
    (host : Host) :
    let whole := (operations inner).run requests s host
    whole.2.1.layer.map (fun e => (e.request, e.outcome)) =
      s.layer.map (fun e => (e.request, e.outcome)) ++ requests.zip whole.1 := by
  induction requests generalizing s host with
  | nil => simp [Operations.run]
  | cons request requests ih =>
    intro whole
    have hrest := ih ((operations inner).respond request s host).2.1
      ((operations inner).respond request s host).2.2
    refine hrest.trans ?_
    change _ = s.layer.map _ ++ (request, _) :: requests.zip _
    rw [List.append_cons]
    congr 1
    simp [Operations.respond, operations, step]

end Tap

namespace Shape

/-- The states of a domain that is tapped throughout. -/
def Tapped : Shape → Type
  | explicit => Atop Transcript Explicit
  | smt => Atop Transcript Smt
  | observed inner => Atop Transcript (Atop Observer inner.Tapped)
  | equalities inner => Atop Transcript (Atop Equalities inner.Tapped)
  | points inner => Atop Transcript (Atop Points inner.Tapped)
  | packed first further => Atop Transcript (Packed (first.Tapped ⊕ further.Tapped))

def tapped : (shape : Shape) → Operations shape.Tapped
  | explicit => Tap.operations Explicit.operations
  | smt => Tap.operations Smt.operations
  | observed inner => Tap.operations (Observed.operations inner.tapped)
  | equalities inner => Tap.operations (Equalities.operations inner.tapped)
  | points inner => Tap.operations (Points.operations inner.tapped)
  | packed first further => Tap.operations (Packed.operations (first.tapped.sum further.tapped))

/-- Set fresh taps. -/
def tap : (shape : Shape) → shape.State → shape.Tapped
  | explicit, s => ⟨[], s⟩
  | smt, s => ⟨[], s⟩
  | observed inner, s => ⟨[], s.map inner.tap⟩
  | equalities inner, s => ⟨[], s.map inner.tap⟩
  | points inner, s => ⟨[], s.map inner.tap⟩
  | packed first further, s => ⟨[], s.map (Sum.map first.tap further.tap)⟩

/-- Take the taps away. -/
def untap : (shape : Shape) → shape.Tapped → shape.State
  | explicit, s => s.inner
  | smt, s => s.inner
  | observed inner, s => s.inner.map inner.untap
  | equalities inner, s => s.inner.map inner.untap
  | points inner, s => s.inner.map inner.untap
  | packed first further, s => s.inner.map (Sum.map first.untap further.untap)

/-- What the taps have written down, the outermost first. -/
def transcripts : (shape : Shape) → shape.Tapped → List Transcript
  | explicit, s => [s.layer]
  | smt, s => [s.layer]
  | observed inner, s => s.layer :: inner.transcripts s.inner.inner
  | equalities inner, s => s.layer :: inner.transcripts s.inner.inner
  | points inner, s => s.layer :: inner.transcripts s.inner.inner
  | packed first further, s =>
    s.layer :: s.inner.packs.flatMap fun p =>
      match p.domain with
      | .inl d => first.transcripts d
      | .inr d => further.transcripts d

theorem untap_tap (shape : Shape) (s : shape.State) : shape.untap (shape.tap s) = s := by
  induction shape with
  | explicit | smt => rfl
  | observed inner ih | equalities inner ih | points inner ih =>
    simp only [tap, untap, Atop.map, ih]
    rfl
  | packed first further ih ih' =>
    have hsum : Sum.map first.untap further.untap ∘ Sum.map first.tap further.tap = id := by
      funext d
      cases d <;> simp [ih, ih']
    have hpack : Pack.map (Sum.map first.untap further.untap) ∘
        Pack.map (Sum.map first.tap further.tap) = id := by
      funext p
      simp only [Function.comp_apply, Pack.map, id_eq]
      rw [← Function.comp_apply (f := Sum.map first.untap further.untap), hsum]
      rfl
    have hblank (blank : Except DomainError (first.State ⊕ further.State)) :
        (blank.map (Sum.map first.tap further.tap)).map (Sum.map first.untap further.untap) =
          blank := by
      cases blank with
      | error e => rfl
      | ok d =>
        simp only [Except.map]
        rw [← Function.comp_apply (f := Sum.map first.untap further.untap), hsum]
        rfl
    simp only [tap, untap, Packed.map, List.map_map, hpack, List.map_id, hblank]
    rfl

/-- Taps make no difference to the calls. -/
theorem carries_untap (shape : Shape) : shape.tapped.Carries shape.untap shape.operations := by
  have throughTap {σ τ : Type} {a : Operations σ} {b : Operations τ} {f : σ → τ}
      (h : a.Carries f b) : (Tap.operations a).Carries (fun s => f s.inner) b :=
    { step := fun call s host => h.step call s.inner host
      describe := fun s => h.describe s.inner
      dispose := fun s host => h.dispose s.inner host }
  induction shape with
  | explicit => exact Tap.carries _
  | smt => exact Tap.carries _
  | observed inner ih => exact throughTap (Observed.carries ih)
  | equalities inner ih => exact throughTap (Equalities.carries ih)
  | points inner ih => exact throughTap (Points.carries ih)
  | packed first further ih ih' => exact throughTap (Packed.carries (Operations.carries_sum ih ih'))

end Shape

/-- The observer has become `o'` by being told of each event, once and in order, the host being
left as the observer left it. -/
inductive Observer.Told (o : Observer) : Transcript → Observer → Prop
  | nil : Told o [] o
  | snoc {heard : Transcript} {o' o'' : Observer} {event : Event} {host : Host}
    (before : Told o heard o')
    (told : o'.observe event.request.call event.outcome host = (o'', event.host)) :
    Told o (heard ++ [event]) o''

/-- Each observer of a chain has been told of exactly what the tap above it has written down. -/
def Shape.ObserversTold : (shape : Shape) → shape.State → shape.Tapped → Prop
  | explicit, _, _ => True
  | smt, _, _ => True
  | observed inner, s, t =>
    s.layer.Told t.layer t.inner.layer ∧ inner.ObserversTold s.inner t.inner.inner
  | equalities inner, s, t => inner.ObserversTold s.inner t.inner.inner
  | points inner, s, t => inner.ObserversTold s.inner t.inner.inner
  | packed _ _, _, _ => True

namespace Shape

theorem observersTold_tap (shape : Shape) (s : shape.State) :
    shape.ObserversTold s (shape.tap s) := by
  induction shape with
  | explicit | smt | packed => trivial
  | observed inner ih => exact ⟨.nil, ih s.inner⟩
  | equalities inner ih | points inner ih => exact ih s.inner

/-- One step: a call on an observed domain is told once, and what the layers do further down is told
to the observers there. -/
theorem keeps_observersTold (shape : Shape) (s : shape.State) (k : Answer) (call : Call k) :
    Action.Keeps (fun t _ => shape.ObserversTold s t) (shape.tapped.step call) := by
  induction shape generalizing k with
  | explicit | smt | packed => exact ⟨fun _ _ _ => trivial⟩
  | observed inner ih =>
    refine ⟨fun t host h => ⟨h.1.snoc rfl, (ih s.inner k call).keeps t.inner.inner host h.2⟩⟩
  | equalities inner ih =>
    have := ih s.inner
    exact Tap.keeps_step (I := fun (t : Atop Equalities inner.Tapped) _ =>
      inner.ObserversTold s.inner t.inner) (Equalities.operations inner.tapped) call
      (h := Equalities.keeps_step (I := fun t _ => inner.ObserversTold s.inner t) inner.tapped call)
  | points inner ih =>
    have := ih s.inner
    exact Tap.keeps_step (I := fun (t : Atop Points inner.Tapped) _ =>
      inner.ObserversTold s.inner t.inner) (Points.operations inner.tapped) call
      (h := Points.keeps_step (I := fun t _ => inner.ObserversTold s.inner t) inner.tapped call)

end Shape

theorem Operations.run_keeps {σ : Type} {ops : Operations σ} {I : σ → Host → Prop}
    (h : ∀ (k : Answer) (call : Call k), Action.Keeps I (ops.step call)) (requests : List Request)
    (s : σ) (host : Host) (hs : I s host) :
    I (ops.run requests s host).2.1 (ops.run requests s host).2.2 := by
  induction requests generalizing s host with
  | nil => exact hs
  | cons request requests ih => exact ih _ _ ((h _ request.call).keeps s host hs)

/-- What holds after each call unless something has been spent, holds after a run unless something
has been spent. -/
theorem Operations.run_ends {σ : Type} {ops : Operations σ} {Spent Good : σ → Prop}
    (hkeeps : ∀ (k : Answer) (call : Call k), Action.Keeps (fun s _ => Spent s) (ops.step call))
    (hstep : ∀ (k : Answer) (call : Call k) (s : σ), Good s →
      Action.Ends Spent (ops.step call) s fun _ t => Good t) (requests : List Request) {s : σ}
    (hs : Good s) (host : Host) (hleft : ¬ Spent (ops.run requests s host).2.1) :
    Good (ops.run requests s host).2.1 := by
  induction requests generalizing s host with
  | nil => exact hs
  | cons request requests ih =>
    have hrest := run_keeps hkeeps requests (ops.respond request s host).2.1
      (ops.respond request s host).2.2
    have hfirst := hstep _ request.call s hs host fun hspent => hleft (hrest hspent)
    exact ih hfirst _ hleft

namespace Domain

/-- The state at the end of a run of the tapped domain. -/
def tappedEnd (d : Domain) (requests : List Request) (host : Host) : d.shape.Tapped :=
  (d.shape.tapped.run requests (d.shape.tap d.state) host).2.1

/-- What is asked and answered in a run, of the domain itself and of each one it is made of. -/
def transcripts (d : Domain) (requests : List Request) (host : Host) : List Transcript :=
  d.shape.transcripts (d.tappedEnd requests host)

theorem run_eq_tapped (d : Domain) (requests : List Request) (host : Host) :
    let tapped := d.shape.tapped.run requests (d.shape.tap d.state) host
    d.run requests host = (tapped.1, ⟨d.shape, d.shape.untap tapped.2.1⟩, tapped.2.2) := by
  intro tapped
  have h := d.shape.carries_untap.run requests (d.shape.tap d.state) host
  rw [Shape.untap_tap] at h
  simp only [run, h, tapped]

/-- The outermost tap has written down the run itself. -/
theorem head_transcripts (d : Domain) (requests : List Request) (host : Host) :
    (d.transcripts requests host).head?.map (·.map fun e => (e.request, e.outcome)) =
      some (requests.zip (d.run requests host).1) := by
  rw [run_eq_tapped]
  obtain ⟨shape, state⟩ := d
  cases shape <;> exact congrArg some (Tap.layer_run _ requests _ host)

theorem observersTold_run (d : Domain) (requests : List Request) (host : Host) :
    d.shape.ObserversTold d.state (d.tappedEnd requests host) :=
  Operations.run_keeps (fun k call => d.shape.keeps_observersTold d.state k call) requests _ host
    (d.shape.observersTold_tap d.state)

end Domain

end LayeredSets
