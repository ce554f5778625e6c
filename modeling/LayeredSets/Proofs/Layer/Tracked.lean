import LayeredSets.Proofs.Chain.Released
import LayeredSets.Proofs.Layer.Classes

/-!
# What is remembered has been proved

Over a domain that refuses sets once they have been released, remembered equalities are exact: two
different sets are known to be equal if and only if neither has been released and answers of the
domain connect them. By induction on the calls: an answer joins what it connects, and a release
takes one set away.
-/

namespace LayeredSets

/-- Is it a question about two sets? -/
def Request.isComparison : Request → Bool
  | ⟨.equal _ _⟩ | ⟨.subset _ _⟩ => true
  | _ => false

namespace Transcript

/-- The domain has answered that the two sets are equal. -/
def Proven (t : Transcript) (a b : SetId) : Prop :=
  ∃ event ∈ t, event.request = ⟨.equal a b⟩ ∧ event.outcome = .ok (.bool true)

/-- Answers of the domain connect the two sets, in a chain that may pass through any sets. -/
def Connected (t : Transcript) : SetId → SetId → Prop := Relation.EqvGen t.Proven

/-- How many questions there were about two sets. -/
def comparisons (t : Transcript) : Nat := t.countP (·.request.isComparison)

section

variable {t : Transcript} {event : Event}

theorem comparisons_snoc :
    comparisons (t ++ [event]) = t.comparisons + event.request.isComparison.toNat := by
  cases h : event.request.isComparison <;> simp [comparisons, h]

theorem proven_snoc (a b : SetId) : Proven (t ++ [event]) a b ↔
    t.Proven a b ∨ (event.request = ⟨.equal a b⟩ ∧ event.outcome = .ok (.bool true)) := by
  simp [Proven, or_and_right, exists_or]

end

end Transcript

open Relation (EqvGen)

/-- One more pair connects what the two sides of it are connected to. -/
theorem eqvGen_insert {α : Type} {r r' : α → α → Prop} {a b : α}
    (h : ∀ x y, r' x y ↔ r x y ∨ (x = a ∧ y = b)) (x y : α) :
    EqvGen r' x y ↔ EqvGen r x y ∨ (EqvGen r x a ∧ EqvGen r b y) ∨
      (EqvGen r x b ∧ EqvGen r a y) := by
  have hold {x y : α} : EqvGen r x y → EqvGen r' x y :=
    EqvGen.mono (fun x y hxy => (h x y).mpr (.inl hxy)) x y
  have hnew : EqvGen r' a b := .rel a b ((h a b).mpr (.inr ⟨rfl, rfl⟩))
  have trans {x y z : α} : EqvGen r x y → EqvGen r y z → EqvGen r x z := .trans x y z
  have symm {x y : α} : EqvGen r x y → EqvGen r y x := .symm x y
  constructor
  · intro hxy
    induction hxy with
    | rel x y hxy =>
      rcases (h x y).mp hxy with hxy | ⟨rfl, rfl⟩
      · exact .inl (.rel x y hxy)
      · exact .inr (.inl ⟨.refl _, .refl _⟩)
    | refl x => exact .inl (.refl x)
    | symm x y _ ih => grind
    | trans x y z _ _ ih ih' => grind
  · rintro (hxy | ⟨hxa, hby⟩ | ⟨hxb, hay⟩)
    · exact hold hxy
    · exact ((hold hxa).trans _ _ _ hnew).trans _ _ _ (hold hby)
    · exact ((hold hxb).trans _ _ _ (hnew.symm _ _)).trans _ _ _ (hold hay)

namespace Equalities

/-! ## One call -/

/-- Is the answer to a question known? -/
def knows (e : Equalities) : Request → Bool
  | ⟨.equal a b⟩ | ⟨.subset a b⟩ => a != b && e.knownEqual a b
  | _ => false

/-- What is learned from the outcome of a call on the domain below. -/
def learn (e : Equalities) : Request → Outcome → Equalities
  | ⟨.equal a b⟩, .ok (.bool true) => if a = b then e else e.merge a b
  | ⟨.release a⟩, .ok .unit => e.forget a
  | _, _ => e

theorem askUnlessKnown_apply {σ : Type} (a b : SetId) (ask : Act (Atop Equalities σ) Bool)
    (s : Atop Equalities σ) (host : Host) :
    askUnlessKnown a b ask s host =
      if a != b && s.layer.knownEqual a b then (.ok true, ⟨s.layer.countShortcut, s.inner⟩, host)
      else ask s host := by
  rw [askUnlessKnown, Action.bind_apply]
  simp only [Action.get]
  split <;> rfl

variable {σ : Type} (inner : Operations σ)

/-- A question whose answer is known does not reach the domain below. -/
theorem respond_known {request : Request} {s : Atop Equalities σ}
    (h : s.layer.knows request = true) (host : Host) :
    (operations inner).respond request s host =
      (.ok (.bool true), ⟨s.layer.countShortcut, s.inner⟩, host) := by
  obtain ⟨call⟩ := request
  cases call with
  | equal a b | subset a b =>
    rw [Operations.respond]
    simp only [operations, step, askUnlessKnown_apply, if_pos (show (a != b && _) = true from h)]
    rfl
  | _ => cases h

theorem step_asked {k : Answer} {call : Call k} {s : Atop Equalities σ}
    (h : s.layer.knows ⟨call⟩ = false) (host : Host) :
    step inner call s host =
      let asked := inner.step call s.inner host
      (asked.1, ⟨s.layer.learn ⟨call⟩ (asked.1.map k.reply), asked.2.1⟩, asked.2.2) := by
  cases call with
  | equal a b =>
    have hknown : ¬ (a != b && s.layer.knownEqual a b) = true := Bool.eq_false_iff.mp h
    rw [step, askUnlessKnown_apply, if_neg hknown, Action.bind_apply, Atop.below_apply]
    rcases inner.step (.equal a b) s.inner host with ⟨e | _ | _, inner', host'⟩
    · rfl
    · rfl
    · by_cases hab : a = b <;> simp [hab, learn, Except.map, Answer.reply, Action.bind_apply]
  | subset a b =>
    have hknown : ¬ (a != b && s.layer.knownEqual a b) = true := Bool.eq_false_iff.mp h
    rw [step, askUnlessKnown_apply, if_neg hknown]
    rfl
  | release a =>
    rw [step, Action.bind_apply, Atop.below_apply]
    rcases inner.step (.release a) s.inner host with ⟨e | ⟨⟩, inner', host'⟩ <;> rfl
  | _ => rfl

/-- Every other call is put to the domain below, and something may be learned from what comes
back. -/
theorem respond_asked {request : Request} {s : Atop Equalities σ}
    (h : s.layer.knows request = false) (host : Host) :
    (operations inner).respond request s host =
      let asked := inner.respond request s.inner host
      (asked.1, ⟨s.layer.learn request asked.1, asked.2.1⟩, asked.2.2) := by
  have hstep := step_asked inner h host
  rw [Operations.respond, operations]
  simp only [hstep]
  rfl

/-! ## Histories -/

/-- Two different sets are known to be equal if and only if neither has been released and answers
connect them. -/
structure Tracks (e : Equalities) (t : Transcript) : Prop where
  mirrors : e.Mirrors
  paired : e.Paired
  known_iff : ∀ a b, a ≠ b → (e.Known a b ↔ ¬ t.Released a ∧ ¬ t.Released b ∧ t.Connected a b)

theorem tracks_none : none.Tracks [] where
  mirrors := mirrors_none
  paired := paired_none
  known_iff a b hab := by
    have hproven (x y : SetId) : ¬ Transcript.Proven [] x y := by simp [Transcript.Proven]
    have hconnected {x y : SetId} (h : Transcript.Connected [] x y) : x = y := by
      induction h with
      | rel x y h => exact absurd h (hproven x y)
      | refl x => rfl
      | symm x y _ ih => exact ih.symm
      | trans x y z _ _ ih ih' => exact ih.trans ih'
    constructor
    · rintro (rfl | ⟨n, ⟨⟩, -⟩)
      exact absurd rfl hab
    · exact fun h => absurd (hconnected h.2.2) hab

namespace Tracks

variable {e : Equalities} {t : Transcript}

theorem countShortcut (h : e.Tracks t) : e.countShortcut.Tracks t :=
  ⟨h.mirrors.countShortcut, h.paired, h.known_iff⟩

/-- Of a set that has not been released, all that is connected to it and left is known. -/
theorem known_live (h : e.Tracks t) {a b : SetId} (hb : ¬ t.Released b) :
    e.Known a b ↔ ¬ t.Released a ∧ t.Connected a b := by
  by_cases hab : a = b
  · subst hab
    exact ⟨fun _ => ⟨hb, .refl a⟩, fun _ => .refl e a⟩
  · rw [h.known_iff a b hab]
    tauto

/-- An answer that two sets are equal joins what is connected to them. -/
theorem proven (h : e.Tracks t) {a b : SetId} (ha : ¬ t.Released a) (hb : ¬ t.Released b)
    (host : Host) :
    Tracks (if a = b then e else e.merge a b) (t ++ [⟨⟨.equal a b⟩, .ok (.bool true), host⟩]) := by
  have hreleased (c : SetId) :
      Transcript.Released (t ++ [⟨⟨.equal a b⟩, .ok (.bool true), host⟩]) c ↔ t.Released c := by
    simp [Transcript.released_snoc]
  have hconnected : ∀ x y,
      Transcript.Connected (t ++ [⟨⟨.equal a b⟩, .ok (.bool true), host⟩]) x y ↔
        t.Connected x y ∨ (t.Connected x a ∧ t.Connected b y) ∨
          (t.Connected x b ∧ t.Connected a y) := by
    refine eqvGen_insert fun x y => ?_
    rw [Transcript.proven_snoc]
    simp [eq_comm]
  have symm {x y : SetId} : t.Connected x y → t.Connected y x := .symm x y
  have trans {x y z : SetId} : t.Connected x y → t.Connected y z → t.Connected x z := .trans x y z
  split
  · next hab =>
    subst hab
    refine ⟨h.mirrors, h.paired, fun x y hxy => ?_⟩
    rw [hreleased, hreleased, hconnected, h.known_iff x y hxy]
    grind
  · next hab =>
    refine ⟨h.mirrors.merge a b, h.mirrors.paired_merge h.paired hab, fun x y hxy => ?_⟩
    have hcomm (x y : SetId) : e.Known x y ↔ e.Known y x := ⟨.symm, .symm⟩
    rw [hreleased, hreleased, hconnected, h.mirrors.known_merge, h.known_iff x y hxy, hcomm b y,
      hcomm a y]
    simp only [h.known_live ha, h.known_live hb]
    grind

/-- A release takes one set away. -/
theorem released (h : e.Tracks t) (a : SetId) (host : Host) :
    Tracks (e.forget a) (t ++ [⟨⟨.release a⟩, .ok .unit, host⟩]) := by
  have hconnected :
      Transcript.Connected (t ++ [⟨⟨.release a⟩, .ok .unit, host⟩]) = t.Connected := by
    refine congrArg EqvGen (funext fun x => funext fun y => propext ?_)
    simp [Transcript.proven_snoc]
  refine ⟨h.mirrors.forget a, h.mirrors.paired_forget h.paired a, fun x y hxy => ?_⟩
  rw [h.mirrors.known_forget, h.known_iff x y hxy, hconnected, Transcript.released_snoc,
    Transcript.released_snoc]
  simp only [Request.mk.injEq, true_and]
  grind

/-- Other outcomes teach nothing. -/
theorem unchanged (h : e.Tracks t) {event : Event}
    (hproven : ∀ a b, event.request = ⟨.equal a b⟩ → event.outcome ≠ .ok (.bool true))
    (hreleased : ∀ a, event.request = ⟨.release a⟩ → event.outcome ≠ .ok .unit) :
    e.Tracks (t ++ [event]) := by
  have hsame (a : SetId) : Transcript.Released (t ++ [event]) a ↔ t.Released a := by
    rw [Transcript.released_snoc]
    exact or_iff_left fun h => hreleased a h.1 h.2
  have hconnected : Transcript.Connected (t ++ [event]) = t.Connected := by
    refine congrArg EqvGen (funext fun x => funext fun y => propext ?_)
    rw [Transcript.proven_snoc]
    exact or_iff_left fun h => hproven x y h.1 h.2
  refine ⟨h.mirrors, h.paired, fun x y hxy => ?_⟩
  rw [hsame, hsame, hconnected, h.known_iff x y hxy]

/-- One step: what is learned from an event keeps up with the history. -/
theorem learn (h : e.Tracks t) {event : Event}
    (hrefuses : Transcript.RefusesReleased (t ++ [event])) :
    Tracks (e.learn event.request event.outcome) (t ++ [event]) := by
  obtain ⟨request, outcome, host⟩ := event
  have hrefused (a : SetId) (ha : a ∈ request.sets) (hreleased : t.Released a) :
      ∃ e, outcome = .error e := hrefuses t _ [] rfl a ha hreleased
  simp only [Equalities.learn]
  split
  · next a b =>
    refine h.proven (fun ha => ?_) (fun hb => ?_) host
    · obtain ⟨e, ⟨⟩⟩ := hrefused a (by simp [Request.sets, Call.sets]) ha
    · obtain ⟨e, ⟨⟩⟩ := hrefused b (by simp [Request.sets, Call.sets]) hb
  · next a => exact h.released a host
  · next hproven hreleased => exact h.unchanged hproven hreleased

theorem classOf_released (h : e.Tracks t) {a : SetId} (ha : t.Released a) :
    e.classOf.get? a = .none := by
  by_contra hsome
  obtain ⟨n, hn⟩ := Option.ne_none_iff_exists'.mp hsome
  obtain ⟨sets, hsets, hmem⟩ := (h.mirrors.classOf_eq_some_iff a n).mp hn
  -- a class has a second member, to which a released set would be known to be equal
  have hnodup : sets.Nodup := members_eq hsets ▸ h.mirrors.nodup n
  have hlength := h.paired n sets hsets
  obtain rfl | ⟨b, hb, hne⟩ := (hnodup.ne_singleton_iff a).mp (by rintro rfl; simp at hlength)
  · cases hmem
  have hclass := (h.mirrors.classOf_eq_some_iff b n).mpr ⟨sets, hsets, hb⟩
  exact ((h.known_iff a b hne.symm).mp (.inr ⟨n, hn, hclass⟩)).1 ha

end Tracks

/-! ## Runs -/

variable {s : Atop Equalities (Atop Transcript σ)}

/-- One call, which the tap below the layer hears of unless its answer is known. -/
theorem Tracks.respond (hs : s.layer.Tracks s.inner.layer) (request : Request) (host : Host) :
    let after := ((operations (Tap.operations inner)).respond request s host).2.1
    after.inner.layer.RefusesReleased → after.layer.Tracks after.inner.layer := by
  intro after hrefuses
  cases hknows : s.layer.knows request with
  | true =>
    have hafter : after = ⟨s.layer.countShortcut, s.inner⟩ :=
      congrArg (·.2.1) (respond_known (Tap.operations inner) hknows host)
    rw [hafter]
    exact hs.countShortcut
  | false =>
    have hafter : after = _ := congrArg (·.2.1) (respond_asked (Tap.operations inner) hknows host)
    rw [hafter] at hrefuses ⊢
    exact hs.learn hrefuses

/-- The tap only ever adds to what it has written down. -/
theorem transcript_prefix_run (requests : List Request) (s : Atop Equalities (Atop Transcript σ))
    (host : Host) :
    s.inner.layer <+:
      ((operations (Tap.operations inner)).run requests s host).2.1.inner.layer := by
  have (k : Answer) (call : Call k) :
      Action.Keeps (fun t _ => s.inner.layer <+: t.layer) ((Tap.operations inner).step call) :=
    ⟨fun _ _ h => h.trans (List.prefix_append _ _)⟩
  have hstep (k : Answer) (call : Call k) :
      Action.Keeps (fun t _ => s.inner.layer <+: t.inner.layer)
        ((operations (Tap.operations inner)).step call) :=
    keeps_step (I := fun t _ => s.inner.layer <+: t.layer) (Tap.operations inner) call
  exact Operations.run_keeps hstep requests s host List.prefix_rfl

theorem Tracks.run (hs : s.layer.Tracks s.inner.layer) (requests : List Request) (host : Host) :
    let after := ((operations (Tap.operations inner)).run requests s host).2.1
    after.inner.layer.RefusesReleased → after.layer.Tracks after.inner.layer := by
  induction requests generalizing s host with
  | nil => exact fun _ => hs
  | cons request requests ih =>
    intro after hrefuses
    obtain ⟨more, hmore⟩ := transcript_prefix_run inner requests
      ((operations (Tap.operations inner)).respond request s host).2.1 _
    refine ih (hs.respond inner request host ?_) _ hrefuses
    exact Transcript.RefusesReleased.of_append (hmore ▸ hrefuses)

/-! ## Questions that were saved -/

theorem shortcuts_classFor (e : Equalities) (a : SetId) :
    (e.classFor a).2.shortcuts = e.shortcuts := by
  unfold classFor
  split <;> rfl

theorem shortcuts_merge (e : Equalities) (a b : SetId) :
    (e.merge a b).shortcuts = e.shortcuts := by
  rw [← e.shortcuts_classFor a, ← (e.classFor a).2.shortcuts_classFor b]
  simp only [merge]
  split
  · rfl
  · split <;> rfl

theorem shortcuts_forget (e : Equalities) (a : SetId) : (e.forget a).shortcuts = e.shortcuts := by
  unfold forget
  grind

theorem shortcuts_learn (e : Equalities) (request : Request) (outcome : Outcome) :
    (e.learn request outcome).shortcuts = e.shortcuts := by
  unfold learn
  split
  · split
    · rfl
    · exact e.shortcuts_merge _ _
  · exact e.shortcuts_forget _
  · rfl

theorem isComparison_of_knows {e : Equalities} {request : Request}
    (h : e.knows request = true) : request.isComparison = true := by
  unfold knows at h
  split at h
  · rfl
  · rfl
  · cases h

/-- A question about two sets is heard below or counted here. -/
theorem comparisons_respond (request : Request) (s : Atop Equalities (Atop Transcript σ))
    (host : Host) :
    let after := ((operations (Tap.operations inner)).respond request s host).2.1
    after.inner.layer.comparisons + after.layer.shortcuts =
      s.inner.layer.comparisons + s.layer.shortcuts + request.isComparison.toNat := by
  intro after
  cases hknows : s.layer.knows request with
  | true =>
    have hafter : after = ⟨s.layer.countShortcut, s.inner⟩ :=
      congrArg (·.2.1) (respond_known (Tap.operations inner) hknows host)
    rw [hafter, isComparison_of_knows hknows]
    rfl
  | false =>
    have hafter : after = _ := congrArg (·.2.1) (respond_asked (Tap.operations inner) hknows host)
    rw [hafter]
    simp only [shortcuts_learn]
    change Transcript.comparisons (_ ++ [_]) + _ = _
    rw [Transcript.comparisons_snoc, Nat.add_right_comm]

theorem comparisons_run (requests : List Request) (s : Atop Equalities (Atop Transcript σ))
    (host : Host) :
    let after := ((operations (Tap.operations inner)).run requests s host).2.1
    after.inner.layer.comparisons + after.layer.shortcuts =
      s.inner.layer.comparisons + s.layer.shortcuts + requests.countP (·.isComparison) := by
  induction requests generalizing s host with
  | nil => rfl
  | cons request requests ih =>
    have hfirst := comparisons_respond inner request s host
    have hrest := ih ((operations (Tap.operations inner)).respond request s host).2.1
      ((operations (Tap.operations inner)).respond request s host).2.2
    rw [hfirst] at hrest
    refine hrest.trans ?_
    rw [List.countP_cons]
    cases request.isComparison <;> grind

/-! ## From the start -/

/-- What the domain below is asked and answers, in a run that starts with nothing remembered. -/
def heard (requests : List Request) (s : σ) (host : Host) : Transcript :=
  ((operations (Tap.operations inner)).run requests ⟨none, [], s⟩ host).2.1.inner.layer

/-- The explicit domain refuses what has been released, as long as its handles last. -/
theorem refusesReleased_explicit (limit : UInt32) (requests : List Request) (host : Host)
    (h : (heard Explicit.operations requests (Explicit.new limit) host).sets < 2 ^ 32) :
    (heard Explicit.operations requests (Explicit.new limit) host).RefusesReleased := by
  have hstep (k : Answer) (call : Call k) :
      Action.Keeps (fun t _ => Bottom.Full t.inner ∨ Bottom.Careful t.inner)
        ((operations (Tap.operations Explicit.operations)).step call) :=
    keeps_step (I := fun t _ => Bottom.Full t ∨ Bottom.Careful t)
      (Tap.operations Explicit.operations) (h := fun _ call => Bottom.keeps_careful call) call
  have hkept := Operations.run_keeps hstep requests ⟨none, [], Explicit.new limit⟩ host
    (.inr (.new limit))
  exact (hkept.resolve_left (not_le.mpr h)).refuses

/-- Remembered equalities are exact over a domain that refuses what has been released, such as one
that refuses unknown handles and never issues one again. After any calls, two different sets are
known to be equal if and only if neither has been released and answers of the domain connect them.
The two tables tell of the same classes, of two sets or more, and of no released set. Questions about
two sets were asked below, but for those counted as shortcuts. -/
theorem run_remembers (requests : List Request) (s : σ) (host : Host) :
    let e := ((operations inner).run requests ⟨none, s⟩ host).2.1.layer
    let t := heard inner requests s host
    t.RefusesReleased →
      (∀ a b, a ≠ b →
        (e.knownEqual a b = true ↔ ¬ t.Released a ∧ ¬ t.Released b ∧ t.Connected a b)) ∧
      (∀ a n, e.classOf.get? a = some n ↔ ∃ sets, e.classes.get? n = some sets ∧ a ∈ sets) ∧
      (∀ n sets, e.classes.get? n = some sets → sets.Nodup ∧ 2 ≤ sets.length) ∧
      (∀ a, t.Released a →
        e.classOf.get? a = .none ∧ ∀ n sets, e.classes.get? n = some sets → a ∉ sets) ∧
      requests.countP (·.isComparison) = t.comparisons + e.shortcuts := by
  intro e t hrefuses
  -- the tap makes no difference to what the layer remembers
  have hlayer : ((operations (Tap.operations inner)).run requests ⟨none, [], s⟩ host).2.1.layer = e :=
    congrArg (·.2.1.layer) ((carries (Tap.carries inner)).run requests ⟨none, [], s⟩ host).symm
  have htracks : e.Tracks t := hlayer ▸
    Tracks.run inner (s := ⟨none, [], s⟩) tracks_none requests host hrefuses
  have hcount : t.comparisons + e.shortcuts = 0 + requests.countP (·.isComparison) :=
    hlayer ▸ comparisons_run inner requests ⟨none, [], s⟩ host
  refine ⟨fun a b hab => knownEqual_iff.trans (htracks.known_iff a b hab),
    htracks.mirrors.classOf_eq_some_iff, fun n sets hsets => ⟨?_, htracks.paired n sets hsets⟩,
    fun a ha => ?_, ?_⟩
  · exact members_eq hsets ▸ htracks.mirrors.nodup n
  · have hnone := htracks.classOf_released ha
    refine ⟨hnone, fun n sets hsets hmem => ?_⟩
    cases hnone.symm.trans ((htracks.mirrors.classOf_eq_some_iff a n).mpr ⟨sets, hsets, hmem⟩)
  · exact (hcount.trans (Nat.zero_add _)).symm

/-- Three sets are found equal in two questions. The one in the middle is released, and the other
two are known to be equal still. -/
theorem run_remembers_sample :
    let requests : List Request :=
      [⟨.top⟩, ⟨.top⟩, ⟨.top⟩, ⟨.equal ⟨1⟩ ⟨2⟩⟩, ⟨.equal ⟨2⟩ ⟨3⟩⟩, ⟨.release ⟨2⟩⟩, ⟨.subset ⟨3⟩ ⟨1⟩⟩,
        ⟨.equal ⟨1⟩ ⟨2⟩⟩]
    let t := heard Explicit.operations requests (Explicit.new 4) Host.initial
    let e := ((operations Explicit.operations).run requests ⟨none, Explicit.new 4⟩
      Host.initial).2.1.layer
    t.RefusesReleased ∧ e.knownEqual ⟨1⟩ ⟨3⟩ = true ∧ e.shortcuts = 1 ∧
      ¬ t.Released ⟨1⟩ ∧ ¬ t.Released ⟨3⟩ ∧ t.Connected ⟨1⟩ ⟨3⟩ := by
  intro requests t e
  have hrefuses : t.RefusesReleased :=
    refusesReleased_explicit 4 requests Host.initial (by decide +kernel)
  have hknown : e.knownEqual ⟨1⟩ ⟨3⟩ = true := by decide +kernel
  have hiff := (run_remembers Explicit.operations requests (Explicit.new 4) Host.initial
    hrefuses).1 ⟨1⟩ ⟨3⟩ (by decide)
  exact ⟨hrefuses, hknown, by decide +kernel, hiff.mp hknown⟩

end Equalities

end LayeredSets
