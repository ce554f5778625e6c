import LayeredSets.Proofs.Chain.Bottom
import LayeredSets.Proofs.Layer.Classes

/-!
# Domains that rest on an explicit domain

A domain rests on the explicit domain at its bottom if all its calls follow the explicit ones. Taps,
observers and remembered equalities keep this up: an equality that is remembered holds in the
explicit domain, since sets never change between their making and their release.
-/

namespace LayeredSets

open Action

variable {σ : Type}

/-- The bottom is reached through its own calls only, and from good states, all calls follow those
of the explicit domain there, unless its handles have run out. -/
structure Rests (ops : Operations σ) (bottom : σ → Bottom) (Good : σ → Prop) : Prop where
  preserves : ∀ {P : Bottom → Prop},
    (∀ (k : Answer) (call : Call k), Keeps (fun s _ => P s) (Tap.step Explicit.operations call)) →
      ∀ (k : Answer) (call : Call k), Keeps (fun s _ => P (bottom s)) (ops.step call)
  sound : ∀ s, Good s → (bottom s).Sound
  step : ∀ {k : Answer} (call : Call k) {s : σ}, Good s →
    Ends (fun s => (bottom s).Spent) (ops.step call) s fun outcome t =>
      Good t ∧ (bottom s).inner.Follows call outcome (bottom t).inner

namespace Rests

variable {ops : Operations σ} {bottom : σ → Bottom} {Good : σ → Prop}

theorem keeps (h : Rests ops bottom Good) (k : Answer) (call : Call k) :
    Keeps (fun s _ => (bottom s).Spent) (ops.step call) :=
  h.preserves (fun _ call => Bottom.keeps_spent call) k call

theorem explicit : Rests (Tap.operations Explicit.operations) id Bottom.Sound where
  preserves h := h
  sound _ h := h
  step call _ h := (Bottom.step call h).widen fun _ => .inl

theorem tapped (h : Rests ops bottom Good) :
    Rests (Tap.operations ops) (fun s => bottom s.inner) (fun s => Good s.inner) where
  preserves {P} hP k call :=
    Tap.keeps_step (I := fun s _ => P (bottom s)) ops call (h := h.preserves hP k call)
  sound s hs := h.sound s.inner hs
  step call _ hs host hroom := h.step call hs host hroom

theorem observed (h : Rests ops bottom Good) :
    Rests (Observed.operations ops) (fun s => bottom s.inner) (fun s => Good s.inner) where
  preserves {P} hP _ call :=
    Observed.keeps_step (J := fun s => P (bottom s)) ops call (h := h.preserves hP)
  sound s hs := h.sound s.inner hs
  step call _ hs host hroom := h.step call hs host hroom

end Rests

/-- An action of the domain below leaves the layer alone. -/
theorem Action.Ends.below {ω α : Type} {I : σ → Prop} {x : Act σ α} {s : Atop ω σ}
    {Q : Except DomainError α → σ → Prop} (h : Ends I x s.inner Q) :
    Ends (fun s : Atop ω σ => I s.inner) (Atop.below x) s fun outcome t =>
      t.layer = s.layer ∧ Q outcome t.inner := by
  intro host hroom
  exact ⟨rfl, h host hroom⟩

/-! ## Remembered equalities -/

namespace Equalities

/-- Different sets that are known to be equal are live, and they hold the same valuations. -/
structure HoldIn (e : Equalities) (d : Explicit) : Prop where
  mirrors : e.Mirrors
  same : ∀ a b, a ≠ b → e.Known a b → ∃ r, d.sets.get? a = some r ∧ d.sets.get? b = some r

theorem HoldIn.new (d : Explicit) : none.HoldIn d where
  mirrors := mirrors_none
  same a b hab hknown := by
    obtain rfl | ⟨n, ⟨⟩, -⟩ := hknown
    exact absurd rfl hab

theorem HoldIn.countShortcut {e : Equalities} {d : Explicit} (h : e.HoldIn d) :
    e.countShortcut.HoldIn d :=
  ⟨h.mirrors.countShortcut, h.same⟩

/-- A set holds the valuations of each set that it is known to be equal to. -/
theorem HoldIn.get?_known {e : Equalities} {d : Explicit} (h : e.HoldIn d) {a x : SetId}
    {r : Region} (ha : d.sets.get? a = some r) (hx : e.Known x a) : d.sets.get? x = some r := by
  by_cases hxa : x = a
  · exact hxa ▸ ha
  · obtain ⟨r', hx', ha'⟩ := h.same x a hxa hx
    rw [ha] at ha'
    rw [hx', ha']

theorem HoldIn.merge {e : Equalities} {d : Explicit} (h : e.HoldIn d) {a b : SetId} {r : Region}
    (ha : d.sets.get? a = some r) (hb : d.sets.get? b = some r) : (e.merge a b).HoldIn d where
  mirrors := h.mirrors.merge a b
  same x y hxy hknown := by
    rcases (h.mirrors.known_merge a b x y).mp hknown with hold | ⟨hxa, hby⟩ | ⟨hxb, hay⟩
    · exact h.same x y hxy hold
    · exact ⟨r, h.get?_known ha hxa, h.get?_known hb hby.symm⟩
    · exact ⟨r, h.get?_known hb hxb, h.get?_known ha hay.symm⟩

theorem HoldIn.follows {e : Equalities} {d d' : Explicit} (h : e.HoldIn d) (hd : d.Tidy)
    {k : Answer} {call : Call k} {outcome : Except DomainError k.Value}
    (hstep : d.Follows call outcome d') (hk : k ≠ .unit) : e.HoldIn d' := by
  have hkept (set : SetId) : (⟨call⟩ : Request) ≠ ⟨.release set⟩ := by
    intro heq
    exact hk (congrArg Request.kind heq)
  refine ⟨h.mirrors, fun a b hab hknown => ?_⟩
  obtain ⟨r, ha, hb⟩ := h.same a b hab hknown
  exact ⟨r, hstep.get?_of_live hd ha (hkept a), hstep.get?_of_live hd hb (hkept b)⟩

/-- What is known of the sets that are left holds after a release. -/
theorem HoldIn.forget {e : Equalities} {d d' : Explicit} (h : e.HoldIn d) (hd : d.Tidy)
    {set : SetId} {outcome : Except DomainError Unit}
    (hstep : d.Follows (.release set) outcome d') : (e.forget set).HoldIn d' where
  mirrors := h.mirrors.forget set
  same a b hab hknown := by
    obtain ⟨hold, ha, hb⟩ := ((h.mirrors.known_forget set a b).mp hknown).resolve_left hab
    obtain ⟨r, hga, hgb⟩ := h.same a b hab hold
    have hkept {x : SetId} (hx : x ≠ set) : (⟨.release set⟩ : Request) ≠ ⟨.release x⟩ := by
      simpa using Ne.symm hx
    exact ⟨r, hstep.get?_of_live hd hga (hkept ha), hstep.get?_of_live hd hgb (hkept hb)⟩

/-- A failed release leaves all sets as they are. -/
theorem HoldIn.similar {e : Equalities} {d d' : Explicit} (h : e.HoldIn d)
    (hsimilar : d.Similar d') : e.HoldIn d' where
  mirrors := h.mirrors
  same a b hab hknown := by
    obtain ⟨r, ha, hb⟩ := h.same a b hab hknown
    exact ⟨r, by rw [hsimilar.sets, ha], by rw [hsimilar.sets, hb]⟩

end Equalities

namespace Explicit

/-- Questions about two sets with one region are answered with yes. -/
theorem answer_equal_of_same {d : Explicit} {a b : SetId} {r : Region}
    (ha : d.sets.get? a = some r) (hb : d.sets.get? b = some r) :
    d.answer (.equal a b) = .ok true := by
  simp [answer, region, ha, hb, bind, Except.bind, pure, Except.pure]

theorem answer_subset_of_same {d : Explicit} {m : Ideal} (h : Represents d m) {a b : SetId}
    {r : Region} (ha : d.sets.get? a = some r) (hb : d.sets.get? b = some r) :
    d.answer (.subset a b) = .ok true := by
  have hr := h.canonical a r ha
  have hdiff : r.diff r = .empty := (denote_subset_iff hr hr).mp Set.Subset.rfl
  simp [answer, region, ha, hb, hdiff, bind, Except.bind, pure, Except.pure]

theorem get?_of_answer_equal {d : Explicit} {a b : SetId} (h : d.answer (.equal a b) = .ok true) :
    ∃ r, d.sets.get? a = some r ∧ d.sets.get? b = some r := by
  simp only [answer, region] at h
  cases ha : d.sets.get? a with
  | none => simp [ha, bind, Except.bind] at h
  | some r =>
    cases hb : d.sets.get? b with
    | none => simp [ha, hb, bind, Except.bind] at h
    | some r' =>
      simp only [ha, hb, bind, Except.bind, pure, Except.pure, Except.ok.injEq, beq_iff_eq] at h
      exact ⟨r, rfl, by rw [h]⟩

end Explicit

namespace Rests

variable {ops : Operations σ} {bottom : σ → Bottom} {Good : σ → Prop}

instance {ω : Type} (bottom : σ → Bottom) (f : ω → ω) :
    Keeps (fun (s : Atop ω σ) _ => (bottom s.inner).Spent) (Atop.modifyLayer f : Act _ Unit) :=
  ⟨fun _ _ h => h⟩

/-- A call that is passed on as it is. -/
theorem passed (h : Rests ops bottom Good) {ω : Type} {k : Answer} (call : Call k)
    {s : Atop ω σ} (hs : Good s.inner) :
    Ends (fun s : Atop ω σ => (bottom s.inner).Spent) (Atop.below (ops.step call)) s
      fun outcome t => t.layer = s.layer ∧ Good t.inner ∧
        (bottom s.inner).inner.Follows call outcome (bottom t.inner).inner := by
  exact (h.step call hs).below

/-- A question whose answer is known is answered as the explicit domain would answer it, and
others are passed on. -/
theorem askUnlessKnown {call : Call .bool} {a b : SetId}
    {ask : Act (Atop Equalities σ) Bool} {s : Atop Equalities σ} (hs : Good s.inner)
    (htrue : s.layer.HoldIn (bottom s.inner).inner)
    (hknown : ∀ r, (bottom s.inner).inner.sets.get? a = some r →
      (bottom s.inner).inner.sets.get? b = some r →
        (bottom s.inner).inner.answer call = .ok true)
    (hask : Ends (fun s : Atop Equalities σ => (bottom s.inner).Spent) ask s fun outcome t =>
      (Good t.inner ∧ t.layer.HoldIn (bottom t.inner).inner) ∧
        (bottom s.inner).inner.Follows call outcome (bottom t.inner).inner) :
    Ends (fun s : Atop Equalities σ => (bottom s.inner).Spent)
      (Equalities.askUnlessKnown a b ask) s fun outcome t =>
        (Good t.inner ∧ t.layer.HoldIn (bottom t.inner).inner) ∧
          (bottom s.inner).inner.Follows call outcome (bottom t.inner).inner := by
  refine Ends.get_bind ?_
  split
  · next hcond =>
    rw [Bool.and_eq_true, bne_iff_ne, Equalities.knownEqual_iff] at hcond
    obtain ⟨r, ha, hb⟩ := htrue.same a b hcond.1 hcond.2
    intro host _
    refine ⟨⟨hs, htrue.countShortcut⟩, Explicit.follows_bool_iff.mpr ⟨?_, .refl _⟩⟩
    exact (hknown r ha hb).symm
  · exact hask

theorem equalities (h : Rests ops bottom Good) :
    Rests (Equalities.operations ops) (fun s => bottom s.inner)
      (fun s => Good s.inner ∧ s.layer.HoldIn (bottom s.inner).inner) where
  preserves {P} hP _ call :=
    Equalities.keeps_step (I := fun s _ => P (bottom s)) ops call (h := h.preserves hP)
  sound s hs := h.sound s.inner hs.1
  step {k} call s hs := by
    obtain ⟨hgood, htrue⟩ := hs
    have htidy := (h.sound _ hgood).tidy
    have pass {k : Answer} (call : Call k) (hk : k ≠ .unit) :
        Ends (fun s : Atop Equalities σ => (bottom s.inner).Spent) (Atop.below (ops.step call)) s
          fun outcome t => (Good t.inner ∧ t.layer.HoldIn (bottom t.inner).inner) ∧
            (bottom s.inner).inner.Follows call outcome (bottom t.inner).inner := by
      refine (h.passed call hgood).mono fun outcome t ⟨hlayer, hgood', hfollows⟩ => ?_
      exact ⟨⟨hgood', hlayer ▸ htrue.follows htidy hfollows hk⟩, hfollows⟩
    cases call with
    | equal a b =>
      refine askUnlessKnown hgood htrue
        (fun r ha hb => Explicit.answer_equal_of_same ha hb) ?_
      refine (pass (.equal a b) (by simp)).bind ?_ fun e t ht => ht
      intro answer t ht
      split
      · next hmerge =>
        intro host _
        obtain ⟨⟨hgood', htrue'⟩, hfollows⟩ := ht
        obtain ⟨hanswer, hsimilar⟩ := Explicit.follows_bool_iff.mp hfollows
        obtain ⟨rfl, -⟩ := Bool.and_eq_true_iff.mp hmerge
        obtain ⟨r, ha, hb⟩ := Explicit.get?_of_answer_equal hanswer.symm
        rw [← hsimilar.sets] at ha hb
        exact ⟨⟨hgood', htrue'.merge ha hb⟩, hfollows⟩
      · exact Ends.pure ht
    | subset a b =>
      obtain ⟨m, hm⟩ := (h.sound _ hgood).represents
      exact askUnlessKnown hgood htrue
        (fun r ha hb => Explicit.answer_subset_of_same hm ha hb) (pass _ (by simp))
    | release set =>
      refine (h.passed (.release set) hgood).bind ?_ ?_
      · rintro ⟨⟩ t ⟨hlayer, hgood', hfollows⟩ host _
        rw [← hlayer] at htrue
        exact ⟨⟨hgood', htrue.forget htidy hfollows⟩, hfollows⟩
      · rintro e t ⟨hlayer, hgood', hfollows⟩
        exact ⟨⟨hgood', hlayer ▸ htrue.similar hfollows.similar_of_error⟩, hfollows⟩
    | _ => exact pass _ (by simp)

end Rests
end LayeredSets
