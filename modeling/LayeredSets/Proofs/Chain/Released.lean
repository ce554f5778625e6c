import LayeredSets.Proofs.Chain.Bottom
import LayeredSets.Proofs.Chain.Rename

/-!
# Released sets

A domain that refuses the handles of sets it has released, and never issues one of them again,
refuses them for good. So does the explicit domain as long as its handles last.
-/

namespace LayeredSets

namespace Transcript

def Released (t : Transcript) (a : SetId) : Prop :=
  ∃ event ∈ t, event.request = ⟨.release a⟩ ∧ event.outcome = .ok .unit

/-- Every call that names a set which was released before has failed. -/
def RefusesReleased (t : Transcript) : Prop :=
  ∀ (before : Transcript) (event : Event) (after : Transcript), t = before ++ event :: after →
    ∀ a ∈ event.request.sets, before.Released a → ∃ e, event.outcome = .error e

variable {t : Transcript} {event : Event}

theorem released_snoc (a : SetId) : Released (t ++ [event]) a ↔
    t.Released a ∨ (event.request = ⟨.release a⟩ ∧ event.outcome = .ok .unit) := by
  simp [Released, or_and_right, exists_or]

theorem RefusesReleased.of_append {more : Transcript} (h : RefusesReleased (t ++ more)) :
    t.RefusesReleased := by
  rintro before event after rfl
  exact h before event (after ++ more) (by simp)

theorem RefusesReleased.snoc (h : t.RefusesReleased)
    (hevent : ∀ a ∈ event.request.sets, t.Released a → ∃ e, event.outcome = .error e) :
    RefusesReleased (t ++ [event]) := by
  intro before later after heq
  rcases List.eq_nil_or_concat' after with rfl | ⟨after, last, rfl⟩
  · obtain ⟨rfl, hlast⟩ := List.append_inj' heq rfl
    obtain rfl := List.singleton_inj.mp hlast
    exact hevent
  · rw [← List.cons_append, ← List.append_assoc] at heq
    exact h before later after (List.append_inj_left' heq rfl)

end Transcript

namespace Explicit

/-- A call that names a set which is not there fails. -/
theorem apply_error_of_dead {d : Explicit} {a : SetId} (ha : d.sets.get? a = none) {k : Answer}
    {call : Call k} (hcall : a ∈ call.sets) : ∃ e, d.apply call = .error e := by
  have hregion : d.region a = .error (.unknownSet a) := by rw [region, ha]
  -- of two sets, the first may be missing as well
  have hpair {α : Type} {b c : SetId} (hbc : a = b ∨ a = c)
      (f : Region → Region → Except DomainError α) :
      ∃ e, (do let x ← d.region b; let y ← d.region c; f x y) = .error e := by
    rcases hbc with rfl | rfl
    · exact ⟨_, by rw [hregion]; rfl⟩
    · cases hb : d.region b with
      | error e => exact ⟨e, rfl⟩
      | ok x => exact ⟨_, by rw [hregion]; rfl⟩
  cases call with
  | declare | top | bottom | varEqConst | varEqVar | singleton => cases hcall
  | union b c | intersect b c | difference b c | equal b c | subset b c =>
    exact hpair (by simpa [Call.sets] using hcall) _
  | complement b | isEmpty b | release b =>
    obtain rfl := List.mem_singleton.mp hcall
    exact ⟨_, by rw [apply, hregion]; rfl⟩
  | «exists» b var =>
    obtain rfl := List.mem_singleton.mp hcall
    cases hbits : d.bitsOf var with
    | error e => exact ⟨e, by rw [apply, hbits]; rfl⟩
    | ok bits => exact ⟨_, by rw [apply, hbits, hregion]; rfl⟩

/-- The handle has been used up, and no set is kept under it. -/
def Dead (d : Explicit) (a : SetId) : Prop :=
  d.sets.get? a = none ∧ a.index.toNat ≤ d.issued.toNat

theorem Similar.dead {d d' : Explicit} (h : Similar d d') {a : SetId} (ha : d.Dead a) : d'.Dead a :=
  ⟨(h.sets a).trans ha.1, ha.2.trans h.issued⟩

/-- A dead handle stays dead. -/
theorem Follows.dead {d d' : Explicit} {k : Answer} {call : Call k}
    {outcome : Except DomainError k.Value} (h : d.Follows call outcome d') {a : SetId}
    (ha : d.Dead a) : d'.Dead a := by
  cases outcome with
  | error e => exact h.similar_of_error.dead ha
  | ok value =>
    obtain ⟨after, hmakes, hsimilar⟩ := h.makes
    refine hsimilar.dead ?_
    cases hmakes with
    | declared hdeclare =>
      obtain ⟨-, -, -, rfl⟩ := declare_eq_ok hdeclare
      exact ha
    | @made _ set =>
      have hne : a ≠ set := by
        rintro rfl
        exact absurd ha.2 (not_le.mpr h.fresh)
      exact ⟨by rw [get?_keep, if_neg hne, ha.1], ha.2.trans h.fresh.le⟩
    | answered => exact ha
    | released => exact ⟨by rw [get?_drop, ha.1, ite_self], ha.2⟩

/-- The handle of a set that has been released is dead. -/
theorem Follows.of_released {d d' : Explicit} {a : SetId} (hd : d.Tidy)
    (h : d.Follows (.release a) (.ok ()) d') : d'.Dead a := by
  obtain ⟨after, hmakes, hsimilar⟩ := h.makes
  refine hsimilar.dead ?_
  cases hmakes with
  | @released _ r hregion => exact ⟨by rw [get?_drop, if_pos rfl], hd a r (get?_of_region hregion)⟩

end Explicit

namespace Bottom

/-- What has been released is refused, and will be. -/
structure Careful (s : Bottom) : Prop where
  sound : s.Sound
  dead : ∀ a, s.layer.Released a → s.inner.Dead a
  refuses : s.layer.RefusesReleased

theorem Careful.new (limit : UInt32) : Careful ⟨[], Explicit.new limit⟩ where
  sound := .new limit
  dead a := by simp [Transcript.Released]
  refuses := by
    intro before event after h
    cases before <;> cases h

/-- One step, as long as the handles last. -/
theorem keeps_careful {k : Answer} (call : Call k) :
    Action.Keeps (fun s _ => Full s ∨ Careful s) (Tap.step Explicit.operations call) := by
  refine ⟨fun s host h => ?_⟩
  rcases h with hfull | hcareful
  · exact .inl ((keeps_full call).keeps s host hfull)
  by_cases hfull : Full (Tap.step Explicit.operations call s host).2.1
  · exact .inl hfull
  obtain ⟨hsound, hfollows⟩ := Bottom.step call hcareful.sound host hfull
  refine .inr ⟨hsound, fun a hreleased => ?_, hcareful.refuses.snoc fun a ha hreleased => ?_⟩
  · rcases (Transcript.released_snoc a).mp hreleased with hreleased | ⟨hrequest, houtcome⟩
    · exact hfollows.dead (hcareful.dead a hreleased)
    · cases hrequest
      have hok : (Tap.step Explicit.operations (.release a) s host).1 = .ok () := by
        cases hstep : (Tap.step Explicit.operations (.release a) s host).1 with
        | error e => cases houtcome.symm.trans (congrArg (Except.map Answer.unit.reply) hstep)
        | ok => rfl
      rw [hok] at hfollows
      exact hfollows.of_released hcareful.sound.tidy
  · obtain ⟨e, he⟩ := Explicit.apply_error_of_dead (hcareful.dead a hreleased).1 ha
    exact ⟨e, by simp [he, Except.map]⟩

end Bottom
end LayeredSets
