import LayeredSets.Proofs.Chain.Live
import LayeredSets.Proofs.Chain.Transparent

/-!
# Points as the explicit domain makes them

A domain that makes points out of constraints gives the point that the explicit domain itself would
give, or the same error. In the end the explicit domain has the new set and those that it had
before, or only the latter if the point is refused, whichever of its values is at fault.
-/

namespace LayeredSets

open Action

/-! ## Points and their refusal -/

/-- The first value that does not fit is the one that is named. -/
theorem Ideal.checkPoint_eq_find (widths : List UInt32) (values : List UInt64) :
    checkPoint widths values =
      match (values.zip widths).find? fun p => 2 ^ p.2.toNat ≤ p.1.toNat with
      | some (value, width) => .error (.valueOutOfRange value width)
      | none => .ok () := by
  induction widths generalizing values with
  | nil => simp [checkPoint]
  | cons width widths ih =>
    cases values with
    | nil => simp [checkPoint]
    | cons value values =>
      rw [checkPoint, checkValue, List.zip_cons_cons, List.find?_cons]
      by_cases hfits : value.toNat < 2 ^ width.toNat
      · simp only [hfits, if_true, not_le.mpr hfits, decide_false]
        exact ih values
      · simp only [hfits, if_false, not_lt.mp hfits, decide_true]
        rfl

namespace Explicit

/-- Why there is no such point: there are too few or too many values, or else the first value that
does not fit. -/
def refusal (d : Explicit) (values : List UInt64) : Option DomainError :=
  if values.length = d.vars.length then
    ((values.zip (d.vars.map (·.bits))).find? fun p => 2 ^ p.2.toNat ≤ p.1.toNat).map
      fun p => .valueOutOfRange p.1 p.2
  else some (.arityMismatch d.vars.length values.length)

/-- The point is made or refused as the explicit domain `d` itself would do it, and no other set
comes, goes or changes. -/
structure MakesPoint (d : Explicit) (values : List UInt64) (outcome : Except DomainError SetId)
    (after : Explicit) : Prop where
  refused : ∀ e, d.refusal values = some e →
    d.apply (.singleton values) = .error e ∧ outcome = .error e ∧ after.live = d.live
  made : d.refusal values = none → ∃ native there set r,
    d.apply (.singleton values) = .ok (native, there) ∧ there.region native = .ok r ∧
      outcome = .ok set ∧ after.region set = .ok r ∧
      denote (d.vars.map (·.bits)) r = {values.map UInt64.toNat} ∧
      set ∉ d.live ∧ after.live = insert set d.live
  vars : after.vars = d.vars
  kept : ∀ old ∈ d.live, after.region old = d.region old

end Explicit

namespace Represents

variable {d d' : Explicit} {m : Ideal}

/-- The region of a point, unless there is a reason to refuse it. -/
theorem made_singleton (h : Represents d m) (values : List UInt64) :
    match d.refusal values with
    | some e => d.made (.singleton values) = .error e
    | none => ∃ r, d.made (.singleton values) = .ok r ∧
        denote (d.vars.map (·.bits)) r = {values.map UInt64.toNat} := by
  have hpoint := h.made_point values
  rw [Ideal.made, Ideal.checkPoint_eq_find, ← h.widths, List.length_map] at hpoint
  rw [Explicit.refusal]
  by_cases hlength : values.length = d.vars.length
  · simp only [hlength, ne_eq, not_true_eq_false, if_false] at hpoint
    simp only [hlength, if_true]
    cases hfind : (values.zip (d.vars.map (·.bits))).find? fun p => 2 ^ p.2.toNat ≤ p.1.toNat with
    | some p =>
      rw [hfind] at hpoint
      exact hpoint.error_left
    | none =>
      rw [hfind] at hpoint
      obtain ⟨r, hr, -, hdenote⟩ := hpoint.ok_left
      exact ⟨r, hr, hdenote⟩
  · simp only [ne_eq, hlength, not_false_eq_true, if_true] at hpoint
    simp only [hlength, if_false]
    exact hpoint.error_left

theorem makesPoint (h : Represents d m) (hd : d.Tidy) {values : List UInt64}
    {outcome : Except DomainError SetId} (hfollows : d.Follows (.singleton values) outcome d') :
    d.MakesPoint values outcome d' := by
  have hpoint := h.made_singleton values
  obtain ⟨hfresh, hlive⟩ := hfollows.live_eq hd (.inl rfl)
  refine ⟨fun e he => ?_, fun hnone => ?_, hfollows.vars_of_ne (by simp), ?_⟩
  · rw [he] at hpoint
    simp only [Explicit.Follows, hpoint] at hfollows
    exact ⟨by rw [Explicit.apply_set, hpoint]; rfl, hfollows.1, hfollows.2.live⟩
  · rw [hnone] at hpoint
    obtain ⟨r, hr, hdenote⟩ := hpoint
    simp only [Explicit.Follows, hr] at hfollows
    obtain ⟨set, rfl, -, hsimilar⟩ := hfollows
    refine ⟨(d.store r).1, (d.store r).2, set, r, by rw [Explicit.apply_set, hr]; rfl, ?_, rfl, ?_,
      hdenote, hfresh set (by simp [held]), ?_⟩
    · simp [Explicit.region, Explicit.store]
    · simp [Explicit.region, hsimilar.sets, Explicit.get?_keep]
    · rw [hlive, held, Finset.coe_singleton, Set.union_singleton]
  · rintro old ⟨r, hr⟩
    simp only [Explicit.region, hr, hfollows.get?_of_live hd hr (by rintro ⟨⟩)]

end Represents

/-! ## Domains that rest on an explicit domain -/

namespace Rests

variable {σ : Type} {ops : Operations σ} {bottom : σ → Bottom} {Good : σ → Prop}

/-- As long as handles last, calls lead from good states to good ones. -/
theorem good_run (h : Rests ops bottom Good) (requests : List Request) {s : σ} (hs : Good s)
    (host : Host) (hleft : ¬ (bottom (ops.run requests s host).2.1).Spent) :
    Good (ops.run requests s host).2.1 :=
  Operations.run_ends h.keeps (fun _ call _ hs => (h.step call hs).mono fun _ _ => And.left)
    requests hs host hleft

theorem makesPoint (h : Rests ops bottom Good) {s : σ} (hs : Good s) (values : List UInt64) :
    Ends (fun s => (bottom s).Spent) (ops.step (.singleton values)) s fun outcome t =>
      (bottom s).inner.MakesPoint values outcome (bottom t).inner := by
  have hsound := h.sound s hs
  obtain ⟨m, hm⟩ := hsound.represents
  exact (h.step (.singleton values) hs).mono fun _ _ hend => hm.makesPoint hsound.tidy hend.2

end Rests

namespace Domain

/-- After any calls on a fresh explicit domain with points made out of constraints, as long as it
does not run out of handles, a point is made or refused as the explicit domain below would do it
itself. One set more is there if it is made and none if it is refused, and all others are as
before. -/
theorem withPoints_makesPoint (limit : UInt32) (requests : List Request) (values : List UInt64)
    (host : Host) :
    let d := (explicit limit).withPoints
    let ops := Points.operations Explicit.operations
    let before := (ops.run requests ⟨⟨[]⟩, Explicit.new limit⟩ host).2
    let point := ops.step (.singleton values) before.1 before.2
    (∀ t ∈ d.transcripts (requests ++ [⟨.singleton values⟩]) host,
      t.sets < 2 ^ 32 ∧ (2 ^ 32 - 64 < limit.toNat → t.vars < 2 ^ 32)) →
        before.1.inner.MakesPoint values point.1 point.2.1.inner := by
  intro d ops before point hroom
  obtain ⟨bottom, Good, hrests, hgood, hstart, hmem, hinner⟩ :
      ∃ (bottom : d.shape.Tapped → Bottom) (Good : d.shape.Tapped → Prop),
        Rests d.shape.tapped bottom Good ∧ Good (d.shape.tap d.state) ∧
          bottom (d.shape.tap d.state) = ⟨[], Explicit.new limit⟩ ∧
            (∀ t, (bottom t).layer ∈ d.shape.transcripts t) ∧
              ∀ t, (bottom t).inner = (d.shape.untap t).inner :=
    exists_rests_bottom limit [.points]
  let tapped := (d.shape.tapped.run requests (d.shape.tap d.state) host).2
  have hbefore : before = (d.shape.untap tapped.1, tapped.2) := by
    have hrun := d.shape.carries_untap.run requests (d.shape.tap d.state) host
    rw [Shape.untap_tap] at hrun
    exact congrArg (·.2) hrun
  have hpoint : point =
      let made := d.shape.tapped.step (.singleton values) tapped.1 tapped.2
      (made.1, d.shape.untap made.2.1, made.2.2) := by
    have hstep := d.shape.carries_untap.step (.singleton values) tapped.1 tapped.2
    simp only [point, hbefore]
    exact hstep
  have hleft := hrests.not_spent (requests ++ [⟨.singleton values⟩]) hstart host (hroom _ (hmem _))
  rw [Operations.run_append] at hleft
  have hgood' : Good tapped.1 := hrests.good_run requests hgood host fun hspent =>
    hleft ((hrests.keeps _ _).keeps _ tapped.2 hspent)
  have hend := hrests.makesPoint hgood' values tapped.2 hleft
  simp only [hinner] at hend
  rw [hbefore, hpoint]
  exact hend

/-- A point is made beside two other sets, and the second value of the next one is too wide. -/
theorem withPoints_makesPoint_sample :
    let requests : List Request :=
      [⟨.declare "x" 2⟩, ⟨.declare "y" 1⟩, ⟨.varEqConst ⟨0⟩ 3⟩, ⟨.complement ⟨1⟩⟩]
    let d := (explicit 20).withPoints
    let ops := Points.operations Explicit.operations
    let before := (ops.run requests ⟨⟨[]⟩, Explicit.new 20⟩ Host.initial).2
    let point values := ops.step (.singleton values) before.1 before.2
    (∀ values ∈ [[2, 1], [2, 2]], ∀ t ∈ d.transcripts (requests ++ [⟨.singleton values⟩])
      Host.initial, t.sets < 2 ^ 32 ∧ (2 ^ 32 - 64 < (20 : UInt32).toNat → t.vars < 2 ^ 32)) ∧
    (point [2, 1]).1 = .ok ⟨7⟩ ∧ (point [2, 2]).1 = .error (.valueOutOfRange 2 1) ∧
      ∀ values ∈ [[2, 1], [2, 2]],
        before.1.inner.MakesPoint values (point values).1 (point values).2.1.inner := by
  intro requests d ops before point
  have hroom : ∀ values ∈ [[2, 1], [2, 2]], ∀ t ∈ d.transcripts
      (requests ++ [⟨.singleton values⟩]) Host.initial,
        t.sets < 2 ^ 32 ∧ (2 ^ 32 - 64 < (20 : UInt32).toNat → t.vars < 2 ^ 32) := by
    decide +kernel
  exact ⟨hroom, by decide +kernel, by decide +kernel, fun values hvalues =>
    withPoints_makesPoint 20 requests values Host.initial (hroom values hvalues)⟩

end Domain
end LayeredSets
