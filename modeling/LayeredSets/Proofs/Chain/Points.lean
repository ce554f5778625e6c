import LayeredSets.Proofs.Chain.Rests

/-!
# Points made out of constraints

Intersecting one constraint for each variable leaves the one point that all of them allow, and the
first constraint that is refused is the one that the explicit domain would name. The sets made on
the way are gone at the end, so that a domain with this layer rests on its bottom too.
-/

namespace LayeredSets

open Action

/-! ## What the constraints leave -/

namespace Explicit

/-- What the constraints leave of a region, up to the first that is refused. -/
def narrowed (d : Explicit) (r : Region) : List (VarId × UInt64) → Except DomainError Region
  | [] => return r
  | (var, value) :: rest => do
    let made ← d.made (.varEqConst var value)
    narrowed d (r.inter made) rest

/-- A constraint depends on the variables alone. -/
theorem made_constant_congr {d d' : Explicit} (h : d'.vars = d.vars) (var : VarId)
    (value : UInt64) : d'.made (.varEqConst var value) = d.made (.varEqConst var value) := by
  simp only [made, bitsOf, offset, h]

end Explicit

/-- The variables in the order of declaration, without the first `start`. -/
def varsFrom (start count : Nat) : List VarId :=
  (List.range' start count).map fun i => ⟨UInt32.ofNat i⟩

theorem varsFrom_succ (count : Nat) :
    varsFrom 0 (count + 1) = varsFrom 0 count ++ [⟨UInt32.ofNat count⟩] := by
  simp [varsFrom, List.range'_concat]

theorem drop_eq_cons_iff {α : Type} {v rest : List α} {i : Nat} {x : α} :
    v.drop i = x :: rest ↔ v[i]? = some x ∧ v.drop (i + 1) = rest := by
  constructor
  · intro h
    have hhead := congrArg (·[0]?) h
    have htail := congrArg List.tail h
    simp only [List.getElem?_drop, Nat.add_zero, List.getElem?_cons_zero] at hhead
    rw [List.tail_drop, List.tail_cons] at htail
    exact ⟨hhead, htail⟩
  · rintro ⟨hx, rfl⟩
    obtain ⟨hi, rfl⟩ := List.getElem?_eq_some_iff.mp hx
    exact List.drop_eq_getElem_cons hi

namespace Represents

variable {d : Explicit} {m : Ideal}

/-- The constraints on all variables but the first few. -/
theorem narrowed (h : Represents d m) (hroom : m.widths.length ≤ 2 ^ 32) {before after : List UInt32}
    (hsplit : m.widths = before ++ after) {values : List UInt64}
    (hlength : values.length = after.length) {r : Region} (hr : r.Canonical (bitCount m.widths)) :
    Agree (fun r' _ => r'.Canonical (bitCount m.widths) ∧ denote m.widths r' =
        denote m.widths r ∩ {v | v.drop before.length = values.map UInt64.toNat})
      (d.narrowed r ((varsFrom before.length after.length).zip values))
      (Ideal.checkPoint after values) := by
  induction after generalizing before values r with
  | nil =>
    obtain rfl := List.length_eq_zero_iff.mp hlength
    refine ⟨hr, ?_⟩
    ext v
    simp only [List.map_nil, List.drop_eq_nil_iff, Set.mem_inter_iff, Set.mem_ofPred_eq,
      iff_self_and]
    rintro ⟨hbox, -⟩
    rw [length_of_mem_box hbox, hsplit, List.append_nil]
  | cons width after ih =>
    obtain _ | ⟨value, values⟩ := values
    · simp at hlength
    have hi : before.length < m.widths.length := by simp [hsplit]
    have hindex : (UInt32.ofNat before.length).toNat = before.length :=
      UInt32.toNat_ofNat_of_lt' (by simp only [UInt32.size]; omega)
    have hwidth : m.width ⟨UInt32.ofNat before.length⟩ = .ok width := by
      simp [Ideal.width, hindex, hsplit]
    have hmade := h.made_constant ⟨UInt32.ofNat before.length⟩ value
    have hconstraints : (varsFrom before.length (width :: after).length).zip (value :: values) =
        (⟨UInt32.ofNat before.length⟩, value) ::
          (varsFrom (before ++ [width]).length after.length).zip values := by
      simp [varsFrom, List.range'_succ]
    rw [hconstraints, Explicit.narrowed, Ideal.checkPoint]
    have hchecked : m.made (.varEqConst ⟨UInt32.ofNat before.length⟩ value) =
        (fun _ => {v ∈ box m.widths | v[before.length]? = some value.toNat}) <$>
          Ideal.checkValue value width := by
      rw [Ideal.made, hwidth, map_eq_pure_bind]
      simp only [hindex]
      rfl
    rw [hchecked] at hmade
    refine hmade.of_map_right.bind ?_
    rintro made _ ⟨hcanonical, hdenote⟩
    refine (@ih (before ++ [width]) (by simp [hsplit]) values (by simpa using hlength) _
      (hr.inter hcanonical)).mono ?_
    rintro r' _ ⟨hcanonical', hdenote'⟩
    refine ⟨hcanonical', ?_⟩
    rw [hdenote', denote_inter, hdenote]
    ext v
    simp only [List.length_append, List.length_singleton, Set.mem_inter_iff, Set.mem_ofPred_eq,
      List.map_cons, drop_eq_cons_iff]
    have hbox : v ∈ denote m.widths r → v ∈ box m.widths := fun hv => denote_subset _ _ hv
    tauto

/-- Intersecting one constraint for each variable makes the point. -/
theorem narrowed_eq_point (h : Represents d m) (hroom : d.vars.length ≤ 2 ^ 32)
    {values : List UInt64} (hlength : values.length = d.vars.length) :
    d.narrowed .full ((varsFrom 0 d.vars.length).zip values) = d.made (.singleton values) := by
  have hwidths := h.length
  have hnarrowed := @narrowed d m h (by omega) [] _ rfl _ (hlength.trans hwidths) _
    (Region.canonical_full _)
  have hpoint := h.made_point values
  have hideal : m.made (.singleton values) =
      (fun _ => {values.map UInt64.toNat}) <$> Ideal.checkPoint m.widths values := by
    simp only [Ideal.made, hlength.trans hwidths, ne_eq, not_true_eq_false, if_false,
      map_eq_pure_bind]
  rw [hideal] at hpoint
  rw [List.length_nil, ← hwidths] at hnarrowed
  have hpoint := hpoint.of_map_right
  cases hcheck : Ideal.checkPoint m.widths values with
  | error e =>
    rw [hcheck] at hnarrowed hpoint
    rw [hnarrowed.error_left, hpoint.error_left]
  | ok _ =>
    rw [hcheck] at hnarrowed hpoint
    obtain ⟨r, hr, hcanonical, hdenote⟩ := hnarrowed.ok_left
    obtain ⟨r', hr', hcanonical', hdenote'⟩ := hpoint.ok_left
    rw [hr, hr']
    refine congrArg Except.ok (hcanonical.eq_of_denote hcanonical' ?_)
    have hbox := mem_box_of_checkPoint (hlength.trans hwidths) hcheck
    rw [hdenote, hdenote', denote_full]
    ext v
    simp only [List.drop_zero, Set.mem_inter_iff, Set.mem_ofPred_eq, Set.mem_singleton_iff,
      and_iff_right_iff_imp]
    rintro rfl
    exact hbox

end Represents

/-! ## How the layer makes a point -/

variable {σ : Type} {ops : Operations σ} {bottom : σ → Bottom} {Good : σ → Prop}

namespace Rests

theorem makes (h : Rests ops bottom Good) {call : Call .set} {s : σ} (hs : Good s) {r : Region}
    (hr : (bottom s).inner.made call = .ok r) :
    Ends (fun s => (bottom s).Spent) (ops.step call) s fun outcome t =>
      ∃ set, outcome = .ok set ∧ Good t ∧ (bottom s).inner.issued.toNat < set.index.toNat ∧
        ((bottom s).inner.keep set r).Similar (bottom t).inner := by
  refine (h.step call hs).mono fun outcome t ⟨hgood, hfollows⟩ => ?_
  simp only [Explicit.Follows, hr] at hfollows
  obtain ⟨set, houtcome, hfresh, hsimilar⟩ := hfollows
  exact ⟨set, houtcome, hgood, hfresh, hsimilar⟩

theorem refuses (h : Rests ops bottom Good) {call : Call .set} {s : σ} (hs : Good s)
    {e : DomainError} (he : (bottom s).inner.made call = .error e) :
    Ends (fun s => (bottom s).Spent) (ops.step call) s fun outcome t =>
      outcome = .error e ∧ Good t ∧ (bottom s).inner.Similar (bottom t).inner := by
  refine (h.step call hs).mono fun outcome t ⟨hgood, hfollows⟩ => ?_
  simp only [Explicit.Follows, he] at hfollows
  exact ⟨hfollows.1, hgood, hfollows.2⟩

theorem releases (h : Rests ops bottom Good) {set : SetId} {s : σ} (hs : Good s) {r : Region}
    (hr : (bottom s).inner.sets.get? set = some r) :
    Ends (fun s => (bottom s).Spent) (ops.step (.release set)) s fun outcome t =>
      ∃ u : Unit, outcome = .ok u ∧ Good t ∧
        ((bottom s).inner.drop set).Similar (bottom t).inner := by
  refine (h.step (.release set) hs).mono fun outcome t ⟨hgood, hfollows⟩ => ?_
  simp only [Explicit.Follows, Explicit.apply, Explicit.region, hr] at hfollows
  exact ⟨(), hfollows.1, hgood, hfollows.2⟩

/-- One step of the narrowing: in place of `set` there is the intersection, and nothing else is left
of the constraint. -/
theorem narrow_step (h : Rests ops bottom Good) {d : Explicit} (hd : d.Tidy) {s : σ} (hs : Good s)
    {set made : SetId} {r constraint : Region} (hset : d.issued.toNat < set.index.toNat)
    (hmade : set.index.toNat < made.index.toNat)
    (hsimilar : ((d.keep set r).keep made constraint).Similar (bottom s).inner) :
    Ends (fun s => (bottom s).Spent)
      (do
        let narrowed ← ops.step (.intersect set made)
        ops.step (.release set)
        ops.step (.release made)
        pure narrowed) s fun outcome t =>
      ∃ narrowed, outcome = .ok narrowed ∧ Good t ∧
        d.issued.toNat < narrowed.index.toNat ∧
          (d.keep narrowed (r.inter constraint)).Similar (bottom t).inner := by
  have := h.keeps
  have hne : set ≠ made := by
    rintro rfl
    exact lt_irrefl _ hmade
  have hgetSet : (bottom s).inner.sets.get? set = some r := by
    simp [hsimilar.sets, Explicit.get?_keep, hne]
  have hgetMade : (bottom s).inner.sets.get? made = some constraint := by
    simp [hsimilar.sets, Explicit.get?_keep]
  have hinter : (bottom s).inner.made (.intersect set made) = .ok (r.inter constraint) := by
    simp [Explicit.made, Explicit.region, hgetSet, hgetMade, bind, Except.bind, pure, Except.pure]
  refine (h.makes hs hinter).andThen ?_
  rintro narrowed s₁ ⟨hs₁, hnarrowed, hsimilar₁⟩
  have hissued : made.index.toNat ≤ (bottom s).inner.issued.toNat := hsimilar.issued
  have hne' : set ≠ narrowed ∧ made ≠ narrowed := by
    constructor <;> rintro rfl <;> omega
  refine (h.releases hs₁ (r := r) ?_).andThen ?_
  · simp [hsimilar₁.sets, Explicit.get?_keep, hne'.1, hgetSet]
  rintro ⟨⟩ s₂ ⟨hs₂, hsimilar₂⟩
  refine (h.releases hs₂ (r := constraint) ?_).andThen ?_
  · simp [hsimilar₂.sets, Explicit.get?_drop, hsimilar₁.sets, Explicit.get?_keep, hne'.2, hne.symm,
      hgetMade]
  rintro ⟨⟩ s₃ ⟨hs₃, hsimilar₃⟩
  have hend := ((((hsimilar.keep narrowed _).trans hsimilar₁).drop set).trans hsimilar₂).drop made
  refine Ends.pure ⟨narrowed, rfl, hs₃, by omega, .trans ?_ (hend.trans hsimilar₃)⟩
  refine ⟨rfl, rfl, fun x => ?_, le_rfl⟩
  have hfresh := hd.fresh hset
  have hfresh' := hd.fresh (hset.trans hmade)
  simp only [Explicit.get?_drop, Explicit.get?_keep]
  grind

/-- By induction on the constraints: `set` holds what those already used have left of `r`. -/
theorem narrow (h : Rests ops bottom Good) {d : Explicit} (hd : d.Tidy)
    (constraints : List (VarId × UInt64)) {s : σ} (hs : Good s) {set : SetId} {r : Region}
    (hset : d.issued.toNat < set.index.toNat)
    (hsimilar : (d.keep set r).Similar (bottom s).inner) :
    Ends (fun s => (bottom s).Spent) (Points.narrow ops constraints set) s fun outcome t =>
      Good t ∧ match d.narrowed r constraints with
        | .ok r' => ∃ set' : SetId, outcome = .ok set' ∧ d.issued.toNat < set'.index.toNat ∧
            (d.keep set' r').Similar (bottom t).inner
        | .error e => outcome = .error e ∧ d.Similar (bottom t).inner := by
  have := h.keeps
  induction constraints generalizing s set r with
  | nil => exact Ends.pure ⟨hs, set, rfl, hset, hsimilar⟩
  | cons constraint rest ih =>
    obtain ⟨var, value⟩ := constraint
    have hvars : (bottom s).inner.made (.varEqConst var value) = d.made (.varEqConst var value) :=
      Explicit.made_constant_congr hsimilar.vars var value
    have hkeeps := Points.keeps_narrow_made (I := fun s _ => (bottom s).Spent) ops rest set
    rw [Points.narrow, Explicit.narrowed]
    cases hconstraint : d.made (.varEqConst var value) with
    | error e =>
      refine Ends.outcome_bind (h.refuses hs (hvars.trans hconstraint)) ?_
      rintro _ s₁ ⟨rfl, hs₁, hsimilar₁⟩
      have hget : (bottom s₁).inner.sets.get? set = some r := by
        simp [hsimilar₁.sets, hsimilar.sets, Explicit.get?_keep]
      refine (h.releases hs₁ hget).andThen ?_
      rintro ⟨⟩ s₂ ⟨hs₂, hsimilar₂⟩
      have hend := ((hsimilar.trans hsimilar₁).drop set).trans hsimilar₂
      have hback : d.Similar ((d.keep set r).drop set) := by
        refine ⟨rfl, rfl, fun x => ?_, hset.le⟩
        have hfresh := hd.fresh hset
        simp only [Explicit.get?_drop, Explicit.get?_keep]
        grind
      exact Ends.fail ⟨hs₂, rfl, hback.trans hend⟩
    | ok made =>
      refine Ends.outcome_bind (h.makes hs (hvars.trans hconstraint)) ?_
      rintro _ s₁ ⟨next, rfl, hs₁, hnext, hsimilar₁⟩
      have hnext' : set.index.toNat < next.index.toNat :=
        lt_of_le_of_lt hsimilar.issued hnext
      have hsimilar' := (hsimilar.keep next made).trans hsimilar₁
      have hstep := (h.narrow_step hd hs₁ hset hnext' hsimilar').andThen
        (f := Points.narrow ops rest) fun _ _ hend => ih hend.1 hend.2.1 hend.2.2
      simp only [bind_assoc, pure_bind] at hstep
      exact hstep

theorem point (h : Rests ops bottom Good) {s : σ} (hs : Good s) {values : List UInt64}
    (hlength : values.length = (bottom s).inner.vars.length) :
    Ends (fun s => (bottom s).Spent)
      (Points.point ops (varsFrom 0 (bottom s).inner.vars.length) values) s fun outcome t =>
        Good t ∧ (bottom s).inner.Follows (.singleton values) outcome (bottom t).inner := by
  have := h.keeps
  have hsound := h.sound s hs
  obtain ⟨m, hm⟩ := hsound.represents
  have hkeeps : Keeps (fun s _ => (bottom s).Spent)
      (Points.point ops (varsFrom 0 (bottom s).inner.vars.length) values) := by
    unfold Points.point
    infer_instance
  refine Ends.of_start fun hroom => ?_
  have hvars : (bottom s).inner.vars.length ≤ 2 ^ 32 := by
    rw [hsound.vars]
    exact le_of_not_ge fun hge => hroom (.inr hge)
  refine (h.makes hs (r := .full) rfl).andThen fun set t ⟨ht, hfresh, hsimilar⟩ => ?_
  refine (h.narrow hsound.tidy _ ht hfresh hsimilar).mono fun outcome t' ⟨ht', hend⟩ => ⟨ht', ?_⟩
  rwa [hm.narrowed_eq_point hvars hlength] at hend

/-- The variables that the layer knows are those of the domain at the bottom. -/
theorem points (h : Rests ops bottom Good) :
    Rests (Points.operations ops) (fun s => bottom s.inner)
      (fun s => Good s.inner ∧ s.layer.declared = varsFrom 0 (bottom s.inner).inner.vars.length) where
  preserves {P} hP _ call :=
    Points.keeps_step (I := fun s _ => P (bottom s)) ops call (h := h.preserves hP)
  sound s hs := h.sound s.inner hs.1
  step {k} call s hs := by
    obtain ⟨hgood, hdeclared⟩ := hs
    have := h.keeps
    have pass {k : Answer} (call : Call k) (hk : k ≠ .var) :
        Ends (fun s : Atop Points σ => (bottom s.inner).Spent) (Atop.below (ops.step call)) s
          fun outcome t => (Good t.inner ∧
              t.layer.declared = varsFrom 0 (bottom t.inner).inner.vars.length) ∧
            (bottom s.inner).inner.Follows call outcome (bottom t.inner).inner := by
      refine (h.passed call hgood).mono ?_
      rintro outcome t ⟨hlayer, hgood', hfollows⟩
      exact ⟨⟨hgood', by rw [hlayer, hdeclared, hfollows.vars_of_ne hk]⟩, hfollows⟩
    cases call with
    | declare name bits =>
      refine (h.passed (.declare name bits) hgood).bind ?_ ?_
      · rintro var t ⟨hlayer, hgood', hfollows⟩ host _
        refine ⟨⟨hgood', ?_⟩, hfollows⟩
        obtain ⟨hvar, hvars, -⟩ := hfollows.of_declare
        change t.layer.declared ++ [var] = varsFrom 0 (bottom t.inner).inner.vars.length
        rw [hlayer, hdeclared, hvar, hvars, List.length_append, List.length_singleton,
          varsFrom_succ]
      · rintro e t ⟨hlayer, hgood', hfollows⟩
        refine ⟨⟨hgood', ?_⟩, hfollows⟩
        rw [hlayer, hdeclared, hfollows.similar_of_error.vars]
    | singleton values =>
      refine Ends.get_bind ?_
      have hcount : s.layer.declared.length = (bottom s.inner).inner.vars.length := by
        simp [hdeclared, varsFrom]
      dsimp only
      split
      · next hlength =>
        rw [hcount] at hlength ⊢
        refine Ends.fail ⟨⟨hgood, hdeclared⟩, ?_⟩
        simp only [Explicit.Follows, Explicit.made, hlength, if_true]
        exact ⟨rfl, .refl _⟩
      · next hlength =>
        have hvalues : values.length = (bottom s.inner).inner.vars.length := by
          simpa [hcount] using hlength
        rw [hdeclared]
        refine (h.point hgood hvalues).below.mono ?_
        rintro outcome t ⟨hlayer, hgood', hend⟩
        exact ⟨⟨hgood', by rw [hlayer, hdeclared, hend.vars_of_ne (by simp)]⟩, hend⟩
    | _ => exact pass _ (by simp)

end Rests
end LayeredSets
