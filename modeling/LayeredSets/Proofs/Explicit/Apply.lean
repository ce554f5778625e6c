import LayeredSets.Explicit.Basic

/-!
# Explicit calls by kind

A call that makes a set looks at the variables and at the sets it names, and stores one region; a
query looks at sets only. `made` and `answer` say which region and which answer, so that what a
call does to the state is the same for all calls of a kind.
-/

namespace LayeredSets.Explicit

/-- The region that a call stores. -/
def made (d : Explicit) : Call .set → Except DomainError Region
  | .top => return .full
  | .bottom => return .empty
  | .varEqConst var value => do
    let bits ← d.bitsOf var
    checkValue value bits
    return constantRegion (d.offset var.index.toNat) bits value
  | .varEqVar a b => do
    let left ← d.bitsOf a
    let right ← d.bitsOf b
    if left != right then throw (.widthMismatch left right)
    return equalityRegion (d.offset a.index.toNat) (d.offset b.index.toNat) left
  | .singleton point => do
    if point.length != d.vars.length then throw (.arityMismatch d.vars.length point.length)
    checkPoint d.vars point
    return pointRegion d.vars point
  | .union a b => return (← d.region a).union (← d.region b)
  | .intersect a b => return (← d.region a).inter (← d.region b)
  | .difference a b => return (← d.region a).diff (← d.region b)
  | .complement a => return (← d.region a).compl
  | .exists set var => do
    let bits ← d.bitsOf var
    return Region.forgetAt bits.toNat (d.offset var.index.toNat) (← d.region set)

/-- The answer to a query. -/
def answer (d : Explicit) : Call .bool → Except DomainError Bool
  | .isEmpty set => return (← d.region set) == .empty
  | .equal a b => return (← d.region a) == (← d.region b)
  | .subset a b => return Region.diff (← d.region a) (← d.region b) == .empty

theorem get?_of_region {d : Explicit} {set : SetId} {r : Region} (h : d.region set = .ok r) :
    d.sets.get? set = some r := by
  rw [region] at h
  split at h
  · next hget => rw [hget, Except.ok.inj h]
  · cases h

theorem declare_eq_ok {d after : Explicit} {name : String} {bits : UInt32} {var : VarId}
    (h : d.declare name bits = .ok (var, after)) :
    isValidWidth bits = true ∧ ¬ d.limit < d.totalBits + bits ∧
      var = ⟨UInt32.ofNat d.vars.length⟩ ∧ after = { d with vars := d.vars ++ [⟨name, bits⟩] } := by
  rw [declare] at h
  by_cases hvalid : isValidWidth bits = true
  · by_cases hlarge : d.limit < d.totalBits + bits
    · simp [hvalid, hlarge] at h
    · simp only [hvalid, Bool.not_true, Bool.false_eq_true, if_false, hlarge, Except.ok.injEq,
        Prod.mk.injEq] at h
      exact ⟨hvalid, hlarge, h.1.symm, h.2.symm⟩
  · simp [hvalid] at h

theorem declare_eq_error {d : Explicit} {name : String} {bits : UInt32} {e : DomainError}
    (h : d.declare name bits = .error e) :
    (isValidWidth bits = false ∧ e = .invalidWidth bits) ∨
      isValidWidth bits = true ∧ ∃ total, e = .universeTooLarge total d.limit := by
  rw [declare] at h
  by_cases hvalid : isValidWidth bits = true
  · by_cases hlarge : d.limit < d.totalBits + bits
    · simp only [hvalid, Bool.not_true, Bool.false_eq_true, if_false, hlarge, if_true,
        Except.error.injEq] at h
      exact .inr ⟨hvalid, _, h.symm⟩
    · simp [hvalid, hlarge] at h
  · simp only [hvalid, Bool.not_false, if_true, Except.error.injEq] at h
    exact .inl ⟨by simpa using hvalid, h.symm⟩

theorem apply_set (d : Explicit) (call : Call .set) :
    d.apply call = d.store <$> d.made call := by
  cases call with
  | varEqVar a b =>
    simp only [apply, made, map_bind]
    refine bind_congr fun left => bind_congr fun right => ?_
    split <;> rfl
  | singleton point =>
    simp only [apply, made]
    split
    · rfl
    · rw [map_bind]
      rfl
  | _ => simp [apply, made, combine]

theorem apply_bool (d : Explicit) (call : Call .bool) :
    d.apply call = (·, d) <$> d.answer call := by
  cases call <;> simp [apply, answer]

end LayeredSets.Explicit

namespace LayeredSets

/-- The error is about handles, widths and values, and quotes nothing. -/
def DomainError.Plain : DomainError → Prop
  | unsupported .. | backend .. => False
  | _ => True

/-- Whatever goes wrong is plain. -/
def FailsPlainly {α : Type} (x : Except DomainError α) : Prop := ∀ e, x = .error e → e.Plain

namespace FailsPlainly

variable {α β : Type}

protected theorem pure (a : α) : FailsPlainly (pure a) := by
  rintro e ⟨⟩

protected theorem error {e : DomainError} (h : e.Plain) :
    FailsPlainly (.error e : Except DomainError α) := by
  rintro _ ⟨⟩
  exact h

protected theorem bind {x : Except DomainError α} {f : α → Except DomainError β}
    (hx : FailsPlainly x) (hf : ∀ a, FailsPlainly (f a)) : FailsPlainly (x >>= f) := by
  intro e h
  cases x with
  | error e' =>
    obtain rfl := Except.error.inj h
    exact hx e' rfl
  | ok a => exact hf a e h

protected theorem ite {p : Prop} [Decidable p] {x y : Except DomainError α} (hx : FailsPlainly x)
    (hy : FailsPlainly y) : FailsPlainly (if p then x else y) := by
  split
  · exact hx
  · exact hy

end FailsPlainly

namespace Explicit

theorem failsPlainly_region (d : Explicit) (set : SetId) : FailsPlainly (d.region set) := by
  rw [region]
  split
  · exact .pure _
  · exact .error trivial

theorem failsPlainly_bitsOf (d : Explicit) (var : VarId) : FailsPlainly (d.bitsOf var) := by
  rw [bitsOf]
  split
  · exact .pure _
  · exact .error trivial

theorem failsPlainly_checkValue (value : UInt64) (bits : UInt32) :
    FailsPlainly (checkValue value bits) :=
  .ite (.pure ()) (.error trivial)

theorem failsPlainly_checkPoint (vars : List Variable) (point : List UInt64) :
    FailsPlainly (checkPoint vars point) := by
  induction vars generalizing point with
  | nil => exact .pure ()
  | cons v vars ih =>
    cases point with
    | nil => exact .pure ()
    | cons value point => exact (failsPlainly_checkValue value v.bits).bind fun _ => ih point

theorem failsPlainly_apply (d : Explicit) {k : Answer} (call : Call k) :
    FailsPlainly (d.apply call) := by
  have hregion := d.failsPlainly_region
  have hbits := d.failsPlainly_bitsOf
  have hcombine (f : Region → Region → Region) (a b : SetId) : FailsPlainly (d.combine f a b) :=
    (hregion a).bind fun _ => (hregion b).bind fun _ => .pure _
  cases call with
  | declare name bits => exact .ite (.error trivial) (.ite (.error trivial) (.pure _))
  | top | bottom => exact .pure _
  | varEqConst var value =>
    exact (hbits var).bind fun _ => (failsPlainly_checkValue value _).bind fun _ => .pure _
  | varEqVar a b =>
    refine (hbits a).bind fun left => (hbits b).bind fun right => ?_
    exact .ite (.error trivial) (.pure _)
  | singleton point =>
    exact .ite (.error trivial) ((failsPlainly_checkPoint d.vars point).bind fun _ => .pure _)
  | union a b | intersect a b | difference a b => exact hcombine _ a b
  | complement a | isEmpty a | release a => exact (hregion a).bind fun _ => .pure _
  | «exists» set var => exact (hbits var).bind fun _ => (hregion set).bind fun _ => .pure _
  | equal a b | subset a b => exact (hregion a).bind fun _ => (hregion b).bind fun _ => .pure _

end Explicit
end LayeredSets
