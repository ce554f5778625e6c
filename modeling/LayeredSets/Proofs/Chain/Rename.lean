import LayeredSets.Proofs.Explicit.Apply
import LayeredSets.Proofs.Run

/-!
# Renaming set handles

What explicit domains make of a call depends on the sets behind its handles and not on the handles:
if another domain keeps the same sets under other handles, then the renamed call has the renamed
outcome there.
-/

namespace LayeredSets

/-- The set handles that a call is given. -/
def Call.sets {k : Answer} : Call k → List SetId
  | declare .. | top | bottom | varEqConst .. | varEqVar .. | singleton .. => []
  | union a b | intersect a b | difference a b | equal a b | subset a b => [a, b]
  | complement a | .exists a _ | isEmpty a | release a => [a]

/-- The variable handles that a call is given. -/
def Call.vars {k : Answer} : Call k → List VarId
  | varEqConst var _ => [var]
  | varEqVar a b => [a, b]
  | .exists _ var => [var]
  | _ => []

def Call.rename (f : SetId → SetId) {k : Answer} : Call k → Call k
  | declare name bits => declare name bits
  | top => top
  | bottom => bottom
  | varEqConst var value => varEqConst var value
  | varEqVar a b => varEqVar a b
  | singleton point => singleton point
  | union a b => union (f a) (f b)
  | intersect a b => intersect (f a) (f b)
  | difference a b => difference (f a) (f b)
  | complement a => complement (f a)
  | .exists set var => .exists (f set) var
  | isEmpty set => isEmpty (f set)
  | equal a b => equal (f a) (f b)
  | subset a b => subset (f a) (f b)
  | release set => release (f set)

def Request.sets (request : Request) : List SetId := request.call.sets

def Request.rename (f : SetId → SetId) (request : Request) : Request := ⟨request.call.rename f⟩

def DomainError.rename (f : SetId → SetId) : DomainError → DomainError
  | unknownSet set => unknownSet (f set)
  | e => e

def Reply.rename (f : SetId → SetId) : Reply → Reply
  | set s => set (f s)
  | reply => reply

def Outcome.rename (f : SetId → SetId) : Outcome → Outcome
  | .ok reply => .ok (reply.rename f)
  | .error e => .error (e.rename f)

namespace Explicit

/-- Another domain has the same variables, and knows each of `sets` under its new name. -/
structure Mirrors (f : SetId → SetId) (sets : List SetId) (d b : Explicit) : Prop where
  limit : b.limit = d.limit
  vars : b.vars = d.vars
  get? : ∀ set ∈ sets, b.sets.get? (f set) = d.sets.get? set

/-- The result of an operation on the other domain, errors being renamed. -/
abbrev renamed {α : Type} (f : SetId → SetId) (x : Except DomainError α) : Except DomainError α :=
  x.mapError (DomainError.rename f)

section

variable {f : SetId → SetId} {α β : Type}

@[simp] theorem renamed_ok (a : α) : renamed f (.ok a) = .ok a := rfl

@[simp] theorem renamed_pure (a : α) : renamed f (pure a) = pure a := rfl

@[simp] theorem renamed_error (e : DomainError) :
    renamed f (.error e : Except DomainError α) = .error (e.rename f) := rfl

theorem renamed_bind (x : Except DomainError α) (g : α → Except DomainError β) :
    renamed f (x >>= g) = renamed f x >>= fun a => renamed f (g a) := by
  cases x <;> rfl

theorem renamed_map (x : Except DomainError α) (g : α → β) :
    renamed f (g <$> x) = g <$> renamed f x := by
  cases x <;> rfl

theorem renamed_bitsOf (d : Explicit) (var : VarId) : renamed f (d.bitsOf var) = d.bitsOf var := by
  rw [bitsOf]
  split <;> rfl

theorem renamed_checkValue (value : UInt64) (bits : UInt32) :
    renamed f (checkValue value bits) = checkValue value bits := by
  rw [checkValue]
  split <;> rfl

theorem renamed_checkPoint (vars : List Variable) (point : List UInt64) :
    renamed f (checkPoint vars point) = checkPoint vars point := by
  induction vars generalizing point with
  | nil => rfl
  | cons v vars ih =>
    cases point with
    | nil => rfl
    | cons value point => rw [checkPoint, renamed_bind, renamed_checkValue, ih]

end

namespace Mirrors

variable {f : SetId → SetId} {sets : List SetId} {d b : Explicit}

theorem region (h : Mirrors f sets d b) {set : SetId} (hset : set ∈ sets) :
    b.region (f set) = renamed f (d.region set) := by
  rw [Explicit.region, Explicit.region, h.get? set hset]
  cases d.sets.get? set <;> rfl

theorem bitsOf (h : Mirrors f sets d b) (var : VarId) : b.bitsOf var = d.bitsOf var := by
  rw [Explicit.bitsOf, Explicit.bitsOf, h.vars]

theorem offset (h : Mirrors f sets d b) (index : Nat) : b.offset index = d.offset index := by
  rw [Explicit.offset, Explicit.offset, h.vars]

theorem declare (h : Mirrors f sets d b) (name : String) (bits : UInt32) :
    b.declare name bits =
      (fun x => (x.1, { b with vars := d.vars ++ [⟨name, bits⟩] })) <$>
        renamed f (d.declare name bits) := by
  have htotal : b.totalBits = d.totalBits := by rw [totalBits, totalBits, h.vars]
  rw [Explicit.declare, Explicit.declare, htotal, h.limit, h.vars]
  by_cases hvalid : isValidWidth bits = true
  · by_cases hlarge : d.limit < d.totalBits + bits
    · simp only [hvalid, hlarge, Bool.not_true, Bool.false_eq_true, if_false, if_true]
      rfl
    · simp only [hvalid, hlarge, Bool.not_true, Bool.false_eq_true, if_false]
      rfl
  · simp only [hvalid, Bool.not_false, if_true]
    rfl

theorem made (h : Mirrors f sets d b) {call : Call .set} (hcall : call.sets ⊆ sets) :
    b.made (call.rename f) = renamed f (d.made call) := by
  have hregion {set : SetId} (hset : set ∈ call.sets) := h.region (hcall hset)
  cases call with
  | varEqVar x y =>
    simp only [Call.rename, Explicit.made, renamed_bind, renamed_bitsOf, h.bitsOf, h.offset]
    refine bind_congr fun left => bind_congr fun right => ?_
    split <;> rfl
  | singleton point =>
    simp only [Call.rename, Explicit.made, h.vars]
    split
    · rfl
    · simp only [renamed_bind, renamed_checkPoint, renamed_pure]
  | _ =>
    simp_all [Call.rename, Explicit.made, renamed_bind, renamed_map, renamed_bitsOf,
      renamed_checkValue, h.bitsOf, h.offset, Call.sets]

theorem answer (h : Mirrors f sets d b) {call : Call .bool} (hcall : call.sets ⊆ sets) :
    b.answer (call.rename f) = renamed f (d.answer call) := by
  have hregion {set : SetId} (hset : set ∈ call.sets) := h.region (hcall hset)
  cases call <;> simp_all [Call.rename, Explicit.answer, renamed_bind, renamed_map, Call.sets]

end Mirrors

end Explicit
end LayeredSets
