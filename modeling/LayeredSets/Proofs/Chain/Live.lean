import LayeredSets.Proofs.Chain.Bottom
import LayeredSets.Proofs.Chain.Rename

/-!
# Live sets

What a caller has to know of an explicit domain in order not to misuse it: which handles of sets are
live and which variables are declared. A call that is given nothing else adds the set that it makes
or takes away the one that it releases, and if it is given a set at all, it does not fail.
-/

namespace LayeredSets

/-- The handle that an outcome hands to the caller. -/
def held {ε : Type} : {k : Answer} → Except ε k.Value → Finset SetId
  | .set, .ok set => {set}
  | _, _ => ∅

@[simp] theorem held_mapError {ε ε' : Type} {k : Answer} (f : ε → ε') (o : Except ε k.Value) :
    held (o.mapError f) = held o := by
  cases k <;> cases o <;> rfl

namespace Explicit

/-- The handles of the sets that are there. -/
def live (d : Explicit) : Set SetId := {set | ∃ r, d.sets.get? set = some r}

instance (d : Explicit) (set : SetId) : Decidable (set ∈ d.live) :=
  decidable_of_iff ((d.sets.get? set).isSome = true) Option.isSome_iff_exists

@[simp] theorem live_new (limit : UInt32) : (Explicit.new limit).live = ∅ := by
  ext set
  simp [live, Explicit.new]

/-- All that a call is given is there. -/
structure Provides (d : Explicit) {k : Answer} (call : Call k) : Prop where
  sets : ∀ set ∈ call.sets, set ∈ d.live
  vars : ∀ var ∈ call.vars, var.index.toNat < d.vars.length

/-- Does the call succeed? -/
def accepts (d : Explicit) {k : Answer} (call : Call k) : Bool := (d.apply call).isOk

section

variable {d d' : Explicit} {k : Answer} {call : Call k}

theorem live_of_region {set : SetId} {r : Region} (h : d.region set = .ok r) : set ∈ d.live :=
  ⟨r, get?_of_region h⟩

theorem region_of_live {set : SetId} (h : set ∈ d.live) : ∃ r, d.region set = .ok r := by
  obtain ⟨r, hr⟩ := h
  exact ⟨r, by rw [region, hr]⟩

theorem bitsOf_of_lt {var : VarId} (h : var.index.toNat < d.vars.length) :
    ∃ bits, d.bitsOf var = .ok bits :=
  ⟨_, by rw [bitsOf, List.getElem?_eq_getElem h]⟩

/-- A call on sets fails only for want of a set or a variable. -/
theorem accepts_of_provides (h : d.Provides call) (hsets : call.sets ≠ []) :
    d.accepts call = true := by
  have hregion (set : SetId) (hset : set ∈ call.sets) := region_of_live (h.sets set hset)
  have hbits (var : VarId) (hvar : var ∈ call.vars) := bitsOf_of_lt (h.vars var hvar)
  cases call with
  | declare | top | bottom | varEqConst | varEqVar | singleton => exact absurd rfl hsets
  | union a b | intersect a b | difference a b | equal a b | subset a b =>
    obtain ⟨x, hx⟩ := hregion a (by simp [Call.sets])
    obtain ⟨y, hy⟩ := hregion b (by simp [Call.sets])
    simp only [accepts, apply, combine, hx, hy]
    rfl
  | complement a | isEmpty a | release a =>
    obtain ⟨x, hx⟩ := hregion a (by simp [Call.sets])
    simp only [accepts, apply, hx]
    rfl
  | «exists» a var =>
    obtain ⟨x, hx⟩ := hregion a (by simp [Call.sets])
    obtain ⟨bits, hbits⟩ := hbits var (by simp [Call.vars])
    simp only [accepts, apply, hx, hbits]
    rfl

/-- Whether a call that is given no sets makes one depends on the variables alone. -/
theorem accepts_congr (h : d'.vars = d.vars) {call : Call .set} (hsets : call.sets = []) :
    d'.accepts call = d.accepts call := by
  have hmade : d'.made call = d.made call := by
    cases call with
    | top | bottom => rfl
    | varEqConst | varEqVar | singleton => simp only [made, bitsOf, offset, h]
    | union | intersect | difference | complement | «exists» => cases hsets
  simp only [accepts, apply_set, hmade]
  cases d.made call <;> rfl

theorem Similar.live (h : Similar d d') : d'.live = d.live := by
  ext set
  simp only [Explicit.live, Set.mem_ofPred_eq, h.sets]

theorem Follows.isOk {o : Except DomainError k.Value} (h : d.Follows call o d') :
    o.isOk = d.accepts call := by
  rw [accepts]
  cases k with
  | set =>
    rw [apply_set]
    simp only [Follows] at h
    split at h
    · next hmade =>
      obtain ⟨set, rfl, -⟩ := h
      rw [hmade]
      rfl
    · next hmade =>
      rw [h.1, hmade]
      rfl
  | var | bool | unit =>
    simp only [Follows] at h
    split at h <;> next happly => rw [h.1, happly]; rfl

/-- A call that makes a set or asks about sets hands on a handle that was not live, or none. -/
theorem Follows.live_eq {o : Except DomainError k.Value} (h : d.Follows call o d')
    (hd : d.Tidy) (hk : k = .set ∨ k = .bool) :
    (∀ set ∈ held o, set ∉ d.live) ∧ d'.live = d.live ∪ ↑(held o) := by
  obtain rfl | rfl := hk
  · cases o with
    | error e => simp [held, h.similar_of_error.live]
    | ok set =>
      obtain ⟨hfresh, -, r, hsets⟩ := h.of_made
      have hnew : set ∉ d.live := by
        rintro ⟨r, hr⟩
        simp [hd.fresh hfresh] at hr
      refine ⟨by simpa [held] using hnew, ?_⟩
      ext x
      by_cases hx : x = set <;> simp [held, Explicit.live, hsets, hx]
  · have hsimilar := (follows_bool_iff.mp h).2
    cases o <;> simp [held, hsimilar.live]

theorem Follows.live_release {set : SetId} (h : d.Follows (.release set) (.ok ()) d') :
    d'.live = d.live \ {set} := by
  obtain ⟨-, hsets⟩ := h.of_release
  ext x
  by_cases hx : x = set <;> simp [Explicit.live, hsets, hx]

end

end Explicit
end LayeredSets
