import LayeredSets.Proofs.Chain.Rename
import LayeredSets.Proofs.Explicit.Pick
import LayeredSets.Proofs.Action

/-!
# Unused variables

A run that declares variables besides, which no other call refers to, goes like the run without
them. Each of its sets is the lifted set of the other run: the variables that both runs have are
marked, wherever they stand, and the additional ones may have any values.
-/

namespace LayeredSets

/-- The same call with other handles for its variables. -/
def Call.renumber (ρ : VarId → VarId) {k : Answer} : Call k → Call k
  | varEqConst var value => varEqConst (ρ var) value
  | varEqVar a b => varEqVar (ρ a) (ρ b)
  | .exists set var => .exists set (ρ var)
  | call => call

def Request.renumber (ρ : VarId → VarId) (request : Request) : Request := ⟨request.call.renumber ρ⟩

/-- The handle of each marked variable leads to its place. -/
def Places (ρ : VarId → VarId) (mask : List Bool) : Prop :=
  ∀ var, var.index.toNat < mask.count true → (ρ var).index.toNat = place mask var.index.toNat

namespace Ideal

/-- The domain `n` has the variables of `m` at the marked places, others beside them, and the sets of
`m` lifted. -/
structure Pads (mask : List Bool) (m n : Ideal) : Prop where
  limit : n.limit = m.limit
  length : mask.length = n.widths.length
  widths : m.widths = pick mask n.widths
  sets : ∀ set, n.sets set = (m.sets set).map (lift mask n.widths)
  issued : n.issued = m.issued

/-- The sets that are there consist of valuations of the variables. -/
def Bounded (m : Ideal) : Prop := ∀ set s, m.sets set = some s → s ⊆ box m.widths

namespace Pads

variable {mask : List Bool} {m n : Ideal} {ρ : VarId → VarId}

theorem new (limit : UInt32) : Pads [] (Ideal.new limit) (Ideal.new limit) :=
  ⟨rfl, rfl, rfl, fun _ => rfl, rfl⟩

theorem count (h : Pads mask m n) : m.widths.length = mask.count true := by
  rw [h.widths, length_pick h.length]

/-! ## What calls look at -/

theorem width (h : Pads mask m n) (hρ : Places ρ mask) {var : VarId}
    (hvar : var.index.toNat < m.widths.length) : n.width (ρ var) = m.width var := by
  have hsame : n.widths[(ρ var).index.toNat]? = m.widths[var.index.toNat]? := by
    rw [hρ var (h.count ▸ hvar), h.widths, getElem?_pick h.length]
  rw [Ideal.width, Ideal.width, hsame, List.getElem?_eq_getElem hvar]

theorem set (h : Pads mask m n) (hm : m.Bounded) (set : SetId) :
    Agree (fun s t => s ⊆ box (pick mask n.widths) ∧ t = lift mask n.widths s) (m.set set)
      (n.set set) := by
  rw [Ideal.set, Ideal.set, h.sets]
  cases hs : m.sets set with
  | none => rfl
  | some s => exact ⟨h.widths ▸ hm set s hs, rfl⟩

theorem made (h : Pads mask m n) (hm : m.Bounded) (hρ : Places ρ mask) {call : Call .set}
    (hvars : ∀ var ∈ call.vars, var.index.toNat < m.widths.length)
    (hpoint : ∀ point, call ≠ .singleton point) :
    Agree (fun s t => t = lift mask n.widths s) (m.made call) (n.made (call.renumber ρ)) := by
  have hplace {var : VarId} (hvar : var ∈ call.vars) := hρ var (h.count ▸ hvars var hvar)
  cases call with
  | top =>
    change box n.widths = lift mask n.widths (box m.widths)
    rw [h.widths, lift_box]
  | bottom => exact lift_empty.symm
  | varEqConst var value =>
    have hvar : var ∈ (Call.varEqConst var value).vars := List.mem_singleton_self var
    simp only [Call.renumber, Ideal.made, h.width hρ (hvars var hvar), hplace hvar]
    refine .same_bind _ fun bits _ => .same_bind _ fun _ _ => ?_
    change _ = lift mask n.widths _
    rw [h.widths, lift_constant h.length]
  | varEqVar a b =>
    have ha : a ∈ (Call.varEqVar a b).vars := List.mem_cons_self
    have hb : b ∈ (Call.varEqVar a b).vars := List.mem_cons_of_mem _ (List.mem_singleton_self b)
    simp only [Call.renumber, Ideal.made, h.width hρ (hvars a ha), h.width hρ (hvars b hb),
      hplace ha, hplace hb]
    refine .same_bind _ fun left _ => .same_bind _ fun right _ => ?_
    split
    · rfl
    · change _ = lift mask n.widths _
      rw [h.widths, lift_equality h.length]
  | singleton point => exact absurd rfl (hpoint point)
  | union a b =>
    refine (h.set hm a).bind fun s t ht => (h.set hm b).bind fun s' t' ht' => ?_
    obtain ⟨-, rfl⟩ := ht
    obtain ⟨-, rfl⟩ := ht'
    exact lift_union.symm
  | intersect a b =>
    refine (h.set hm a).bind fun s t ht => (h.set hm b).bind fun s' t' ht' => ?_
    obtain ⟨-, rfl⟩ := ht
    obtain ⟨-, rfl⟩ := ht'
    exact lift_inter.symm
  | difference a b =>
    refine (h.set hm a).bind fun s t ht => (h.set hm b).bind fun s' t' ht' => ?_
    obtain ⟨-, rfl⟩ := ht
    obtain ⟨-, rfl⟩ := ht'
    exact lift_diff.symm
  | complement a =>
    refine (h.set hm a).bind fun s t ht => ?_
    obtain ⟨-, rfl⟩ := ht
    change box n.widths \ _ = lift mask n.widths (box m.widths \ s)
    rw [lift_diff, h.widths, lift_box]
  | «exists» a var =>
    have hvar : var ∈ (Call.exists a var).vars := List.mem_singleton_self var
    simp only [Call.renumber, Ideal.made, h.width hρ (hvars var hvar), hplace hvar]
    refine .same_bind _ fun bits _ => (h.set hm a).bind fun s t ht => ?_
    obtain ⟨hs, rfl⟩ := ht
    change _ = lift mask n.widths _
    rw [h.widths, lift_project h.length hs (h.widths ▸ hvars var hvar)]

theorem question (h : Pads mask m n) (hm : m.Bounded) (call : Call .bool) :
    Agree (· = ·) (m.question call) (n.question (call.renumber ρ)) := by
  cases call with
  | isEmpty a =>
    refine (h.set hm a).bind fun s t ht => ?_
    obtain ⟨hs, rfl⟩ := ht
    exact propext (lift_eq_empty_iff h.length hs).symm
  | equal a b =>
    refine (h.set hm a).bind fun s t ht => (h.set hm b).bind fun s' t' ht' => ?_
    obtain ⟨hs, rfl⟩ := ht
    obtain ⟨hs', rfl⟩ := ht'
    exact propext (lift_eq_iff h.length hs hs').symm
  | subset a b =>
    refine (h.set hm a).bind fun s t ht => (h.set hm b).bind fun s' t' ht' => ?_
    obtain ⟨hs, rfl⟩ := ht
    obtain ⟨-, rfl⟩ := ht'
    exact propext (lift_subset_iff h.length hs).symm

/-! ## How the states change -/

theorem store (h : Pads mask m n) (s : Set Valuation) :
    (m.store s).1 = (n.store (lift mask n.widths s)).1 ∧
      Pads mask (m.store s).2 (n.store (lift mask n.widths s)).2 := by
  have hid : (n.store (lift mask n.widths s)).1 = (m.store s).1 := by
    rw [Ideal.store, Ideal.store, h.issued]
  refine ⟨hid.symm, h.limit, h.length, h.widths, fun set => ?_, congrArg (· + 1) h.issued⟩
  change Function.update n.sets (n.store (lift mask n.widths s)).1 _ set =
    (Function.update m.sets (m.store s).1 _ set).map (lift mask n.widths)
  rw [hid]
  by_cases hset : set = (m.store s).1
  · rw [hset, Function.update_self, Function.update_self, Option.map_some]
  · rw [Function.update_of_ne hset, Function.update_of_ne hset, h.sets]

theorem release (h : Pads mask m n) (set : SetId) : Pads mask (m.release set) (n.release set) := by
  refine ⟨h.limit, h.length, h.widths, fun other => ?_, h.issued⟩
  change Function.update n.sets set none other =
    (Function.update m.sets set none other).map (lift mask n.widths)
  by_cases hset : other = set
  · rw [hset, Function.update_self, Function.update_self, Option.map_none]
  · rw [Function.update_of_ne hset, Function.update_of_ne hset, h.sets]

/-- A variable that both domains have. -/
theorem grow (h : Pads mask m n) (bits : UInt32) :
    Pads (mask ++ [true]) (m.grow bits) (n.grow bits) := by
  refine ⟨h.limit, by simp [Ideal.grow, h.length], ?_, fun set => ?_, h.issued⟩
  · have hpick : pick (mask ++ [true]) (n.widths ++ [bits]) = pick mask n.widths ++ [bits] :=
      pick_append h.length
    exact (congrArg (· ++ [bits]) h.widths).trans hpick.symm
  · simp only [Ideal.grow, h.sets, Option.map_map]
    cases m.sets set with
    | none => rfl
    | some s => exact congrArg some (cylinder_lift_marked h.length bits)

/-- A variable that only the second domain has. -/
theorem pad (h : Pads mask m n) (bits : UInt32) : Pads (mask ++ [false]) m (n.grow bits) := by
  refine ⟨h.limit, by simp [Ideal.grow, h.length], ?_, fun set => ?_, h.issued⟩
  · have hpick : pick (mask ++ [false]) (n.widths ++ [bits]) = pick mask n.widths ++ [] :=
      pick_append h.length
    exact h.widths.trans (hpick.trans (List.append_nil _)).symm
  · simp only [Ideal.grow, h.sets]
    cases m.sets set with
    | none => rfl
    | some s => exact congrArg some (cylinder_lift_other h.length bits)

/-- A call other than a declaration has the same outcome in both domains. -/
theorem apply_of_ne (h : Pads mask m n) (hm : m.Bounded) (hρ : Places ρ mask) {k : Answer}
    (hk : k ≠ .var) {call : Call k} (hvars : ∀ var ∈ call.vars, var.index.toNat < m.widths.length)
    (hpoint : ∀ point, (⟨call⟩ : Request) ≠ ⟨.singleton point⟩) :
    Agree (fun x y => x.1 = y.1 ∧ Pads mask x.2 y.2) (m.apply call) (n.apply (call.renumber ρ)) := by
  cases k with
  | var => exact absurd rfl hk
  | set =>
    have hmade := h.made hm hρ hvars fun point heq => hpoint point (by rw [heq])
    refine hmade.map fun s t ht => ?_
    subst ht
    exact h.store s
  | bool =>
    refine (h.question hm call).map fun p q hpq => ?_
    subst hpq
    exact ⟨rfl, h⟩
  | unit =>
    cases call with
    | release set => exact (h.set hm set).map fun _ _ _ => ⟨rfl, h.release set⟩

theorem respond_of_ne (h : Pads mask m n) (hm : m.Bounded) (hρ : Places ρ mask) {request : Request}
    (hk : request.kind ≠ .var)
    (hvars : ∀ var ∈ request.call.vars, var.index.toNat < m.widths.length)
    (hpoint : ∀ point, request ≠ ⟨.singleton point⟩) :
    (n.respond (request.renumber ρ)).1 = (m.respond request).1 ∧
      Pads mask (m.respond request).2 (n.respond (request.renumber ρ)).2 := by
  have hagree := h.apply_of_ne hm hρ hk hvars hpoint
  simp only [Ideal.respond, Request.renumber]
  generalize m.apply request.call = x at hagree ⊢
  generalize n.apply (request.call.renumber ρ) = y at hagree ⊢
  cases x <;> cases y
  · exact ⟨congrArg Except.error (Eq.symm hagree), h⟩
  · exact hagree.elim
  · exact hagree.elim
  · exact ⟨congrArg (fun value => Except.ok (request.kind.reply value)) hagree.1.symm, hagree.2⟩

end Pads

/-- Only a declaration changes which variables there are. -/
theorem widths_of_apply (m : Ideal) {k : Answer} (hk : k ≠ .var) {call : Call k} {value : k.Value}
    {m' : Ideal} (h : m.apply call = .ok (value, m')) :
    m'.limit = m.limit ∧ m'.widths = m.widths := by
  cases k with
  | var => exact absurd rfl hk
  | set | bool =>
    obtain ⟨_, -, ⟨⟩⟩ := map_eq_ok h
    exact ⟨rfl, rfl⟩
  | unit =>
    cases call with
    | release set =>
      obtain ⟨_, -, ⟨⟩⟩ := map_eq_ok h
      exact ⟨rfl, rfl⟩

/-- And only a declaration returns a variable. -/
theorem respond_of_kind (m : Ideal) {request : Request} (hk : request.kind ≠ .var) :
    (∀ var, (m.respond request).1 ≠ .ok (.var var)) ∧
      (m.respond request).2.limit = m.limit ∧ (m.respond request).2.widths = m.widths := by
  rw [respond]
  cases happly : m.apply request.call with
  | error e =>
    refine ⟨?_, rfl, rfl⟩
    rintro _ ⟨⟩
  | ok answer =>
    refine ⟨fun var heq => ?_, m.widths_of_apply hk happly⟩
    have hreply : request.kind.reply answer.1 = .var var := Except.ok.inj heq
    generalize answer.1 = value at hreply
    generalize request.kind = k at hk value
    cases k with
    | var => exact hk rfl
    | set | bool | unit => cases hreply

theorem respond_declare (m : Ideal) (name : String) (bits : UInt32) :
    m.respond ⟨.declare name bits⟩ =
      if bits.toNat = 0 ∨ 63 < bits.toNat then (.error (.invalidWidth bits), m)
      else if m.limit.toNat < bitCount m.widths + bits.toNat then
        (.error (.universeTooLarge (UInt32.ofNat (bitCount m.widths + bits.toNat)) m.limit), m)
      else (.ok (.var ⟨UInt32.ofNat m.widths.length⟩), m.grow bits) := by
  rw [respond, apply, declare]
  repeat' split
  all_goals simp_all [Answer.reply]

end Ideal

end LayeredSets
