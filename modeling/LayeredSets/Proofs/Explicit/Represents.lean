import LayeredSets.Proofs.Explicit.Ideal

/-!
# Explicit states stand for ideal states

A stored region stands for the set that it denotes. What makes equality of regions the same as
equality of sets is that every stored region is canonical over the bits of the variables declared so
far. Each operation on regions keeps this, and makes the set that the ideal domain makes.
-/

namespace LayeredSets

/-- Both failed with one error, or both succeeded with related values. -/
def Agree {α β : Type} (R : α → β → Prop) : Except DomainError α → Except DomainError β → Prop
  | .ok a, .ok b => R a b
  | .error e, .error f => e = f
  | _, _ => False

namespace Agree

variable {α β γ δ : Type} {R : α → β → Prop} {S : γ → δ → Prop}
  {x : Except DomainError α} {y : Except DomainError β}

theorem bind {f : α → Except DomainError γ} {g : β → Except DomainError δ} (h : Agree R x y)
    (hfg : ∀ a b, R a b → Agree S (f a) (g b)) : Agree S (x >>= f) (y >>= g) := by
  cases x <;> cases y
  · exact h
  · exact h.elim
  · exact h.elim
  · exact hfg _ _ h

theorem map {f : α → γ} {g : β → δ} (h : Agree R x y) (hfg : ∀ a b, R a b → S (f a) (g b)) :
    Agree S (f <$> x) (g <$> y) := by
  cases x <;> cases y
  · exact h
  · exact h.elim
  · exact h.elim
  · exact hfg _ _ h

theorem mono {R' : α → β → Prop} (h : Agree R x y) (hR : ∀ a b, R a b → R' a b) :
    Agree R' x y := by
  cases x <;> cases y
  · exact h
  · exact h
  · exact h
  · exact hR _ _ h

theorem of_map_right {g : β → δ} {S : α → δ → Prop} (h : Agree S x (g <$> y)) :
    Agree (fun a b => S a (g b)) x y := by
  cases x <;> cases y <;> exact h

theorem error_left {e : DomainError} (h : Agree R x (.error e)) : x = .error e := by
  cases x
  · exact congrArg Except.error h
  · exact h.elim

theorem ok_left {b : β} (h : Agree R x (.ok b)) : ∃ a, x = .ok a ∧ R a b := by
  cases x
  · exact h.elim
  · exact ⟨_, rfl, h⟩

/-- A step that both sides make alike. -/
theorem same_bind {ε : Type} (z : Except DomainError ε) {f : ε → Except DomainError γ}
    {g : ε → Except DomainError δ} (hfg : ∀ e, z = .ok e → Agree S (f e) (g e)) :
    Agree S (z >>= f) (z >>= g) := by
  cases z
  · rfl
  · exact hfg _ rfl

end Agree

/-- The ideal state that an explicit state stands for. -/
structure Represents (d : Explicit) (m : Ideal) : Prop where
  limit : d.limit = m.limit
  widths : d.vars.map (·.bits) = m.widths
  valid : ∀ bits ∈ m.widths, 0 < bits.toNat ∧ bits.toNat ≤ 63
  sets : ∀ set, m.sets set = (d.sets.get? set).map (denote m.widths)
  canonical : ∀ set r, d.sets.get? set = some r → r.Canonical (bitCount m.widths)
  issued : d.issued = UInt32.ofNat m.issued

namespace Represents

variable {d : Explicit} {m : Ideal}

theorem new (limit : UInt32) : Represents (Explicit.new limit) (Ideal.new limit) where
  limit := rfl
  widths := rfl
  valid := by simp [Ideal.new]
  sets _ := rfl
  canonical _ _ h := by simp [Explicit.new] at h
  issued := rfl

theorem length (h : Represents d m) : d.vars.length = m.widths.length := by
  rw [← h.widths, List.length_map]

/-! ## What calls look at -/

theorem bitsOf (h : Represents d m) (var : VarId) : d.bitsOf var = m.width var := by
  simp only [Explicit.bitsOf, Ideal.width, ← h.widths, List.getElem?_map]
  cases d.vars[var.index.toNat]? <;> rfl

theorem offset (h : Represents d m) (index : Nat) :
    d.offset index = bitCount (m.widths.take index) := by
  rw [Explicit.offset, ← h.widths, ← List.map_take, bitCount, List.map_map, List.sum_eq_foldl,
    List.foldl_map]
  rfl

theorem region (h : Represents d m) (set : SetId) :
    Agree (fun r s => r.Canonical (bitCount m.widths) ∧ denote m.widths r = s) (d.region set)
      (m.set set) := by
  simp only [Explicit.region, Ideal.set, h.sets]
  cases hr : d.sets.get? set with
  | none => rfl
  | some r => exact ⟨h.canonical set r hr, rfl⟩

theorem width_eq_ok {var : VarId} {bits : UInt32} (hw : m.width var = .ok bits) :
    ∃ hi : var.index.toNat < m.widths.length, m.widths[var.index.toNat] = bits := by
  simp only [Ideal.width] at hw
  cases hv : m.widths[var.index.toNat]? with
  | none => simp [hv] at hw
  | some width =>
    obtain ⟨hi, hwidth⟩ := List.getElem?_eq_some_iff.mp hv
    simp only [hv, Except.ok.injEq] at hw
    exact ⟨hi, hwidth.trans hw⟩

end Represents

theorem fits_iff {value : UInt64} {bits : UInt32} (h : bits.toNat ≤ 63) :
    fits value bits = true ↔ value.toNat < 2 ^ bits.toNat := by
  rw [fits, beq_iff_eq, ← UInt64.toNat_inj, UInt64.toNat_shiftRight, UInt32.toNat_toUInt64,
    Nat.mod_eq_of_lt (by omega), Nat.shiftRight_eq_div_pow]
  simp [Nat.div_eq_zero_iff]

theorem checkValue_eq {bits : UInt32} (value : UInt64) (h : bits.toNat ≤ 63) :
    Explicit.checkValue value bits = Ideal.checkValue value bits := by
  simp only [Explicit.checkValue, Ideal.checkValue, ← fits_iff h]

theorem checkPoint_eq {vars : List Variable} (point : List UInt64)
    (h : ∀ bits ∈ vars.map (·.bits), bits.toNat ≤ 63) :
    Explicit.checkPoint vars point = Ideal.checkPoint (vars.map (·.bits)) point := by
  induction vars generalizing point with
  | nil => rfl
  | cons v vars ih =>
    cases point with
    | nil => rfl
    | cons value point =>
      rw [List.map_cons, Explicit.checkPoint, Ideal.checkPoint, checkValue_eq _ (h _ (by simp)),
        ih point fun bits hb => h bits (by simp_all)]

theorem mem_box_of_checkPoint {widths : List UInt32} {point : List UInt64}
    (hlength : point.length = widths.length) (h : Ideal.checkPoint widths point = .ok ()) :
    point.map UInt64.toNat ∈ box widths := by
  induction widths generalizing point with
  | nil => simpa using hlength
  | cons width widths ih =>
    cases point with
    | nil => simp at hlength
    | cons value point =>
      rw [Ideal.checkPoint, Ideal.checkValue] at h
      split at h
      · next hvalue =>
        rw [List.map_cons, mem_box_cons]
        exact ⟨hvalue, ih (by simpa using hlength) h⟩
      · simp [bind, Except.bind] at h

namespace Represents

variable {d : Explicit} {m : Ideal}

/-! ## Calls that make a set or ask a question -/

theorem made_constant (h : Represents d m) (var : VarId) (value : UInt64) :
    Agree (fun r s => r.Canonical (bitCount m.widths) ∧ denote m.widths r = s)
      (d.made (.varEqConst var value)) (m.made (.varEqConst var value)) := by
  simp only [Explicit.made, Ideal.made, h.bitsOf]
  refine .same_bind _ fun bits hbits => ?_
  obtain ⟨hi, rfl⟩ := width_eq_ok hbits
  rw [checkValue_eq value (h.valid _ (List.getElem_mem hi)).2, h.offset]
  refine .same_bind _ fun _ hcheck => ?_
  have hvalue : value.toNat < 2 ^ m.widths[var.index.toNat].toNat := by
    rw [Ideal.checkValue] at hcheck
    split at hcheck
    · assumption
    · cases hcheck
  exact ⟨canonical_constantRegion hi value, denote_constantRegion hi hvalue⟩

theorem made_equality (h : Represents d m) (a b : VarId) :
    Agree (fun r s => r.Canonical (bitCount m.widths) ∧ denote m.widths r = s)
      (d.made (.varEqVar a b)) (m.made (.varEqVar a b)) := by
  simp only [Explicit.made, Ideal.made, h.bitsOf, h.offset]
  refine .same_bind _ fun left hleft => .same_bind _ fun right hright => ?_
  obtain ⟨hi, hl⟩ := width_eq_ok hleft
  obtain ⟨hj, hr⟩ := width_eq_ok hright
  by_cases heq : left = right
  · have hpos : ∀ bits ∈ m.widths, 0 < bits.toNat := fun bits hb => (h.valid bits hb).1
    have hsame : m.widths[a.index.toNat] = m.widths[b.index.toNat] := by rw [hl, hr, heq]
    simp only [heq, bne_self_eq_false, Bool.false_eq_true, if_false, ne_eq, not_true_eq_false]
    rw [← heq, ← hl]
    exact ⟨canonical_equalityRegion hpos hi hj hsame, denote_equalityRegion hpos hi hj hsame⟩
  · simp only [bne_iff_ne.mpr heq, if_true, ne_eq, heq, not_false_eq_true]
    rfl

theorem made_point (h : Represents d m) (point : List UInt64) :
    Agree (fun r s => r.Canonical (bitCount m.widths) ∧ denote m.widths r = s)
      (d.made (.singleton point)) (m.made (.singleton point)) := by
  have hcheck : Explicit.checkPoint d.vars point = Ideal.checkPoint m.widths point := by
    rw [← h.widths]
    exact checkPoint_eq point fun bits hb => (h.valid bits (h.widths ▸ hb)).2
  simp only [Explicit.made, Ideal.made, h.length, hcheck]
  by_cases hlength : point.length = m.widths.length
  · simp only [hlength, bne_self_eq_false, Bool.false_eq_true, if_false, ne_eq, not_true_eq_false]
    refine .same_bind _ fun _ hfits => ?_
    have hbox := mem_box_of_checkPoint hlength hfits
    rw [← h.widths] at hbox ⊢
    exact ⟨canonical_pointRegion _ _, denote_pointRegion hbox⟩
  · simp only [bne_iff_ne.mpr hlength, if_true, ne_eq, hlength, not_false_eq_true]
    rfl

theorem made_exists (h : Represents d m) (set : SetId) (var : VarId) :
    Agree (fun r s => r.Canonical (bitCount m.widths) ∧ denote m.widths r = s)
      (d.made (.exists set var)) (m.made (.exists set var)) := by
  simp only [Explicit.made, Ideal.made, h.bitsOf, h.offset]
  refine .same_bind _ fun bits hbits => ?_
  obtain ⟨hi, rfl⟩ := width_eq_ok hbits
  refine (h.region set).bind ?_
  rintro r s ⟨hr, hs⟩
  refine ⟨hr.forgetAt _ _, ?_⟩
  rw [denote_forgetAt hi, hs]

/-- The region that is stored denotes the set that the call makes. -/
theorem made (h : Represents d m) (call : Call .set) :
    Agree (fun r s => r.Canonical (bitCount m.widths) ∧ denote m.widths r = s)
      (d.made call) (m.made call) := by
  cases call with
  | top => exact ⟨Region.canonical_full _, denote_full _⟩
  | bottom => exact ⟨Region.canonical_empty _, denote_empty _⟩
  | varEqConst var value => exact h.made_constant var value
  | varEqVar a b => exact h.made_equality a b
  | singleton point => exact h.made_point point
  | union a b =>
    refine (h.region a).bind fun r s ⟨hr, hs⟩ => (h.region b).bind fun r' s' ⟨hr', hs'⟩ => ?_
    exact ⟨hr.union hr', by rw [denote_union, hs, hs']⟩
  | intersect a b =>
    refine (h.region a).bind fun r s ⟨hr, hs⟩ => (h.region b).bind fun r' s' ⟨hr', hs'⟩ => ?_
    exact ⟨hr.inter hr', by rw [denote_inter, hs, hs']⟩
  | difference a b =>
    refine (h.region a).bind fun r s ⟨hr, hs⟩ => (h.region b).bind fun r' s' ⟨hr', hs'⟩ => ?_
    exact ⟨hr.diff hr', by rw [denote_diff, hs, hs']⟩
  | complement a =>
    refine (h.region a).bind fun r s ⟨hr, hs⟩ => ?_
    exact ⟨hr.compl, by rw [denote_compl, hs]⟩
  | «exists» set var => exact h.made_exists set var

/-- Comparing canonical regions decides the question about the sets. -/
theorem answer (h : Represents d m) (call : Call .bool) :
    Agree (fun b q => b = true ↔ q) (d.answer call) (m.question call) := by
  cases call with
  | isEmpty a =>
    refine (h.region a).bind fun r s ⟨hr, hs⟩ => ?_
    change (r == .empty) = true ↔ s = ∅
    rw [← hs, denote_eq_empty_iff hr, beq_iff_eq]
  | equal a b =>
    refine (h.region a).bind fun r s ⟨hr, hs⟩ => (h.region b).bind fun r' s' ⟨hr', hs'⟩ => ?_
    change (r == r') = true ↔ s = s'
    rw [← hs, ← hs', denote_eq_iff hr hr', beq_iff_eq]
  | subset a b =>
    refine (h.region a).bind fun r s ⟨hr, hs⟩ => (h.region b).bind fun r' s' ⟨hr', hs'⟩ => ?_
    change (r.diff r' == .empty) = true ↔ s ⊆ s'
    rw [← hs, ← hs', denote_subset_iff hr hr', beq_iff_eq]

/-! ## How the state changes -/

theorem store (h : Represents d m) {r : Region} {s : Set Valuation}
    (hr : r.Canonical (bitCount m.widths)) (hs : denote m.widths r = s) :
    (d.store r).1 = (m.store s).1 ∧ Represents (d.store r).2 (m.store s).2 := by
  have hid : d.issued + 1 = UInt32.ofNat (m.issued + 1) := by
    rw [h.issued, UInt32.ofNat_add]
    rfl
  refine ⟨congrArg SetId.mk hid, ?_⟩
  constructor
  · exact h.limit
  · exact h.widths
  · exact h.valid
  · intro set
    by_cases hset : set = ⟨d.issued + 1⟩
    · subst hset
      simp [Explicit.store, Ideal.store, hid, hs]
    · have hset' : set ≠ ⟨UInt32.ofNat (m.issued + 1)⟩ := hid ▸ hset
      simp only [Explicit.store, Ideal.store, Function.update_of_ne hset',
        Table.get?_insert_of_ne _ _ hset, h.sets]
  · intro set r' hget
    by_cases hset : set = ⟨d.issued + 1⟩
    · subst hset
      simp only [Explicit.store, Table.get?_insert_self, Option.some.injEq] at hget
      exact hget ▸ hr
    · simp only [Explicit.store, Table.get?_insert_of_ne _ _ hset] at hget
      exact h.canonical set r' hget
  · exact hid

theorem release (h : Represents d m) (set : SetId) :
    Represents { d with sets := d.sets.erase set } (m.release set) := by
  constructor
  · exact h.limit
  · exact h.widths
  · exact h.valid
  · intro other
    by_cases hset : other = set
    · simp [Ideal.release, hset]
    · simp [Ideal.release, Function.update_of_ne hset, Table.get?_erase_of_ne _ hset, h.sets]
  · intro other r hget
    by_cases hset : other = set
    · simp [hset] at hget
    · simp only [Table.get?_erase_of_ne _ hset] at hget
      exact h.canonical other r hget
  · exact h.issued

/-- The regions stay as they are and denote cylinders from now on. -/
theorem grow (h : Represents d m) (name : String) {bits : UInt32} (hpos : 0 < bits.toNat)
    (hmax : bits.toNat ≤ 63) :
    Represents { d with vars := d.vars ++ [⟨name, bits⟩] } (m.grow bits) := by
  constructor
  · exact h.limit
  · simp [Ideal.grow, h.widths]
  · intro width hwidth
    rcases List.mem_append.mp hwidth with hold | hnew
    · exact h.valid width hold
    · rw [List.mem_singleton.mp hnew]
      exact ⟨hpos, hmax⟩
  · intro set
    simp only [Ideal.grow, h.sets, Option.map_map]
    cases hr : d.sets.get? set with
    | none => rfl
    | some r =>
      simp only [Option.map_some, Function.comp_apply, Option.some.injEq]
      rw [denote_append (h.canonical set r hr), cylinder_eq_image2]
  · intro set r hr
    refine (h.canonical set r hr).mono ?_
    simp [Ideal.grow]
  · exact h.issued

end Represents
end LayeredSets
