import LayeredSets.Proofs.Explicit.Sizes
import LayeredSets.Proofs.Guarded.Basic

/-!
# The explicit domain point by point

The explicit domain written out with the points of its sets and with a guard before each shift, each
look at a coordinate and each step of a counter. A declaration lengthens every point of every live
set, which is why the coordinates that are looked at later are there. No guard ever stops a run that
leaves some handles unused, and its outcomes are those of the explicit domain.
-/

namespace LayeredSets

structure Enumeration where
  limit : UInt32
  vars : List Variable
  sets : Table SetId (Finset Valuation)
  /-- The last set handle that was issued. -/
  issued : UInt32

namespace Enumeration

def new (limit : UInt32) : Enumeration := ⟨limit, [], .empty, 0⟩

variable (d : Enumeration)

def points (set : SetId) : Except Halt (Finset Valuation) :=
  match d.sets.get? set with
  | some points => .ok points
  | none => .error (.error (.unknownSet set))

def bitsOf (var : VarId) : Except Halt UInt32 :=
  match d.vars[var.index.toNat]? with
  | some v => .ok v.bits
  | none => .error (.error (.unknownVariable var))

def totalBits : Except Halt UInt32 := d.vars.foldlM (fun total v => Guard.add total v.bits) 0

/-- Keep a set under the next handle. -/
def store (points : Finset Valuation) : Except Halt (SetId × Enumeration) := do
  let issued ← Guard.add d.issued 1
  return (⟨issued⟩, { d with sets := d.sets.insert ⟨issued⟩ points, issued })

/-- Every value of one more variable behind each point. -/
def lengthen (points : Finset Valuation) (bits : UInt32) : Finset Valuation :=
  (points ×ˢ Finset.range (2 ^ bits.toNat)).image fun p => p.1 ++ [p.2]

def extend (points : Finset Valuation) (bits : UInt32) : Except Halt (Finset Valuation) := do
  Guard.shift bits
  return lengthen points bits

def everything : Except Halt (Finset Valuation) :=
  d.vars.foldlM (fun points v => extend points v.bits) {[]}

def checkValue (value : UInt64) (bits : UInt32) : Except Halt Unit := do
  Guard.shift bits
  if fits value bits then return () else throw (.error (.valueOutOfRange value bits))

def checkPoint : List Variable → List UInt64 → Except Halt Unit
  | v :: vars, value :: point => do
    checkValue value v.bits
    checkPoint vars point
  | _, _ => return ()

/-- All points have a coordinate at `index`. -/
def checkIndex (points : Finset Valuation) (index : Nat) : Except Halt Unit :=
  if ∀ p ∈ points, index < p.length then return () else throw (.mistake .position)

/-- Lengthen the points of all sets. -/
def extendAll (bits : UInt32) : Except Halt (Table SetId (Finset Valuation)) := do
  let entries ← d.sets.entries.mapM fun (set, points) => do
    let points ← extend points bits
    return (set, points)
  return ⟨entries⟩

def declare (name : String) (bits : UInt32) : Except Halt (VarId × Enumeration) :=
  if !isValidWidth bits then throw (.error (.invalidWidth bits))
  else do
    let total ← Guard.add (← d.totalBits) bits
    if d.limit < total then throw (.error (.universeTooLarge total d.limit))
    else
      let sets ← d.extendAll bits
      let vars := d.vars ++ [⟨name, bits⟩]
      let index ← Guard.sub (UInt32.ofNat vars.length) 1
      return (⟨index⟩, { d with vars, sets })

/-- The points that a call makes a set of. -/
def made : Call .set → Except Halt (Finset Valuation)
  | .top => d.everything
  | .bottom => return ∅
  | .varEqConst var value => do
    let bits ← d.bitsOf var
    checkValue value bits
    let points ← d.everything
    checkIndex points var.index.toNat
    return points.filter fun p => p[var.index.toNat]? = some value.toNat
  | .varEqVar a b => do
    let left ← d.bitsOf a
    let right ← d.bitsOf b
    if left ≠ right then throw (.error (.widthMismatch left right))
    let points ← d.everything
    checkIndex points a.index.toNat
    checkIndex points b.index.toNat
    return points.filter fun p => p[a.index.toNat]? = p[b.index.toNat]?
  | .singleton point => do
    if point.length ≠ d.vars.length then
      throw (.error (.arityMismatch d.vars.length point.length))
    checkPoint d.vars point
    return {point.map UInt64.toNat}
  | .union a b => return (← d.points a) ∪ (← d.points b)
  | .intersect a b => return (← d.points a) ∩ (← d.points b)
  | .difference a b => return (← d.points a) \ (← d.points b)
  | .complement a => do
    let points ← d.points a
    return (← d.everything) \ points
  | .exists set var => do
    let bits ← d.bitsOf var
    let points ← d.points set
    checkIndex points var.index.toNat
    Guard.shift bits
    return (points ×ˢ Finset.range (2 ^ bits.toNat)).image fun p => p.1.set var.index.toNat p.2

def answer : Call .bool → Except Halt Bool
  | .isEmpty a => return (← d.points a) = ∅
  | .equal a b => return (← d.points a) = (← d.points b)
  | .subset a b => return (← d.points a) ⊆ (← d.points b)

def apply : {k : Answer} → Call k → Except Halt (k.Value × Enumeration)
  | .var, .declare name bits => d.declare name bits
  | .set, call => do d.store (← d.made call)
  | .bool, call => return (← d.answer call, d)
  | .unit, .release set => do
    let _ ← d.points set
    return ((), { d with sets := d.sets.erase set })

def step {k : Answer} (call : Call k) : Action Halt Enumeration k.Value := fun d host =>
  match d.apply call with
  | .ok (value, d) => (.ok value, d, host)
  | .error halt => (.error halt, d, host)

end Enumeration

/-! ## Steps that meet -/

/-- No guard stops the one side, and both fail with one error or succeed with related values. -/
def Meets {α β : Type} (R : α → β → Prop) : Except Halt α → Except DomainError β → Prop
  | .ok a, .ok b => R a b
  | .error (.error e), .error f => e = f
  | _, _ => False

namespace Meets

variable {α β γ δ : Type} {R : α → β → Prop} {S : γ → δ → Prop} {x : Except Halt α}
  {y : Except DomainError β}

theorem bind {f : α → Except Halt γ} {g : β → Except DomainError δ} (h : Meets R x y)
    (hfg : ∀ a b, y = .ok b → R a b → Meets S (f a) (g b)) : Meets S (x >>= f) (y >>= g) := by
  rcases x with (_ | _) | a <;> cases y
  · exact h.elim
  · exact h.elim
  · exact h
  · exact h.elim
  · exact h.elim
  · exact hfg _ _ rfl h

protected theorem pure {a : α} {b : β} (h : R a b) : Meets R (pure a) (pure b) := h

protected theorem throw (e : DomainError) : Meets R (throw (.error e)) (throw e) := rfl

/-- A guarded step to which nothing corresponds. -/
theorem guard_bind {a : γ} {z : Except Halt γ} {f : γ → Except Halt α} (hz : z = .ok a)
    (h : Meets R (f a) y) : Meets R (z >>= f) y := by
  rw [hz]
  exact h

theorem ite {p : Prop} [Decidable p] {x' : Except Halt α} {y' : Except DomainError β}
    (h : p → Meets R x y) (h' : ¬p → Meets R x' y') :
    Meets R (if p then x else x') (if p then y else y') := by
  split
  · next hp => exact h hp
  · next hp => exact h' hp

end Meets

/-! ## Points and valuations -/

namespace Ideal.Bounded

variable {m : Ideal}

theorem store (h : m.Bounded) {s : Set Valuation} (hs : s ⊆ box m.widths) :
    (m.store s).2.Bounded := by
  intro set t ht
  by_cases hset : set = (m.store s).1
  · subst hset
    simp only [Ideal.store, Function.update_self, Option.some.injEq] at ht
    exact ht ▸ hs
  · exact h set t ((Function.update_of_ne hset _ _).symm.trans ht)

theorem release (h : m.Bounded) (set : SetId) : (m.release set).Bounded := by
  intro other t ht
  by_cases hset : other = set
  · simp [Ideal.release, hset] at ht
  · exact h other t ((Function.update_of_ne hset _ _).symm.trans ht)

theorem grow (h : m.Bounded) (bits : UInt32) : (m.grow bits).Bounded := by
  intro set t ht
  obtain ⟨s, hs, rfl⟩ := Option.map_eq_some_iff.mp ht
  rw [Ideal.grow, box_concat]
  rintro _ ⟨v, hv, x, hx, rfl⟩
  exact ⟨v, h set s hs hv, x, hx, rfl⟩

end Ideal.Bounded

/-- The points are those of the set, and lie in the box. -/
def Enumerated (widths : List UInt32) (points : Finset Valuation) (s : Set Valuation) : Prop :=
  (points : Set Valuation) = s ∧ s ⊆ box widths

/-- The ideal state whose sets are listed. -/
structure Enumerates (d : Enumeration) (m : Ideal) : Prop where
  limit : d.limit = m.limit
  widths : d.vars.map (·.bits) = m.widths
  valid : ∀ bits ∈ m.widths, 0 < bits.toNat ∧ bits.toNat ≤ 63
  sets : ∀ set, m.sets set = (d.sets.get? set).map fun points => (points : Set Valuation)
  bounded : m.Bounded
  issued : d.issued.toNat = m.issued

namespace Enumerates

open Enumeration

variable {d : Enumeration} {m : Ideal}

theorem new (limit : UInt32) : Enumerates (Enumeration.new limit) (Ideal.new limit) where
  limit := rfl
  widths := rfl
  valid := by simp [Ideal.new]
  sets _ := rfl
  bounded _ _ h := by simp [Ideal.new] at h
  issued := rfl

theorem length (h : Enumerates d m) : d.vars.length = m.widths.length := by
  rw [← h.widths, List.length_map]

theorem bitsOf (h : Enumerates d m) (var : VarId) :
    Meets (fun bits bits' => bits = bits' ∧ ∃ hi : var.index.toNat < m.widths.length,
      m.widths[var.index.toNat] = bits) (d.bitsOf var) (m.width var) := by
  simp only [Enumeration.bitsOf, Ideal.width, ← h.widths, List.getElem?_map]
  cases hv : d.vars[var.index.toNat]? with
  | none => rfl
  | some v =>
    obtain ⟨hi, rfl⟩ := List.getElem?_eq_some_iff.mp hv
    exact ⟨rfl, by simpa using hi, by simp⟩

theorem points (h : Enumerates d m) (set : SetId) :
    Meets (Enumerated m.widths) (d.points set) (m.set set) := by
  simp only [Enumeration.points, Ideal.set, h.sets]
  cases hp : d.sets.get? set with
  | none => rfl
  | some p => exact ⟨rfl, h.bounded set _ (by rw [h.sets, hp]; rfl)⟩

/-- Two sets are looked up, one after the other. -/
theorem both {α β : Type} {R : α → β → Prop} (h : Enumerates d m) (a b : SetId)
    {f : Finset Valuation → Finset Valuation → α} {g : Set Valuation → Set Valuation → β}
    (hfg : ∀ p q : Finset Valuation, (p : Set Valuation) ⊆ box m.widths →
      (q : Set Valuation) ⊆ box m.widths → R (f p q) (g p q)) :
    Meets R (do return f (← d.points a) (← d.points b)) (do return g (← m.set a) (← m.set b)) := by
  refine (h.points a).bind ?_
  rintro p _ - ⟨rfl, hp⟩
  refine (h.points b).bind ?_
  rintro q _ - ⟨rfl, hq⟩
  exact .pure (hfg p q hp hq)

end Enumerates

namespace Enumeration

theorem coe_lengthen (points : Finset Valuation) (bits : UInt32) :
    (lengthen points bits : Set Valuation) = cylinder bits points := by
  ext u
  simp [lengthen, cylinder, eq_comm, and_assoc]

theorem extend_eq (points : Finset Valuation) {bits : UInt32} (h : bits.toNat ≤ 63) :
    extend points bits = .ok (lengthen points bits) := by
  rw [extend, Guard.shift_eq h]
  rfl

theorem extendAll_eq (d : Enumeration) {bits : UInt32} (h : bits.toNat ≤ 63) :
    d.extendAll bits = .ok (d.sets.map (lengthen · bits)) := by
  have hentries : (d.sets.entries.mapM fun (set, points) => do
      let points ← extend points bits
      return (set, points)) = .ok (d.sets.map (lengthen · bits)).entries := by
    rw [Table.map]
    induction d.sets.entries with
    | nil => rfl
    | cons entry entries ih =>
      obtain ⟨set, points⟩ := entry
      rw [List.mapM_cons, ih]
      simp only [extend_eq points h]
      rfl
  rw [extendAll, hentries]
  rfl

theorem foldlM_extend (vars : List Variable) {widths : List UInt32} {points : Finset Valuation}
    (hpoints : (points : Set Valuation) = box widths) (hmax : ∀ v ∈ vars, v.bits.toNat ≤ 63) :
    ∃ all, vars.foldlM (fun points v => extend points v.bits) points = .ok all ∧
      (all : Set Valuation) = box (widths ++ vars.map (·.bits)) := by
  induction vars generalizing widths points with
  | nil => exact ⟨points, rfl, by simpa using hpoints⟩
  | cons v vars ih =>
    obtain ⟨hv, hvars⟩ := List.forall_mem_cons.mp hmax
    have hlonger := coe_lengthen points v.bits
    rw [hpoints, ← box_concat] at hlonger
    obtain ⟨all, hall, hbox⟩ := ih hlonger hvars
    refine ⟨all, ?_, by simpa using hbox⟩
    rw [List.foldlM_cons, extend_eq points hv]
    exact hall

/-- Neither does any partial sum leave the word. -/
theorem totalBits_eq {d : Enumeration} (h : bitCount (d.vars.map (·.bits)) < 2 ^ 32) :
    ∃ total, d.totalBits = .ok total ∧ total.toNat = bitCount (d.vars.map (·.bits)) := by
  have key (vars : List Variable) (start : UInt32)
      (hsum : start.toNat + bitCount (vars.map (·.bits)) < 2 ^ 32) :
      ∃ total, vars.foldlM (fun total v => Guard.add total v.bits) start = .ok total ∧
        total.toNat = start.toNat + bitCount (vars.map (·.bits)) := by
    induction vars generalizing start with
    | nil => exact ⟨start, rfl, rfl⟩
    | cons v vars ih =>
      rw [List.map_cons, bitCount_cons] at hsum
      have hnext : (start + v.bits).toNat = start.toNat + v.bits.toNat := by
        rw [UInt32.toNat_add, Nat.mod_eq_of_lt (by omega)]
      obtain ⟨total, htotal, heq⟩ := ih (start + v.bits) (by omega)
      refine ⟨total, ?_, by rw [heq, hnext, List.map_cons, bitCount_cons]; omega⟩
      rw [List.foldlM_cons, Guard.add_eq (by omega)]
      exact htotal
  have hkey := key d.vars 0 (by simpa using h)
  simpa [totalBits] using hkey

theorem meets_checkValue (value : UInt64) {bits : UInt32} (h : bits.toNat ≤ 63) :
    Meets (fun _ _ => value.toNat < 2 ^ bits.toNat) (checkValue value bits)
      (Ideal.checkValue value bits) := by
  rw [checkValue, Ideal.checkValue]
  refine .guard_bind (Guard.shift_eq h) ?_
  simp only [fits_iff h]
  exact .ite (fun hfits => .pure hfits) fun _ => .throw _

theorem meets_checkPoint {vars : List Variable} (point : List UInt64)
    (h : ∀ bits ∈ vars.map (·.bits), bits.toNat ≤ 63) :
    Meets (fun _ _ => True) (checkPoint vars point)
      (Ideal.checkPoint (vars.map (·.bits)) point) := by
  induction vars generalizing point with
  | nil => exact .pure trivial
  | cons v vars ih =>
    cases point with
    | nil => exact .pure trivial
    | cons value point =>
      rw [List.map_cons, List.forall_mem_cons] at h
      exact (meets_checkValue value h.1).bind fun _ _ _ _ => ih point h.2

/-- The points of a box have all coordinates. -/
theorem checkIndex_eq {points : Finset Valuation} {widths : List UInt32}
    (hpoints : (points : Set Valuation) ⊆ box widths) {index : Nat} (hi : index < widths.length) :
    checkIndex points index = .ok () :=
  if_pos fun _ hp => hi.trans_eq (length_of_mem_box (hpoints hp)).symm

/-- Moving a coordinate through its range gives what can be moved into the set. -/
theorem coe_image_set {points : Finset Valuation} {widths : List UInt32}
    (hpoints : (points : Set Valuation) ⊆ box widths) {i : Nat} (hi : i < widths.length) :
    (((points ×ˢ Finset.range (2 ^ widths[i].toNat)).image fun p => p.1.set i p.2 :
      Finset Valuation) : Set Valuation) =
      {v ∈ box widths | ∃ x, v.set i x ∈ (points : Set Valuation)} := by
  ext v
  simp only [Finset.coe_image, Finset.coe_product, Set.mem_image, Set.mem_prod, Finset.mem_coe,
    Finset.mem_range, Set.mem_ofPred_eq]
  constructor
  · rintro ⟨⟨p, x⟩, ⟨hp, hx⟩, rfl⟩
    have hlt : i < p.length := hi.trans_eq (length_of_mem_box (hpoints hp)).symm
    exact ⟨(set_mem_box (hpoints hp) hi).mpr hx, p[i], by simpa using hp⟩
  · rintro ⟨hv, x, hx⟩
    have hlt : i < v.length := hi.trans_eq (length_of_mem_box hv).symm
    exact ⟨(v.set i x, v[i]), ⟨hx, lt_of_mem_box hv hlt hi⟩, by simp⟩

end Enumeration

namespace Enumerates

open Enumeration

variable {d : Enumeration} {m : Ideal}

theorem everything (h : Enumerates d m) :
    ∃ all, d.everything = .ok all ∧ (all : Set Valuation) = box m.widths := by
  have hmax : ∀ v ∈ d.vars, v.bits.toNat ≤ 63 := fun v hv =>
    (h.valid _ (h.widths ▸ List.mem_map_of_mem hv)).2
  have hall := @foldlM_extend d.vars [] {[]} (by ext v; simp) hmax
  rwa [List.nil_append, h.widths] at hall

/-- The points that a call makes a set of are those of the set that the ideal domain makes. -/
theorem made (h : Enumerates d m) (call : Call .set) :
    Meets (Enumerated m.widths) (d.made call) (m.made call) := by
  obtain ⟨all, hall, hbox⟩ := h.everything
  cases call with
  | top =>
    rw [Enumeration.made, hall]
    exact ⟨hbox, subset_rfl⟩
  | bottom => exact .pure ⟨by simp, Set.empty_subset _⟩
  | varEqConst var value =>
    refine (h.bitsOf var).bind ?_
    rintro bits _ - ⟨rfl, hi, rfl⟩
    refine (meets_checkValue value (h.valid _ (List.getElem_mem hi)).2).bind fun _ _ _ _ => ?_
    refine .guard_bind hall (.guard_bind (checkIndex_eq hbox.subset hi) (.pure ⟨?_, ?_⟩))
    · rw [Finset.coe_filter]
      simp only [← Finset.mem_coe, hbox]
    · exact Set.sep_subset _ _
  | varEqVar a b =>
    refine (h.bitsOf a).bind ?_
    rintro left _ - ⟨rfl, hi, -⟩
    refine (h.bitsOf b).bind ?_
    rintro right _ - ⟨rfl, hj, -⟩
    refine .ite (fun _ => .throw _) fun _ => ?_
    refine .guard_bind hall (.guard_bind (checkIndex_eq hbox.subset hi)
      (.guard_bind (checkIndex_eq hbox.subset hj) (.pure ⟨?_, ?_⟩)))
    · rw [Finset.coe_filter]
      simp only [← Finset.mem_coe, hbox]
    · exact Set.sep_subset _ _
  | singleton point =>
    simp only [Enumeration.made, Ideal.made, h.length]
    refine .ite (fun _ => .throw _) fun hlength => ?_
    have hvalid : ∀ bits ∈ d.vars.map (·.bits), bits.toNat ≤ 63 :=
      fun bits hbits => (h.valid bits (h.widths ▸ hbits)).2
    have hcheck := meets_checkPoint point hvalid
    rw [h.widths] at hcheck
    refine hcheck.bind fun _ _ hfits _ => .pure ⟨Finset.coe_singleton _, ?_⟩
    exact Set.singleton_subset_iff.mpr (mem_box_of_checkPoint (not_ne_iff.mp hlength) hfits)
  | union a b =>
    exact h.both a b fun p q hp hq => ⟨Finset.coe_union p q, Set.union_subset hp hq⟩
  | intersect a b =>
    exact h.both a b fun p q hp _ => ⟨Finset.coe_inter p q, Set.inter_subset_left.trans hp⟩
  | difference a b =>
    exact h.both a b fun p q hp _ => ⟨Finset.coe_sdiff p q, Set.sdiff_subset.trans hp⟩
  | complement a =>
    refine (h.points a).bind ?_
    rintro p _ - ⟨rfl, -⟩
    exact .guard_bind hall (.pure ⟨by rw [Finset.coe_sdiff, hbox], Set.sdiff_subset⟩)
  | «exists» set var =>
    refine (h.bitsOf var).bind ?_
    rintro bits _ - ⟨rfl, hi, rfl⟩
    refine (h.points set).bind ?_
    rintro p _ - ⟨rfl, hs⟩
    refine .guard_bind (checkIndex_eq hs hi)
      (.guard_bind (Guard.shift_eq (h.valid _ (List.getElem_mem hi)).2) (.pure ⟨?_, ?_⟩))
    · exact coe_image_set hs hi
    · exact Set.sep_subset _ _

theorem answer (h : Enumerates d m) (call : Call .bool) :
    Meets (fun b q => b = true ↔ q) (d.answer call) (m.question call) := by
  cases call with
  | isEmpty a =>
    refine (h.points a).bind ?_
    rintro p _ - ⟨rfl, -⟩
    exact .pure (by simp)
  | equal a b => exact h.both a b fun p q _ _ => by simp
  | subset a b => exact h.both a b fun p q _ _ => by simp

/-! ## Calls -/

theorem store (h : Enumerates d m) {points : Finset Valuation} {s : Set Valuation}
    (hpoints : Enumerated m.widths points s) (hroom : m.issued + 1 < 2 ^ 32) :
    Meets (fun x y => x.1 = y.1 ∧ Enumerates x.2 y.2) (d.store points) (.ok (m.store s)) := by
  obtain ⟨rfl, hbounded⟩ := hpoints
  have hnext : d.issued.toNat + (1 : UInt32).toNat < 2 ^ 32 := by rwa [h.issued]
  have hissued : (d.issued + 1).toNat = m.issued + 1 := by
    rw [UInt32.toNat_add, Nat.mod_eq_of_lt hnext, h.issued]
    rfl
  have hid : d.issued + 1 = UInt32.ofNat (m.issued + 1) := by rw [← hissued, UInt32.ofNat_toNat]
  refine .guard_bind (Guard.add_eq hnext) ⟨congrArg SetId.mk hid, ?_⟩
  refine ⟨h.limit, h.widths, h.valid, fun set => ?_, h.bounded.store hbounded, hissued⟩
  by_cases hset : set = ⟨d.issued + 1⟩
  · subst hset
    simp [Ideal.store, hid]
  · have hset' : set ≠ ⟨UInt32.ofNat (m.issued + 1)⟩ := hid ▸ hset
    simp only [Ideal.store, Function.update_of_ne hset', Table.get?_insert_of_ne _ _ hset, h.sets]

theorem release (h : Enumerates d m) (set : SetId) :
    Enumerates { d with sets := d.sets.erase set } (m.release set) := by
  refine ⟨h.limit, h.widths, h.valid, fun other => ?_, h.bounded.release set, h.issued⟩
  by_cases hset : other = set
  · simp [Ideal.release, hset]
  · simp [Ideal.release, Function.update_of_ne hset, Table.get?_erase_of_ne _ hset, h.sets]

/-- Every point of every live set is lengthened in the call that adds the variable. -/
theorem grow (h : Enumerates d m) (name : String) {bits : UInt32} (hpos : 0 < bits.toNat)
    (hmax : bits.toNat ≤ 63) :
    Enumerates { d with vars := d.vars ++ [⟨name, bits⟩], sets := d.sets.map (lengthen · bits) }
      (m.grow bits) := by
  refine ⟨h.limit, by simp [Ideal.grow, h.widths], ?_, fun set => ?_, h.bounded.grow bits, h.issued⟩
  · exact List.forall_mem_append.mpr ⟨h.valid, by simpa using ⟨hpos, hmax⟩⟩
  · simp only [Ideal.grow, h.sets, Table.get?_map]
    cases d.sets.get? set with
    | none => rfl
    | some points => exact congrArg some (coe_lengthen points bits).symm

theorem declare (h : Enumerates d m) (hm : m.Within) (name : String) (bits : UInt32) :
    Meets (fun x y => x.1 = y.1 ∧ Enumerates x.2 y.2) (d.declare name bits) (m.declare bits) := by
  have hlimit := hm.limit
  have hbits := hm.bits
  obtain ⟨total, htotal, hsum⟩ := @totalBits_eq d (by rw [h.widths]; omega)
  rw [h.widths] at hsum
  rw [Enumeration.declare, Ideal.declare]
  by_cases hvalid : 0 < bits.toNat ∧ bits.toNat ≤ 63
  swap
  · have hinvalid : isValidWidth bits = false := by
      rw [← Bool.not_eq_true, isValidWidth_iff]
      exact hvalid
    rw [hinvalid, if_pos (show bits.toNat = 0 ∨ 63 < bits.toNat by omega)]
    exact .throw _
  have hnext : (total + bits).toNat = bitCount m.widths + bits.toNat := by
    rw [UInt32.toNat_add, Nat.mod_eq_of_lt (by omega), hsum]
  have hlarge : d.limit < total + bits ↔ m.limit.toNat < bitCount m.widths + bits.toNat := by
    rw [h.limit, UInt32.lt_iff_toNat_lt, hnext]
  rw [(isValidWidth_iff bits).mpr hvalid, if_neg (by omega : ¬(bits.toNat = 0 ∨ 63 < bits.toNat))]
  refine .guard_bind htotal (.guard_bind (Guard.add_eq (by omega)) ?_)
  simp only [hlarge]
  refine .ite (fun _ => ?_) fun hfits => ?_
  · rw [h.limit, ← hnext, UInt32.ofNat_toNat]
    exact .throw _
  · refine .guard_bind (d.extendAll_eq hvalid.2) ?_
    have hlength := length_le_bitCount fun bits hbits => (h.valid bits hbits).1
    rw [List.length_append, List.length_singleton, h.length]
    exact .guard_bind (Guard.sub_one_eq (by omega)) ⟨rfl, h.grow name hvalid.1 hvalid.2⟩

theorem apply (h : Enumerates d m) (hm : m.Within) {k : Answer} (call : Call k)
    (hroom : ∀ y, m.apply call = .ok y → y.2.issued < 2 ^ 32) :
    Meets (fun x y => x.1 = y.1 ∧ Enumerates x.2 y.2) (d.apply call) (m.apply call) := by
  cases k with
  | var =>
    cases call with
    | declare name bits => exact h.declare hm name bits
  | set =>
    refine (h.made call).bind fun points s hs hpoints => h.store hpoints ?_
    exact hroom (m.store s) (by rw [Ideal.apply, hs]; rfl)
  | bool =>
    classical
    refine (h.answer call).bind fun b q _ hbq => .pure ⟨?_, h⟩
    rw [Bool.eq_iff_iff, hbq, decide_eq_true_iff]
  | unit =>
    cases call with
    | release set => exact (h.points set).bind fun _ _ _ _ => .pure ⟨rfl, h.release set⟩

/-- One call. -/
theorem respond (h : Enumerates d m) (hm : m.Within) (request : Request) (host : Host)
    (hroom : (m.respond request).2.issued < 2 ^ 32) :
    ∃ d', Guarded.respond step request d host = .ok ((m.respond request).1, d', host) ∧
      Enumerates d' (m.respond request).2 := by
  have hmeets := h.apply hm request.call fun y hy => by
    rwa [Ideal.respond, hy] at hroom
  rw [Guarded.respond, step, Ideal.respond]
  rcases hd : d.apply request.call with (_ | e) | ⟨value, d'⟩ <;>
    rcases hi : m.apply request.call with e' | ⟨value', m'⟩ <;> rw [hd, hi] at hmeets
  · exact hmeets.elim
  · exact hmeets.elim
  · obtain rfl : e = e' := hmeets
    exact ⟨d, rfl, h⟩
  · exact hmeets.elim
  · exact hmeets.elim
  · obtain ⟨rfl, hd'⟩ := hmeets
    exact ⟨d', rfl, hd'⟩

/-- A run: by induction on the calls. What the last of them leaves of the handles, the earlier ones
have left as well. -/
theorem run (h : Enumerates d m) (hm : m.Within) (requests : List Request) (host : Host)
    (hroom : (m.run requests).2.issued < 2 ^ 32) :
    ∃ d', Guarded.run step requests d host = .ok ((m.run requests).1, d', host) ∧
      Enumerates d' (m.run requests).2 := by
  induction requests generalizing d m with
  | nil => exact ⟨d, rfl, h⟩
  | cons request requests ih =>
    have hfirst := (Ideal.issued_run requests (m.respond request).2).2.trans_lt hroom
    obtain ⟨d', hrespond, hd'⟩ := h.respond hm request host hfirst
    obtain ⟨d'', hrun, hd''⟩ := ih hd' (hm.respond request) hroom
    refine ⟨d'', ?_, hd''⟩
    rw [Guarded.run, hrespond]
    simp only [bind, Except.bind, hrun]
    rfl

end Enumerates

namespace Enumeration

/-- Written out with its guards, the explicit domain runs as it does without them. -/
theorem run_eq {limit : UInt32} (hlimit : limit.toNat ≤ 2 ^ 32 - 64) (requests : List Request)
    (host host' : Host)
    (hfew : (issuedSets (Explicit.operations.run requests (.new limit) host').1).length < 2 ^ 32) :
    ∃ d, Guarded.run step requests (new limit) host =
      .ok ((Explicit.operations.run requests (.new limit) host').1, d, host) := by
  obtain ⟨houtcomes, -⟩ := (Represents.new limit).run (.new hlimit) requests host'
  rw [houtcomes, (Ideal.issued_run requests (Ideal.new limit)).1, List.length_map,
    List.length_range'] at hfew
  obtain ⟨d, hrun, -⟩ := (Enumerates.new limit).run (.new hlimit) requests host hfew
  exact ⟨d, houtcomes ▸ hrun⟩

end Enumeration
end LayeredSets
