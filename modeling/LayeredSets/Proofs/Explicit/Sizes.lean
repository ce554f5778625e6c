import LayeredSets.Proofs.Explicit.Beside
import Mathlib.Order.Interval.Set.Nat

/-!
# How large the sets are

The sizes that the explicit domain reports obey the laws of counting: they add up over unions and
complements, grow by a power of two with each declaration, and stay within the limit. The sum of the
declared widths stays within the limit as well and never leaves its word.
-/

namespace LayeredSets

/-! ## Counting valuations -/

variable {widths : List UInt32} {s : Set Valuation}

theorem finite_box (widths : List UInt32) : (box widths).Finite :=
  Set.finite_of_ncard_ne_zero (by simp [ncard_box])

/-- A cylinder is a product with the range of the new variable. -/
theorem ncard_cylinder (bits : UInt32) (s : Set Valuation) :
    (cylinder bits s).ncard = s.ncard * 2 ^ bits.toNat := by
  have himage : cylinder bits s =
      (fun p : Valuation × Nat => p.1 ++ [p.2]) '' s ×ˢ Set.Iio (2 ^ bits.toNat) := by
    ext u
    constructor
    · rintro ⟨v, hv, x, hx, rfl⟩
      exact ⟨(v, x), ⟨hv, hx⟩, rfl⟩
    · rintro ⟨⟨v, x⟩, ⟨hv, hx⟩, rfl⟩
      exact ⟨v, hv, x, hx, rfl⟩
  have hinj : Function.Injective fun p : Valuation × Nat => p.1 ++ [p.2] := by
    rintro ⟨v, x⟩ ⟨u, y⟩ heq
    obtain ⟨hfront, hlast⟩ := List.append_inj' heq rfl
    exact Prod.ext hfront (List.singleton_inj.mp hlast)
  rw [himage, Set.ncard_image_of_injective _ hinj, Set.ncard_prod, Set.ncard_Iio_nat]

/-- A projection is a product of what remains of the set without the variable, and the range of the
variable. -/
theorem ncard_project (hs : s ⊆ box widths) {i : Nat} (hi : i < widths.length) :
    {v ∈ box widths | ∃ x, v.set i x ∈ s}.ncard =
      ((·.eraseIdx i) '' s).ncard * 2 ^ widths[i].toNat := by
  let apart (v : Valuation) := (v.eraseIdx i, v[i]?.getD 0)
  have hlength {v : Valuation} (hv : v ∈ box widths) : i < v.length :=
    hi.trans_eq (length_of_mem_box hv).symm
  have hinj : Set.InjOn apart {v ∈ box widths | ∃ x, v.set i x ∈ s} := by
    intro v hv u hu heq
    obtain ⟨hrest, hat⟩ := Prod.mk.inj heq
    rw [List.getElem?_eq_getElem (hlength hv.1), List.getElem?_eq_getElem (hlength hu.1),
      Option.getD_some, Option.getD_some] at hat
    rw [← List.insertIdx_eraseIdx_getElem (hlength hv.1), hrest, hat,
      List.insertIdx_eraseIdx_getElem (hlength hu.1)]
  have himage : apart '' {v ∈ box widths | ∃ x, v.set i x ∈ s} =
      ((·.eraseIdx i) '' s) ×ˢ Set.Iio (2 ^ widths[i].toNat) := by
    ext ⟨rest, y⟩
    constructor
    · rintro ⟨v, ⟨hv, x, hx⟩, heq⟩
      obtain ⟨rfl, rfl⟩ := Prod.mk.inj heq
      refine ⟨⟨_, hx, List.eraseIdx_set_eq⟩, ?_⟩
      rw [List.getElem?_eq_getElem (hlength hv), Option.getD_some]
      exact lt_of_mem_box hv (hlength hv) hi
    · rintro ⟨⟨u, hu, rfl⟩, hy⟩
      refine ⟨u.set i y, ⟨(set_mem_box (hs hu) hi).mpr hy, u.get ⟨i, hlength (hs hu)⟩, ?_⟩, ?_⟩
      · simpa using hu
      · simp [apart, hlength (hs hu), List.eraseIdx_set_eq]
  rw [← hinj.ncard_image, himage, Set.ncard_prod, Set.ncard_Iio_nat]

namespace Ideal

variable {m : Ideal}

theorem set_grow (m : Ideal) (bits : UInt32) (set : SetId) :
    (m.grow bits).set set = cylinder bits <$> m.set set := by
  simp only [Ideal.set, grow]
  cases m.sets set <;> rfl

theorem limit_respond (m : Ideal) (request : Request) : (m.respond request).2.limit = m.limit := by
  obtain ⟨call⟩ := request
  cases call with
  | declare name bits =>
    rw [respond_declare]
    split_ifs <;> rfl
  | _ => exact (m.respond_of_kind (by simp)).2.1

theorem Within.run (h : m.Within) (requests : List Request) :
    (m.run requests).2.Within ∧ (m.run requests).2.limit = m.limit := by
  induction requests generalizing m with
  | nil => exact ⟨h, rfl⟩
  | cons request requests ih =>
    obtain ⟨hwithin, hlimit⟩ := ih (h.respond request)
    exact ⟨hwithin, hlimit.trans (m.limit_respond request)⟩

end Ideal

namespace Explicit

/-- The size of the set that a call makes, asked for right after the call. -/
def sizeMade (d : Explicit) (call : Call .set) : Except DomainError Nat := do
  let (set, d') ← d.apply call
  d'.cardinality set

/-- The laws that the sizes of a domain's sets obey. -/
structure Counts (limit : UInt32) (d : Explicit) : Prop where
  /-- The widths are added up without leaving the word. -/
  totalBits : d.totalBits.toNat = bitCount (d.vars.map (·.bits))
  within : d.totalBits ≤ limit
  /-- Neither does the sum with one more width, which is compared with the limit. -/
  next : ∀ bits, isValidWidth bits = true →
    (d.totalBits + bits).toNat = d.totalBits.toNat + bits.toNat
  /-- Sizes count valuations of the declared variables. -/
  cardinality : ∀ set r, d.sets.get? set = some r →
    d.cardinality set = .ok (denote (d.vars.map (·.bits)) r).ncard
  bounded : ∀ set n, d.cardinality set = .ok n → n ≤ 2 ^ d.totalBits.toNat
  top : d.sizeMade .top = .ok (2 ^ d.totalBits.toNat)
  complement : ∀ a n, d.cardinality a = .ok n →
    ∃ rest, d.sizeMade (.complement a) = .ok rest ∧ n + rest = 2 ^ d.totalBits.toNat
  union_inter : ∀ a b n m, d.cardinality a = .ok n → d.cardinality b = .ok m →
    ∃ either both, d.sizeMade (.union a b) = .ok either ∧ d.sizeMade (.intersect a b) = .ok both ∧
      either + both = n + m
  inter_diff : ∀ a b n m, d.cardinality a = .ok n → d.cardinality b = .ok m →
    ∃ both only, d.sizeMade (.intersect a b) = .ok both ∧ d.sizeMade (.difference a b) = .ok only ∧
      n = both + only
  «exists» : ∀ a var bits n, d.cardinality a = .ok n → d.bitsOf var = .ok bits →
    ∃ e, d.sizeMade (.exists a var) = .ok e ∧ n ≤ e ∧ e ≤ n * 2 ^ bits.toNat ∧ 2 ^ bits.toNat ∣ e
  declare : ∀ name bits var d', d.apply (.declare name bits) = .ok (var, d') →
    ∀ set, d'.cardinality set = (· * 2 ^ bits.toNat) <$> d.cardinality set
  /-- Making a set leaves the other sets as large as they are. -/
  others : ∀ (call : Call .set) set d', d.apply call = .ok (set, d') →
    ∀ other ≠ set, d'.cardinality other = d.cardinality other

theorem cardinality_of_ne {d d' : Explicit} {call : Call .set} {set other : SetId}
    (happly : d.apply call = .ok (set, d')) (hne : other ≠ set) :
    d'.cardinality other = d.cardinality other := by
  rw [apply_set] at happly
  obtain ⟨r, -, hstore⟩ := map_eq_ok happly
  cases hstore
  simp only [cardinality, region, Table.get?_insert_of_ne _ _ hne]
  rfl

end Explicit

namespace Represents

variable {d : Explicit} {m : Ideal}

/-- The size of a set that is made is the number of its valuations. -/
theorem sizeMade (h : Represents d m) (hbits : bitCount m.widths < 2 ^ 32) {call : Call .set}
    {s : Set Valuation} (hs : m.made call = .ok s) : d.sizeMade call = .ok s.ncard := by
  obtain ⟨r, hr, hcanonical, hdenote⟩ := (hs ▸ h.made call).ok_left
  obtain ⟨hhandle, hstate⟩ := h.store hcanonical hdenote
  rw [Explicit.sizeMade, Explicit.apply_set, hr]
  change (d.store r).2.cardinality (d.store r).1 = _
  rw [hstate.cardinality hbits, hhandle]
  simp [Ideal.set, Ideal.store]

theorem set_of_cardinality (h : Represents d m) (hbits : bitCount m.widths < 2 ^ 32) {a : SetId}
    {n : Nat} (ha : d.cardinality a = .ok n) :
    ∃ s, m.set a = .ok s ∧ s ⊆ box m.widths ∧ s.Finite ∧ s.ncard = n := by
  rw [h.cardinality hbits] at ha
  obtain ⟨s, hs, rfl⟩ := map_eq_ok ha
  have hsub : s ⊆ box m.widths := by
    rw [Ideal.set] at hs
    split at hs
    · next hget => exact Except.ok.inj hs ▸ h.bounded a _ hget
    · cases hs
  exact ⟨s, hs, hsub, (finite_box _).subset hsub, rfl⟩

/-- A projection keeps the set and is made of whole lines in the direction of the variable. -/
theorem sizeMade_exists (h : Represents d m) (hbits : bitCount m.widths < 2 ^ 32) {a : SetId}
    {var : VarId} {bits : UInt32} {n : Nat} (ha : d.cardinality a = .ok n)
    (hvar : d.bitsOf var = .ok bits) :
    ∃ e, d.sizeMade (.exists a var) = .ok e ∧ n ≤ e ∧ e ≤ n * 2 ^ bits.toNat ∧
      2 ^ bits.toNat ∣ e := by
  obtain ⟨s, hs, hsub, hfinite, rfl⟩ := h.set_of_cardinality hbits ha
  rw [h.bitsOf] at hvar
  have hmade : m.made (.exists a var) =
      .ok {v ∈ box m.widths | ∃ x, v.set var.index.toNat x ∈ s} := by
    rw [Ideal.made, hvar, hs]
    rfl
  obtain ⟨hi, rfl⟩ := width_eq_ok hvar
  refine ⟨_, h.sizeMade hbits hmade, ?_, ?_, ?_⟩
  · refine Set.ncard_le_ncard (fun v hv => ⟨hsub hv, ?_⟩) ((finite_box _).sep _)
    have hlt : var.index.toNat < v.length := hi.trans_eq (length_of_mem_box (hsub hv)).symm
    exact ⟨v[var.index.toNat], by rwa [List.set_getElem_self]⟩
  · rw [ncard_project hsub hi]
    exact Nat.mul_le_mul_right _ (Set.ncard_image_le hfinite)
  · rw [ncard_project hsub hi]
    exact Nat.dvd_mul_left _ _

/-- A declaration makes every set a cylinder. -/
theorem cardinality_declare (h : Represents d m) (hm : m.Within) {name : String} {bits : UInt32}
    {var : VarId} {d' : Explicit} (hdeclare : d.apply (.declare name bits) = .ok (var, d'))
    (set : SetId) : d'.cardinality set = (· * 2 ^ bits.toNat) <$> d.cardinality set := by
  have hagree := h.declare hm name bits
  rw [show d.declare name bits = .ok (var, d') from hdeclare, Ideal.declare] at hagree
  split_ifs at hagree with hinvalid hlarge
  · exact hagree.elim
  · exact hagree.elim
  obtain ⟨-, hstate⟩ := hagree
  have hgrown : bitCount (m.grow bits).widths < 2 ^ 32 := by
    have hlimit := m.limit.toNat_lt
    simp only [Ideal.grow, bitCount_append, bitCount_cons, bitCount_nil]
    omega
  rw [hstate.cardinality hgrown, h.cardinality (hm.bits.trans_lt m.limit.toNat_lt), Ideal.set_grow]
  cases m.set set with
  | error e => rfl
  | ok s => exact congrArg Except.ok (ncard_cylinder bits s)

theorem counts (h : Represents d m) (hm : m.Within) : d.Counts m.limit := by
  have hroom : bitCount m.widths < 2 ^ 32 := hm.bits.trans_lt m.limit.toNat_lt
  have htotal : d.totalBits.toNat = bitCount m.widths := by
    rw [h.totalBits, UInt32.toNat_ofNat_of_lt' hroom]
  have hbox : (box m.widths).ncard = 2 ^ d.totalBits.toNat := by rw [ncard_box, htotal]
  have hset {a n} (ha : d.cardinality a = .ok n) := h.set_of_cardinality hroom ha
  constructor
  case totalBits => rw [htotal, h.widths]
  case within =>
    rw [UInt32.le_iff_toNat_le, htotal]
    exact hm.bits
  case next =>
    intro bits hvalid
    have hmax := ((isValidWidth_iff bits).mp hvalid).2
    have hlimit := hm.limit
    have hbits := hm.bits
    rw [UInt32.toNat_add, Nat.mod_eq_of_lt (by omega)]
  case cardinality =>
    intro set r hr
    rw [h.widths, h.cardinality hroom, Ideal.set, h.sets, hr]
    rfl
  case bounded =>
    intro set n hn
    obtain ⟨s, -, hsub, -, rfl⟩ := hset hn
    exact hbox ▸ Set.ncard_le_ncard hsub (finite_box _)
  case top => exact hbox ▸ h.sizeMade hroom rfl
  case complement =>
    intro a n ha
    obtain ⟨s, hs, hsub, -, rfl⟩ := hset ha
    refine ⟨_, h.sizeMade hroom (by rw [Ideal.made, hs]; rfl), ?_⟩
    rw [← hbox, Nat.add_comm]
    exact Set.ncard_sdiff_add_ncard_of_subset hsub (finite_box _)
  case union_inter =>
    intro a b n k ha hb
    obtain ⟨s, hs, -, hfinite, rfl⟩ := hset ha
    obtain ⟨t, ht, -, hfinite', rfl⟩ := hset hb
    refine ⟨_, _, h.sizeMade hroom (by rw [Ideal.made, hs, ht]; rfl),
      h.sizeMade hroom (by rw [Ideal.made, hs, ht]; rfl), ?_⟩
    exact Set.ncard_union_add_ncard_inter s t hfinite hfinite'
  case inter_diff =>
    intro a b n k ha hb
    obtain ⟨s, hs, -, hfinite, rfl⟩ := hset ha
    obtain ⟨t, ht, -, -, rfl⟩ := hset hb
    refine ⟨_, _, h.sizeMade hroom (by rw [Ideal.made, hs, ht]; rfl),
      h.sizeMade hroom (by rw [Ideal.made, hs, ht]; rfl), ?_⟩
    exact (Set.ncard_inter_add_ncard_sdiff_eq_ncard s t hfinite).symm
  case «exists» => exact fun a var bits n ha hvar => h.sizeMade_exists hroom ha hvar
  case declare => exact fun name bits var d' hdeclare => h.cardinality_declare hm hdeclare
  case others => exact fun call set d' happly other => Explicit.cardinality_of_ne happly

end Represents

namespace Explicit

/-- However a fresh explicit domain is used, the sizes of its sets obey the laws of counting, and its
universe stays within the limit. -/
theorem run_counts (limit : UInt32) (hlimit : limit.toNat ≤ 2 ^ 32 - 64) (requests : List Request)
    (host : Host) : (operations.run requests (new limit) host).2.1.Counts limit := by
  obtain ⟨-, hstate⟩ := (Represents.new limit).run (.new hlimit) requests host
  obtain ⟨hwithin, hsame⟩ := (Ideal.Within.new hlimit).run requests
  have hcounts := hstate.counts hwithin
  rwa [hsame] at hcounts

/-- Three of four valuations, of which the projection makes four. -/
theorem run_counts_sample :
    let d := (operations.run [⟨.declare "x" 2⟩, ⟨.varEqConst ⟨0⟩ 1⟩, ⟨.complement ⟨1⟩⟩] (new 3)
      Host.initial).2.1
    (3 : UInt32).toNat ≤ 2 ^ 32 - 64 ∧ d.cardinality ⟨2⟩ = .ok 3 ∧
      ∃ e, d.sizeMade (.exists ⟨2⟩ ⟨0⟩) = .ok e ∧ 3 ≤ e ∧ e ≤ 3 * 2 ^ 2 ∧ 2 ^ 2 ∣ e := by
  intro d
  have hlimit : (3 : UInt32).toNat ≤ 2 ^ 32 - 64 := by decide
  have hsize : d.cardinality ⟨2⟩ = .ok 3 := by decide +kernel
  exact ⟨hlimit, hsize,
    (run_counts 3 hlimit _ Host.initial).exists ⟨2⟩ ⟨0⟩ 2 3 hsize (by decide +kernel)⟩

end Explicit
end LayeredSets
