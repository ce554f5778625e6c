import LayeredSets.Proofs.Explicit.Represents

/-!
# The explicit domain is exact

Every run of calls on a fresh explicit domain has the outcomes that the ideal domain gives, and ends
in a state that stands for the ideal one. Failing calls leave the state alone, and set handles are
numbered from one.
-/

namespace LayeredSets

/-- The variables fit into the limit, and sums of widths into a word. -/
structure Ideal.Within (m : Ideal) : Prop where
  limit : m.limit.toNat ≤ 2 ^ 32 - 64
  bits : bitCount m.widths ≤ m.limit.toNat

theorem isValidWidth_iff (bits : UInt32) :
    isValidWidth bits = true ↔ 0 < bits.toNat ∧ bits.toNat ≤ 63 := by
  rw [isValidWidth, Bool.and_eq_true, bne_iff_ne, decide_eq_true_iff, UInt32.le_iff_toNat_le,
    ne_eq, ← UInt32.toNat_inj]
  change ¬bits.toNat = 0 ∧ bits.toNat ≤ 63 ↔ _
  omega

theorem Explicit.totalBits_eq (d : Explicit) :
    d.totalBits = UInt32.ofNat (bitCount (d.vars.map (·.bits))) := by
  have key (vars : List Variable) (n : Nat) :
      vars.foldl (fun total v => total + v.bits) (UInt32.ofNat n) =
        UInt32.ofNat (n + bitCount (vars.map (·.bits))) := by
    induction vars generalizing n with
    | nil => rfl
    | cons v vars ih =>
      have hstep : UInt32.ofNat n + v.bits = UInt32.ofNat (n + v.bits.toNat) := by
        rw [UInt32.ofNat_add, UInt32.ofNat_toNat]
      rw [List.foldl_cons, hstep, ih, List.map_cons, bitCount_cons, Nat.add_assoc]
  have := key d.vars 0
  rwa [Nat.zero_add] at this

namespace Represents

variable {d : Explicit} {m : Ideal}

theorem totalBits (h : Represents d m) : d.totalBits = UInt32.ofNat (bitCount m.widths) := by
  rw [d.totalBits_eq, h.widths]

/-- A declaration whose sum of widths fits into a word. -/
theorem declare_of_sum (h : Represents d m) (name : String) {bits : UInt32}
    (hsum : bits.toNat ≤ 63 → bitCount m.widths + bits.toNat < 2 ^ 32) :
    Agree (fun x y => x.1 = y.1 ∧ Represents x.2 y.2) (d.declare name bits) (m.declare bits) := by
  rw [Explicit.declare, Ideal.declare]
  by_cases hvalid : 0 < bits.toNat ∧ bits.toNat ≤ 63
  · have htotal : d.totalBits + bits = UInt32.ofNat (bitCount m.widths + bits.toNat) := by
      rw [h.totalBits, UInt32.ofNat_add, UInt32.ofNat_toNat]
    have hcompare : d.limit < UInt32.ofNat (bitCount m.widths + bits.toNat) ↔
        m.limit.toNat < bitCount m.widths + bits.toNat := by
      rw [h.limit, UInt32.lt_iff_toNat_lt, UInt32.toNat_ofNat_of_lt' (hsum hvalid.2)]
    simp only [(isValidWidth_iff bits).mpr hvalid, Bool.not_true, Bool.false_eq_true, if_false,
      if_neg (show ¬(bits.toNat = 0 ∨ 63 < bits.toNat) by omega), htotal, hcompare]
    split
    · rw [h.limit]
      rfl
    · rw [h.length]
      exact ⟨rfl, h.grow name hvalid.1 hvalid.2⟩
  · have hinvalid : isValidWidth bits = false := by
      rw [← Bool.not_eq_true, isValidWidth_iff]
      exact hvalid
    simp only [hinvalid, Bool.not_false, if_true,
      if_pos (show bits.toNat = 0 ∨ 63 < bits.toNat by omega)]
    rfl

theorem declare (h : Represents d m) (hm : m.Within) (name : String) (bits : UInt32) :
    Agree (fun x y => x.1 = y.1 ∧ Represents x.2 y.2) (d.declare name bits) (m.declare bits) := by
  refine h.declare_of_sum name fun hmax => ?_
  have hlimit := hm.limit
  have hbits := hm.bits
  omega

/-- A call other than a declaration, which needs no room for its sums. -/
theorem apply_of_ne (h : Represents d m) {k : Answer} (hk : k ≠ .var) (call : Call k) :
    Agree (fun x y => x.1 = y.1 ∧ Represents x.2 y.2) (d.apply call) (m.apply call) := by
  cases k with
  | var => exact absurd rfl hk
  | set =>
    rw [Explicit.apply_set]
    exact (h.made call).map fun r s hrs => h.store hrs.1 hrs.2
  | bool =>
    classical
    rw [Explicit.apply_bool]
    refine (h.answer call).map fun b q hbq => ⟨?_, h⟩
    rw [Bool.eq_iff_iff, hbq, decide_eq_true_iff]
  | unit =>
    cases call with
    | release set => exact (h.region set).map fun _ _ _ => ⟨rfl, h.release set⟩

theorem apply (h : Represents d m) (hm : m.Within) {k : Answer} (call : Call k) :
    Agree (fun x y => x.1 = y.1 ∧ Represents x.2 y.2) (d.apply call) (m.apply call) := by
  cases call with
  | declare name bits => exact h.declare hm name bits
  | _ => exact h.apply_of_ne (by simp) _

theorem respond_of_agree (h : Represents d m) {request : Request}
    (key : Agree (fun x y => x.1 = y.1 ∧ Represents x.2 y.2) (d.apply request.call)
      (m.apply request.call)) (host : Host) :
    (Explicit.operations.respond request d host).1 = (m.respond request).1 ∧
      Represents (Explicit.operations.respond request d host).2.1 (m.respond request).2 := by
  simp only [Operations.respond, Explicit.operations, Explicit.step, Ideal.respond]
  cases hd : d.apply request.call with
  | error e =>
    cases hi : m.apply request.call with
    | error f =>
      rw [hd, hi] at key
      exact ⟨congrArg Except.error key, h⟩
    | ok y => simp [hd, hi, Agree] at key
  | ok x =>
    cases hi : m.apply request.call with
    | error f => simp [hd, hi, Agree] at key
    | ok y =>
      rw [hd, hi] at key
      exact ⟨congrArg (fun v => Except.ok (request.kind.reply v)) key.1, key.2⟩

/-- One call: the outcomes agree, and so do the states. -/
theorem respond (h : Represents d m) (hm : m.Within) (request : Request) (host : Host) :
    (Explicit.operations.respond request d host).1 = (m.respond request).1 ∧
      Represents (Explicit.operations.respond request d host).2.1 (m.respond request).2 :=
  h.respond_of_agree (h.apply hm request.call) host

end Represents

namespace Ideal

variable {m : Ideal}

theorem Within.new {limit : UInt32} (h : limit.toNat ≤ 2 ^ 32 - 64) : (Ideal.new limit).Within :=
  ⟨h, Nat.zero_le _⟩

theorem Within.respond (h : m.Within) (request : Request) : (m.respond request).2.Within := by
  obtain ⟨call⟩ := request
  cases call with
  | declare name bits =>
    simp only [Ideal.respond, Ideal.apply, Ideal.declare]
    by_cases hinvalid : bits.toNat = 0 ∨ 63 < bits.toNat
    · simpa only [if_pos hinvalid] using h
    · by_cases hlarge : m.limit.toNat < bitCount m.widths + bits.toNat
      · simpa only [if_neg hinvalid, if_pos hlarge] using h
      · simp only [if_neg hinvalid, if_neg hlarge]
        refine ⟨h.limit, ?_⟩
        simp only [grow, bitCount_append, bitCount_cons, bitCount_nil]
        omega
  | release set =>
    simp only [Ideal.respond, Ideal.apply]
    cases m.set set <;> exact ⟨h.limit, h.bits⟩
  | isEmpty | equal | subset =>
    simp only [Ideal.respond, Ideal.apply]
    cases m.question _ <;> exact ⟨h.limit, h.bits⟩
  | _ =>
    simp only [Ideal.respond, Ideal.apply]
    cases m.made _ <;> exact ⟨h.limit, h.bits⟩

/-- A call issues the next handle, or none. -/
theorem issued_respond (m : Ideal) (request : Request) :
    issuedSets [(m.respond request).1] =
      (List.range' (m.issued + 1) ((m.respond request).2.issued - m.issued)).map
        (fun n => ⟨UInt32.ofNat n⟩) ∧
    m.issued ≤ (m.respond request).2.issued := by
  obtain ⟨call⟩ := request
  cases call with
  | declare name bits =>
    simp only [Ideal.respond, Ideal.apply, Ideal.declare]
    by_cases hinvalid : bits.toNat = 0 ∨ 63 < bits.toNat
    · simp [if_pos hinvalid, issuedSets]
    · by_cases hlarge : m.limit.toNat < bitCount m.widths + bits.toNat
      · simp [if_neg hinvalid, if_pos hlarge, issuedSets]
      · simp [if_neg hinvalid, if_neg hlarge, issuedSets, Answer.reply, grow]
  | release set =>
    simp only [Ideal.respond, Ideal.apply]
    cases m.set set <;> simp [issuedSets, Answer.reply, Ideal.release, Functor.map, Except.map]
  | isEmpty | equal | subset =>
    simp only [Ideal.respond, Ideal.apply]
    cases m.question _ <;> simp [issuedSets, Answer.reply, Functor.map, Except.map]
  | _ =>
    simp only [Ideal.respond, Ideal.apply]
    cases m.made _ <;> simp [issuedSets, Answer.reply, Ideal.store, Functor.map, Except.map]

theorem issued_run (requests : List Request) (m : Ideal) :
    issuedSets (m.run requests).1 =
      (List.range' (m.issued + 1) ((m.run requests).2.issued - m.issued)).map
        (fun n => ⟨UInt32.ofNat n⟩) ∧
    m.issued ≤ (m.run requests).2.issued := by
  induction requests generalizing m with
  | nil => simp [run]
  | cons request requests ih =>
    obtain ⟨hfirst, hle⟩ := issued_respond m request
    obtain ⟨hrest, hle'⟩ := ih (m.respond request).2
    refine ⟨?_, hle.trans hle'⟩
    change issuedSets ([(m.respond request).1] ++ ((m.respond request).2.run requests).1) = _
    rw [issuedSets_append, hfirst, hrest, ← List.map_append]
    congr 1
    change _ = List.range' (m.issued + 1) (((m.respond request).2.run requests).2.issued - m.issued)
    rw [show (m.respond request).2.issued + 1 =
      (m.issued + 1) + 1 * ((m.respond request).2.issued - m.issued) by omega, List.range'_append]
    congr 1
    omega

end Ideal

/-- A run: by induction on the calls, each of which keeps the states together. -/
theorem Represents.run {d : Explicit} {m : Ideal} (h : Represents d m) (hm : m.Within)
    (requests : List Request) (host : Host) :
    (Explicit.operations.run requests d host).1 = (m.run requests).1 ∧
      Represents (Explicit.operations.run requests d host).2.1 (m.run requests).2 := by
  induction requests generalizing d m host with
  | nil => exact ⟨rfl, h⟩
  | cons request requests ih =>
    obtain ⟨hfirst, hstate⟩ := h.respond hm request host
    obtain ⟨hrest, hend⟩ := ih hstate (hm.respond request)
      (Explicit.operations.respond request d host).2.2
    exact ⟨congrArg₂ List.cons hfirst hrest, hend⟩

namespace Explicit

theorem respond_of_ok {k : Answer} {call : Call k} {d d' : Explicit} {value : k.Value}
    (h : d.apply call = .ok (value, d')) (host : Host) :
    ∃ host', operations.respond ⟨call⟩ d host = (.ok (k.reply value), d', host') := by
  refine ⟨(messages call).foldl Host.report host, ?_⟩
  simp only [Operations.respond, operations, step, h]
  rfl

theorem respond_of_apply_error {k : Answer} {call : Call k} {d : Explicit} {e : DomainError}
    (h : d.apply call = .error e) (host : Host) :
    operations.respond ⟨call⟩ d host = (.error e, d, host) := by
  simp only [Operations.respond, operations, step, h]
  rfl

/-- A call that fails leaves the domain as it was. -/
theorem respond_of_error {request : Request} {d : Explicit} {host : Host} {e : DomainError}
    (h : (operations.respond request d host).1 = .error e) :
    (operations.respond request d host).2.1 = d := by
  simp only [Operations.respond, operations, step] at h ⊢
  cases hd : d.apply request.call with
  | error e => rfl
  | ok x => simp [hd, Except.map] at h

/-- Whatever is asked of a fresh explicit domain, it answers as the ideal domain does and stands for
the same sets afterwards. Its handles count up from one, and a call that fails changes nothing. -/
theorem run_exact (limit : UInt32) (hlimit : limit.toNat ≤ 2 ^ 32 - 64) (requests : List Request)
    (host : Host)
    (hfew : (issuedSets (operations.run requests (new limit) host).1).length < 2 ^ 32) :
    let result := operations.run requests (new limit) host
    let ideal := (Ideal.new limit).run requests
    result.1 = ideal.1 ∧ Represents result.2.1 ideal.2 ∧
      (issuedSets result.1).map (·.index.toNat) =
        List.range' 1 (issuedSets result.1).length ∧
      ∀ request e, (operations.respond request result.2.1 result.2.2).1 = .error e →
        (operations.respond request result.2.1 result.2.2).2.1 = result.2.1 := by
  intro result ideal
  obtain ⟨houtcomes, hstate⟩ := (Represents.new limit).run (.new hlimit) requests host
  refine ⟨houtcomes, hstate, ?_, fun request e he => respond_of_error he⟩
  have hissued := (Ideal.issued_run requests (Ideal.new limit)).1
  rw [← houtcomes] at hissued
  rw [hissued, List.length_map, List.length_range'] at hfew
  simp only [result, hissued, List.map_map, List.length_map, List.length_range']
  refine (List.map_congr_left fun n hn => ?_).trans (List.map_id _)
  obtain ⟨i, hi, rfl⟩ := List.mem_range'.mp hn
  exact UInt32.toNat_ofNat_of_lt' (by simp only [Ideal.new, UInt32.size] at *; omega)

/-- A run in which calls fail, a set outlives a declaration and a handle is used after its
release. -/
theorem run_exact_sample :
    let requests : List Request :=
      [⟨.declare "x" 2⟩, ⟨.varEqConst ⟨0⟩ 1⟩, ⟨.complement ⟨1⟩⟩, ⟨.varEqConst ⟨0⟩ 4⟩,
        ⟨.declare "y" 1⟩, ⟨.exists ⟨2⟩ ⟨0⟩⟩, ⟨.release ⟨1⟩⟩, ⟨.union ⟨2⟩ ⟨1⟩⟩, ⟨.subset ⟨2⟩ ⟨3⟩⟩]
    (3 : UInt32).toNat ≤ 2 ^ 32 - 64 ∧
      (issuedSets (operations.run requests (new 3) Host.initial).1).length < 2 ^ 32 ∧
      ((Ideal.new 3).run requests).1 =
        [.ok (.var ⟨0⟩), .ok (.set ⟨1⟩), .ok (.set ⟨2⟩), .error (.valueOutOfRange 4 2),
          .ok (.var ⟨1⟩), .ok (.set ⟨3⟩), .ok .unit, .error (.unknownSet ⟨1⟩),
          .ok (.bool true)] := by
  intro requests
  have hlimit : (3 : UInt32).toNat ≤ 2 ^ 32 - 64 := by decide
  have hfew : (issuedSets (operations.run requests (new 3) Host.initial).1).length < 2 ^ 32 := by
    decide +kernel
  refine ⟨hlimit, hfew, ?_⟩
  rw [← (run_exact 3 hlimit requests Host.initial hfew).1]
  decide +kernel

end Explicit
end LayeredSets
