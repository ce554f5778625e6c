import LayeredSets.Proofs.Chain.Bottom
import LayeredSets.Proofs.Chain.Rename

/-!
# A chain beside a bare domain

The handles that a chain issues to its caller are numbered in the order in which they are issued.
These numbers are the handles of a bare explicit domain that is asked the same: the sets of both are
the same at each number, whatever other handles the chain has used up for itself.
-/

namespace LayeredSets

/-- The handle that comes in the place of `set` if handles count up from one. -/
def rank (issued : List SetId) (set : SetId) : SetId := ⟨UInt32.ofNat (issued.idxOf set + 1)⟩

theorem rank_append {issued : List SetId} {set : SetId} (h : set ∈ issued) (later : List SetId) :
    rank (issued ++ later) set = rank issued set := by
  rw [rank, rank, List.idxOf_append_of_mem h]

theorem rank_next {issued : List SetId} {set : SetId} (h : set ∉ issued) (later : List SetId) :
    rank (issued ++ set :: later) set = ⟨UInt32.ofNat (issued.length + 1)⟩ := by
  rw [rank, List.idxOf_append_of_notMem h, List.idxOf_cons_self, Nat.add_zero]

theorem rank_injOn {issued : List SetId} (h : issued.length < 2 ^ 32) :
    Set.InjOn (rank issued) {set | set ∈ issued} := by
  intro a ha b hb hab
  have ha' := List.idxOf_lt_length_iff.mpr ha
  have hb' := List.idxOf_lt_length_iff.mpr hb
  have hindex := congrArg (·.index.toNat) hab
  simp only [rank] at hindex
  rw [UInt32.toNat_ofNat_of_lt' (by simp only [UInt32.size]; omega),
    UInt32.toNat_ofNat_of_lt' (by simp only [UInt32.size]; omega)] at hindex
  exact (List.idxOf_inj ha).mp (by omega)

/-- What a chain with `d` at its bottom has issued, against a bare domain `b`. -/
structure Matches (issued : List SetId) (d b : Explicit) : Prop where
  limit : b.limit = d.limit
  vars : b.vars = d.vars
  get? : ∀ set ∈ issued, b.sets.get? (rank issued set) = d.sets.get? set
  /-- Only what was issued to the caller is live. -/
  complete : ∀ set r, d.sets.get? set = some r → set ∈ issued
  nodup : issued.Nodup
  bound : ∀ set ∈ issued, set.index.toNat ≤ d.issued.toNat
  length_le : issued.length ≤ d.issued.toNat
  count : b.issued.toNat = issued.length

namespace Matches

variable {issued : List SetId} {d d' b : Explicit}

theorem new (limit : UInt32) : Matches [] (Explicit.new limit) (Explicit.new limit) where
  limit := rfl
  vars := rfl
  get? := by simp
  complete _ _ h := by simp [Explicit.new] at h
  nodup := List.nodup_nil
  bound := by simp
  length_le := Nat.zero_le _
  count := rfl

theorem mirrors (h : Matches issued d b) (later : List SetId) :
    Explicit.Mirrors (rank (issued ++ later)) issued d b where
  limit := h.limit
  vars := h.vars
  get? set hset := by rw [rank_append hset, h.get? set hset]

theorem similar (h : Matches issued d b) (hsimilar : d.Similar d') : Matches issued d' b where
  limit := h.limit.trans hsimilar.limit.symm
  vars := h.vars.trans hsimilar.vars.symm
  get? set hset := by rw [h.get? set hset, hsimilar.sets]
  complete set r hr := h.complete set r (by rw [← hsimilar.sets, hr])
  nodup := h.nodup
  bound set hset := (h.bound set hset).trans hsimilar.issued
  length_le := h.length_le.trans hsimilar.issued
  count := h.count

theorem notMem (h : Matches issued d b) {set : SetId} (hset : d.issued.toNat < set.index.toNat) :
    set ∉ issued := fun hmem => absurd (h.bound set hmem) (not_le.mpr hset)

/-- The next handle of the bare domain is the next number. -/
theorem next (h : Matches issued d b) (hroom : issued.length + 1 < 2 ^ 32) :
    b.issued + 1 = UInt32.ofNat (issued.length + 1) := by
  rw [← UInt32.toNat_inj, UInt32.toNat_add, h.count, UInt32.toNat_ofNat_of_lt' hroom]
  exact Nat.mod_eq_of_lt hroom

theorem keep (h : Matches issued d b) {set : SetId} (hset : d.issued.toNat < set.index.toNat)
    (r : Region) : Matches (issued ++ [set]) (d.keep set r) (b.store r).2 := by
  have hroom : issued.length + 1 < 2 ^ 32 := by
    have := h.length_le
    have := set.index.toNat_lt
    omega
  have hnew := h.notMem hset
  have hnext := h.next hroom
  constructor
  · exact h.limit
  · exact h.vars
  · intro other hother
    rcases List.mem_append.mp hother with hold | hnow
    · have hne : other ≠ set := fun heq => hnew (heq ▸ hold)
      have hindex := List.idxOf_lt_length_iff.mpr hold
      have hrank : rank issued other ≠ ⟨b.issued + 1⟩ := by
        rw [rank, hnext]
        intro heq
        have := congrArg (·.index.toNat) heq
        simp only at this
        rw [UInt32.toNat_ofNat_of_lt' (by simp only [UInt32.size]; omega),
          UInt32.toNat_ofNat_of_lt' hroom] at this
        omega
      rw [rank_append hold, Explicit.get?_keep, if_neg hne, ← h.get? other hold]
      exact Table.get?_insert_of_ne _ _ hrank
    · rw [List.mem_singleton.mp hnow, rank_next hnew, Explicit.get?_keep, if_pos rfl, ← hnext]
      exact Table.get?_insert_self _ _ _
  · intro other r' hr'
    rw [Explicit.get?_keep] at hr'
    split at hr'
    · next heq => simp [heq]
    · exact List.mem_append_left _ (h.complete other r' hr')
  · exact List.nodup_append'.mpr ⟨h.nodup, List.nodup_singleton _, by simpa using hnew⟩
  · intro other hother
    rcases List.mem_append.mp hother with hold | hnow
    · exact (h.bound other hold).trans hset.le
    · rw [List.mem_singleton.mp hnow]
      exact le_rfl
  · have := h.length_le
    rw [List.length_append, List.length_singleton]
    change _ ≤ set.index.toNat
    omega
  · change (b.issued + 1).toNat = _
    rw [hnext, UInt32.toNat_ofNat_of_lt' hroom]
    simp

theorem drop (h : Matches issued d b) {set : SetId} (hset : set ∈ issued) :
    Matches issued (d.drop set) (b.drop (rank issued set)) where
  limit := h.limit
  vars := h.vars
  get? other hother := by
    have hroom : issued.length < 2 ^ 32 := h.count ▸ b.issued.toNat_lt
    simp only [Explicit.get?_drop, h.get? other hother, (rank_injOn hroom).eq_iff hother hset]
  complete other r hr := by
    rw [Explicit.get?_drop] at hr
    split at hr
    · cases hr
    · exact h.complete other r hr
  nodup := h.nodup
  bound := h.bound
  length_le := h.length_le
  count := h.count

theorem declare (h : Matches issued d b) (v : Variable) :
    Matches issued { d with vars := d.vars ++ [v] } { b with vars := d.vars ++ [v] } where
  limit := h.limit
  vars := rfl
  get? := h.get?
  complete := h.complete
  nodup := h.nodup
  bound := h.bound
  length_le := h.length_le
  count := h.count

/-- A call that fails on the chain fails alike on the bare domain. -/
theorem follows_error (h : Matches issued d b) {k : Answer} {call : Call k}
    (hcall : call.sets ⊆ issued) {e : DomainError} (hfollows : d.Follows call (.error e) d')
    (later : List SetId) :
    b.apply (call.rename (rank (issued ++ later))) =
      .error (e.rename (rank (issued ++ later))) := by
  have hmirrors := h.mirrors later
  have happly := (Explicit.follows_error_iff.mp hfollows).1
  cases k with
  | var =>
    obtain ⟨name, bits⟩ := call
    rw [Explicit.apply] at happly
    rw [Call.rename, Explicit.apply, hmirrors.declare, happly]
    rfl
  | set =>
    rw [Explicit.apply_set] at happly
    rw [Explicit.apply_set, hmirrors.made hcall, map_eq_error happly]
    rfl
  | bool =>
    rw [Explicit.apply_bool] at happly
    rw [Explicit.apply_bool, hmirrors.answer hcall, map_eq_error happly]
    rfl
  | unit =>
    cases call with
    | release set =>
      rw [Call.rename, Explicit.apply, hmirrors.region (hcall (by simp [Call.sets]))]
      obtain hregion | ⟨r, -, ⟨⟩⟩ := bind_eq_error happly
      rw [hregion]
      rfl

/-- A call that succeeds on the chain succeeds on the bare domain, with the corresponding reply. -/
theorem follows_ok (h : Matches issued d b) {k : Answer} {call : Call k}
    (hcall : call.sets ⊆ issued) {value : k.Value} (hfollows : d.Follows call (.ok value) d')
    (later : List SetId) :
    let after := issued ++ issuedSets [.ok (k.reply value)]
    let f := rank (after ++ later)
    ∃ value' b', b.apply (call.rename f) = .ok (value', b') ∧
      k.reply value' = (k.reply value).rename f ∧ Matches after d' b' := by
  intro after f
  have hmirrors : Explicit.Mirrors f issued d b := by
    have := h.mirrors (issuedSets [.ok (k.reply value)] ++ later)
    rwa [← List.append_assoc] at this
  obtain ⟨d'', hmakes, hsimilar⟩ := hfollows.makes
  cases hmakes with
  | @declared name bits var _ hdeclare =>
    obtain ⟨-, -, -, rfl⟩ := Explicit.declare_eq_ok hdeclare
    refine ⟨var, { b with vars := d.vars ++ [⟨name, bits⟩] }, ?_, rfl, ?_⟩
    · rw [Call.rename, Explicit.apply, hmirrors.declare, hdeclare]
      rfl
    · simpa [after, issuedSets, Answer.reply] using (h.declare ⟨name, bits⟩).similar hsimilar
  | @made _ set r hmade =>
    have hfresh := hfollows.fresh
    have hkeep := h.keep hfresh r
    have hroom : issued.length + 1 < 2 ^ 32 := by
      have := hkeep.count ▸ (b.store r).2.issued.toNat_lt
      simpa using this
    refine ⟨(b.store r).1, (b.store r).2, ?_, ?_, ?_⟩
    · rw [Explicit.apply_set, hmirrors.made hcall, hmade]
      rfl
    · have hrank : f set = ⟨UInt32.ofNat (issued.length + 1)⟩ := by
        simpa [f, after, issuedSets, Answer.reply] using rank_next (h.notMem hfresh) later
      exact congrArg Reply.set ((congrArg SetId.mk (h.next hroom)).trans hrank.symm)
    · simpa [after, issuedSets, Answer.reply] using hkeep.similar hsimilar
  | @answered _ answer hanswer =>
    refine ⟨answer, b, ?_, rfl, ?_⟩
    · rw [Explicit.apply_bool, hmirrors.answer hcall, hanswer]
      rfl
    · simpa [after, issuedSets, Answer.reply] using h.similar hsimilar
  | @released set r hregion =>
    have hset : set ∈ issued := hcall (by simp [Call.sets])
    have hf : f set = rank issued set := by
      simp [f, after, issuedSets, Answer.reply, rank_append hset]
    refine ⟨(), b.drop (f set), ?_, rfl, ?_⟩
    · rw [Call.rename, Explicit.apply, hmirrors.region hset, hregion]
      rfl
    · simpa [after, issuedSets, Answer.reply, hf] using (h.drop hset).similar hsimilar

end Matches
end LayeredSets
