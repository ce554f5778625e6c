import LayeredSets.Proofs.Guarded.Packs

/-!
# Runs of packed domains with their guards

A variable goes into the last pack or into one more, and its pack counts it. No counter is at its
end as long as some handles are left, since no pack is opened before the ones there are full. So no
guard stops a run that leaves some handles unused.
-/

namespace LayeredSets.Packed

open Action (bind_apply bind_apply_ok bind_apply_error)
open Guarded

variable {ρ τ : Type}

/-! ## Declarations -/

/-- The counters of the packs and of their variables are not at their ends. -/
structure Roomy (s : Packed ρ) : Prop where
  pos : 0 < s.packs.length
  packs : s.packs.length < 2 ^ 64
  held : ∀ p ∈ s.packs, p.held + 1 < 2 ^ 64

/-- Nothing is seen in the table of variables and in the count of sets. -/
def Aside (s t : Packed ρ) : Prop := t.vars = s.vars ∧ t.issued = s.issued

section

variable {inner : Operations ρ} {s : Packed ρ} {name : String} {bits : UInt32} {host : Host}

theorem guardedCount_eq {index : Nat} {pack : Pack ρ} (hpack : s.packs[index]? = some pack)
    (hheld : pack.held + 1 < 2 ^ 64) :
    guardedCount index s host = (.ok (),
      { s with packs := s.packs.set index { pack with held := pack.held + 1 } }, host) := by
  change (Action.ofExcept (Guard.item s.packs index) >>= _) s host = _
  rw [guard_bind (Guard.item_of_getElem? hpack), guard_bind (Guard.succ_eq hheld)]
  rfl

theorem guardedTake_of_error {e : Halt} {t : Packed ρ} {host' : Host}
    (hplace : guardedPlace inner name bits s host = (.error e, t, host')) :
    guardedTake inner name bits s host = (.error e, t, host') :=
  bind_apply_error hplace

theorem guardedTake_of_ok {index : Nat} {var : VarId} {t : Packed ρ} {host' : Host} {pack : Pack ρ}
    (hplace : guardedPlace inner name bits s host = (.ok (index, var), t, host'))
    (hpack : t.packs[index]? = some pack) (hheld : pack.held + 1 < 2 ^ 64) :
    guardedTake inner name bits s host = (.ok ⟨index, var, bits⟩,
      { t with packs := t.packs.set index { pack with held := pack.held + 1 } }, host') :=
  (bind_apply_ok hplace).trans (bind_apply_ok (guardedCount_eq hpack hheld))

namespace Roomy

theorem last_lt (h : Roomy s) : s.packs.length - 1 < s.packs.length := Nat.sub_lt h.pos Nat.one_pos

theorem exists_last (h : Roomy s) : ∃ pack, s.packs[s.packs.length - 1]? = some pack ∧
    pack.held + 1 < 2 ^ 64 :=
  ⟨s.packs.get ⟨_, h.last_lt⟩, List.getElem?_eq_getElem h.last_lt, h.held _ (List.get_mem _ _)⟩

/-- A new variable goes into the last pack as long as there is room. -/
theorem guardedPlace_eq (h : Roomy s) : guardedPlace inner name bits s host =
    if s.hasRoom then
      (do
        let var ← guardedInPack (s.packs.length - 1) (inner.step (.declare name bits))
        return (s.packs.length - 1, var)) s host
    else
      (do
        let var ← plain (addPack inner name bits)
        return (s.packs.length, var)) s host := by
  obtain ⟨pack, hpack, -⟩ := h.exists_last
  have hroom : s.hasRoom = decide (pack.held < s.capacity) := by
    rw [hasRoom, List.getLast?_eq_getElem?, hpack, Option.any_some]
  have hnext : s.packs.length - 1 + 1 = s.packs.length := Nat.sub_add_cancel h.pos
  have hsucc : Guard.succ (s.packs.length - 1) = .ok s.packs.length := by
    rw [Guard.succ_eq (by rw [hnext]; exact h.packs), hnext]
  change (Action.ofExcept (Guard.pred s.packs.length) >>= _) s host = _
  rw [guard_bind (Guard.pred_eq h.pos), guard_bind (Guard.item_of_getElem? hpack), hroom]
  simp only [decide_eq_true_eq, hsucc]
  split <;> rfl

theorem guardedTake_lastPack (h : Roomy s) (hroom : s.hasRoom = true) :
    guardedTake inner name bits s host = plain (declareInLastPack inner name bits) s host ∧
      Aside s (declareInLastPack inner name bits s host).2.1 := by
  obtain ⟨pack, hpack, hheld⟩ := h.exists_last
  have hin := guardedInPack_apply h.last_lt (inner.step (.declare name bits)) host
  have hplace : guardedPlace inner name bits s host = _ := h.guardedPlace_eq
  rw [if_pos hroom] at hplace
  rw [plain_apply, inPack, hpack] at hin
  rcases hcall : inner.step (.declare name bits) pack.domain host with ⟨e | var, domain, host'⟩
  · simp only [hcall] at hin
    rw [guardedTake_of_error (hplace.trans (bind_apply_error hin)), plain_apply,
      declareInLastPack_of_error hpack hcall]
    exact ⟨rfl, rfl, rfl⟩
  · simp only [hcall] at hin
    have hset : (s.packs.set (s.packs.length - 1) { pack with domain })[s.packs.length - 1]? =
        some { pack with domain } := List.getElem?_set_self h.last_lt
    rw [guardedTake_of_ok (hplace.trans (bind_apply_ok hin)) hset hheld, plain_apply,
      declareInLastPack_of_ok hpack hcall]
    simp [Except.mapError, Aside]

theorem guardedTake_newPack (h : Roomy s) (hroom : ¬ s.hasRoom = true) :
    guardedTake inner name bits s host = plain (declareInNewPack inner name bits) s host ∧
      Aside s (declareInNewPack inner name bits s host).2.1 := by
  have hplace : guardedPlace inner name bits s host = _ := h.guardedPlace_eq
  rw [if_neg hroom] at hplace
  rw [plain_apply, declareInNewPack]
  cases hblank : s.blank with
  | error e =>
    have hadd : addPack inner name bits s host = (.error e, s, host) := by rw [addPack, hblank]
    rw [guardedTake_of_error (hplace.trans (bind_apply_error (plain_of_error hadd)))]
    exact ⟨rfl, rfl, rfl⟩
  | ok d =>
    simp only
    rcases hopen : openPack inner name bits s.sets d host with ⟨e | ⟨var, sets⟩, domain, host'⟩
    · have hadd : addPack inner name bits s host = (.error e, s, inner.dispose domain host') := by
        rw [addPack, hblank]
        simp only [hopen]
      rw [guardedTake_of_error (hplace.trans (bind_apply_error (plain_of_error hadd)))]
      exact ⟨rfl, rfl, rfl⟩
    · have hadd : addPack inner name bits s host =
          (.ok var, { s with packs := s.packs ++ [⟨domain, 0⟩], sets }, host') := by
        rw [addPack, hblank]
        simp only [hopen]
      have hlast : (s.packs ++ [⟨domain, 0⟩])[s.packs.length]? = some ⟨domain, 0⟩ :=
        List.getElem?_concat_length
      rw [guardedTake_of_ok (hplace.trans (bind_apply_ok (plain_of_ok hadd))) hlast (by norm_num)]
      simp [Except.mapError, hblank, Aside]

theorem guardedDeclare_eq (h : Roomy s)
    (hvars : ∀ var, (declare inner name bits s host).1 = .ok var → s.vars.length + 1 < 2 ^ 32) :
    guardedDeclare inner name bits s host = plain (declare inner name bits) s host ∧
      (declare inner name bits s host).2.1.issued = s.issued := by
  rw [plain_apply]
  rw [declare_apply] at hvars ⊢
  have htake : guardedTake inner name bits s host = plain (if s.hasRoom then
      declareInLastPack inner name bits else declareInNewPack inner name bits) s host ∧
      Aside s ((if s.hasRoom then declareInLastPack inner name bits else
        declareInNewPack inner name bits) s host).2.1 := by
    by_cases hroom : s.hasRoom = true
    · rw [if_pos hroom]
      exact h.guardedTake_lastPack hroom
    · rw [if_neg hroom]
      exact h.guardedTake_newPack hroom
  generalize (if s.hasRoom then declareInLastPack inner name bits else
    declareInNewPack inner name bits) = x at hvars htake ⊢
  obtain ⟨htake, hsame, hissued⟩ := htake
  rcases hx : x s host with ⟨e | var, t, host'⟩
  · have henter : enter x s host = (.error e, t, host') := by
      change (x >>= _) s host = _
      exact bind_apply_error hx
    rw [plain_of_error hx] at htake
    rw [hx] at hissued
    rw [henter]
    exact ⟨bind_apply_error htake, hissued⟩
  · have henter : enter x s host =
        (.ok ⟨UInt32.ofNat s.vars.length⟩, { t with vars := t.vars ++ [var] }, host') := by
      change (x >>= _) s host = _
      exact bind_apply_ok hx
    rw [plain_of_ok hx] at htake
    rw [hx] at hsame hissued
    rw [henter] at hvars ⊢
    refine ⟨(bind_apply_ok htake).trans ?_, hissued⟩
    have hsub : Guard.sub (UInt32.ofNat (t.vars ++ [var]).length) 1 =
        .ok (UInt32.ofNat s.vars.length) := by
      rw [List.length_append, List.length_singleton, hsame]
      exact Guard.sub_one_eq (hvars _ rfl)
    change (Action.ofExcept (Guard.sub (UInt32.ofNat (t.vars ++ [var]).length) 1) >>= _) _ host' = _
    rw [guard_bind hsub]
    rfl

end Roomy

end

/-! ## Runs -/

section

variable {inner : Operations ρ} {holds : ρ → List Variable} {size : Nat} {declared : List Variable}
  {past : List Outcome} {s : Packed ρ}

theorem Arranged.length_vars (h : Arranged size declared (s.map holds)) :
    s.vars.length = declared.length := by
  have hvars : s.vars = layout size (declared.map (·.bits)) := h.shaped.vars
  rw [hvars, length_layout, List.length_map]

theorem Arranged.steady (h : Arranged size declared (s.map holds)) : Steady s.packs.length s := by
  have hlength : (s.map holds).packs.length = s.packs.length := by simp [map]
  have hlength' : (s.map holds).widths.packs.length = s.packs.length := by simp [widths, map]
  have heven := (even_map holds s).mp h.even
  rw [hlength] at heven
  refine ⟨heven, hlength' ▸ h.shaped.nonempty, fun var hvar => ?_⟩
  obtain ⟨i, hi⟩ := List.getElem?_of_mem hvar
  have hvars : s.vars = layout size (declared.map (·.bits)) := h.shaped.vars
  rw [hvars, getElem?_layout, Option.map_eq_some_iff] at hi
  obtain ⟨bits, hbits, rfl⟩ := hi
  exact hlength' ▸ h.shaped.pack_lt (List.getElem?_eq_some_iff.mp hbits).1

/-- No pack is opened before the ones there are full, and each one holds some of the variables. -/
theorem Arranged.roomy (h : Arranged size declared (s.map holds))
    (hfew : declared.length < 2 ^ 32) : Roomy s := by
  have hlength : (s.map holds).packs.length = s.packs.length := by simp [map]
  refine ⟨h.steady.pos, ?_, fun p hp => ?_⟩
  · have hle : (s.packs.length - 1) * 1 ≤ (s.packs.length - 1) * size :=
      Nat.mul_le_mul_left _ h.shaped.pos
    have hneeded := h.needed
    rw [hlength] at hneeded
    omega
  · obtain ⟨i, hi, rfl⟩ := List.getElem_of_mem hp
    rw [(h.pack_eq (List.getElem?_eq_getElem hi)).2, length_chunk]
    omega

/-- The packs have taken the declared variables, and what has been given out is counted. -/
structure Tallied (holds : ρ → List Variable) (size : Nat) (past : List Outcome) (s : Packed ρ) :
    Prop where
  arranged : ∃ declared, Arranged size declared (s.map holds) ∧ declared.length = declaredVars past
  issued : s.issued.toNat = (issuedSets past).length

theorem length_declared {k : Answer} (call : Call k) (r : Except DomainError k.Value) :
    ((⟨call⟩ : Request).declared (r.map k.reply)).toList.length = declaredVars [r.map k.reply] := by
  cases call <;> cases r <;> rfl

theorem issuedSets_reply {k : Answer} (hk : k ≠ .set) (r : Except DomainError k.Value) :
    issuedSets [r.map k.reply] = [] := by
  cases k with
  | set => exact absurd rfl hk
  | _ => cases r <;> rfl

namespace Tallied

/-- A call lets the guards pass, and the sets are counted as they are made. -/
theorem passes (h : Tallied holds size past s) (hinner : Lists inner holds) (request : Request)
    (host : Host) (hfew : Few (past ++ [((operations inner).respond request s host).1])) :
    let answered := (operations inner).respond request s host
    guardedStep inner request.call s host = plain (step inner request.call) s host ∧
      answered.2.1.issued.toNat = (issuedSets (past ++ [answered.1])).length := by
  obtain ⟨declared, harranged, hcount⟩ := h.arranged
  have hsteady := harranged.steady
  obtain @⟨k, call⟩ := request
  -- Only calls that make a set count one.
  have hsilent (hk : k ≠ .set) (hissued : (step inner call s host).2.1.issued = s.issued) :
      (step inner call s host).2.1.issued.toNat =
        (issuedSets (past ++ [((operations inner).respond ⟨call⟩ s host).1])).length := by
    rw [hissued, h.issued, issuedSets_append]
    exact congrArg List.length ((congrArg _ (issuedSets_reply hk _)).trans (List.append_nil _)).symm
  cases k with
  | var =>
    obtain ⟨name, bits⟩ := call
    have hroomy := harranged.roomy (hcount ▸ hfew.of_append.vars)
    have hnext (var : VarId) (hvar : (declare inner name bits s host).1 = .ok var) :
        s.vars.length + 1 < 2 ^ 32 := by
      have hvars := hfew.vars
      change declaredVars (past ++ [(declare inner name bits s host).1.map _]) < _ at hvars
      rwa [hvar, declaredVars_append, ← hcount, ← harranged.length_vars] at hvars
    obtain ⟨hpasses, hissued⟩ := hroomy.guardedDeclare_eq hnext
    exact ⟨hpasses, hsilent (by decide) hissued⟩
  | set =>
    obtain ⟨hpasses, hissued⟩ := stores_step hinner.spares call s host hsteady
    have hsets := hfew.sets
    change (issuedSets (past ++ [(step inner call s host).1.map _])).length < _ at hsets
    change _ ∧ (step inner call s host).2.1.issued.toNat =
      (issuedSets (past ++ [(step inner call s host).1.map _])).length
    cases hset : (step inner call s host).1 with
    | error e =>
      rw [hset] at hissued hpasses
      rw [hissued, h.issued, issuedSets_append, List.length_append]
      exact ⟨hpasses nofun, rfl⟩
    | ok set =>
      rw [hset, issuedSets_append, List.length_append, ← h.issued] at hsets
      rw [hset] at hissued
      rw [hissued, issuedSets_append, List.length_append, ← h.issued, UInt32.toNat_add]
      exact ⟨hpasses fun _ _ => hsets, Nat.mod_eq_of_lt hsets⟩
  | bool =>
    exact ⟨passes_query hinner.spares call s host hsteady, hsilent (by decide)
      (congrArg (·.issued) (frames_query hinner.spares call s host hsteady.toEven).1)⟩
  | unit =>
    cases call with
    | release set =>
      exact ⟨congrFun (congrFun (guardedStep_release inner set) s) host,
        hsilent (by decide) (issued_release hinner.spares set hsteady.toEven host)⟩

theorem respond (h : Tallied holds size past s) (hinner : Lists inner holds) (request : Request)
    (host : Host) (hfew : Few (past ++ [((operations inner).respond request s host).1])) :
    let answered := (operations inner).respond request s host
    guardedStep inner request.call s host = plain (step inner request.call) s host ∧
      Tallied holds size (past ++ [answered.1]) answered.2.1 := by
  intro answered
  obtain ⟨declared, harranged, hcount⟩ := h.arranged
  obtain ⟨hpasses, hissued⟩ := h.passes hinner request host hfew
  refine ⟨hpasses, ⟨_, harranged.respond hinner request host, ?_⟩, hissued⟩
  rw [List.length_append, declaredVars_append, hcount]
  exact congrArg _ (length_declared request.call _)

end Tallied

variable {first further : ρ}

/-- Packs hold one variable at least. -/
theorem Arranged.fresh (hfirst : holds first = []) (hfurther : holds further = [])
    (backend : String) (size : Nat) :
    Arranged (max size 1) [] ((Packed.new first backend (.ok further) size).map holds) := by
  have harranged := Arranged.new (Nat.le_max_right size 1) hfirst hfurther backend
  have hcapacity : Packed.new first backend (.ok further) (max size 1) =
      Packed.new first backend (.ok further) size := by
    rw [Packed.new, Packed.new, Nat.max_assoc, Nat.max_self]
  rwa [hcapacity] at harranged

section

variable (hinner : Lists inner holds) (hfirst : holds first = []) (hfurther : holds further = [])
  (backend : String) (size : Nat) (requests : List Request) (host : Host)

include hinner hfirst hfurther

/-- Written out with its guards, a packed domain runs as it does without them. -/
theorem guardedRun_eq
    (hfew : Few ((operations inner).run requests (new first backend (.ok further) size) host).1) :
    Guarded.run (guardedStep inner) requests (new first backend (.ok further) size) host =
      .ok ((operations inner).run requests (new first backend (.ok further) size) host) := by
  have hstart : Tallied holds (max size 1) [] (new first backend (.ok further) size) :=
    ⟨⟨[], .fresh hfirst hfurther backend size, rfl⟩, rfl⟩
  exact Guarded.run_eq (fun _ _ request host hs hfew => hs.respond hinner request host hfew)
    requests hstart host hfew

theorem guardedDescribe_run :
    let s := ((operations inner).run requests (new first backend (.ok further) size) host).2.1
    guardedDescribe inner s = .ok (s.describe inner) := by
  intro s
  have harranged := (Arranged.fresh hfirst hfurther backend size).run hinner requests host
  exact guardedDescribe_eq inner harranged.steady

end

end

end LayeredSets.Packed
