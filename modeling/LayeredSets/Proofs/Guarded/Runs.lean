import LayeredSets.Proofs.Guarded.Enumeration
import LayeredSets.Proofs.Guarded.Filling
import LayeredSets.Proofs.Guarded.Solver

/-!
# Runs are never stopped

Whatever is asked of an explicit domain, of a solver domain or of a packed domain over explicit
ones, none of the guards stops it as long as handles are left in each of the domains involved. The
packs are watched on their own: what one of them was asked in the course of a run is a run as well.
-/

namespace LayeredSets

/-! ## Packs on their own -/

/-- What the tap has written down is a run of a fresh explicit domain. -/
structure Bottom.Replays (limit : UInt32) (s : Bottom) : Prop where
  outcomes : ∀ host, (Explicit.operations.run (s.layer.map (·.request)) (.new limit) host).1 =
    s.layer.outcomes
  inner : ∀ host, (Explicit.operations.run (s.layer.map (·.request)) (.new limit) host).2.1 =
    s.inner

namespace Bottom.Replays

variable {limit : UInt32} {s : Bottom}

theorem new (limit : UInt32) : Replays limit ⟨[], .new limit⟩ := ⟨fun _ => rfl, fun _ => rfl⟩

/-- The host makes no difference to an explicit domain. -/
theorem step (h : Replays limit s) {k : Answer} (call : Call k) (host : Host) :
    Replays limit ((Tap.operations Explicit.operations).step call s host).2.1 := by
  have hsame (host' : Host) :
      (Explicit.operations.step call s.inner host').1 =
        (Explicit.operations.step call s.inner host).1 ∧
      (Explicit.operations.step call s.inner host').2.1 =
        (Explicit.operations.step call s.inner host).2.1 := by
    simp only [Explicit.operations, Explicit.step]
    cases s.inner.apply call <;> exact ⟨rfl, rfl⟩
  have hlayer : ((Tap.operations Explicit.operations).step call s host).2.1.layer.map (·.request) =
      s.layer.map (·.request) ++ [⟨call⟩] := List.map_append
  constructor <;> intro host'
  · rw [hlayer, Operations.run_append]
    simp only [h.outcomes, h.inner]
    refine Eq.trans ?_ List.map_append.symm
    exact congrArg (s.layer.outcomes ++ [·]) (congrArg (Except.map k.reply) (hsame _).1)
  · rw [hlayer, Operations.run_append]
    simp only [h.inner]
    exact (hsame _).2

/-- What a tapped explicit domain was asked never stopped it. -/
theorem guardedRun_eq (h : Replays limit s) (hlimit : limit.toNat ≤ 2 ^ 32 - 64)
    (hfew : s.layer.sets < 2 ^ 32) (host : Host) :
    ∃ d, Guarded.run Enumeration.step (s.layer.map (·.request)) (.new limit) host =
      .ok (s.layer.outcomes, d, host) := by
  have hrun := Enumeration.run_eq hlimit (s.layer.map (·.request)) host host
    (by rw [h.outcomes]; exact hfew)
  rwa [h.outcomes] at hrun

end Bottom.Replays

namespace Packed

variable {ρ : Type}

/-- What the calls of the packs keep, the packs have for good. -/
theorem forall_pack_run {inner : Operations ρ} {P : ρ → Prop}
    (hkeeps : ∀ {k : Answer} (call : Call k) (d : ρ) (host : Host), P d →
      P (inner.step call d host).2.1) {s : Packed ρ} (hpacks : ∀ p ∈ s.packs, P p.domain)
    (hblank : ∀ d, s.blank = .ok d → P d) (requests : List Request) (host : Host) :
    ∀ p ∈ ((operations inner).run requests s host).2.1.packs, P p.domain := by
  have hinner : inner.Couples (fun d d' => d = d' ∧ P d) (· = ·) inner := by
    constructor
    · rintro k call d _ ⟨rfl, hd⟩ host _ rfl
      exact ⟨rfl, ⟨rfl, hkeeps call d host hd⟩, rfl⟩
    · rintro d _ ⟨rfl, -⟩
      rfl
    · rintro d _ ⟨rfl, -⟩ host _ rfl
      rfl
  have hstart : Related (fun d d' => d = d' ∧ P d) s s := by
    have hsame (p : Pack ρ) (hp : p ∈ s.packs) :
        Pack.Related (fun d d' => d = d' ∧ P d) p p := ⟨⟨rfl, hpacks p hp⟩, rfl⟩
    refine ⟨List.forall₂_same.mpr hsame, rfl, rfl, ?_, rfl, rfl, rfl⟩
    cases hb : s.blank with
    | error e => exact .inl ⟨e, rfl, rfl⟩
    | ok d => exact .inr ⟨d, d, rfl, rfl, rfl, hblank d hb⟩
  have hend := ((couples hinner).run requests hstart (rfl : host = host)).2.1.packs
  generalize ((operations inner).run requests s host).2.1.packs = packs at hend
  exact fun p hp => (List.forall₂_same.mp hend p hp).1.2

/-- Components are always made, so a pack that is given up was asked for its variable only. -/
theorem openPack_error {inner : Operations ρ} (I : Meaning inner) {name : String} {bits : UInt32}
    {sets : Table SetId (List Term)} {d : ρ} {host : Host} {e : DomainError}
    (h : (openPack inner name bits sets d host).1 = .error e) :
    (openPack inner name bits sets d host).2.1 = (inner.step (.declare name bits) d host).2.1 := by
  rw [openPack_eq] at h ⊢
  rcases hcall : inner.step (.declare name bits) d host with ⟨e' | var, domain, host'⟩
  · rw [Action.bind_apply_error hcall]
  · obtain ⟨entries, hentries⟩ := extend_ok I sets.entries domain host'
    rcases hextend : extend (inner.step .top) sets.entries domain host' with ⟨_ | _, after, host''⟩
    · rw [hextend] at hentries
      cases hentries
    · rw [Action.bind_apply_ok hcall, Action.bind_apply_ok hextend] at h
      cases h

end Packed

namespace Domain

/-- Some handles are left in each of the domains involved. -/
def LeavesHandles (d : Domain) (requests : List Request) (host : Host) : Prop :=
  ∀ t ∈ d.transcripts requests host, t.sets < 2 ^ 32 ∧ t.vars < 2 ^ 32

variable {requests : List Request} {host : Host}

theorem LeavesHandles.few {d : Domain} (h : d.LeavesHandles requests host) :
    Few (d.run requests host).1 := by
  have hhead := d.head_transcripts requests host
  obtain ⟨t, ht, hevents⟩ := Option.map_eq_some_iff.mp hhead
  have houtcomes : t.outcomes = (d.run requests host).1 := by
    have hsnd := congrArg (List.map Prod.snd) hevents
    rw [List.map_map, List.map_snd_zip] at hsnd
    · exact hsnd
    · exact (d.shape.operations.length_run requests d.state host).le
  have hfew := h t (List.mem_of_mem_head? ht)
  rw [← houtcomes]
  exact ⟨hfew.1, hfew.2⟩

section

variable (first further : UInt32) (backend : String) (size : Nat)

/-- The packs of a packed domain are asked as explicit domains on their own would be. -/
theorem replays_packs :
    ∀ p ∈ (((explicit first).pack backend (.ok (explicit further)) size).tappedEnd requests
      host).inner.packs,
      Sum.elim (Bottom.Replays first) (Bottom.Replays further) p.domain := by
  rw [(run_pack first further backend size requests host).2.2]
  refine Packed.forall_pack_run (fun call d host hd => ?_) ?_ ?_ requests host
  · cases d with
    | inl d => exact Bottom.Replays.step hd call host
    | inr d => exact Bottom.Replays.step hd call host
  · exact List.forall_mem_singleton.mpr (Bottom.Replays.new first)
  · rintro _ ⟨⟩
    exact Bottom.Replays.new further

end

/-- Whatever is asked of an explicit domain, of a solver domain with any solver or of a packed
domain with packs of any size, no guard stops it as long as handles are left: written out with their
guards, the domains give the same replies. The packs, each on its own, are not stopped either, and
neither are the packs that a packed domain gives up before it has taken them in. -/
theorem never_stopped (requests : List Request) (host : Host) :
    (∀ limit : UInt32, limit.toNat ≤ 2 ^ 32 - 64 →
      (explicit limit).LeavesHandles requests host →
        ∃ d, Guarded.run Enumeration.step requests (.new limit) host =
          .ok (((explicit limit).run requests host).1, d, host)) ∧
    (∀ (label : String) (solver : Solver), (smt label solver).LeavesHandles requests host →
      Guarded.run Smt.guardedStep requests (.new label solver) host =
        .ok (Smt.operations.run requests (.new label solver) host)) ∧
    ∀ (first further : UInt32) (backend : String) (size : Nat),
      let packed := (explicit first).pack backend (.ok (explicit further)) size
      let inner := Explicit.operations.sum Explicit.operations
      first.toNat ≤ 2 ^ 32 - 64 → further.toNat ≤ 2 ^ 32 - 64 → packed.LeavesHandles requests host →
        Guarded.run (Packed.guardedStep inner) requests packed.state host =
          .ok ((Packed.operations inner).run requests packed.state host) ∧
        Packed.guardedDescribe inner (packedEnd first further backend size requests host) =
          .ok ((packedEnd first further backend size requests host).describe inner) ∧
        (∀ t ∈ (packed.transcripts requests host).tail,
          ∃ limit, (limit = first ∨ limit = further) ∧
            ∃ d, Guarded.run Enumeration.step (t.map (·.request)) (.new limit) host =
              .ok (t.outcomes, d, host)) ∧
        ∀ (name : String) (bits : UInt32) (sets : Table SetId (List Term)) (host : Host),
          let opened := Packed.openPack (Tap.operations Explicit.operations) name bits sets
            ⟨[], .new further⟩ host
          (∃ e, opened.1 = .error e) →
            ∃ d, Guarded.run Enumeration.step (opened.2.1.layer.map (·.request)) (.new further)
              host = .ok (opened.2.1.layer.outcomes, d, host) := by
  refine ⟨fun limit hlimit hleft => Enumeration.run_eq hlimit requests host host hleft.few.sets,
    fun label solver hleft => Smt.guardedRun_eq label solver requests host hleft.few, ?_⟩
  intro first further backend size packed inner hfirst hfurther hleft
  have hinner := Explicit.lists.sum Explicit.lists
  refine ⟨Packed.guardedRun_eq hinner rfl rfl backend size requests host hleft.few,
    Packed.guardedDescribe_run hinner rfl rfl backend size requests host, ?_, ?_⟩
  · intro t ht
    obtain ⟨p, hp, hlayer⟩ := List.mem_flatMap.mp ht
    have hreplays := replays_packs first further backend size p hp
    have hfew := (hleft t (List.mem_of_mem_tail ht)).1
    obtain ⟨d | d, held⟩ := p
    · obtain rfl := List.mem_singleton.mp hlayer
      exact ⟨first, .inl rfl, Bottom.Replays.guardedRun_eq hreplays hfirst hfew host⟩
    · obtain rfl := List.mem_singleton.mp hlayer
      exact ⟨further, .inr rfl, Bottom.Replays.guardedRun_eq hreplays hfurther hfew host⟩
  · rintro name bits sets host opened ⟨e, herror⟩
    have hreplays := (Bottom.Replays.new further).step (.declare name bits) host
    rw [← Packed.openPack_error Bottom.meaning herror] at hreplays
    refine hreplays.guardedRun_eq hfurther ?_ host
    rw [Packed.openPack_error Bottom.meaning herror]
    have hnone := Packed.issuedSets_reply (k := .var) (by decide)
      (Explicit.operations.step (.declare name bits) (.new further) host).1
    exact (congrArg List.length hnone).trans_lt (by norm_num)

/-- A variable that fits into no pack, sets across two packs and unknown handles. -/
theorem never_stopped_sample :
    let requests : List Request :=
      [⟨.declare "x" 1⟩, ⟨.varEqConst ⟨0⟩ 1⟩, ⟨.declare "y" 1⟩, ⟨.varEqVar ⟨0⟩ ⟨1⟩⟩,
        ⟨.complement ⟨2⟩⟩, ⟨.declare "z" 5⟩, ⟨.singleton [1, 0]⟩, ⟨.subset ⟨4⟩ ⟨3⟩⟩,
        ⟨.varEqConst ⟨7⟩ 4⟩, ⟨.exists ⟨3⟩ ⟨1⟩⟩, ⟨.release ⟨3⟩⟩, ⟨.isEmpty ⟨5⟩⟩]
    let solver : Solver := ⟨fun _ host => (.ok .unknown, host)⟩
    let packed := (explicit 4).pack "explicit" (.ok (explicit 4)) 1
    let inner := Explicit.operations.sum Explicit.operations
    (explicit 4).LeavesHandles requests Host.initial ∧
      (smt "smt" solver).LeavesHandles requests Host.initial ∧
      packed.LeavesHandles requests Host.initial ∧
      (packed.run requests Host.initial).1 = [.ok (.var ⟨0⟩), .ok (.set ⟨1⟩), .ok (.var ⟨1⟩),
        .ok (.set ⟨2⟩), .ok (.set ⟨3⟩), .error (.universeTooLarge 5 4), .ok (.set ⟨4⟩),
        .ok (.bool true), .error (.unknownVariable ⟨7⟩), .ok (.set ⟨5⟩), .ok .unit,
        .ok (.bool false)] ∧
      (∃ d, Guarded.run Enumeration.step requests (.new 4) Host.initial =
        .ok (((explicit 4).run requests Host.initial).1, d, Host.initial)) ∧
      Guarded.run Smt.guardedStep requests (.new "smt" solver) Host.initial =
        .ok (Smt.operations.run requests (.new "smt" solver) Host.initial) ∧
      Guarded.run (Packed.guardedStep inner) requests packed.state Host.initial =
        .ok ((Packed.operations inner).run requests packed.state Host.initial) := by
  intro requests solver packed inner
  have hexplicit : (explicit 4).LeavesHandles requests Host.initial := by
    unfold LeavesHandles
    decide +kernel
  have hsmt : (smt "smt" solver).LeavesHandles requests Host.initial := by
    unfold LeavesHandles
    decide +kernel
  have hpacked : packed.LeavesHandles requests Host.initial := by
    unfold LeavesHandles
    decide +kernel
  obtain ⟨hfirst, hsecond, hthird⟩ := never_stopped requests Host.initial
  exact ⟨hexplicit, hsmt, hpacked, by decide +kernel, hfirst 4 (by decide) hexplicit,
    hsecond "smt" solver hsmt, (hthird 4 4 "explicit" 1 (by decide) (by decide) hpacked).1⟩

end Domain
end LayeredSets
