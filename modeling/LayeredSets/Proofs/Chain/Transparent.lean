import LayeredSets.Proofs.Chain.Matches
import LayeredSets.Proofs.Chain.Points

/-!
# Layers are transparent

A chain of observers, remembered equalities and points over a fresh explicit domain answers as a
bare explicit domain does, up to the names of set handles, and its observers are told what is asked
of them and what is answered. By induction on the layers the chain rests on its bottom; by induction
on the calls it stays beside the bare domain.
-/

namespace LayeredSets

/-! ## Runs beside a bare domain -/

variable {σ : Type} {ops : Operations σ} {bottom : σ → Bottom} {Good : σ → Prop}

/-- One call on the domain and its renamed form on the bare one. -/
theorem Rests.respond (h : Rests ops bottom Good) (request : Request) {s : σ} (hs : Good s)
    {issued : List SetId} {b : Explicit} (hb : Matches issued (bottom s).inner b)
    (host host' : Host) (hknown : request.sets ⊆ issued)
    (hroom : ¬ (bottom (ops.respond request s host).2.1).Spent) (later : List SetId) :
    let first := ops.respond request s host
    let after := issued ++ issuedSets [first.1]
    let f := rank (after ++ later)
    let bare := Explicit.operations.respond (request.rename f) b host'
    bare.1 = Outcome.rename f first.1 ∧ Good first.2.1 ∧
      Matches after (bottom first.2.1).inner bare.2.1 := by
  intro first after f bare
  obtain ⟨hgood, hfollows⟩ := h.step request.call hs host hroom
  cases houtcome : (ops.step request.call s host).1 with
  | error e =>
    have hfirst : first.1 = .error e := by simp [first, Operations.respond, houtcome, Except.map]
    rw [houtcome] at hfollows
    have hafter : after = issued := by simp [after, hfirst, issuedSets]
    have happly := hb.follows_error hknown hfollows later
    rw [← hafter] at happly
    have hbare := Explicit.respond_of_apply_error happly host'
    change bare = _ at hbare
    rw [hbare, hfirst, hafter]
    refine ⟨?_, hgood, hb.similar hfollows.similar_of_error⟩
    simp only [f, hafter, Outcome.rename]
  | ok value =>
    have hfirst : first.1 = .ok (request.kind.reply value) := by
      simp [first, Operations.respond, houtcome, Except.map]
    rw [houtcome] at hfollows
    obtain ⟨value', b', happly, hreply, hmatches⟩ := hb.follows_ok hknown hfollows later
    rw [← hfirst] at happly hreply hmatches
    obtain ⟨host'', hbare⟩ := Explicit.respond_of_ok happly host'
    change bare = _ at hbare
    rw [hbare, hreply]
    refine ⟨?_, hgood, hmatches⟩
    simp only [f, after, hfirst, Outcome.rename]

/-- A run on the domain and its renamed form on the bare one: by induction on the calls, each of
which adds to the handles that are known. -/
theorem Rests.run (h : Rests ops bottom Good) (requests : List Request) {s : σ} (hs : Good s)
    {issued : List SetId} {b : Explicit} (hb : Matches issued (bottom s).inner b)
    (host host' : Host) (hroom : ¬ (bottom (ops.run requests s host).2.1).Spent)
    (hknown : ∀ i request, requests[i]? = some request →
      request.sets ⊆ issued ++ issuedSets ((ops.run requests s host).1.take i)) :
    let whole := ops.run requests s host
    let f := rank (issued ++ issuedSets whole.1)
    let bare := Explicit.operations.run (requests.map (·.rename f)) b host'
    bare.1 = whole.1.map (Outcome.rename f) ∧
      Matches (issued ++ issuedSets whole.1) (bottom whole.2.1).inner bare.2.1 := by
  induction requests generalizing s issued b host host' with
  | nil =>
    intro whole f bare
    simpa [whole, bare, Operations.run] using hb
  | cons request requests ih =>
    intro whole f bare
    have hkeeps := Operations.run_keeps h.keeps requests (ops.respond request s host).2.1
      (ops.respond request s host).2.2
    obtain ⟨houtcome, hgood, hmatches⟩ := h.respond request hs hb host host'
      (by simpa using hknown 0 request rfl) (fun hspent => hroom (hkeeps hspent))
      (issuedSets (ops.run requests (ops.respond request s host).2.1
        (ops.respond request s host).2.2).1)
    have hissued : issued ++ issuedSets whole.1 =
        issued ++ issuedSets [(ops.respond request s host).1] ++
          issuedSets (ops.run requests (ops.respond request s host).2.1
            (ops.respond request s host).2.2).1 := by
      rw [List.append_assoc, ← issuedSets_append]
      rfl
    rw [← hissued] at houtcome hmatches
    obtain ⟨hrest, hend⟩ := ih hgood hmatches (ops.respond request s host).2.2
      (Explicit.operations.respond (request.rename f) b host').2.2 hroom (by
        intro i next hnext
        have := hknown (i + 1) next hnext
        rwa [Operations.run_cons, List.take_succ_cons, ← List.singleton_append, issuedSets_append,
          ← List.append_assoc] at this)
    rw [← hissued] at hrest hend
    exact ⟨congrArg₂ List.cons houtcome hrest, hend⟩

/-- Handles of sets last if fewer than `2 ^ 32` are issued. So do handles of variables, of which a
limit that is not extreme allows no more. -/
theorem Bottom.not_spent {limit : UInt32} {s : Bottom}
    (hnarrow : limit.toNat ≤ 2 ^ 32 - 64 → s.Narrow limit)
    (hroom : s.layer.sets < 2 ^ 32 ∧ (2 ^ 32 - 64 < limit.toNat → s.layer.vars < 2 ^ 32)) :
    ¬ s.Spent := by
  obtain ⟨hsets, hvars⟩ := hroom
  rintro (hspent | hspent)
  · exact absurd hsets (not_lt.mpr hspent)
  · by_cases hlimit : 2 ^ 32 - 64 < limit.toNat
    · exact absurd (hvars hlimit) (not_lt.mpr hspent)
    · have hbits := (hnarrow (not_lt.mp hlimit)).bits
      have hcount := (hnarrow (not_lt.mp hlimit)).vars
      omega

theorem Rests.not_spent (h : Rests ops bottom Good) {limit : UInt32} (requests : List Request) {s : σ}
    (hs : bottom s = ⟨[], Explicit.new limit⟩) (host : Host)
    (hroom : let t := (bottom (ops.run requests s host).2.1).layer
      t.sets < 2 ^ 32 ∧ (2 ^ 32 - 64 < limit.toNat → t.vars < 2 ^ 32)) :
    ¬ (bottom (ops.run requests s host).2.1).Spent :=
  Bottom.not_spent (fun hlimit => Operations.run_keeps (h.preserves (Bottom.keeps_narrow hlimit))
    requests s host (hs ▸ Bottom.Narrow.new limit)) hroom

/-! ## Chains -/

/-- A layer of a chain that can stand anywhere. -/
inductive Layer
  | observer (o : Observer)
  | equalities
  | points

namespace Domain

/-- Put one more layer on top. -/
def attach (d : Domain) : Layer → Domain
  | .observer o => d.observe o
  | .equalities => d.rememberEqualities
  | .points => d.withPoints

/-- A fresh explicit domain under layers, which are listed from the outermost in. -/
def stack (limit : UInt32) : List Layer → Domain
  | [] => explicit limit
  | layer :: below => (stack limit below).attach layer

/-- The explicit domain at the bottom of a chain. -/
def stackBottom (limit : UInt32) :
    (layers : List Layer) → (stack limit layers).shape.State → Explicit
  | [], d => d
  | .observer _ :: below, s => stackBottom limit below s.inner
  | .equalities :: below, s => stackBottom limit below s.inner
  | .points :: below, s => stackBottom limit below s.inner

/-- A chain rests on its explicit domain, whose tap is one of the taps of the chain: by induction on
the layers. -/
theorem exists_rests_bottom (limit : UInt32) (layers : List Layer) :
    let d := stack limit layers
    ∃ (bottom : d.shape.Tapped → Bottom) (Good : d.shape.Tapped → Prop),
      Rests d.shape.tapped bottom Good ∧ Good (d.shape.tap d.state) ∧
        bottom (d.shape.tap d.state) = ⟨[], Explicit.new limit⟩ ∧
          (∀ t, (bottom t).layer ∈ d.shape.transcripts t) ∧
            ∀ t, (bottom t).inner = stackBottom limit layers (d.shape.untap t) := by
  induction layers with
  | nil =>
    refine ⟨id, Bottom.Sound, .explicit, .new limit, rfl, fun t => ?_, fun _ => rfl⟩
    exact List.mem_singleton.mpr rfl
  | cons layer below ih =>
    obtain ⟨bottom, Good, hrests, hgood, hstart, hmem, hinner⟩ := ih
    cases layer with
    | observer o =>
      exact ⟨_, _, hrests.observed.tapped, hgood, hstart,
        fun t => List.mem_cons_of_mem _ (hmem t.inner.inner), fun t => hinner t.inner.inner⟩
    | equalities =>
      exact ⟨_, _, hrests.equalities.tapped, ⟨hgood, .new _⟩, hstart,
        fun t => List.mem_cons_of_mem _ (hmem t.inner.inner), fun t => hinner t.inner.inner⟩
    | points =>
      have hnone : [] = varsFrom 0 (bottom ((stack limit below).shape.tap
          (stack limit below).state)).inner.vars.length := by
        rw [hstart]
        rfl
      exact ⟨_, _, hrests.points.tapped, ⟨hgood, hnone⟩, hstart,
        fun t => List.mem_cons_of_mem _ (hmem t.inner.inner), fun t => hinner t.inner.inner⟩

theorem exists_rests (limit : UInt32) (layers : List Layer) :
    let d := stack limit layers
    ∃ (bottom : d.shape.Tapped → Bottom) (Good : d.shape.Tapped → Prop),
      Rests d.shape.tapped bottom Good ∧ Good (d.shape.tap d.state) ∧
        bottom (d.shape.tap d.state) = ⟨[], Explicit.new limit⟩ ∧
          ∀ t, (bottom t).layer ∈ d.shape.transcripts t := by
  obtain ⟨bottom, Good, hrests, hgood, hstart, hmem, -⟩ := exists_rests_bottom limit layers
  exact ⟨bottom, Good, hrests, hgood, hstart, hmem⟩

/-- No matter what layers there are and in what order: each observer is told of every call made on
it, once and in order, with the outcome that its caller gets. And as long as callers stick to
handles that were issued to them, and no domain of the chain runs out of handles, the chain answers
as a bare explicit domain does, set handles being renamed one to one. -/
theorem stack_transparent (limit : UInt32) (layers : List Layer) (requests : List Request)
    (host host' : Host) :
    let d := stack limit layers
    let outcomes := (d.run requests host).1
    (d.shape.ObserversTold d.state (d.tappedEnd requests host) ∧
      (d.run requests host).2.1 = ⟨d.shape, d.shape.untap (d.tappedEnd requests host)⟩ ∧
      (d.transcripts requests host).head?.map (·.map fun e => (e.request, e.outcome)) =
        some (requests.zip outcomes)) ∧
    ((∀ i (hi : i < requests.length), ∀ set ∈ requests[i].sets,
        set ∈ issuedSets (outcomes.take i)) →
      (∀ t ∈ d.transcripts requests host,
        t.sets < 2 ^ 32 ∧ (2 ^ 32 - 64 < limit.toNat → t.vars < 2 ^ 32)) →
        ∃ f : SetId → SetId, Set.InjOn f {set | set ∈ issuedSets outcomes} ∧
          ((explicit limit).run (requests.map (·.rename f)) host').1 =
            outcomes.map (Outcome.rename f)) := by
  intro d outcomes
  have hrun := d.run_eq_tapped requests host
  refine ⟨⟨d.observersTold_run requests host, congrArg (·.2.1) hrun,
    d.head_transcripts requests host⟩, fun hknown hroom => ?_⟩
  obtain ⟨bottom, Good, hrests, hgood, hstart, hmem⟩ := exists_rests limit layers
  have houtcomes : outcomes = (d.shape.tapped.run requests (d.shape.tap d.state) host).1 :=
    congrArg (·.1) hrun
  have hleft := hrests.not_spent requests hstart host (hroom _ (hmem _))
  have hmatches : Matches [] (bottom (d.shape.tap d.state)).inner (Explicit.new limit) :=
    hstart ▸ Matches.new limit
  obtain ⟨hsame, hend⟩ := hrests.run requests hgood hmatches host host' hleft (by
    intro i request hrequest set hset
    obtain ⟨hi, rfl⟩ := List.getElem?_eq_some_iff.mp hrequest
    rw [← houtcomes]
    exact hknown i hi set hset)
  rw [← houtcomes, List.nil_append] at hsame hend
  exact ⟨rank (issuedSets outcomes), rank_injOn (hend.count ▸ UInt32.toNat_lt _), hsame⟩

/-- A point is made in the middle, equal sets are asked about and released, and calls fail. -/
theorem stack_transparent_sample :
    let layers : List Layer := [.equalities, .observer (.stats (.new false)), .points, .equalities]
    let requests : List Request :=
      [⟨.declare "x" 2⟩, ⟨.declare "y" 1⟩, ⟨.varEqConst ⟨0⟩ 1⟩, ⟨.singleton [1, 0]⟩,
        ⟨.varEqConst ⟨1⟩ 0⟩, ⟨.intersect ⟨1⟩ ⟨7⟩⟩, ⟨.equal ⟨6⟩ ⟨8⟩⟩, ⟨.subset ⟨8⟩ ⟨6⟩⟩,
        ⟨.singleton [1, 2]⟩, ⟨.release ⟨6⟩⟩, ⟨.equal ⟨6⟩ ⟨8⟩⟩]
    let d := stack 20 layers
    let outcomes := (d.run requests Host.initial).1
    outcomes =
        [.ok (.var ⟨0⟩), .ok (.var ⟨1⟩), .ok (.set ⟨1⟩), .ok (.set ⟨6⟩), .ok (.set ⟨7⟩),
          .ok (.set ⟨8⟩), .ok (.bool true), .ok (.bool true), .error (.valueOutOfRange 2 1),
          .ok .unit, .error (.unknownSet ⟨6⟩)] ∧
      (∀ i (hi : i < requests.length), ∀ set ∈ requests[i].sets,
        set ∈ issuedSets (outcomes.take i)) ∧
      (∀ t ∈ d.transcripts requests Host.initial,
        t.sets < 2 ^ 32 ∧ (2 ^ 32 - 64 < (20 : UInt32).toNat → t.vars < 2 ^ 32)) ∧
        ∃ f : SetId → SetId, Set.InjOn f {set | set ∈ issuedSets outcomes} ∧
          ((explicit 20).run (requests.map (·.rename f)) Host.initial).1 =
            outcomes.map (Outcome.rename f) := by
  intro layers requests d outcomes
  have houtcomes : outcomes =
      [.ok (.var ⟨0⟩), .ok (.var ⟨1⟩), .ok (.set ⟨1⟩), .ok (.set ⟨6⟩), .ok (.set ⟨7⟩),
        .ok (.set ⟨8⟩), .ok (.bool true), .ok (.bool true), .error (.valueOutOfRange 2 1),
        .ok .unit, .error (.unknownSet ⟨6⟩)] := by decide +kernel
  have hknown : ∀ i (hi : i < requests.length), ∀ set ∈ requests[i].sets,
      set ∈ issuedSets (outcomes.take i) := by
    rw [houtcomes]
    decide
  have hroom : ∀ t ∈ d.transcripts requests Host.initial,
      t.sets < 2 ^ 32 ∧ (2 ^ 32 - 64 < (20 : UInt32).toNat → t.vars < 2 ^ 32) := by
    decide +kernel
  exact ⟨houtcomes, hknown, hroom,
    (stack_transparent 20 layers requests Host.initial Host.initial).2 hknown hroom⟩

end Domain

end LayeredSets
