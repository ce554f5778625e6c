import LayeredSets.Proofs.Packed.Calls
import LayeredSets.Proofs.Packed.NewPack

/-!
# Packed domains answer as one domain does

Calls are made side by side on a packed domain over explicit packs and on one explicit domain. As
long as there is room for the variables and the packed domain refuses no equation, both stand for
one ideal state and give the same replies. A packed domain always stands for some ideal state, so
that it refuses nothing else.
-/

namespace LayeredSets

open Action

/-- The reply to a call where there is always room. -/
noncomputable def Ideal.allow (m : Ideal) : {k : Answer} → Call k →
    Except DomainError (k.Value × Ideal)
  | .var, .declare _ bits => m.declareFreely bits
  | _, call => m.apply call

theorem Ideal.allow_of_ne (m : Ideal) {k : Answer} (hk : k ≠ .var) (call : Call k) :
    m.allow call = m.apply call := by
  cases k with
  | var => exact absurd rfl hk
  | _ => rfl

namespace Represents

variable {d : Explicit} {m m' : Ideal} {k : Answer}

/-- The explicit domain replies in the same way, unless it has no room. -/
theorem agree_allow (h : Represents d m) (call : Call k) :
    (∃ total limit, d.apply call = .error (.universeTooLarge total limit)) ∨
      Agree (fun x y => x.1 = y.1 ∧ Represents x.2 y.2) (d.apply call) (m.allow call) := by
  by_cases hk : k = .var
  · subst hk
    obtain ⟨name, bits⟩ := call
    simp only [Explicit.apply, Ideal.allow, Ideal.declareFreely]
    cases hdeclare : d.declare name bits with
    | error e =>
      rcases Explicit.declare_eq_error hdeclare with ⟨hinvalid, rfl⟩ | ⟨-, total, rfl⟩
      · rw [← Bool.not_eq_true, isValidWidth_iff] at hinvalid
        rw [if_pos (by omega)]
        exact .inr rfl
      · exact .inl ⟨_, _, rfl⟩
    | ok x =>
      obtain ⟨var, after⟩ := x
      obtain ⟨hvalid, -, rfl, rfl⟩ := Explicit.declare_eq_ok hdeclare
      obtain ⟨hpos, hmax⟩ := (isValidWidth_iff bits).mp hvalid
      rw [if_neg (by omega), h.length]
      exact .inr ⟨rfl, h.grow name hpos hmax⟩
  · rw [m.allow_of_ne hk]
    exact .inr (h.apply_of_ne hk call)

/-- What goes wrong where there is room is about the arguments of the call. -/
theorem failsPlainly_allow (h : Represents d m) (call : Call k) : FailsPlainly (m.allow call) := by
  by_cases hk : k = .var
  · subst hk
    obtain ⟨name, bits⟩ := call
    exact .ite (.error trivial) (.pure _)
  · rw [m.allow_of_ne hk]
    intro e he
    have hagree := h.apply_of_ne hk call
    rw [he] at hagree
    exact d.failsPlainly_apply call e hagree.error_left

/-- Some explicit state stands for what follows, even if a given one has no room for it. -/
theorem exists_allow (h : Represents d m) {call : Call k} {value : k.Value}
    (hallow : m.allow call = .ok (value, m')) : ∃ d', Represents d' m' := by
  by_cases hk : k = .var
  · subst hk
    obtain ⟨name, bits⟩ := call
    simp only [Ideal.allow, Ideal.declareFreely] at hallow
    split at hallow
    · cases hallow
    · next hvalid =>
      obtain ⟨-, rfl⟩ := Prod.mk.inj (Except.ok.inj hallow)
      exact ⟨_, h.grow name (by omega) (by omega)⟩
  · rw [m.allow_of_ne hk] at hallow
    have hagree := h.apply_of_ne hk call
    rw [hallow] at hagree
    obtain ⟨⟨_, d'⟩, -, -, hd'⟩ := hagree.ok_left
    exact ⟨d', hd'⟩

end Represents

namespace Packed

variable {ρ : Type} {inner : Operations ρ} {I : Meaning inner} {size : Nat} {s : Packed ρ} {m : Ideal}

/-- One call: it is refused, or there is no room for a variable, or the reply is the ideal one. Its
accounts are settled in any case. -/
theorem StandsFor.ends_step (h : StandsFor I size s m) {k : Answer} (call : Call k) :
    Ends (AnyPack I.Spent) (step inner call) s fun outcome t =>
      ((s.Refuses call ∧ (∃ operation domain, outcome = .error (.unsupported operation domain)) ∧
        StandsFor I size t m) ∨
      ¬ s.Refuses call ∧
        ((∃ total limit, outcome = .error (.universeTooLarge total limit) ∧
          StandsFor I size t m) ∨ Replies I size m (m.allow call) outcome t)) ∧
      Settles I.ideal s call outcome t := by
  obtain ⟨table, lost, hspreads⟩ := h
  by_cases hrefuses : s.Refuses call
  · intro host _
    have hstranded : s.stranded call = 0 := by
      cases call with
      | varEqVar a b => rfl
      | _ => exact hrefuses.elim
    rw [step_refused hrefuses host]
    exact ⟨.inl ⟨hrefuses, ⟨_, _, rfl⟩, table, lost, hspreads⟩, settles_error hstranded _⟩
  · by_cases hk : k = .var
    · subst hk
      obtain ⟨name, bits⟩ := call
      exact (hspreads.ends_declare name bits).mono fun _ _ ⟨hreplies, hsettles⟩ =>
        ⟨.inr ⟨hrefuses, hreplies⟩, hsettles⟩
    · rw [m.allow_of_ne hk]
      exact (hspreads.ends_step hk call hrefuses).mono fun _ _ ⟨hreplies, hsettles⟩ =>
        ⟨.inr ⟨hrefuses, .inr hreplies⟩, hsettles⟩

/-- Handles that have all been given out stay so. -/
theorem spent_run (requests : List Request) (host : Host) (h : AnyPack I.Spent s) :
    AnyPack I.Spent ((operations inner).run requests s host).2.1 :=
  Operations.run_keeps (I := fun s _ => AnyPack I.Spent s) (fun _ call => keeps_step inner call)
    requests s host h

/-- A packed state and an explicit one that stand for one ideal state. -/
def Beside (I : Meaning inner) (size : Nat) (s : Packed ρ) (d : Explicit) : Prop :=
  ∃ m, StandsFor I size s m ∧ Represents d m

namespace Beside

variable {d : Explicit}

/-- One call on both sides. Even if there is no room on one of them or the call is refused, the
packed state goes on to stand for some ideal state. -/
theorem respond (h : Beside I size s d) (request : Request) (host host' : Host)
    (hleft : ¬ AnyPack I.Spent ((operations inner).respond request s host).2.1) :
    let packed := (operations inner).respond request s host
    let bare := Explicit.operations.respond request d host'
    ((∃ operation domain, packed.1 = .error (.unsupported operation domain)) ↔
        s.Refuses request.call) ∧
      (∃ d', Beside I size packed.2.1 d') ∧
      ((∀ total limit, packed.1 ≠ .error (.universeTooLarge total limit)) →
        (∀ total limit, bare.1 ≠ .error (.universeTooLarge total limit)) →
        (∀ operation domain, packed.1 ≠ .error (.unsupported operation domain)) →
          packed.1 = bare.1 ∧ Beside I size packed.2.1 bare.2.1) := by
  intro packed bare
  obtain ⟨m, hs, hd⟩ := h
  have hstep := (hs.ends_step request.call host hleft).1
  have hpacked : packed.1 = (step inner request.call s host).1.map request.kind.reply := rfl
  rcases hstep with ⟨hrefuses, ⟨operation, domain, houtcome⟩, ht⟩ |
    ⟨hallowed, ⟨total, limit, houtcome, ht⟩ | hreplies⟩
  · rw [houtcome] at hpacked
    refine ⟨iff_of_true ⟨_, _, hpacked⟩ hrefuses, ⟨d, m, ht, hd⟩, fun _ _ hnot => ?_⟩
    exact absurd hpacked (hnot operation domain)
  · rw [houtcome] at hpacked
    refine ⟨iff_of_false ?_ hallowed, ⟨d, m, ht, hd⟩, fun hroom _ _ => ?_⟩
    · rintro ⟨_, _, hunsupported⟩
      cases hpacked.symm.trans hunsupported
    · exact absurd hpacked (hroom total limit)
  · have hagree := hd.agree_allow request.call
    cases hallow : m.allow request.call with
    | error e =>
      rw [hallow] at hreplies hagree
      rw [hreplies.1] at hpacked
      have hplain := hd.failsPlainly_allow request.call e hallow
      refine ⟨iff_of_false ?_ hallowed, ⟨d, m, hreplies.2, hd⟩, fun _ hroom _ => ?_⟩
      · rintro ⟨_, _, hunsupported⟩
        rw [hpacked] at hunsupported
        obtain rfl := Except.error.inj hunsupported
        exact hplain
      · rcases hagree with ⟨total, limit, happly⟩ | hagree
        · exact absurd (congrArg (·.1) (Explicit.respond_of_apply_error happly host'))
            (hroom total limit)
        · have hbare : bare = _ := Explicit.respond_of_apply_error hagree.error_left host'
          rw [hpacked, hbare]
          exact ⟨rfl, m, hreplies.2, hd⟩
    | ok x =>
      obtain ⟨value, m'⟩ := x
      rw [hallow] at hreplies hagree
      rw [hreplies.1] at hpacked
      obtain ⟨d', hd'⟩ := hd.exists_allow hallow
      refine ⟨iff_of_false ?_ hallowed, ⟨d', m', hreplies.2, hd'⟩, fun _ hroom _ => ?_⟩
      · rintro ⟨_, _, hunsupported⟩
        cases hpacked.symm.trans hunsupported
      · rcases hagree with ⟨total, limit, happly⟩ | hagree
        · exact absurd (congrArg (·.1) (Explicit.respond_of_apply_error happly host'))
            (hroom total limit)
        · obtain ⟨⟨_, d''⟩, happly, rfl, hd''⟩ := hagree.ok_left
          obtain ⟨host'', hbare⟩ := Explicit.respond_of_ok happly host'
          change bare = _ at hbare
          rw [hpacked, hbare]
          exact ⟨rfl, m', hreplies.2, hd''⟩

/-- By induction on the calls. -/
theorem run (h : Beside I size s d) (requests : List Request) (host host' : Host)
    (hleft : ¬ AnyPack I.Spent ((operations inner).run requests s host).2.1)
    (hroom : ∀ total limit,
      .error (.universeTooLarge total limit) ∉ ((operations inner).run requests s host).1)
    (hroom' : ∀ total limit,
      .error (.universeTooLarge total limit) ∉ (Explicit.operations.run requests d host').1)
    (haccepted : ∀ operation domain,
      .error (.unsupported operation domain) ∉ ((operations inner).run requests s host).1) :
    ((operations inner).run requests s host).1 = (Explicit.operations.run requests d host').1 := by
  induction requests generalizing s d host host' with
  | nil => rfl
  | cons request requests ih =>
    simp only [Operations.run_cons, List.mem_cons, not_or] at hleft hroom hroom' haccepted ⊢
    obtain ⟨-, -, hsame⟩ := h.respond request host host' fun hs => hleft (spent_run requests _ hs)
    obtain ⟨hfirst, hnext⟩ := hsame (fun _ _ => Ne.symm (hroom _ _).1)
      (fun _ _ => Ne.symm (hroom' _ _).1) fun _ _ => Ne.symm (haccepted _ _).1
    have hrest := ih hnext ((operations inner).respond request s host).2.2
      (Explicit.operations.respond request d host').2.2 hleft (fun _ _ => (hroom _ _).2)
      (fun _ _ => (hroom' _ _).2) fun _ _ => (haccepted _ _).2
    exact congrArg₂ List.cons hfirst hrest

/-- Whatever happens on the way. -/
theorem exists_run (h : Beside I size s d) (requests : List Request) (host : Host)
    (hleft : ¬ AnyPack I.Spent ((operations inner).run requests s host).2.1) :
    ∃ d', Beside I size ((operations inner).run requests s host).2.1 d' := by
  induction requests generalizing s d host with
  | nil => exact ⟨d, h⟩
  | cons request requests ih =>
    simp only [Operations.run_cons] at hleft ⊢
    obtain ⟨-, ⟨d', hnext⟩, -⟩ := h.respond request host host fun hs => hleft (spent_run requests _ hs)
    exact ih hnext _ hleft

/-- A packed domain over fresh packs stands for a fresh domain. -/
theorem new {first further : ρ} (hfirst : I.Fresh first) (hfurther : I.Fresh further)
    (backend : String) (hsize : 0 < size) (limit : UInt32) :
    Beside I size (Packed.new first backend (.ok further) size) (Explicit.new limit) := by
  refine ⟨Ideal.new limit, ⟨.empty, 0, ?_, ?_, by simp [Table.empty], rfl, fun _ => rfl, rfl⟩,
    .new limit⟩
  · have hcapacity : max size 1 = size := Nat.max_eq_left hsize
    refine ⟨hsize, hcapacity, ?_, by simp [outline, map, Packed.new], Nat.zero_le _, ?_, rfl⟩
    · simp [outline, map, Packed.new, Pack.map, hfirst.widths, Ideal.new, chunk]
    · simp [outline, map, Packed.new]
  · refine ⟨rfl, fun pack hpack => ?_, ⟨further, rfl, hfurther⟩, fun c => ?_, ?_⟩
    · rw [List.mem_singleton.mp hpack]
      exact hfirst.good
    · refine iff_of_false (by simp [tableCells, Table.empty]) ?_
      rintro ⟨pack, hpack, hvalue⟩
      rw [List.mem_singleton.mp (List.mem_of_getElem? hpack), hfirst.sets] at hvalue
      cases hvalue
    · simp [tableCells, Table.empty]

end Beside

end Packed

/-! ## Explicit packs -/

theorem Bottom.fresh (limit : UInt32) : Bottom.meaning.Fresh ⟨[], Explicit.new limit⟩ where
  good := .new limit
  unspent := by
    change ¬ 2 ^ 32 ≤ 0
    omega
  widths := rfl
  sets _ := rfl

namespace Packed

/-- Packed domains over tapped explicit domains. -/
abbrev Tapped : Type := Packed (Bottom ⊕ Bottom)

abbrev tapped : Operations Tapped :=
  operations ((Tap.operations Explicit.operations).sum (Tap.operations Explicit.operations))

/-- All handles of sets of some pack have been given out. -/
abbrev Tapped.Spent : Tapped → Prop := AnyPack (Bottom.meaning.sum Bottom.meaning).Spent

def Tapped.new (first further : UInt32) (backend : String) (size : Nat) : Tapped :=
  Packed.new (.inl ⟨[], .new first⟩) backend (.ok (.inr ⟨[], .new further⟩)) size

theorem Tapped.beside (first further limit : UInt32) (backend : String) {size : Nat}
    (hsize : 0 < size) :
    Beside (Bottom.meaning.sum Bottom.meaning) size (Tapped.new first further backend size)
      (Explicit.new limit) := by
  refine .new ?_ ?_ backend hsize limit
  · have h := Bottom.fresh first
    exact ⟨h.good, h.unspent, h.widths, h.sets⟩
  · have h := Bottom.fresh further
    exact ⟨h.good, h.unspent, h.widths, h.sets⟩

/-- A run that spends no handles spent none before its end. -/
theorem Tapped.unspent_take {requests : List Request} {s : Tapped} {host : Host}
    (h : ¬ (tapped.run requests s host).2.1.Spent) (n : Nat) :
    ¬ (tapped.run (requests.take n) s host).2.1.Spent := by
  intro hspent
  refine h ?_
  rw [← List.take_append_drop n requests, Operations.run_append]
  exact spent_run _ _ hspent

/-- Which calls are refused depends on where the variables live. -/
theorem refuses_congr {ρ τ : Type} {s : Packed ρ} {t : Packed τ} (h : s.vars = t.vars) {k : Answer}
    (call : Call k) : s.Refuses call ↔ t.Refuses call := by
  cases call <;> simp only [Refuses, h]

end Packed

namespace Domain

section

variable (first further : UInt32) (backend : String) (size : Nat) (requests : List Request)
  (host : Host)

/-- The taps of a packed domain over fresh explicit ones make no difference to its run. -/
theorem run_pack :
    let packed := (explicit first).pack backend (.ok (explicit further)) size
    let tapped := Packed.tapped.run requests (.new first further backend size) host
    (packed.run requests host).1 = tapped.1 ∧
      Packed.vars (packed.shape.operations.run requests packed.state host).2.1 = tapped.2.1.vars ∧
      (packed.tappedEnd requests host).inner = tapped.2.1 := by
  intro packed tapped
  have hcarries := (Tap.carries Packed.tapped).run requests
    ⟨[], .new first further backend size⟩ host
  have huntap := packed.shape.carries_untap.run requests (packed.shape.tap packed.state) host
  rw [Shape.untap_tap] at huntap
  have hvars : Packed.vars (packed.shape.operations.run requests packed.state host).2.1 =
      (packed.tappedEnd requests host).inner.vars := congrArg (fun r => Packed.vars r.2.1) huntap
  have hend : (packed.tappedEnd requests host).inner = tapped.2.1 :=
    (congrArg (·.2.1) hcarries).symm
  exact ⟨(congrArg (·.1) huntap).trans (congrArg (·.1) hcarries).symm, hend ▸ hvars, hend⟩

/-- A pack whose handles are all given out has issued them all. -/
theorem unspent_pack
    (hfew : ∀ t ∈ ((explicit first).pack backend (.ok (explicit further)) size).transcripts
      requests host, t.sets < 2 ^ 32) :
    ¬ (Packed.tapped.run requests (.new first further backend size) host).2.1.Spent := by
  rintro ⟨pack, hpack, hspent⟩
  rw [← (run_pack first further backend size requests host).2.2] at hpack
  obtain ⟨d | d, held⟩ := pack
  all_goals
    have hlayer := hfew d.layer (List.mem_cons_of_mem _ (List.mem_flatMap.mpr
      ⟨_, hpack, List.mem_singleton_self _⟩))
    exact absurd hspent (not_le.mpr hlayer)

end

/-- A packed domain over fresh explicit domains of any limits answers as one explicit domain of any
limit does, as long as there is room for all variables and no equation is refused. The equations
that are refused are those between variables of one width above 8 bits in different packs. -/
theorem pack_agrees (first further limit : UInt32) (backend : String) {size : Nat}
    (hsize : 0 < size) (requests : List Request) (host host' : Host) :
    let packed := (explicit first).pack backend (.ok (explicit further)) size
    let outcomes := (packed.run requests host).1
    let bare := ((explicit limit).run requests host').1
    (∀ t ∈ packed.transcripts requests host, t.sets < 2 ^ 32) →
      (∀ n, (∀ total bound, .error (.universeTooLarge total bound) ∉ outcomes.take n) →
        (∀ total bound, .error (.universeTooLarge total bound) ∉ bare.take n) →
        (∀ operation domain, .error (.unsupported operation domain) ∉ outcomes.take n) →
          outcomes.take n = bare.take n) ∧
      ∀ i (hi : i < requests.length),
        (∃ operation domain, outcomes[i]? = some (.error (.unsupported operation domain))) ↔
          Packed.Refuses (packed.shape.operations.run (requests.take i) packed.state host).2.1
            requests[i].call := by
  intro packed outcomes bare hfew
  let start := Packed.Tapped.new first further backend size
  have houtcomes : outcomes = (Packed.tapped.run requests start host).1 :=
    (run_pack first further backend size requests host).1
  have hbare : bare = (Explicit.operations.run requests (Explicit.new limit) host').1 := rfl
  have hstart := Packed.Tapped.beside first further limit backend hsize
  have hleft := unspent_pack first further backend size requests host hfew
  refine ⟨fun n hroom hroom' haccepted => ?_, fun i hi => ?_⟩
  · rw [houtcomes, ← Operations.run_take] at hroom haccepted ⊢
    rw [hbare, ← Operations.run_take] at hroom' ⊢
    exact hstart.run (requests.take n) host host' (Packed.Tapped.unspent_take hleft n) hroom hroom'
      haccepted
  · have hunspent := Packed.Tapped.unspent_take hleft (i + 1)
    rw [List.take_succ_eq_append_getElem hi, Operations.run_append] at hunspent
    obtain ⟨d, hbeside⟩ := hstart.exists_run (requests.take i) host
      (Packed.Tapped.unspent_take hleft i)
    obtain ⟨hrefused, -⟩ := hbeside.respond requests[i]
      (Packed.tapped.run (requests.take i) start host).2.2 host' hunspent
    have hvars := (run_pack first further backend size (requests.take i) host).2.1
    rw [Packed.refuses_congr hvars, houtcomes, Operations.getElem?_run _ requests hi, ← hrefused]
    simp only [Option.some.injEq]
    rfl

/-- A set outlives the declaration that opens a second pack, variables of two packs are compared and
calls fail, until the one domain has no room for a variable that opens a third pack. -/
theorem pack_agrees_sample :
    let requests : List Request :=
      [⟨.declare "x" 1⟩, ⟨.varEqConst ⟨0⟩ 1⟩, ⟨.declare "y" 1⟩, ⟨.varEqVar ⟨0⟩ ⟨1⟩⟩,
        ⟨.complement ⟨2⟩⟩, ⟨.intersect ⟨1⟩ ⟨3⟩⟩, ⟨.exists ⟨4⟩ ⟨1⟩⟩, ⟨.equal ⟨5⟩ ⟨1⟩⟩,
        ⟨.singleton [1, 2]⟩, ⟨.release ⟨9⟩⟩, ⟨.declare "z" 1⟩]
    let packed := (explicit 20).pack "explicit" (.ok (explicit 20)) 1
    let outcomes := (packed.run requests Host.initial).1
    0 < 1 ∧ (∀ t ∈ packed.transcripts requests Host.initial, t.sets < 2 ^ 32) ∧
      outcomes = [.ok (.var ⟨0⟩), .ok (.set ⟨1⟩), .ok (.var ⟨1⟩), .ok (.set ⟨2⟩),
        .ok (.set ⟨3⟩), .ok (.set ⟨4⟩), .ok (.set ⟨5⟩), .ok (.bool true),
        .error (.valueOutOfRange 2 1), .error (.unknownSet ⟨9⟩), .ok (.var ⟨2⟩)] ∧
      outcomes.take 10 = ((explicit 2).run requests Host.initial).1.take 10 := by
  intro requests packed outcomes
  have hfew : ∀ t ∈ packed.transcripts requests Host.initial, t.sets < 2 ^ 32 := by decide +kernel
  have houtcomes : outcomes = [.ok (.var ⟨0⟩), .ok (.set ⟨1⟩), .ok (.var ⟨1⟩), .ok (.set ⟨2⟩),
      .ok (.set ⟨3⟩), .ok (.set ⟨4⟩), .ok (.set ⟨5⟩), .ok (.bool true),
      .error (.valueOutOfRange 2 1), .error (.unknownSet ⟨9⟩), .ok (.var ⟨2⟩)] := by
    decide +kernel
  have hbare : ((explicit 2).run requests Host.initial).1 = [.ok (.var ⟨0⟩), .ok (.set ⟨1⟩),
      .ok (.var ⟨1⟩), .ok (.set ⟨2⟩), .ok (.set ⟨3⟩), .ok (.set ⟨4⟩), .ok (.set ⟨5⟩),
      .ok (.bool true), .error (.valueOutOfRange 2 1), .error (.unknownSet ⟨9⟩),
      .error (.universeTooLarge 3 2)] := by decide +kernel
  have hroom : ∀ total bound, .error (.universeTooLarge total bound) ∉ outcomes.take 10 := by
    simp [houtcomes]
  have hroom' : ∀ total bound, .error (.universeTooLarge total bound) ∉
      ((explicit 2).run requests Host.initial).1.take 10 := by
    simp [hbare]
  have haccepted : ∀ operation domain,
      .error (.unsupported operation domain) ∉ outcomes.take 10 := by
    simp [houtcomes]
  exact ⟨Nat.one_pos, hfew, houtcomes, (pack_agrees 20 20 2 "explicit" Nat.one_pos requests
    Host.initial Host.initial hfew).1 10 hroom hroom' haccepted⟩

end Domain

end LayeredSets
