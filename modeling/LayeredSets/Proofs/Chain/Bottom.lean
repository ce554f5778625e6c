import LayeredSets.Proofs.Explicit.Exact
import LayeredSets.Proofs.Action
import LayeredSets.Proofs.Tap

/-!
# The bottom of a chain

Layers hand on the set handles of the domain below. A chain of layers therefore does with a call
what the explicit domain at its bottom would do, except that it may use up more handles. `Follows`
says this of one call. The explicit domain itself follows its calls as long as its handles last,
which a tap on it counts.
-/

namespace LayeredSets

namespace Explicit

/-- The same variables and the same sets. Some handles may have been used up in between. -/
structure Similar (d d' : Explicit) : Prop where
  limit : d'.limit = d.limit
  vars : d'.vars = d.vars
  sets : ∀ set, d'.sets.get? set = d.sets.get? set
  issued : d.issued.toNat ≤ d'.issued.toNat

theorem Similar.refl (d : Explicit) : Similar d d := ⟨rfl, rfl, fun _ => rfl, le_rfl⟩

theorem Similar.trans {d d' d'' : Explicit} (h : Similar d d') (h' : Similar d' d'') :
    Similar d d'' where
  limit := h'.limit.trans h.limit
  vars := h'.vars.trans h.vars
  sets set := (h'.sets set).trans (h.sets set)
  issued := h.issued.trans h'.issued

/-- Keep a set under a handle that may come later than the next one. -/
def keep (d : Explicit) (set : SetId) (r : Region) : Explicit :=
  { d with sets := d.sets.insert set r, issued := set.index }

def drop (d : Explicit) (set : SetId) : Explicit := { d with sets := d.sets.erase set }

theorem get?_keep (d : Explicit) (set : SetId) (r : Region) (x : SetId) :
    (d.keep set r).sets.get? x = if x = set then some r else d.sets.get? x := by
  split
  · next h => rw [h, keep, Table.get?_insert_self]
  · next h => rw [keep, Table.get?_insert_of_ne _ _ h]

theorem get?_drop (d : Explicit) (set x : SetId) :
    (d.drop set).sets.get? x = if x = set then none else d.sets.get? x := by
  split
  · next h => rw [h, drop, Table.get?_erase_self]
  · next h => rw [drop, Table.get?_erase_of_ne _ h]

theorem Similar.keep {d d' : Explicit} (h : Similar d d') (set : SetId) (r : Region) :
    Similar (d.keep set r) (d'.keep set r) where
  limit := h.limit
  vars := h.vars
  sets x := by rw [get?_keep, get?_keep, h.sets]
  issued := le_rfl

theorem Similar.drop {d d' : Explicit} (h : Similar d d') (set : SetId) :
    Similar (d.drop set) (d'.drop set) where
  limit := h.limit
  vars := h.vars
  sets x := by rw [get?_drop, get?_drop, h.sets]
  issued := h.issued

/-- What came of a call and where it led are what the explicit domain `d` itself makes of the call,
but for the handles used up on the way. -/
def Follows (d : Explicit) : {k : Answer} → Call k → Except DomainError k.Value → Explicit → Prop
  | .set, call, outcome, d' =>
    match d.made call with
    | .ok r =>
      ∃ set : SetId, outcome = .ok set ∧ d.issued.toNat < set.index.toNat ∧ Similar (d.keep set r) d'
    | .error e => outcome = .error e ∧ Similar d d'
  | _, call, outcome, d' =>
    match d.apply call with
    | .ok (value, after) => outcome = .ok value ∧ Similar after d'
    | .error e => outcome = .error e ∧ Similar d d'

/-- A query is answered, and no more. -/
theorem follows_bool_iff {d d' : Explicit} {call : Call .bool}
    {outcome : Except DomainError Bool} :
    d.Follows call outcome d' ↔ outcome = d.answer call ∧ d.Similar d' := by
  simp only [Follows, apply_bool]
  cases d.answer call <;> rfl

/-- Live handles have been issued. -/
def Tidy (d : Explicit) : Prop := ∀ set r, d.sets.get? set = some r → set.index.toNat ≤ d.issued.toNat

theorem Tidy.fresh {d : Explicit} (h : d.Tidy) {set : SetId} (hset : d.issued.toNat < set.index.toNat) :
    d.sets.get? set = none := by
  cases hr : d.sets.get? set with
  | none => rfl
  | some r => exact absurd (h set r hr) (not_le.mpr hset)

/-- What a call that succeeds makes of a domain, a new set coming under any handle. -/
inductive Makes (d : Explicit) : {k : Answer} → Call k → k.Value → Explicit → Prop
  | declared {name : String} {bits : UInt32} {var : VarId} {after : Explicit}
    (h : d.declare name bits = .ok (var, after)) : Makes d (.declare name bits) var after
  | made {call : Call .set} {set : SetId} {r : Region} (h : d.made call = .ok r) :
    Makes d call set (d.keep set r)
  | answered {call : Call .bool} {answer : Bool} (h : d.answer call = .ok answer) :
    Makes d call answer d
  | released {set : SetId} {r : Region} (h : d.region set = .ok r) :
    Makes d (.release set) () (d.drop set)

section

variable {d d' : Explicit} {k : Answer} {call : Call k}

theorem makes_of_apply {value : k.Value} {after : Explicit}
    (h : d.apply call = .ok (value, after)) : d.Makes call value after := by
  cases k with
  | var =>
    obtain ⟨name, bits⟩ := call
    exact .declared h
  | set =>
    rw [apply_set] at h
    obtain ⟨r, hmade, hstore⟩ := map_eq_ok h
    cases hstore
    exact .made hmade
  | bool =>
    rw [apply_bool] at h
    obtain ⟨answer, hanswer, hvalue⟩ := map_eq_ok h
    cases hvalue
    exact .answered hanswer
  | unit =>
    cases call with
    | release set =>
      obtain ⟨r, hregion, hvalue⟩ := bind_eq_ok h
      cases hvalue
      exact .released hregion

theorem follows_error_iff {e : DomainError} :
    d.Follows call (.error e) d' ↔ d.apply call = .error e ∧ Similar d d' := by
  cases k with
  | set =>
    rw [apply_set]
    simp only [Follows]
    cases d.made call <;> simp [eq_comm]
  | var | bool | unit =>
    simp only [Follows]
    cases d.apply call <;> simp [eq_comm]

theorem Follows.makes {value : k.Value} (h : d.Follows call (.ok value) d') :
    ∃ after, d.Makes call value after ∧ Similar after d' := by
  cases k with
  | set =>
    simp only [Follows] at h
    split at h
    · next hmade =>
      obtain ⟨set, ⟨⟩, -, hsimilar⟩ := h
      exact ⟨_, .made hmade, hsimilar⟩
    · cases h.1
  | var | bool | unit =>
    simp only [Follows] at h
    split at h
    · next happly =>
      obtain ⟨⟨⟩, hsimilar⟩ := h
      exact ⟨_, makes_of_apply happly, hsimilar⟩
    · cases h.1

/-- A handle that is issued comes after all that were. -/
theorem Follows.fresh {call : Call .set} {set : SetId} (h : d.Follows call (.ok set) d') :
    d.issued.toNat < set.index.toNat := by
  simp only [Follows] at h
  split at h
  · obtain ⟨set, ⟨⟩, hfresh, -⟩ := h
    exact hfresh
  · cases h.1

theorem Follows.of_declare {name : String} {bits : UInt32} {var : VarId}
    (h : d.Follows (.declare name bits) (.ok var) d') :
    var = ⟨UInt32.ofNat d.vars.length⟩ ∧ d'.vars = d.vars ++ [⟨name, bits⟩] ∧
      ∀ set, d'.sets.get? set = d.sets.get? set := by
  obtain ⟨after, hmakes, hsimilar⟩ := h.makes
  cases hmakes with
  | declared hdeclare =>
    obtain ⟨-, -, rfl, rfl⟩ := declare_eq_ok hdeclare
    exact ⟨rfl, hsimilar.vars, hsimilar.sets⟩

theorem Follows.of_made {call : Call .set} {set : SetId} (h : d.Follows call (.ok set) d') :
    d.issued.toNat < set.index.toNat ∧ d'.vars = d.vars ∧
      ∃ r, ∀ x, d'.sets.get? x = if x = set then some r else d.sets.get? x := by
  obtain ⟨after, hmakes, hsimilar⟩ := h.makes
  cases hmakes with
  | @made _ _ r =>
    exact ⟨h.fresh, hsimilar.vars, r, fun x => by rw [hsimilar.sets, get?_keep]⟩

theorem Follows.of_release {set : SetId} (h : d.Follows (.release set) (.ok ()) d') :
    d'.vars = d.vars ∧ ∀ x, d'.sets.get? x = if x = set then none else d.sets.get? x := by
  obtain ⟨after, hmakes, hsimilar⟩ := h.makes
  cases hmakes with
  | released => exact ⟨hsimilar.vars, fun x => (hsimilar.sets x).trans (get?_drop d set x)⟩

/-- A failed call leaves everything as it is. -/
theorem Follows.similar_of_error {e : DomainError} (h : d.Follows call (.error e) d') :
    Similar d d' :=
  (follows_error_iff.mp h).2

theorem Follows.vars_of_ne {outcome : Except DomainError k.Value}
    (h : d.Follows call outcome d') (hk : k ≠ .var) : d'.vars = d.vars := by
  cases outcome with
  | error e => exact h.similar_of_error.vars
  | ok value =>
    obtain ⟨after, hmakes, hsimilar⟩ := h.makes
    cases hmakes with
    | declared => exact absurd rfl hk
    | made | answered | released => exact hsimilar.vars

/-- A set outlives every call but its release. -/
theorem Follows.get?_of_live (hd : d.Tidy) {outcome : Except DomainError k.Value}
    (h : d.Follows call outcome d') {set : SetId} {r : Region} (hr : d.sets.get? set = some r)
    (hkept : (⟨call⟩ : Request) ≠ ⟨.release set⟩) : d'.sets.get? set = some r := by
  cases outcome with
  | error e => rw [h.similar_of_error.sets, hr]
  | ok value =>
    obtain ⟨after, hmakes, hsimilar⟩ := h.makes
    rw [hsimilar.sets]
    cases hmakes with
    | declared hdeclare =>
      obtain ⟨-, -, -, rfl⟩ := declare_eq_ok hdeclare
      exact hr
    | made =>
      have hnew := hd.fresh h.fresh
      grind [get?_keep]
    | answered => exact hr
    | released => rw [get?_drop, if_neg (by rintro rfl; exact hkept rfl), hr]

end

end Explicit

/-- An explicit domain with a tap on it. -/
abbrev Bottom : Type := Atop Transcript Explicit

namespace Bottom

/-- All handles of sets have been given out. -/
def Full (s : Bottom) : Prop := 2 ^ 32 ≤ s.layer.sets

/-- All handles of sets or all handles of variables have been given out. -/
def Spent (s : Bottom) : Prop := s.Full ∨ 2 ^ 32 ≤ s.layer.vars

/-- What the tap has counted is what the domain has counted. -/
structure Sound (s : Bottom) : Prop where
  represents : ∃ m, Represents s.inner m
  tidy : s.inner.Tidy
  issued : s.inner.issued.toNat = s.layer.sets
  vars : s.inner.vars.length = s.layer.vars

theorem Sound.new (limit : UInt32) : Sound ⟨[], Explicit.new limit⟩ where
  represents := ⟨_, .new limit⟩
  tidy _ _ h := by simp [Explicit.new] at h
  issued := rfl
  vars := rfl

instance keeps_full {k : Answer} (call : Call k) :
    Action.Keeps (fun s _ => Full s) (Tap.step Explicit.operations call) := by
  refine ⟨fun s host h => h.trans ?_⟩
  simp [Tap.step, Transcript.sets, Transcript.outcomes]

instance keeps_spent {k : Answer} (call : Call k) :
    Action.Keeps (fun s _ => Spent s) (Tap.step Explicit.operations call) := by
  refine ⟨fun s host h => h.imp (fun h => (keeps_full call).keeps s host h) fun h => h.trans ?_⟩
  simp [Tap.step, Transcript.vars, Transcript.outcomes]

/-- Within a limit that sums of widths cannot pass unnoticed, there are no more variables than bits,
and no more bits than the limit allows. -/
structure Narrow (limit : UInt32) (s : Bottom) : Prop where
  same : s.inner.limit = limit
  bits : bitCount (s.inner.vars.map (·.bits)) ≤ limit.toNat
  vars : s.layer.vars ≤ bitCount (s.inner.vars.map (·.bits))

theorem Narrow.new (limit : UInt32) : Narrow limit ⟨[], Explicit.new limit⟩ :=
  ⟨rfl, Nat.zero_le _, le_rfl⟩

theorem Narrow.unchanged {limit : UInt32} {s : Bottom} (h : s.Narrow limit) (event : Event)
    (hvar : ∀ var, event.outcome ≠ .ok (.var var)) {d : Explicit} (hlimit : d.limit = s.inner.limit)
    (hvars : d.vars = s.inner.vars) : Narrow limit ⟨s.layer ++ [event], d⟩ where
  same := hlimit.trans h.same
  bits := hvars ▸ h.bits
  vars := by
    have hcount : Transcript.vars (s.layer ++ [event]) = Transcript.vars s.layer := by
      simp only [Transcript.vars, Transcript.outcomes, List.map_append, List.countP_append,
        List.map_cons, List.map_nil, List.countP_singleton]
      split <;> simp_all
    rw [hcount, hvars]
    exact h.vars

theorem Narrow.declared {limit : UInt32} (hlimit : limit.toNat ≤ 2 ^ 32 - 64) {s : Bottom}
    (h : s.Narrow limit) {name : String} {bits : UInt32} (hvalid : isValidWidth bits = true)
    (hfits : ¬ s.inner.limit < s.inner.totalBits + bits) (request : Request) (var : VarId)
    (host : Host) :
    Narrow limit ⟨s.layer ++ [⟨request, .ok (.var var), host⟩],
      { s.inner with vars := s.inner.vars ++ [⟨name, bits⟩] }⟩ := by
  obtain ⟨hpos, hmax⟩ := (isValidWidth_iff bits).mp hvalid
  have hbits := h.bits
  have hvars := h.vars
  have htotal : s.inner.totalBits + bits =
      UInt32.ofNat (bitCount (s.inner.vars.map (·.bits)) + bits.toNat) := by
    rw [s.inner.totalBits_eq, UInt32.ofNat_add, UInt32.ofNat_toNat]
  rw [htotal, h.same, UInt32.lt_iff_toNat_lt,
    UInt32.toNat_ofNat_of_lt' (by simp only [UInt32.size]; omega)] at hfits
  have hsum : bitCount ((s.inner.vars ++ [(⟨name, bits⟩ : Variable)]).map (·.bits)) =
      bitCount (s.inner.vars.map (·.bits)) + bits.toNat := by
    simp [bitCount]
  have hcount : Transcript.vars (s.layer ++ [⟨request, .ok (.var var), host⟩]) =
      Transcript.vars s.layer + 1 := by
    simp [Transcript.vars, Transcript.outcomes]
  refine ⟨h.same, ?_, ?_⟩
  · rw [hsum]
    omega
  · rw [hsum, hcount]
    omega

theorem keeps_narrow {limit : UInt32} (hlimit : limit.toNat ≤ 2 ^ 32 - 64) (k : Answer)
    (call : Call k) :
    Action.Keeps (fun s _ => Narrow limit s) (Tap.step Explicit.operations call) := by
  refine ⟨fun s host h => ?_⟩
  simp only [Tap.step, Explicit.operations, Explicit.step]
  cases happly : s.inner.apply call with
  | error e => exact h.unchanged _ (by simp [Except.map]) rfl rfl
  | ok x =>
    obtain ⟨value, after⟩ := x
    cases Explicit.makes_of_apply happly with
    | @declared _ _ var _ hdeclare =>
      obtain ⟨hvalid, hfits, -, rfl⟩ := Explicit.declare_eq_ok hdeclare
      exact h.declared hlimit hvalid hfits _ var _
    | made | answered | released =>
      exact h.unchanged _ (by simp [Except.map, Answer.reply]) rfl rfl

/-- A call that neither makes nor removes anything. -/
theorem Sound.unchanged {s : Bottom} (hs : s.Sound) (event : Event)
    (hset : ∀ set, event.outcome ≠ .ok (.set set)) (hvar : ∀ var, event.outcome ≠ .ok (.var var)) :
    Sound ⟨s.layer ++ [event], s.inner⟩ where
  represents := hs.represents
  tidy := hs.tidy
  issued := by
    have hnone : issuedSets [event.outcome] = [] := by
      simp [issuedSets]
    simp [hs.issued, Transcript.sets, Transcript.outcomes, hnone]
  vars := by
    simp only [hs.vars, Transcript.vars, Transcript.outcomes, List.map_append, List.countP_append,
      List.map_cons, List.map_nil, List.countP_singleton]
    split <;> simp_all

theorem Sound.declared {s : Bottom} (hs : s.Sound) (request : Request) {name : String}
    {bits : UInt32} (hvalid : isValidWidth bits = true) (var : VarId) (host : Host) :
    Sound ⟨s.layer ++ [⟨request, .ok (.var var), host⟩],
      { s.inner with vars := s.inner.vars ++ [⟨name, bits⟩] }⟩ where
  represents :=
    have ⟨m, hm⟩ := hs.represents
    have ⟨hpos, hmax⟩ := (isValidWidth_iff bits).mp hvalid
    ⟨_, hm.grow name hpos hmax⟩
  tidy := hs.tidy
  issued := by simp [hs.issued, Transcript.sets, Transcript.outcomes, issuedSets]
  vars := by simp [hs.vars, Transcript.vars, Transcript.outcomes]

theorem Sound.stored {s : Bottom} (hs : s.Sound) {call : Call .set} {r : Region}
    (hr : s.inner.made call = .ok r) (host : Host) :
    let t : Bottom := ⟨s.layer ++ [⟨⟨call⟩, .ok (.set (s.inner.store r).1), host⟩],
      (s.inner.store r).2⟩
    ¬ t.Full → t.Sound ∧ s.inner.issued.toNat < (s.inner.store r).1.index.toNat := by
  intro t hroom
  have hsets : t.layer.sets = s.layer.sets + 1 := by
    simp [t, Transcript.sets, Transcript.outcomes, issuedSets]
  have hnext : (s.inner.issued + 1).toNat = s.layer.sets + 1 := by
    have hlt : s.layer.sets + 1 < 2 ^ 32 := by
      rw [← hsets]
      exact not_le.mp hroom
    rw [UInt32.toNat_add, hs.issued]
    exact Nat.mod_eq_of_lt hlt
  obtain ⟨m, hm⟩ := hs.represents
  have hmade := hm.made call
  rw [hr] at hmade
  cases hset : m.made call with
  | error e => simp [hset, Agree] at hmade
  | ok made =>
    rw [hset] at hmade
    refine ⟨⟨⟨_, (hm.store hmade.1 hmade.2).2⟩, ?_, hnext.trans hsets.symm, ?_⟩, ?_⟩
    · intro set r' hget
      by_cases hnew : set = ⟨s.inner.issued + 1⟩
      · subst hnew
        exact le_rfl
      · simp only [t, Explicit.store, Table.get?_insert_of_ne _ _ hnew] at hget
        have := hs.tidy set r' hget
        have := hs.issued
        change set.index.toNat ≤ (s.inner.issued + 1).toNat
        omega
    · simp [t, Explicit.store, hs.vars, Transcript.vars, Transcript.outcomes]
    · change _ < (s.inner.issued + 1).toNat
      rw [hnext, hs.issued]
      exact Nat.lt_succ_self _

theorem Sound.released {s : Bottom} (hs : s.Sound) (request : Request) (set : SetId)
    (host : Host) :
    Sound ⟨s.layer ++ [⟨request, .ok .unit, host⟩],
      { s.inner with sets := s.inner.sets.erase set }⟩ where
  represents :=
    have ⟨m, hm⟩ := hs.represents
    ⟨_, hm.release set⟩
  tidy other r hget := by
    by_cases hne : other = set
    · simp [hne] at hget
    · exact hs.tidy other r (by simpa [Table.get?_erase_of_ne _ hne] using hget)
  issued := by simp [hs.issued, Transcript.sets, Transcript.outcomes, issuedSets]
  vars := by simp [hs.vars, Transcript.vars, Transcript.outcomes]

/-- The explicit domain follows itself. -/
theorem step {k : Answer} (call : Call k) {s : Bottom} (hs : s.Sound) :
    Action.Ends Full (Tap.step Explicit.operations call) s fun outcome t =>
      t.Sound ∧ s.inner.Follows call outcome t.inner := by
  intro host hroom
  simp only [Tap.step, Explicit.operations, Explicit.step] at hroom ⊢
  cases happly : s.inner.apply call with
  | error e =>
    refine ⟨hs.unchanged _ (by simp [Except.map]) (by simp [Except.map]), ?_⟩
    exact Explicit.follows_error_iff.mpr ⟨happly, .refl _⟩
  | ok x =>
    obtain ⟨value, after⟩ := x
    rw [happly] at hroom
    cases Explicit.makes_of_apply happly with
    | @declared _ _ var _ hdeclare =>
      obtain ⟨hvalid, -, -, rfl⟩ := Explicit.declare_eq_ok hdeclare
      refine ⟨hs.declared _ hvalid var _, ?_⟩
      simp [Explicit.Follows, happly, Explicit.Similar.refl]
    | @made _ set r hmade =>
      rw [Explicit.apply_set, hmade] at happly
      cases happly
      obtain ⟨hsound, hfresh⟩ := hs.stored hmade _ hroom
      refine ⟨hsound, ?_⟩
      simp only [Explicit.Follows, hmade]
      exact ⟨_, rfl, hfresh, .refl _⟩
    | answered hanswer =>
      refine ⟨hs.unchanged _ (by simp [Except.map, Answer.reply])
        (by simp [Except.map, Answer.reply]), ?_⟩
      exact Explicit.follows_bool_iff.mpr ⟨hanswer.symm, .refl _⟩
    | @released set =>
      refine ⟨hs.released _ set _, ?_⟩
      simp [Explicit.Follows, happly, Explicit.Similar.refl]

/-- Nothing goes wrong as long as the handles last. -/
theorem sound_run (requests : List Request) {s : Bottom} (hs : s.Sound) (host : Host)
    (hleft : ¬ Full ((Tap.operations Explicit.operations).run requests s host).2.1) :
    Sound ((Tap.operations Explicit.operations).run requests s host).2.1 := by
  have hstep (k : Answer) (call : Call k) (s : Bottom) (hs : s.Sound) :
      Action.Ends Full ((Tap.operations Explicit.operations).step call) s fun _ t => t.Sound :=
    (step call hs).mono fun _ _ => And.left
  exact Operations.run_ends (fun _ call => keeps_full call) hstep requests hs host hleft

end Bottom
end LayeredSets
