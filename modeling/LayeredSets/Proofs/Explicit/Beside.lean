import LayeredSets.Proofs.Chain.Bottom
import LayeredSets.Proofs.Explicit.Padding

/-!
# Two runs side by side

Two runs on explicit domains, of which one makes the calls of the other and, anywhere between them,
declarations of its own. Its variables come under other handles, so the caller names each one by the
handle that this run has returned for it. One call after the other, the runs stay side by side.
-/

namespace LayeredSets

/-- An entry of the longer run: a call that the shorter one makes, too, or a declaration besides. -/
inductive Padded
  | call (request : Request)
  | extra (name : String) (bits : UInt32)

/-- The calls of the shorter run. -/
def Padded.calls (entries : List Padded) : List Request :=
  entries.filterMap fun
    | .call request => some request
    | .extra .. => none

/-- The longer run at some point. -/
structure LongRun where
  state : Explicit
  host : Host
  /-- The handles that it has returned for the variables of the shorter run. -/
  given : List VarId
  /-- What has come of the calls of the shorter run. -/
  outcomes : List Outcome
  /-- The sum of the widths of the additional variables. -/
  added : Nat

namespace LongRun

/-- The handle under which the longer run has a variable of the shorter one. -/
def handle (given : List VarId) (var : VarId) : VarId := given.getD var.index.toNat var

/-- What the caller knows once a call has this outcome. -/
def learn (given : List VarId) : Outcome → List VarId
  | .ok (.var var) => given ++ [var]
  | _ => given

def step (l : LongRun) : Padded → LongRun
  | .call request =>
    let answered := Explicit.operations.respond (request.renumber (handle l.given)) l.state l.host
    ⟨answered.2.1, answered.2.2, learn l.given answered.1, l.outcomes ++ [answered.1], l.added⟩
  | .extra name bits =>
    let answered := Explicit.operations.respond ⟨.declare name bits⟩ l.state l.host
    ⟨answered.2.1, answered.2.2, l.given, l.outcomes,
      l.added + if answered.1.isOk then bits.toNat else 0⟩

theorem learn_of_ne {o : Outcome} (given : List VarId) (h : ∀ var, o ≠ .ok (.var var)) :
    learn given o = given := by
  unfold learn
  split
  · exact absurd rfl (h _)
  · rfl

theorem handle_concat {given : List VarId} {var : VarId} (hvar : var.index.toNat < given.length)
    (last : VarId) : handle (given ++ [last]) var = handle given var := by
  rw [handle, handle, List.getD_eq_getElem?_getD, List.getD_eq_getElem?_getD,
    List.getElem?_append_left hvar]

end LongRun

/-- The outcome of a call in the shorter run, and in the longer one: the same but for the handle of a
variable, and for the number of bits if these are too many. -/
inductive Counterpart (ρ : VarId → VarId) : Outcome → Outcome → Prop
  | var {var var' : VarId} (h : ρ var = var') : Counterpart ρ (.ok (.var var)) (.ok (.var var'))
  | reply {r : Reply} (h : ∀ var, r ≠ .var var) : Counterpart ρ (.ok r) (.ok r)
  | error (e : DomainError) : Counterpart ρ (.error e) (.error e)
  | tooLarge (bits bits' limit : UInt32) : Counterpart ρ (.error (.universeTooLarge bits limit))
      (.error (.universeTooLarge bits' limit))

theorem Counterpart.refl {ρ : VarId → VarId} {o : Outcome} (h : ∀ var, o ≠ .ok (.var var)) :
    Counterpart ρ o o := by
  cases o with
  | error e => exact .error e
  | ok r => exact .reply fun var heq => h var (congrArg Except.ok heq)

theorem Counterpart.congr {ρ ρ' : VarId → VarId} {o o' : Outcome} (h : Counterpart ρ o o')
    (hρ : ∀ var, o = .ok (.var var) → ρ' var = ρ var) : Counterpart ρ' o o' := by
  cases h with
  | var hvar => exact .var ((hρ _ rfl).trans hvar)
  | reply hr => exact .reply hr
  | error e => exact .error e
  | tooLarge => exact .tooLarge _ _ _

/-- Every variable has a bit at least. -/
theorem length_le_bitCount {widths : List UInt32} (h : ∀ bits ∈ widths, 0 < bits.toNat) :
    widths.length ≤ bitCount widths := by
  have hsum := List.card_nsmul_le_sum (widths.map UInt32.toNat) 1 (List.forall_mem_map.mpr h)
  simpa [bitCount] using hsum

/-! ## One call -/

namespace Represents

variable {d : Explicit} {m : Ideal}

theorem length_le_bitCount (h : Represents d m) : m.widths.length ≤ bitCount m.widths :=
  LayeredSets.length_le_bitCount fun bits hbits => (h.valid bits hbits).1

theorem bounded (h : Represents d m) : m.Bounded := by
  intro set s hs
  rw [h.sets] at hs
  obtain ⟨r, -, rfl⟩ := Option.map_eq_some_iff.mp hs
  exact denote_subset m.widths r

/-- A declaration whose sum of widths fits into a word. -/
theorem respond_declare (h : Represents d m) (name : String) {bits : UInt32}
    (hsum : bits.toNat ≤ 63 → bitCount m.widths + bits.toNat < 2 ^ 32) (host : Host) :
    let answered := Explicit.operations.respond ⟨.declare name bits⟩ d host
    ((bits.toNat = 0 ∨ 63 < bits.toNat) ∧ answered.1 = .error (.invalidWidth bits) ∧
      Represents answered.2.1 m) ∨
    (¬(bits.toNat = 0 ∨ 63 < bits.toNat) ∧ m.limit.toNat < bitCount m.widths + bits.toNat ∧
      answered.1 =
        .error (.universeTooLarge (UInt32.ofNat (bitCount m.widths + bits.toNat)) m.limit) ∧
      Represents answered.2.1 m) ∨
    (¬(bits.toNat = 0 ∨ 63 < bits.toNat) ∧ bitCount m.widths + bits.toNat ≤ m.limit.toNat ∧
      answered.1 = .ok (.var ⟨UInt32.ofNat m.widths.length⟩) ∧
      Represents answered.2.1 (m.grow bits)) := by
  intro answered
  obtain ⟨houtcome, hstate⟩ :=
    @respond_of_agree _ _ h ⟨.declare name bits⟩ (h.declare_of_sum name hsum) host
  change answered.1 = _ at houtcome
  change Represents answered.2.1 _ at hstate
  rw [m.respond_declare] at houtcome hstate
  split_ifs at houtcome hstate with hinvalid hlarge
  · exact .inl ⟨hinvalid, houtcome, hstate⟩
  · exact .inr (.inl ⟨hinvalid, hlarge, houtcome, hstate⟩)
  · exact .inr (.inr ⟨hinvalid, by omega, houtcome, hstate⟩)

/-- There is room for a declaration if there still is afterwards. -/
theorem sum_lt (h : Represents d m) (hbits : bitCount m.widths ≤ m.limit.toNat) {name : String}
    {bits : UInt32} (host : Host)
    (hroom : 2 ^ 32 - 64 < m.limit.toNat →
      bitCount ((Explicit.operations.respond ⟨.declare name bits⟩ d host).2.1.vars.map (·.bits)) <
        2 ^ 32)
    (hmax : bits.toNat ≤ 63) : bitCount m.widths + bits.toNat < 2 ^ 32 := by
  by_contra hover
  have hbound := m.limit.toNat_lt
  have hvalid : isValidWidth bits = true := (isValidWidth_iff bits).mpr ⟨by omega, hmax⟩
  -- The sum wraps around and passes the limit unnoticed, so that the declaration goes through.
  have htotal : (d.totalBits + bits).toNat = bitCount m.widths + bits.toNat - 2 ^ 32 := by
    rw [h.totalBits, UInt32.toNat_add, UInt32.toNat_ofNat_of_lt' (by simp only [UInt32.size]; omega)]
    omega
  have hfits : ¬ d.limit < d.totalBits + bits := by
    rw [UInt32.lt_iff_toNat_lt, htotal, h.limit]
    omega
  have hdeclare : d.apply (.declare name bits) =
      .ok (⟨UInt32.ofNat d.vars.length⟩, { d with vars := d.vars ++ [⟨name, bits⟩] }) := by
    simp [Explicit.apply, Explicit.declare, hvalid, hfits]
  obtain ⟨host', hrespond⟩ := Explicit.respond_of_ok hdeclare host
  rw [hrespond] at hroom
  have hlast := hroom (by omega)
  rw [List.map_append, bitCount_append, h.widths] at hlast
  simp only [List.map_cons, List.map_nil, bitCount_cons, bitCount_nil, Nat.add_zero] at hlast
  omega

end Represents

/-! ## Both runs side by side -/

/-- The handles of the marked variables. -/
def handles (mask : List Bool) : List VarId :=
  (List.range (mask.count true)).map fun i => ⟨UInt32.ofNat (place mask i)⟩

@[simp] theorem length_handles (mask : List Bool) : (handles mask).length = mask.count true := by
  simp [handles]

theorem handles_append (mask mask' : List Bool) (h : mask'.count true = 0) :
    handles (mask ++ mask') = handles mask := by
  rw [handles, handles, List.count_append, h, Nat.add_zero]
  refine List.map_congr_left fun i hi => ?_
  rw [place_append mask' (List.mem_range.mp hi)]

theorem handles_concat (mask : List Bool) :
    handles (mask ++ [true]) = handles mask ++ [⟨UInt32.ofNat mask.length⟩] := by
  have hplace : ∀ i ∈ List.range (mask.count true),
      (⟨UInt32.ofNat (place (mask ++ [true]) i)⟩ : VarId) = ⟨UInt32.ofNat (place mask i)⟩ :=
    fun i hi => by rw [place_append [true] (List.mem_range.mp hi)]
  rw [handles, List.count_append, List.count_singleton_self, List.range_succ, List.map_append,
    List.map_singleton, place_concat, List.map_congr_left hplace]
  rfl

theorem nodup_handles {mask : List Bool} (h : mask.length < 2 ^ 32) : (handles mask).Nodup := by
  refine List.Nodup.map_on (fun i hi j hj heq => ?_) List.nodup_range
  have hi := List.mem_range.mp hi
  have hj := List.mem_range.mp hj
  have hindex := congrArg (fun var : VarId => var.index.toNat) heq
  simp only at hindex
  rw [UInt32.toNat_ofNat_of_lt' ((place_lt hi).trans h),
    UInt32.toNat_ofNat_of_lt' ((place_lt hj).trans h)] at hindex
  exact place_inj hi hj hindex

/-- The shorter run has come to the domain `d` with the outcomes `done`, and the longer one to `l`. The
sets of the longer one are those of the shorter one, lifted. -/
structure Beside (limit : UInt32) (mask : List Bool) (m n : Ideal) (d : Explicit)
    (done : List Outcome) (l : LongRun) : Prop where
  limit : n.limit = limit
  short : Represents d m
  long : Represents l.state n
  pads : m.Pads mask n
  room : bitCount n.widths ≤ n.limit.toNat
  given : l.given = handles mask
  declared : ∀ var, .ok (.var var) ∈ done → var.index.toNat < m.widths.length
  outcomes : List.Forall₂ (Counterpart (LongRun.handle l.given)) done l.outcomes
  added : l.added = bitCount (pick (others mask) n.widths)

namespace Beside

variable {limit : UInt32} {mask : List Bool} {m n : Ideal} {d : Explicit} {done : List Outcome}
  {l : LongRun}

theorem new (limit : UInt32) (host : Host) :
    Beside limit [] (.new limit) (.new limit) (.new limit) [] ⟨.new limit, host, [], [], 0⟩ where
  limit := rfl
  short := .new limit
  long := .new limit
  pads := .new limit
  room := Nat.zero_le _
  given := rfl
  declared := by simp
  outcomes := .nil
  added := rfl

theorem length_lt (h : Beside limit mask m n d done l) : n.widths.length < 2 ^ 32 :=
  (h.long.length_le_bitCount.trans h.room).trans_lt n.limit.toNat_lt

theorem count_lt (h : Beside limit mask m n d done l) : m.widths.length < 2 ^ 32 := by
  rw [h.pads.count]
  exact List.count_le_length.trans_lt (h.pads.length ▸ h.length_lt)

theorem bitCount_le (h : Beside limit mask m n d done l) : bitCount m.widths ≤ bitCount n.widths := by
  rw [bitCount_pick h.pads.length, ← h.pads.widths]
  exact Nat.le_add_right _ _

/-- The caller of the longer run finds each variable where it is. -/
theorem places (h : Beside limit mask m n d done l) : Places (LongRun.handle l.given) mask := by
  intro var hvar
  have hplace := (place_lt hvar).trans_eq h.pads.length
  rw [LongRun.handle, h.given, handles, List.getD_eq_getElem?_getD, List.getElem?_map,
    List.getElem?_range hvar]
  exact UInt32.toNat_ofNat_of_lt' (hplace.trans h.length_lt)

/-- The sets of the longer run are larger by what the additional variables contribute. -/
theorem cardinality (h : Beside limit mask m n d done l) (set : SetId) :
    l.state.cardinality set = (· * 2 ^ l.added) <$> d.cardinality set := by
  have hlong := h.room.trans_lt n.limit.toNat_lt
  rw [h.long.cardinality hlong, h.short.cardinality (h.bitCount_le.trans_lt hlong), h.added,
    Ideal.set, Ideal.set, h.pads.sets]
  cases hs : m.sets set with
  | none => rfl
  | some s =>
    exact congrArg Except.ok (ncard_lift h.pads.length (h.pads.widths ▸ h.short.bounded set s hs))

/-- A call that fails in both runs. -/
theorem failed (h : Beside limit mask m n d done l) {d' state : Explicit} {e e' : DomainError}
    (hshort : Represents d' m) (hlong : Represents state n)
    (he : Counterpart (LongRun.handle l.given) (.error e) (.error e')) (host : Host) :
    Beside limit mask m n d' (done ++ [.error e])
      ⟨state, host, l.given, l.outcomes ++ [.error e'], l.added⟩ :=
  { h with
    short := hshort
    long := hlong
    declared := fun var hmem => h.declared var (by simpa using hmem)
    outcomes := List.rel_append h.outcomes (.cons he .nil) }

theorem length_given (h : Beside limit mask m n d done l) : l.given.length = m.widths.length := by
  rw [h.given, length_handles, h.pads.count]

/-- A new variable leaves the handles of the others as they were. -/
theorem outcomes_concat (h : Beside limit mask m n d done l) (last : VarId) :
    List.Forall₂ (Counterpart (LongRun.handle (l.given ++ [last]))) done l.outcomes := by
  have hknown (o : Outcome) (ho : o ∈ done) (var : VarId) (heq : o = Except.ok (Reply.var var)) :
      var.index.toNat < l.given.length :=
    h.length_given ▸ h.declared var (heq ▸ ho)
  refine ((List.forall₂_and_left _ _).mpr ⟨hknown, h.outcomes⟩).imp fun o o' ⟨hlt, ho⟩ => ?_
  exact ho.congr fun var heq => LongRun.handle_concat (hlt var heq) last

/-- A variable that both runs declare. -/
theorem grow (h : Beside limit mask m n d done l) {bits : UInt32} {d' state : Explicit}
    (hshort : Represents d' (m.grow bits)) (hlong : Represents state (n.grow bits))
    (hfits : bitCount n.widths + bits.toNat ≤ n.limit.toNat) (host : Host) :
    Beside limit (mask ++ [true]) (m.grow bits) (n.grow bits) d'
      (done ++ [.ok (.var ⟨UInt32.ofNat m.widths.length⟩)])
      ⟨state, host, l.given ++ [⟨UInt32.ofNat n.widths.length⟩],
        l.outcomes ++ [.ok (.var ⟨UInt32.ofNat n.widths.length⟩)], l.added⟩ where
  limit := h.limit
  short := hshort
  long := hlong
  pads := h.pads.grow bits
  room := by simpa [Ideal.grow] using hfits
  given := by
    rw [handles_concat, h.given, h.pads.length]
  declared := by
    intro var hmem
    rw [Ideal.grow, List.length_append, List.length_singleton]
    rcases List.mem_append.mp hmem with hold | hnew
    · exact (h.declared var hold).trans (Nat.lt_succ_self _)
    · cases List.mem_singleton.mp hnew
      rw [UInt32.toNat_ofNat_of_lt' h.count_lt]
      exact Nat.lt_succ_self _
  outcomes := by
    have hlast : LongRun.handle (l.given ++ [⟨UInt32.ofNat n.widths.length⟩])
        ⟨UInt32.ofNat m.widths.length⟩ = ⟨UInt32.ofNat n.widths.length⟩ := by
      rw [LongRun.handle, UInt32.toNat_ofNat_of_lt' h.count_lt, ← h.length_given]
      simp
    exact List.rel_append (h.outcomes_concat _) (.cons (.var hlast) .nil)
  added := by
    have hpick : pick (others (mask ++ [true])) (n.widths ++ [bits]) =
        pick (others mask) n.widths := by
      rw [others, List.map_append, pick_append (by simp [h.pads.length])]
      exact List.append_nil _
    exact h.added.trans (congrArg bitCount hpick.symm)

/-- A variable that only the longer run declares. -/
theorem pad (h : Beside limit mask m n d done l) {bits : UInt32} {state : Explicit}
    (hlong : Represents state (n.grow bits))
    (hfits : bitCount n.widths + bits.toNat ≤ n.limit.toNat) (host : Host) :
    Beside limit (mask ++ [false]) m (n.grow bits) d done
      ⟨state, host, l.given, l.outcomes, l.added + bits.toNat⟩ :=
  { h with
    long := hlong
    pads := h.pads.pad bits
    room := by simpa [Ideal.grow] using hfits
    given := by rw [handles_append mask [false] rfl, h.given]
    added := by
      have hpick : pick (others (mask ++ [false])) (n.widths ++ [bits]) =
          pick (others mask) n.widths ++ [bits] := by
        rw [others, List.map_append, pick_append (by simp [h.pads.length])]
        rfl
      change l.added + bits.toNat = bitCount (pick (others (mask ++ [false])) (n.widths ++ [bits]))
      rw [hpick, bitCount_append, h.added]
      simp }

/-- A call that is no declaration. -/
theorem call (h : Beside limit mask m n d done l) {request : Request} (hk : request.kind ≠ .var)
    (hvars : ∀ var ∈ request.call.vars, (.ok (.var var) : Outcome) ∈ done)
    (hpoint : ∀ point, request ≠ ⟨.singleton point⟩) (host : Host) :
    let answered := Explicit.operations.respond request d host
    ∃ m' n', Beside limit mask m' n' answered.2.1 (done ++ [answered.1]) (l.step (.call request)) := by
  intro answered
  let answered' :=
    Explicit.operations.respond (request.renumber (LongRun.handle l.given)) l.state l.host
  have hk' : (request.renumber (LongRun.handle l.given)).kind ≠ .var := hk
  obtain ⟨houtcome, hshort⟩ := h.short.respond_of_agree (h.short.apply_of_ne hk _) host
  obtain ⟨houtcome', hlong⟩ := h.long.respond_of_agree (h.long.apply_of_ne hk' _) l.host
  obtain ⟨hsame, hpads⟩ := h.pads.respond_of_ne h.short.bounded h.places hk
    (fun var hvar => h.declared var (hvars var hvar)) hpoint
  obtain ⟨hvar, -, hwidths⟩ := m.respond_of_kind hk
  obtain ⟨-, hlimit', hwidths'⟩ := n.respond_of_kind hk'
  have hdone : answered.1 = (m.respond request).1 := houtcome
  have hstep : l.step (.call request) =
      ⟨answered'.2.1, answered'.2.2, l.given, l.outcomes ++ [answered.1], l.added⟩ := by
    have hsame' : answered'.1 = answered.1 := houtcome'.trans (hsame.trans hdone.symm)
    change LongRun.mk _ _ (LongRun.learn l.given answered'.1) (l.outcomes ++ [answered'.1]) _ = _
    rw [hsame', LongRun.learn_of_ne _ (hdone ▸ hvar)]
  rw [hstep]
  refine ⟨_, _, hlimit'.trans h.limit, hshort, hlong, hpads, ?_, ?_, ?_, ?_, ?_⟩
  · rw [hwidths', hlimit']
    exact h.room
  · exact h.given
  · intro var hmem
    rcases List.mem_append.mp hmem with hold | hnew
    · rw [hwidths]
      exact h.declared var hold
    · exact absurd (List.mem_singleton.mp hnew).symm (hdone ▸ hvar var)
  · exact List.rel_append h.outcomes (.cons (.refl (hdone ▸ hvar)) .nil)
  · rw [hwidths']
    exact h.added

/-- A declaration that both runs make. -/
theorem declare (h : Beside limit mask m n d done l) (name : String) {bits : UInt32}
    (hsum : bits.toNat ≤ 63 → bitCount n.widths + bits.toNat < 2 ^ 32) (host : Host) :
    let answered := Explicit.operations.respond ⟨.declare name bits⟩ d host
    let answered' := Explicit.operations.respond ⟨.declare name bits⟩ l.state l.host
    (∀ var, answered.1 = .ok (.var var) → ∃ var', answered'.1 = .ok (.var var')) →
    ∃ mask' m' n',
      Beside limit mask' m' n' answered.2.1 (done ++ [answered.1])
        (l.step (.call ⟨.declare name bits⟩)) := by
  intro answered answered' hok
  have hle := h.bitCount_le
  have hlimit := h.pads.limit
  have hsum' (hmax : bits.toNat ≤ 63) : bitCount m.widths + bits.toNat < 2 ^ 32 := by
    have := hsum hmax
    omega
  have hstep : l.step (.call ⟨.declare name bits⟩) = ⟨answered'.2.1, answered'.2.2,
    LongRun.learn l.given answered'.1, l.outcomes ++ [answered'.1], l.added⟩ := rfl
  rw [hstep]
  obtain ⟨hinvalid, houtcome, hshort⟩ | ⟨hvalid, hlarge, houtcome, hshort⟩ |
    ⟨hvalid, hfits, houtcome, hshort⟩ := h.short.respond_declare name hsum' host <;>
  obtain ⟨hinvalid', houtcome', hlong⟩ | ⟨hvalid', hlarge', houtcome', hlong⟩ |
    ⟨hvalid', hfits', houtcome', hlong⟩ := h.long.respond_declare name hsum l.host
  · rw [houtcome, houtcome']
    exact ⟨mask, m, n, h.failed hshort hlong (.error _) _⟩
  · exact absurd hinvalid hvalid'
  · exact absurd hinvalid hvalid'
  · exact absurd hinvalid' hvalid
  · rw [houtcome, houtcome', ← hlimit]
    exact ⟨mask, m, n, h.failed hshort hlong (.tooLarge _ _ _) _⟩
  · rw [hlimit] at hfits'
    omega
  · exact absurd hinvalid' hvalid
  · obtain ⟨var', hvar'⟩ := hok _ houtcome
    cases houtcome'.symm.trans hvar'
  · rw [houtcome, houtcome']
    exact ⟨mask ++ [true], m.grow bits, n.grow bits, h.grow hshort hlong hfits' _⟩

/-- A declaration of the longer run only. -/
theorem extra (h : Beside limit mask m n d done l) (name : String) {bits : UInt32}
    (hsum : bits.toNat ≤ 63 → bitCount n.widths + bits.toNat < 2 ^ 32) :
    ∃ mask' n', Beside limit mask' m n' d done (l.step (.extra name bits)) := by
  let answered := Explicit.operations.respond ⟨.declare name bits⟩ l.state l.host
  have hstep : l.step (.extra name bits) = ⟨answered.2.1, answered.2.2, l.given, l.outcomes,
    l.added + if answered.1.isOk then bits.toNat else 0⟩ := rfl
  rw [hstep]
  obtain ⟨-, houtcome, hlong⟩ | ⟨-, -, houtcome, hlong⟩ | ⟨-, hfits, houtcome, hlong⟩ :=
    h.long.respond_declare name hsum l.host
  · rw [houtcome]
    exact ⟨mask, n, { h with long := hlong }⟩
  · rw [houtcome]
    exact ⟨mask, n, { h with long := hlong }⟩
  · rw [houtcome]
    exact ⟨mask ++ [false], n.grow bits, h.pad hlong hfits _⟩

end Beside

end LayeredSets
