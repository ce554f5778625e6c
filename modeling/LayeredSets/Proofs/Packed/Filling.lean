import LayeredSets.Proofs.Packed.Balance
import LayeredSets.Proofs.Packed.Frames

/-!
# How packs are filled

In every run of a packed domain the packs take the variables in the order of declaration. Each pack
is filled before the next one is opened, declarations that fail leave no trace, and every term of
every stored set has one component for each pack.
-/

namespace LayeredSets

variable {ρ τ : Type}

/-- What comes of declaring `v` where `vars` have been declared. -/
def Declares (vars : List Variable) (v : Variable) : Except DomainError VarId → List Variable → Prop
  | .ok var, vars' => var = ⟨UInt32.ofNat vars.length⟩ ∧ vars' = vars ++ [v]
  | .error _, vars' => vars' = vars

/-- A domain that lists the variables that it has declared. -/
structure Lists (inner : Operations ρ) (holds : ρ → List Variable) : Prop where
  spares : Packed.Spares inner holds
  declares : ∀ name bits d host,
    let declared := inner.step (.declare name bits) d host
    Declares (holds d) ⟨name, bits⟩ declared.1 (holds declared.2.1)

theorem Explicit.lists : Lists Explicit.operations Explicit.vars where
  spares {k} call hk d host := by
    simp only [operations, step]
    cases happly : d.apply call with
    | error e => rfl
    | ok answer =>
      obtain ⟨value, after⟩ := answer
      cases makes_of_apply happly with
      | declared => exact absurd rfl hk
      | made | answered | released => rfl
  declares name bits d host := by
    simp only [operations, step]
    cases happly : d.apply (.declare name bits) with
    | error e => rfl
    | ok answer =>
      obtain ⟨value, after⟩ := answer
      obtain ⟨-, -, hvar, rfl⟩ := declare_eq_ok happly
      exact ⟨hvar, rfl⟩

theorem Lists.sum {a : Operations ρ} {b : Operations τ} {f : ρ → List Variable}
    {g : τ → List Variable} (ha : Lists a f) (hb : Lists b g) :
    Lists (a.sum b) (Sum.elim f g) where
  spares call hk d host := by
    cases d with
    | inl d => exact ha.spares call hk d host
    | inr d => exact hb.spares call hk d host
  declares name bits d host := by
    cases d with
    | inl d => exact ha.declares name bits d host
    | inr d => exact hb.declares name bits d host

/-- What a call has declared. -/
def Request.declared : Request → Outcome → Option Variable
  | ⟨.declare name bits⟩, .ok _ => some ⟨name, bits⟩
  | _, _ => none

theorem Request.declared_of_ne {request : Request} (outcome : Outcome) (hk : request.kind ≠ .var) :
    request.declared outcome = none := by
  obtain ⟨call⟩ := request
  cases call with
  | declare => exact absurd rfl hk
  | _ => rfl

/-- The variables that were declared in a run, in order. -/
def declaredBy (requests : List Request) (outcomes : List Outcome) : List Variable :=
  (requests.zip outcomes).filterMap fun (request, outcome) => request.declared outcome

@[simp] theorem declaredBy_cons (request : Request) (requests : List Request) (outcome : Outcome)
    (outcomes : List Outcome) :
    declaredBy (request :: requests) (outcome :: outcomes) =
      (request.declared outcome).toList ++ declaredBy requests outcomes := by
  simp only [declaredBy, List.zip_cons_cons, List.filterMap_cons]
  cases request.declared outcome <;> rfl

theorem forall_mem_of_forall₂ {α β : Type} {R : α → β → Prop} {P : α → Prop} {Q : β → Prop}
    {l : List α} {l' : List β} (h : List.Forall₂ R l l') (hR : ∀ a b, R a b → P a → Q b)
    (hl : ∀ a ∈ l, P a) : ∀ b ∈ l', Q b := by
  induction h with
  | nil => simp
  | cons hab _ ih =>
    rw [List.forall_mem_cons] at hl ⊢
    exact ⟨hR _ _ hab hl.1, ih hl.2⟩

namespace Packed

open Action

/-- The widths of the variables, pack by pack. -/
abbrev widths (o : Packed (List Variable)) : Packed (List UInt32) := o.map (List.map (·.bits))

/-- The packs have taken the declared variables in turn, and the last one was needed. -/
structure Arranged (size : Nat) (declared : List Variable) (o : Packed (List Variable)) : Prop where
  shaped : Shaped size (declared.map (·.bits)) o.widths
  packs : o.packs = chunks size o.packs.length declared
  needed : o.packs.length = 1 ∨ (o.packs.length - 1) * size < declared.length
  blank : ∀ vars, o.blank = .ok vars → vars = []
  even : o.Even o.packs.length

namespace Arranged

variable {size : Nat} {declared : List Variable} {o : Packed (List Variable)}

/-- Changes of stored sets do not matter. -/
theorem withSets (h : Arranged size declared o) {sets : Table SetId (List Term)} {issued : UInt32}
    (heven : ({ o with sets, issued } : Packed (List Variable)).Even o.packs.length) :
    Arranged size declared { o with sets, issued } :=
  ⟨h.shaped.congr rfl rfl rfl, h.packs, h.needed, h.blank, heven⟩

/-- One more variable in the last pack. -/
theorem widen (h : Arranged size declared o) (hroom : declared.length < o.packs.length * size)
    (v : Variable) :
    Arranged size (declared ++ [v]) { o with
      packs := o.packs.set (declared.length / size)
        ⟨chunk size (declared.length / size) (declared ++ [v]),
          (chunk size (declared.length / size) (declared ++ [v])).length⟩
      vars := o.vars ++
        [⟨declared.length / size, ⟨UInt32.ofNat (declared.length % size)⟩, v.bits⟩] } where
  shaped := by
    have hshaped := h.shaped.widen (by simpa [widths, map] using hroom) v.bits
    rw [List.map_append]
    refine hshaped.congr rfl ?_ ?_
    · simp [map, Pack.map, List.map_set, map_chunk, length_chunk]
    · simp [map]
  packs := by
    rw [List.length_set, chunks_concat h.shaped.pos, ← h.packs]
  needed := by
    rw [List.length_set, List.length_append]
    exact h.needed.imp_right fun hneeded => hneeded.trans (Nat.lt_succ_self _)
  blank := h.blank
  even := ⟨rfl, by rw [List.length_set]; exact h.even.terms⟩

/-- One more variable in a pack of its own. -/
theorem extend (h : Arranged size declared o) (hfull : declared.length = o.packs.length * size)
    (v : Variable) {sets : Table SetId (List Term)} (hsets : Appends 1 o.sets sets) :
    Arranged size (declared ++ [v]) { o with
      packs := o.packs ++ [⟨[v], 1⟩]
      sets
      vars := o.vars ++ [⟨o.packs.length, ⟨UInt32.ofNat 0⟩, v.bits⟩] } where
  shaped := by
    have hshaped := h.shaped.extend (by simpa [widths, map] using hfull) v.bits
    rw [List.map_append]
    refine hshaped.congr rfl ?_ ?_
    · simp [map, Pack.map]
    · simp [map]
  packs := by
    rw [List.length_append, List.length_singleton, chunks_succ h.shaped.pos hfull, ← h.packs]
  needed := .inr (by simp [hfull])
  blank := h.blank
  even := by
    refine ⟨rfl, forall_mem_of_forall₂ hsets (fun entry entry' hentry hterms => ?_) h.even.terms⟩
    refine forall_mem_of_forall₂ hentry.2 (fun term term' hterm hlength => ?_) hterms
    obtain ⟨more, hmore, rfl⟩ := hterm
    simp [hlength, hmore]

end Arranged

/-! ## Declarations -/

section

variable {inner : Operations ρ} {holds : ρ → List Variable} {size : Nat} {declared : List Variable}
  {s : Packed ρ}

/-- What may come of looking for a place for a variable: it has the next one, or nothing is seen of
the attempt. -/
def Takes (holds : ρ → List Variable) (size : Nat) (declared : List Variable) (s : Packed ρ)
    (v : Variable) : Except DomainError PackedVar → Packed ρ → Prop
  | .ok var, t => Arranged size (declared ++ [v]) (map holds { t with vars := t.vars ++ [var] })
  | .error _, t => t.map holds = s.map holds

/-- A pack has its chunk of the variables. -/
theorem Arranged.pack_eq (h : Arranged size declared (s.map holds)) {index : Nat} {pack : Pack ρ}
    (hpack : s.packs[index]? = some pack) :
    holds pack.domain = chunk size index declared ∧
      pack.held = (chunk size index declared).length := by
  have hlt : index < s.packs.length := (List.getElem?_eq_some_iff.mp hpack).1
  have hpacks := congrArg (·[index]?) h.packs
  simp only [map, List.length_map, List.getElem?_map, hpack, chunks, List.getElem?_range hlt,
    Option.map_some, Option.some.injEq] at hpacks
  exact ⟨congrArg Pack.domain hpacks, congrArg Pack.held hpacks⟩

/-- The next variable finds room in the last pack only. -/
theorem Arranged.last_eq (h : Arranged size declared (s.map holds))
    (hroom : declared.length < s.packs.length * size) :
    declared.length / size = s.packs.length - 1 := by
  simpa [widths, map] using h.shaped.last_eq (by simpa [widths, map] using hroom)

theorem declareInLastPack_of_error {pack : Pack ρ}
    (hpack : s.packs[s.packs.length - 1]? = some pack) {name : String} {bits : UInt32}
    {host host' : Host} {e : DomainError} {domain : ρ}
    (hcall : inner.step (.declare name bits) pack.domain host = (.error e, domain, host')) :
    declareInLastPack inner name bits s host =
      (.error e, { s with packs := s.packs.set (s.packs.length - 1) { pack with domain } }, host') := by
  have hin : inPack (s.packs.length - 1) (inner.step (.declare name bits)) s host =
      (.error e, { s with packs := s.packs.set (s.packs.length - 1) { pack with domain } }, host') := by
    rw [inPack, hpack]
    simp only [hcall]
  change (inPack (s.packs.length - 1) _ >>= _) s host = _
  exact bind_apply_error hin

theorem declareInLastPack_of_ok {pack : Pack ρ}
    (hpack : s.packs[s.packs.length - 1]? = some pack) {name : String} {bits : UInt32}
    {host host' : Host} {var : VarId} {domain : ρ}
    (hcall : inner.step (.declare name bits) pack.domain host = (.ok var, domain, host')) :
    declareInLastPack inner name bits s host = (.ok ⟨s.packs.length - 1, var, bits⟩,
      { s with packs := s.packs.set (s.packs.length - 1) ⟨domain, pack.held + 1⟩ }, host') := by
  have hin : inPack (s.packs.length - 1) (inner.step (.declare name bits)) s host =
      (.ok var, { s with packs := s.packs.set (s.packs.length - 1) { pack with domain } }, host') := by
    rw [inPack, hpack]
    simp only [hcall]
  refine (bind_apply_ok hin).trans ?_
  simp only [Action.modify, bind_apply, pure_apply, modify_held]

theorem Arranged.takes_declareInLastPack (h : Arranged size declared (s.map holds))
    (hinner : Lists inner holds) (hroom : declared.length < s.packs.length * size) (name : String)
    (bits : UInt32) (host : Host) :
    let placed := declareInLastPack inner name bits s host
    Takes holds size declared s ⟨name, bits⟩ placed.1 placed.2.1 := by
  have hlast := h.last_eq hroom
  have hlt : declared.length / size < s.packs.length :=
    Nat.div_lt_of_lt_mul (Nat.mul_comm .. ▸ hroom)
  obtain ⟨pack, hpack⟩ : ∃ pack, s.packs[declared.length / size]? = some pack :=
    ⟨_, List.getElem?_eq_getElem hlt⟩
  obtain ⟨hholds, hheld⟩ := h.pack_eq hpack
  have hdeclares := hinner.declares name bits pack.domain host
  rw [hlast] at hpack
  rcases hcall : inner.step (.declare name bits) pack.domain host with ⟨e | var, domain, host'⟩
  · rw [hcall] at hdeclares
    rw [declareInLastPack_of_error hpack hcall]
    exact set_map_packs hpack hdeclares
  · rw [hcall] at hdeclares
    obtain ⟨hvar, hgrown⟩ := hdeclares
    rw [declareInLastPack_of_ok hpack hcall]
    have hnext : holds domain = chunk size (declared.length / size) (declared ++ [⟨name, bits⟩]) := by
      rw [hgrown, hholds, chunk_concat h.shaped.pos, if_pos rfl]
    have hheld' : pack.held + 1 = (holds domain).length := by
      rw [hgrown, hheld, hholds, List.length_append, List.length_singleton]
    have hlocal : var = ⟨UInt32.ofNat (declared.length % size)⟩ := by
      rw [hvar, hholds, length_chunk_last h.shaped.pos]
    have hwiden := h.widen (by simpa [map] using hroom) ⟨name, bits⟩
    rw [← hnext, ← hheld', ← hlocal, hlast] at hwiden
    simpa [Takes, map, Pack.map, List.map_set] using hwiden

theorem keeps_extend (hinner : Lists inner holds) (vars : List Variable)
    (entries : List (SetId × List Term)) :
    Keeps (fun d _ => holds d = vars) (extend (inner.step .top) entries) := by
  have htop : Keeps (fun d _ => holds d = vars) (inner.step .top) :=
    ⟨fun d host hd => (hinner.spares .top (by decide) d host).trans hd⟩
  unfold extend
  infer_instance

theorem Arranged.takes_declareInNewPack (h : Arranged size declared (s.map holds))
    (hinner : Lists inner holds) (hfull : declared.length = s.packs.length * size) (name : String)
    (bits : UInt32) (host : Host) :
    let placed := declareInNewPack inner name bits s host
    Takes holds size declared s ⟨name, bits⟩ placed.1 placed.2.1 := by
  cases hblank : s.blank with
  | error e =>
    rw [declareInNewPack, hblank]
    rfl
  | ok d =>
    have hempty : holds d = [] := h.blank _ (by rw [map, hblank]; rfl)
    have hdeclares := hinner.declares name bits d host
    rcases hcall : inner.step (.declare name bits) d host with ⟨e | var, domain, host'⟩
    · rw [declareInNewPack_of_error hblank hcall]
      rfl
    rw [hcall, hempty] at hdeclares
    obtain ⟨hvar, hholds⟩ := hdeclares
    have hkept := (keeps_extend hinner (holds domain) s.sets.entries).keeps domain host' rfl
    rcases hextend : Packed.extend (inner.step .top) s.sets.entries domain host' with
      ⟨e | entries, after, host''⟩
    · rw [declareInNewPack_of_extend_error hblank hcall hextend]
      rfl
    · rw [hextend] at hkept
      rw [declareInNewPack_of_ok hblank hcall hextend]
      have hextended := h.extend (by simpa [map] using hfull) ⟨name, bits⟩ (appends_of_extend hextend)
      simpa [Takes, map, Pack.map, hkept, hholds, hvar] using hextended

theorem Arranged.hasRoom_iff (h : Arranged size declared (s.map holds)) :
    s.hasRoom = true ↔ declared.length < s.packs.length * size := by
  have hroom := h.shaped.hasRoom_iff
  rw [widths, hasRoom_map, hasRoom_map] at hroom
  simpa [map] using hroom

/-- Look for a place for a variable, and take it into the table. -/
def enter (x : Act (Packed ρ) PackedVar) : Act (Packed ρ) VarId := do
  let s ← Action.get
  let var ← x
  Action.modify fun s => { s with vars := s.vars ++ [var] }
  return ⟨UInt32.ofNat s.vars.length⟩

theorem declare_apply (inner : Operations ρ) (name : String) (bits : UInt32) (s : Packed ρ)
    (host : Host) : declare inner name bits s host =
      enter (if s.hasRoom then declareInLastPack inner name bits else declareInNewPack inner name bits)
        s host := by
  simp only [declare, enter, bind_apply, Action.get]
  split <;> rfl

/-- What may come of a declaration. -/
theorem Arranged.enter (h : Arranged size declared (s.map holds)) {x : Act (Packed ρ) PackedVar}
    {v : Variable} {host : Host} (hx : Takes holds size declared s v (x s host).1 (x s host).2.1) :
    let answered := enter x s host
    match answered.1 with
    | .ok _ => Arranged size (declared ++ [v]) (answered.2.1.map holds)
    | .error _ => Arranged size declared (answered.2.1.map holds) := by
  rcases hplace : x s host with ⟨e | var, t, host'⟩
  · have henter : Packed.enter x s host = (.error e, t, host') := by
      change (x >>= _) s host = _
      exact bind_apply_error hplace
    rw [hplace] at hx
    rw [henter]
    have hsame : t.map holds = s.map holds := hx
    change Arranged size declared (t.map holds)
    rwa [hsame]
  · have henter : Packed.enter x s host =
        (.ok ⟨UInt32.ofNat s.vars.length⟩, { t with vars := t.vars ++ [var] }, host') := by
      change (x >>= _) s host = _
      exact bind_apply_ok hplace
    rw [hplace] at hx
    rw [henter]
    exact hx

/-- A declaration. -/
theorem Arranged.declare (h : Arranged size declared (s.map holds)) (hinner : Lists inner holds)
    (name : String) (bits : UInt32) (host : Host) :
    let answered := declare inner name bits s host
    match answered.1 with
    | .ok _ => Arranged size (declared ++ [⟨name, bits⟩]) (answered.2.1.map holds)
    | .error _ => Arranged size declared (answered.2.1.map holds) := by
  rw [declare_apply]
  by_cases hroom : s.hasRoom = true
  · rw [if_pos hroom]
    exact h.enter (h.takes_declareInLastPack hinner (h.hasRoom_iff.mp hroom) name bits host)
  · rw [if_neg hroom]
    have hfull : declared.length = s.packs.length * size := by
      refine Nat.le_antisymm ?_ (not_lt.mp fun hlt => hroom (h.hasRoom_iff.mpr hlt))
      simpa [map] using h.shaped.room
    exact h.enter (h.takes_declareInNewPack hinner hfull name bits host)

/-! ## Runs -/

/-- A call adds the variable that it declares, if any. -/
theorem Arranged.respond (h : Arranged size declared (s.map holds)) (hinner : Lists inner holds)
    (request : Request) (host : Host) :
    let answered := (operations inner).respond request s host
    Arranged size (declared ++ (request.declared answered.1).toList) (answered.2.1.map holds) := by
  obtain @⟨k, call⟩ := request
  by_cases hk : k = .var
  · subst hk
    obtain ⟨name, bits⟩ := call
    have hdeclare := h.declare hinner name bits host
    simp only [Operations.respond, operations, step]
    generalize Packed.declare inner name bits s host = r at hdeclare ⊢
    obtain ⟨e | var, t, host'⟩ := r
    · simpa [Request.declared, Except.map] using hdeclare
    · simpa [Request.declared, Except.map] using hdeclare
  · intro answered
    obtain ⟨heven, hsame⟩ :=
      touchesSets_step hinner.spares hk call s host ((even_map holds s).mp h.even)
    rw [← even_map holds, hsame] at heven
    have hend : answered.2.1.map holds = _ := hsame
    have hnone : (⟨call⟩ : Request).declared answered.1 = none := Request.declared_of_ne _ hk
    rw [hend, hnone, Option.toList_none, List.append_nil]
    exact h.withSets heven

theorem Arranged.run (h : Arranged size declared (s.map holds)) (hinner : Lists inner holds)
    (requests : List Request) (host : Host) :
    let ran := (operations inner).run requests s host
    Arranged size (declared ++ declaredBy requests ran.1) (ran.2.1.map holds) := by
  induction requests generalizing s declared host with
  | nil => simpa [declaredBy, Operations.run] using h
  | cons request requests ih =>
    simp only [Operations.run_cons, declaredBy_cons, ← List.append_assoc]
    exact ih (h.respond hinner request host) _

theorem Arranged.new (hsize : 0 < size) {first further : ρ} (hfirst : holds first = [])
    (hfurther : holds further = []) (backend : String) :
    Arranged size [] ((Packed.new first backend (.ok further) size).map holds) where
  shaped := by
    refine ⟨hsize, Nat.max_eq_left hsize, ?_, by simp [widths, map, Packed.new], Nat.zero_le _, ?_, rfl⟩
    · simp [widths, map, Packed.new, Pack.map, hfirst, chunk]
    · simp [widths, map, Packed.new]
  packs := by simp [map, Packed.new, Pack.map, hfirst, chunks, chunk]
  needed := .inl rfl
  blank := by
    rintro _ ⟨⟩
    exact hfurther
  even := ⟨rfl, by simp [map, Packed.new, Table.empty]⟩

end

/-- As many packs as it takes. -/
theorem packs_needed {size n before : Nat} (hsize : 0 < size) (hroom : n ≤ (before + 1) * size)
    (hneeded : before = 0 ∨ before * size < n) :
    before + 1 = max 1 ((n + size - 1) / size) := by
  rw [Nat.add_mul, Nat.one_mul] at hroom
  rcases hneeded with rfl | hlt
  · have hone : (n + size - 1) / size < 2 := Nat.div_lt_of_lt_mul (by omega)
    omega
  · have hdiv : (n + size - 1) / size = before + 1 := by
      refine Nat.div_eq_of_lt_le ?_ ?_
      · rw [Nat.add_mul]
        omega
      · rw [Nat.add_mul, Nat.add_mul]
        omega
    omega

/-- The variables of an explicit pack. -/
def listed : Explicit ⊕ Explicit → List Variable := Sum.elim (·.vars) (·.vars)

/-- How explicit packs hold the declared variables. -/
structure LaidOut (size : Nat) (declared : List Variable) (s : Packed (Explicit ⊕ Explicit)) :
    Prop where
  /-- There are as many packs as it takes, and one at least. -/
  count : s.packs.length = max 1 ((declared.length + size - 1) / size)
  vars : s.vars.length = declared.length
  /-- Each variable is the next one of its pack. -/
  places : ∀ (i : Nat) (v : Variable), declared[i]? = some v →
    s.vars[i]? = some ⟨i / size, ⟨UInt32.ofNat (i % size)⟩, v.bits⟩ ∧
      ∃ pack, s.packs[i / size]? = some pack ∧ (listed pack.domain)[i % size]? = some v
  /-- The packs know how many variables they hold. All but the last one are full. -/
  held : ∀ (index : Nat) (pack : Pack (Explicit ⊕ Explicit)), s.packs[index]? = some pack →
    pack.held = (listed pack.domain).length ∧ pack.held ≤ size ∧
      (index + 1 < s.packs.length → pack.held = size)
  /-- All terms have one component for each pack. -/
  terms : ∀ (set : SetId) (terms : List Term), s.sets.get? set = some terms →
    ∀ term ∈ terms, term.length = s.packs.length

theorem Arranged.laidOut {size : Nat} {declared : List Variable} {s : Packed (Explicit ⊕ Explicit)}
    (h : Arranged size declared (s.map listed)) : LaidOut size declared s := by
  have hpos := h.shaped.pos
  have hlength : (s.map listed).packs.length = s.packs.length := by simp [map]
  have hlength' : (s.map listed).widths.packs.length = s.packs.length := by simp [widths, map]
  obtain ⟨before, hbefore⟩ := Nat.exists_eq_add_one_of_ne_zero (hlength' ▸ h.shaped.nonempty.ne')
  have hroom := h.shaped.room
  have hneeded := h.needed
  rw [List.length_map, hlength', hbefore] at hroom
  rw [hlength, hbefore, Nat.add_sub_cancel, Nat.add_eq_right] at hneeded
  refine ⟨?_, ?_, fun i v hv => ?_, fun index pack hpack => ?_, fun set terms hset => ?_⟩
  · rw [hbefore]
    exact packs_needed hpos hroom hneeded
  · have hvars : s.vars = layout size (declared.map (·.bits)) := h.shaped.vars
    rw [hvars, length_layout, List.length_map]
  · obtain ⟨hi, rfl⟩ := List.getElem?_eq_some_iff.mp hv
    have hi' : i < (declared.map (·.bits)).length := by simpa using hi
    have hlt := hlength' ▸ h.shaped.pack_lt hi'
    refine ⟨(h.shaped.var_eq hi').trans (by rw [List.getElem_map]), s.packs[i / size],
      List.getElem?_eq_getElem hlt, ?_⟩
    rw [(h.pack_eq (List.getElem?_eq_getElem hlt)).1, getElem?_chunk hpos, hv]
  · obtain ⟨hlisted, hheld⟩ := h.pack_eq hpack
    rw [hlisted, hheld, length_chunk]
    refine ⟨rfl, Nat.min_le_left _ _, fun hmore => Nat.min_eq_left ?_⟩
    have hle : (index + 1) * size ≤ before * size := Nat.mul_le_mul_right _ (by omega)
    rw [Nat.add_mul, Nat.one_mul] at hle
    omega
  · have hcomplete := ((even_map listed s).mp h.even).get? hset
    rwa [hlength] at hcomplete

end Packed

namespace Domain

/-- In every run of a packed domain over fresh explicit ones, the packs have taken the variables in
the order of declaration and have been filled one after the other, and the terms of all stored sets
go across all packs. -/
theorem pack_laidOut (first further : UInt32) (backend : String) (size : Nat)
    (requests : List Request) (host : Host) :
    let packed := (explicit first).pack backend (.ok (explicit further)) size
    0 < size → (packedEnd first further backend size requests host).LaidOut size
      (declaredBy requests (packed.run requests host).1) := by
  intro packed hsize
  have hinner := Explicit.lists.sum Explicit.lists
  have hstart : Packed.Arranged size [] (Packed.map Packed.listed packed.state) :=
    .new hsize rfl rfl backend
  exact (hstart.run hinner requests host).laidOut

/-- Two packs of two variables. One declaration fails in the first pack, and one in a pack that would
have been the second. Sets are made before and after it is opened. -/
theorem pack_laidOut_sample :
    let requests : List Request :=
      [⟨.declare "x" 1⟩, ⟨.declare "w" 64⟩, ⟨.varEqConst ⟨0⟩ 1⟩, ⟨.declare "y" 2⟩,
        ⟨.declare "v" 21⟩, ⟨.complement ⟨1⟩⟩, ⟨.declare "z" 1⟩, ⟨.varEqVar ⟨0⟩ ⟨2⟩⟩,
        ⟨.difference ⟨3⟩ ⟨2⟩⟩, ⟨.release ⟨1⟩⟩]
    let packed := (explicit 20).pack "explicit" (.ok (explicit 20)) 2
    0 < 2 ∧ (packed.run requests Host.initial).1 =
        [.ok (.var ⟨0⟩), .error (.invalidWidth 64), .ok (.set ⟨1⟩), .ok (.var ⟨1⟩),
          .error (.universeTooLarge 21 20), .ok (.set ⟨2⟩), .ok (.var ⟨2⟩), .ok (.set ⟨3⟩),
          .ok (.set ⟨4⟩), .ok .unit] ∧
      (packedEnd 20 20 "explicit" 2 requests Host.initial).LaidOut 2 [⟨"x", 1⟩, ⟨"y", 2⟩, ⟨"z", 1⟩] := by
  intro requests packed
  have houtcomes : (packed.run requests Host.initial).1 =
      [.ok (.var ⟨0⟩), .error (.invalidWidth 64), .ok (.set ⟨1⟩), .ok (.var ⟨1⟩),
        .error (.universeTooLarge 21 20), .ok (.set ⟨2⟩), .ok (.var ⟨2⟩), .ok (.set ⟨3⟩),
        .ok (.set ⟨4⟩), .ok .unit] := by
    decide +kernel
  have hlaidOut := pack_laidOut 20 20 "explicit" 2 requests Host.initial (by decide)
  rw [houtcomes] at hlaidOut
  exact ⟨by decide, houtcomes, hlaidOut⟩

end Domain
end LayeredSets
