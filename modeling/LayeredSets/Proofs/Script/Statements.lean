import LayeredSets.Proofs.Script.Evaluate

/-!
# Statements do what they mean

A statement leads from a state that stands for an environment to one that stands for the next
environment, or fails with the error that the meaning of the statement says. A name that is bound
again gives up the set that it stood for; nothing else that is live is touched, since no two names
share a set.
-/

namespace LayeredSets.Script

open Action

variable {σ : Type} {ops : Operations σ} {M : Meaning ops} {s t u : State σ} {env : Env} {line : Nat}

theorem ends_ask (line : Nat) (q : Query) (h : Matches M env s) :
    Ends (OnDomain M.Spent) (ask ops line q) s (Answers M s (env.question line q)) := by
  have hpair {x y : Expr} {c : SetId → SetId → Call .bool} {f : Set Valuation → Set Valuation → Prop}
      (hq : ∀ (m : Ideal) (a b : SetId) (v w : Set Valuation), m.sets a = some v →
        m.sets b = some w → m.question (c a b) = .ok (f v w)) :
      Ends (OnDomain M.Spent) (useTwo ops line (eval ops line x) (eval ops line y) c) s
        (Answers M s (do return f (← env.value line x) (← env.value line y))) := by
    refine ends_useTwo h (fun _ => ends_eval line x) (fun _ => ends_eval line y) ?_ ?_ ?_
    · intro v w a b mid after t hv hw ha hb hst
      rw [hv, hw]
      exact ends_uses_asked hst (hq _ _ _ _ _ (by rw [← hb.mono ha.get, ← hst.sets]; rfl)
        (by rw [← hb.get, ← hst.sets]; rfl))
    · intro e t hv hout
      rw [hv]
      exact ⟨rfl, hout⟩
    · intro v e t hv hw hout
      rw [hv, hw]
      exact ⟨rfl, hout⟩
  cases q with
  | empty a =>
    refine ends_useOne h (fun _ => ends_eval line a) ?_ ?_
    · intro v x after t hv hx hst
      rw [Env.question, hv]
      refine ends_uses_asked hst ?_
      have hx : (M.ideal t.domain).sets x.set = some v := by
        rw [← hx.get, ← hst.sets]
        rfl
      rw [Ideal.question, Ideal.set, hx]
      rfl
    · intro e t hv hout
      rw [Env.question, hv]
      exact ⟨rfl, hout⟩
  | equal a b =>
    refine hpair fun m a b v w ha hb => ?_
    rw [Ideal.question, Ideal.set, Ideal.set, ha, hb]
    rfl
  | subset a b =>
    refine hpair fun m a b v w ha hb => ?_
    rw [Ideal.question, Ideal.set, Ideal.set, ha, hb]
    rfl

/-! ## Statements -/

variable (M) in
/-- Between two statements: each name has a set of its own, and the variables keep to the limit. -/
structure Stands (limit : UInt32) (env : Env) (s : State σ) : Prop extends Matches M env s where
  distinct : ∀ {a b set}, s.sets.get? a = some set → s.sets.get? b = some set → a = b
  narrow : env.widths.length ≤ bitCount env.widths
  bits : bitCount env.widths ≤ limit.toNat

namespace Stands

variable {limit : UInt32} {name : String} {x : SetId} {v : Set Valuation}

/-- A handle that a name stands for is live. -/
theorem live_of_get? (h : Stands M limit env s) {a : String} {set : SetId}
    (ha : s.sets.get? a = some set) : ∃ v, env.sets a = some v ∧ live M s set = some v := by
  have hset := h.sets a
  rw [ha] at hset
  generalize henv : env.sets a = found at hset
  cases hset with
  | some hlive => exact ⟨_, rfl, hlive⟩

/-- A name is bound to a new set, and nothing but what it stood for before is lost. -/
theorem bind (h : Stands M limit env s) (hgood : M.Good t.domain)
    (hwidths : (M.ideal t.domain).widths = (M.ideal s.domain).widths) (hvars : t.vars = s.vars)
    (hsets : t.sets = s.sets.insert name x) (hfresh : live M s x = none)
    (hx : live M t x = some v)
    (hothers : ∀ n y, n ≠ name → s.sets.get? n = some y → live M t y = live M s y) :
    Stands M limit (env.bind name v) t where
  good := hgood
  few := h.few
  widths := hwidths.trans h.widths
  index := h.index
  vars n := by rw [hvars, h.vars n]; rfl
  sets n := by
    rw [hsets]
    by_cases hn : n = name
    · subst hn
      simp only [Table.get?_insert_self, Env.bind, Function.update_self]
      exact .some hx
    · simp only [Table.get?_insert_of_ne _ _ hn, Env.bind, Function.update_of_ne hn]
      have hset := h.sets n
      cases hfound : s.sets.get? n with
      | none =>
        rw [hfound] at hset
        generalize env.sets n = found at hset
        cases hset
        exact .none
      | some y =>
        obtain ⟨w, henv, hlive⟩ := h.live_of_get? hfound
        rw [henv]
        exact .some ((hothers n y hn hfound).trans hlive)
  distinct {a b set} ha hb := by
    have hne {n : String} (hn : n ≠ name) (hfound : s.sets.get? n = some x) : False := by
      obtain ⟨w, -, hlive⟩ := h.live_of_get? hfound
      simp [hfresh] at hlive
    rw [hsets] at ha hb
    by_cases hna : a = name <;> by_cases hnb : b = name
    · rw [hna, hnb]
    · rw [hna, Table.get?_insert_self] at ha
      rw [Table.get?_insert_of_ne _ _ hnb, ← ha] at hb
      exact (hne hnb hb).elim
    · rw [hnb, Table.get?_insert_self] at hb
      rw [Table.get?_insert_of_ne _ _ hna, ← hb] at ha
      exact (hne hna ha).elim
    · rw [Table.get?_insert_of_ne _ _ hna] at ha
      rw [Table.get?_insert_of_ne _ _ hnb] at hb
      exact h.distinct ha hb
  narrow := h.narrow
  bits := h.bits

end Stands

/-- A value that a name can own, made of an expression. -/
theorem ends_own (line : Nat) (e : Expr) (h : Matches M env s) :
    Ends (OnDomain M.Spent) (eval ops line e >>= owned ops line) s
      (Makes M s (env.value line e)) := by
  have heval := ends_eval line e h
  cases hvalue : env.value line e with
  | error err =>
    rw [hvalue] at heval
    refine Ends.bind heval ?_ ?_
    · rintro _ _ ⟨⟨⟩, _⟩
    · rintro _ t ⟨⟨⟩, hout⟩
      exact ⟨rfl, hout⟩
  | ok v =>
    rw [hvalue] at heval
    refine Ends.bind heval ?_ ?_
    · rintro value t ⟨_, after, ⟨⟩, hadds, hst⟩
      cases hadds with
      | owned fresh => exact Ends.pure ⟨_, rfl, fresh, hst⟩
      | @named x hx =>
        have hx' : (M.ideal t.domain).sets x = some v := by
          rw [← hx, ← hst.sets]
          rfl
        have hmade : (M.ideal t.domain).made (.union x x) = .ok v := by
          rw [Ideal.made, Ideal.set, hx']
          exact congrArg Except.ok (Set.union_self v)
        refine (ends_made (.union x x) hst.good).mono fun o u hu => ?_
        simp only [hmade] at hu
        obtain ⟨y, rfl, hfresh, htu⟩ := hu
        rw [hst.sets] at hfresh htu
        exact ⟨y, rfl, hfresh, hst.trans htu⟩
    · rintro e t ⟨_, _, ⟨⟩, _⟩

theorem ends_define {limit : UInt32} (name : String) (e : Expr) (h : Stands M limit env s) :
    Ends (OnDomain M.Spent) (define ops line name e) s fun o t =>
      t.output = s.output ∧ match env.value line e with
        | .ok v => o = .ok () ∧ Stands M limit (env.bind name v) t
        | .error err => o = .error err := by
  have hown := ends_own line e h.toMatches
  rw [define_eq]
  cases hvalue : env.value line e with
  | error err =>
    rw [hvalue] at hown
    refine Ends.bind hown ?_ ?_
    · rintro _ _ ⟨⟨⟩, _⟩
    · rintro _ t ⟨⟨⟩, hout⟩
      exact ⟨hout, rfl⟩
  | ok v =>
    rw [hvalue] at hown
    refine Ends.bind hown ?_ ?_
    · rintro x u ⟨_, ⟨⟩, hfresh, hsu⟩
      let b : State σ := { u with sets := u.sets.insert name x }
      have hu : u.sets = s.sets ∧ u.vars = s.vars ∧ u.output = s.output := by
        rw [hsu.rest]
        exact ⟨rfl, rfl, rfl⟩
      have hlive : live M b = Function.update (live M s) x (some v) := hsu.sets
      have hname (n : String) (y : SetId) (hn : s.sets.get? n = some y) : y ≠ x := by
        rintro rfl
        obtain ⟨w, -, hy⟩ := h.live_of_get? hn
        simp [hfresh] at hy
      refine ends_bindName (fun _ => ⟨hu.2.2, rfl, ?_⟩) fun p hprevious => ?_
      · refine h.bind hsu.good hsu.widths hu.2.1 (congrArg (·.insert name x) hu.1) hfresh ?_ ?_
        · rw [hlive, Function.update_self]
        · intro n y _ hn
          rw [hlive, Function.update_of_ne (hname n y hn)]
      · rw [hu.1] at hprevious
        obtain ⟨w, -, hp⟩ := h.live_of_get? hprevious
        have hpx := hname name p hprevious
        have hpb : live M b p = some w := by
          rw [hlive, Function.update_of_ne hpx, hp]
        have hrelease : Ends (OnDomain M.Spent) (call ops line (.release p)) b _ :=
          ends_release_call hsu.good hpb
        refine hrelease.mono ?_
        rintro o t ⟨rfl, hbt⟩
        have ht : t.sets = b.sets ∧ t.vars = b.vars ∧ t.output = b.output := by
          rw [hbt.rest]
          exact ⟨rfl, rfl, rfl⟩
        refine ⟨ht.2.2.trans hu.2.2, rfl, ?_⟩
        refine h.bind hbt.good (hbt.widths.trans hsu.widths) (ht.2.1.trans hu.2.1)
          (ht.1.trans (congrArg (·.insert name x) hu.1)) hfresh ?_ ?_
        · rw [hbt.sets, Function.update_of_ne hpx.symm, hlive, Function.update_self]
        · intro n y hne hn
          have hyp : y ≠ p := by
            rintro rfl
            exact hne (h.distinct hn hprevious)
          rw [hbt.sets, Function.update_of_ne hyp, hlive, Function.update_of_ne (hname n y hn)]
    · rintro _ _ ⟨_, ⟨⟩, _⟩

variable (M) in
/-- The domain keeps to a limit: it says what comes of a declaration. -/
structure Bounded (limit : UInt32) : Prop where
  limit : ∀ {s}, M.Good s → (M.ideal s).limit = limit
  declare : ∀ {s} (name : String) (bits : UInt32), M.Good s →
    Ends M.Spent (ops.step (.declare name bits)) s fun o _ =>
      o = ((M.ideal s).declare bits).map Prod.fst

theorem ends_declare_call {limit : UInt32} (hM : Bounded M limit) (name : String) (bits : UInt32)
    (hs : M.Good s.domain) :
    Ends (OnDomain M.Spent) (call ops line (.declare name bits)) s fun o t =>
      M.Good t.domain ∧ t = { s with domain := t.domain } ∧
        match (M.ideal s.domain).declare bits with
        | .ok (var, m) => o = .ok var ∧ m.Same (M.ideal t.domain)
        | .error e => o = .error (.domain line e) := by
  intro host hleft
  obtain ⟨hgood, hadmits⟩ := M.step (.declare name bits) hs host hleft
  have hdeclare := hM.declare name bits hs host hleft
  refine ⟨hgood, rfl, ?_⟩
  have hcall : (call ops line (.declare name bits) s host).1 =
      (ops.step (.declare name bits) s.domain host).1.mapError (.domain line) := rfl
  rw [hdeclare] at hadmits
  rw [hcall, hdeclare]
  simp only [Ideal.declare] at hadmits ⊢
  split_ifs with hinvalid hlarge
  · rfl
  · rfl
  · rw [if_neg hinvalid, if_neg hlarge] at hadmits
    rcases hadmits with ⟨total, bound, herror, -⟩ | hadmits
    · cases herror
    · rw [if_neg hinvalid] at hadmits
      exact ⟨rfl, hadmits.2⟩

/-- The state after a declaration stands for one more coordinate. -/
theorem Stands.declared {limit : UInt32} (hlimit : limit.toNat ≤ 2 ^ 32 - 64) {name : String}
    {bits : UInt32} (h : Stands M limit env s) (hgood : M.Good t.domain)
    (hgrow : ((M.ideal s.domain).grow bits).Same (M.ideal t.domain))
    (hvars : t.vars = s.vars.insert name ⟨UInt32.ofNat env.widths.length⟩)
    (hsets : t.sets = s.sets) (hpos : 0 < bits.toNat)
    (hroom : bitCount env.widths + bits.toNat ≤ limit.toNat) :
    Stands M limit (env.declare name bits) t where
  good := hgood
  few := by
    have := h.narrow
    simp only [Env.declare, List.length_append, List.length_singleton]
    omega
  widths := by rw [hgrow.widths, Ideal.grow, h.widths, Env.declare]
  index {n i width} hn := by
    simp only [Env.declare] at hn ⊢
    by_cases hname : n = name
    · subst hname
      simp only [Function.update_self, Option.some.injEq, Prod.mk.injEq] at hn
      obtain ⟨rfl, rfl⟩ := hn
      simp
    · rw [Function.update_of_ne hname] at hn
      have hi := h.index hn
      rwa [List.getElem?_append_left (List.getElem?_eq_some_iff.mp hi).1]
  vars n := by
    rw [hvars]
    by_cases hname : n = name
    · subst hname
      simp [Env.declare]
    · rw [Table.get?_insert_of_ne _ _ hname, h.vars n]
      simp only [Env.declare, Function.update_of_ne hname]
  sets n := by
    have hset := h.sets n
    rw [hsets]
    generalize hx : s.sets.get? n = x at hset
    simp only [Env.declare]
    generalize env.sets n = v at hset
    cases hset with
    | none => exact .none
    | some hlive =>
      refine .some ?_
      rw [live, hgrow.sets]
      exact congrArg (Option.map (cylinder bits)) hlive
  distinct ha hb := h.distinct (hsets ▸ ha) (hsets ▸ hb)
  narrow := by
    have := h.narrow
    simp only [Env.declare, bitCount_append, bitCount_cons, bitCount_nil, List.length_append,
      List.length_singleton]
    omega
  bits := by
    simp only [Env.declare, bitCount_append, bitCount_cons, bitCount_nil]
    omega

theorem ends_declare {limit : UInt32} (hlimit : limit.toNat ≤ 2 ^ 32 - 64) (hM : Bounded M limit)
    (name : String) (bits : UInt32) (h : Stands M limit env s) :
    Ends (OnDomain M.Spent) (declare ops line name bits) s fun o t =>
      t.output = s.output ∧ match env.checkDeclaration limit line name bits with
        | .ok () => o = .ok () ∧ Stands M limit (env.declare name bits) t
        | .error err => o = .error err := by
  have hknown : s.vars.contains name = (env.vars name).isSome := by
    rw [Table.contains_eq_isSome, h.vars name, Option.isSome_map]
  rw [declare]
  refine Ends.get_bind ?_
  rw [Env.checkDeclaration, hknown]
  by_cases hnew : (env.vars name).isSome = true
  · simp only [hnew, if_true]
    exact fun host _ => ⟨rfl, rfl⟩
  · simp only [hnew, Bool.false_eq_true, if_false]
    have hbind (var : VarId) : Keeps (fun s _ => OnDomain M.Spent s)
        (modify fun s => { s with vars := s.vars.insert name var } : Run σ Unit) :=
      keeps_modify fun _ _ h => h
    have hcall : Ends (OnDomain M.Spent) (call ops line (.declare name bits)) s _ :=
      ends_declare_call hM name bits h.good
    simp only [Ideal.declare, hM.limit h.good, h.widths] at hcall
    split_ifs at hcall ⊢ with hinvalid hlarge
    · refine Ends.bind hcall ?_ ?_
      · rintro _ u ⟨-, -, ⟨⟩⟩
      · rintro _ u ⟨-, hrest, ⟨⟩⟩
        exact ⟨by rw [hrest], rfl⟩
    · refine Ends.bind hcall ?_ ?_
      · rintro _ u ⟨-, -, ⟨⟩⟩
      · rintro _ u ⟨-, hrest, ⟨⟩⟩
        exact ⟨by rw [hrest], rfl⟩
    · refine Ends.bind hcall ?_ ?_
      · rintro _ u ⟨hgood, hrest, ⟨⟩, hgrow⟩ host -
        have hu : u.sets = s.sets ∧ u.vars = s.vars ∧ u.output = s.output := by
          rw [hrest]
          exact ⟨rfl, rfl, rfl⟩
        refine ⟨hu.2.2, rfl, ?_⟩
        refine h.declared hlimit hgood hgrow ?_ hu.1 (by omega) (by omega)
        exact congrArg (·.insert name (VarId.mk (UInt32.ofNat env.widths.length))) hu.2.1
      · rintro _ u ⟨-, -, ⟨⟩, -⟩

/-- A writer without a limit takes everything. -/
theorem write_of_unlimited {piece : String} (h : s.output.limit = none) (host : Host) :
    write piece s host = (.ok (), { s with output := ⟨s.output.text ++ piece, none⟩ }, host) := by
  have hroom : s.output.hasRoom piece = true := by
    rw [Output.hasRoom, h]
    rfl
  rw [write_apply, if_pos hroom, ← h]

theorem Stands.withOutput {limit : UInt32} (h : Stands M limit env s) (out : Output) :
    Stands M limit env { s with output := out } :=
  { h with }

/-- Asking leaves everything as it was. -/
theorem Stands.asked {limit : UInt32} (h : Stands M limit env s) (hst : Leads M s t (live M s)) :
    Stands M limit env t where
  toMatches := h.toMatches.leads hst fun _ _ hx => hx
  distinct ha hb := by
    rw [hst.rest] at ha hb
    exact h.distinct ha hb
  narrow := h.narrow
  bits := h.bits

@[simp] theorem answerLines_nil : answerLines [] = "" := rfl

@[simp] theorem answerLines_singleton (answer : Bool) :
    answerLines [answer] = toString answer ++ "\n" := by
  rw [answerLines, List.map_singleton, String.join_cons, String.join_nil, String.append_empty]

theorem answerLines_append (a b : List Bool) :
    answerLines (a ++ b) = answerLines a ++ answerLines b := by
  rw [answerLines, List.map_append, String.join_append]
  rfl

open Classical in
/-- A statement does what it means. -/
theorem ends_execute {limit : UInt32} (hlimit : limit.toNat ≤ 2 ^ 32 - 64) (hM : Bounded M limit)
    (line : Nat) (c : Command) (h : Stands M limit env s) (hout : s.output.limit = none) :
    Ends (OnDomain M.Spent) (execute ops line c) s fun o t =>
      match env.execute limit line c with
      | .ok (printed, env') => o = .ok () ∧ Stands M limit env' t ∧
        t.output = ⟨s.output.text ++ answerLines printed.toList, none⟩
      | .error e => o = .error e ∧ t.output = s.output := by
  have hsame : s.output = ⟨s.output.text ++ answerLines [], none⟩ := by
    rw [answerLines_nil, String.append_empty, ← hout]
  cases c with
  | var name bits =>
    refine (ends_declare hlimit hM name bits h).mono ?_
    rintro o t ⟨ht, hresult⟩
    simp only [Env.execute]
    cases hcheck : env.checkDeclaration limit line name bits with
    | error e =>
      rw [hcheck] at hresult
      exact ⟨hresult, ht⟩
    | ok _ =>
      rw [hcheck] at hresult
      exact ⟨hresult.1, hresult.2, ht.trans hsame⟩
  | define name e =>
    refine (ends_define name e h).mono ?_
    rintro o t ⟨ht, hresult⟩
    simp only [Env.execute]
    cases hvalue : env.value line e with
    | error e =>
      rw [hvalue] at hresult
      exact ⟨hresult, ht⟩
    | ok v =>
      rw [hvalue] at hresult
      exact ⟨hresult.1, hresult.2, ht.trans hsame⟩
  | print q =>
    have hask := ends_ask line q h.toMatches
    simp only [Env.execute]
    cases hq : env.question line q with
    | error e =>
      rw [hq] at hask
      refine Ends.bind hask ?_ ?_
      · rintro _ t ⟨⟨⟩, _⟩
      · rintro _ t ⟨⟨⟩, ht⟩
        exact ⟨rfl, ht⟩
    | ok asked =>
      rw [hq] at hask
      refine Ends.bind hask ?_ ?_
      · rintro answer t ⟨_, ⟨⟩, hanswer, hst⟩ host -
        have ht : t.output = s.output := by rw [hst.rest]
        have hlimit : t.output.limit = none := by rw [ht, hout]
        have hwrites : (write (toString answer) >>= fun _ => write "\n" : Run σ Unit) t host =
            (.ok (), { t with output := ⟨t.output.text ++ toString answer ++ "\n", none⟩ }, host) := by
          rw [bind_apply_ok (write_of_unlimited hlimit host), write_of_unlimited rfl]
        rw [hwrites]
        refine ⟨rfl, (h.asked hst).withOutput _, ?_⟩
        have hdecide : decide asked = answer := by
          rw [Bool.eq_iff_iff, decide_eq_true_iff, hanswer]
        rw [ht, hdecide, Option.toList_some, answerLines_singleton, String.append_assoc]
      · rintro _ t ⟨_, ⟨⟩, _⟩
  | assert q =>
    have hask := ends_ask line q h.toMatches
    simp only [Env.execute]
    cases hq : env.question line q with
    | error e =>
      rw [hq] at hask
      refine Ends.bind hask ?_ ?_
      · rintro _ t ⟨⟨⟩, _⟩
      · rintro _ t ⟨⟨⟩, ht⟩
        exact ⟨rfl, ht⟩
    | ok asked =>
      rw [hq] at hask
      refine Ends.bind hask ?_ ?_
      · rintro answer t ⟨_, ⟨⟩, hanswer, hst⟩
        have ht : t.output = s.output := by rw [hst.rest]
        cases answer with
        | true =>
          have hasked : asked := hanswer.mp rfl
          simp only [bind, Except.bind, hasked, if_true]
          exact Ends.pure ⟨rfl, h.asked hst, ht.trans hsame⟩
        | false =>
          have hasked : ¬ asked := fun h => Bool.false_ne_true (hanswer.mpr h)
          simp only [bind, Except.bind, hasked, if_false]
          exact Ends.fail ⟨rfl, ht⟩
      · rintro _ t ⟨_, ⟨⟩, _⟩

end LayeredSets.Script
