import LayeredSets.Proofs.Meaning
import LayeredSets.Proofs.Script.Denotation
import LayeredSets.Proofs.Script.Transport

/-!
# Expressions evaluate to what they denote

While the names of a script stand for live sets with the right meaning, evaluating an expression ends
with a set that has the meaning of the expression, or with the error that comes first. What was live
before stays as it is. At most one more set is live afterwards, and only if the value has to be
released; everything else that came up on the way has been released.
-/

namespace LayeredSets.Script

open Action

/-- The sets that are live, and what they mean. -/
abbrev Live : Type := SetId → Option (Set Valuation)

/-- A value with this meaning is live afterwards. If it has to be released, it was not live before. -/
inductive Value.Adds (live : Live) (v : Set Valuation) : Value → Live → Prop
  | owned {set : SetId} (fresh : live set = none) :
    Adds live v ⟨set, true⟩ (Function.update live set (some v))
  | named {set : SetId} (h : live set = some v) : Adds live v ⟨set, false⟩ live

/-- One more live set, if there is one. -/
def Live.withNew (live : Live) : Option (SetId × Set Valuation) → Live
  | none => live
  | some (x, v) => Function.update live x (some v)

theorem Live.withNew_eq {live : Live} {new : Option (SetId × Set Valuation)}
    (hnew : ∀ x ∈ new, live x.1 = none) {set : SetId} {v : Set Valuation} (h : live set = some v) :
    live.withNew new set = some v := by
  cases new with
  | none => exact h
  | some x =>
    rw [withNew, Function.update_of_ne, h]
    rintro rfl
    simp [hnew x rfl] at h

/-- What is live once a value has been used. -/
def Value.remove (value : Value) (live : Live) : Live :=
  if value.owned then Function.update live value.set none else live

namespace Value.Adds

variable {live after : Live} {v w : Set Valuation} {value : Value}

theorem get (h : value.Adds live v after) : after value.set = some v := by
  cases h with
  | owned => exact Function.update_self ..
  | named h => exact h

theorem mono (h : value.Adds live v after) {x : SetId} (hx : live x = some w) :
    after x = some w := by
  cases h with
  | owned fresh =>
    rw [Function.update_of_ne, hx]
    rintro rfl
    simp [fresh] at hx
  | named => exact hx

theorem eq_none (h : value.Adds live v after) {x : SetId} (hx : after x = none) : live x = none := by
  cases hlive : live x with
  | none => rfl
  | some w => simp [h.mono hlive] at hx

/-- A value that has to be released is none of those that were live before. -/
theorem ne_of_get (h : value.Adds live v after) (howned : value.owned = true) {x : SetId}
    (hx : live x = some w) : value.set ≠ x := by
  cases h with
  | owned fresh =>
    rintro rfl
    simp [fresh] at hx
  | named => cases howned

/-- Using a value leaves what was live before and what was made of it. -/
theorem remove (h : value.Adds live v after) {new : Option (SetId × Set Valuation)}
    (hnew : ∀ x ∈ new, after x.1 = none) : value.remove (after.withNew new) = live.withNew new := by
  cases h with
  | named => rfl
  | @owned set fresh =>
    cases new with
    | none => simp [Live.withNew, Value.remove, ← fresh]
    | some x =>
      have hne : set ≠ x.1 := by
        rintro rfl
        simpa using hnew x rfl
      simp only [Live.withNew, Value.remove, if_true]
      rw [Function.update_comm hne.symm, Function.update_idem, ← fresh, Function.update_eq_self]

end Value.Adds

theorem Value.remove_comm (a b : Value) (live : Live) :
    b.remove (a.remove live) = a.remove (b.remove live) := by
  by_cases h : a.set = b.set
  · simp only [remove, h]
    split <;> split <;> rfl
  · simp only [remove]
    split <;> split <;> first | rfl | exact Function.update_comm h _ _ _

variable {σ : Type} {ops : Operations σ} (M : Meaning ops)

instance : Kept (fun d _ => M.Spent d) ops := ⟨M.keeps⟩

/-- The sets that are live in the domain. -/
def live (s : State σ) : Live := (M.ideal s.domain).sets

/-- Only the domain has changed, to where these sets are live. -/
structure Leads (s t : State σ) (after : Live) : Prop where
  good : M.Good t.domain
  rest : t = { s with domain := t.domain }
  widths : (M.ideal t.domain).widths = (M.ideal s.domain).widths
  sets : live M t = after

variable {M} {s t u : State σ} {line : Nat}

theorem Leads.trans {after after' : Live} (h : Leads M s t after) (h' : Leads M t u after') :
    Leads M s u after' where
  good := h'.good
  rest := by rw [h'.rest, h.rest]
  widths := h'.widths.trans h.widths
  sets := h'.sets

theorem Leads.refl (hs : M.Good s.domain) : Leads M s s (live M s) := ⟨hs, rfl, rfl, rfl⟩

/-! ## Calls -/

theorem ends_call {k : Answer} (c : Call k) {Q : Except RunError k.Value → State σ → Prop}
    (hs : M.Good s.domain)
    (hQ : ∀ o d, M.Good d → (M.ideal s.domain).Admits c o (M.ideal d) →
      Q (o.mapError (.domain line)) { s with domain := d }) :
    Ends (OnDomain M.Spent) (call ops line c) s Q :=
  fun host hleft =>
    have hstep := M.step c hs host hleft
    hQ _ _ hstep.1 hstep.2

theorem ends_made (c : Call .set) (hs : M.Good s.domain) :
    Ends (OnDomain M.Spent) (call ops line c) s fun o t =>
      match (M.ideal s.domain).made c with
      | .ok v => ∃ set, o = .ok set ∧ live M s set = none ∧
        Leads M s t (Function.update (live M s) set (some v))
      | .error e => o = .error (.domain line e) ∧ Leads M s t (live M s) := by
  refine ends_call c hs fun o d hd hadmits => ?_
  cases hmade : (M.ideal s.domain).made c with
  | ok v =>
    simp only [Ideal.Admits, hmade] at hadmits
    obtain ⟨set, rfl, hfresh, hsame⟩ := hadmits
    exact ⟨set, rfl, hfresh, hd, rfl, hsame.widths, hsame.sets⟩
  | error e =>
    simp only [Ideal.Admits, hmade] at hadmits
    obtain ⟨rfl, hsame⟩ := hadmits
    exact ⟨rfl, hd, rfl, hsame.widths, hsame.sets⟩

theorem ends_asked (c : Call .bool) (hs : M.Good s.domain) {q : Prop}
    (hq : (M.ideal s.domain).question c = .ok q) :
    Ends (OnDomain M.Spent) (call ops line c) s fun o t =>
      ∃ answer, o = .ok answer ∧ (answer = true ↔ q) ∧ Leads M s t (live M s) := by
  refine ends_call c hs fun o d hd hadmits => ?_
  obtain ⟨hagree, hsame⟩ := hadmits
  rw [hq] at hagree
  cases o with
  | error e => exact hagree.elim
  | ok answer => exact ⟨answer, rfl, hagree, hd, rfl, hsame.widths, hsame.sets⟩

theorem ends_release_call {set : SetId} {v : Set Valuation} (hs : M.Good s.domain)
    (hset : live M s set = some v) :
    Ends (OnDomain M.Spent) (call ops line (.release set)) s fun o t =>
      o = .ok () ∧ Leads M s t (Function.update (live M s) set none) := by
  refine ends_call _ hs fun o d hd hadmits => ?_
  have hfound : (M.ideal s.domain).set set = .ok v := by
    rw [Ideal.set, show (M.ideal s.domain).sets set = some v from hset]
  simp only [Ideal.Admits, hfound] at hadmits
  obtain ⟨rfl, hsame⟩ := hadmits
  exact ⟨rfl, hd, rfl, hsame.widths, hsame.sets⟩

/-- A value that is live is released if it has to be. -/
theorem ends_release (value : Value) (hs : M.Good s.domain)
    (hvalue : value.owned = true → ∃ v, live M s value.set = some v) :
    Ends (OnDomain M.Spent) (release ops line value) s fun o t =>
      o = .ok () ∧ Leads M s t (value.remove (live M s)) := by
  rw [release, Value.remove]
  split
  · next howned =>
    obtain ⟨v, hv⟩ := hvalue howned
    exact ends_release_call hs hv
  · exact Ends.pure ⟨rfl, .refl hs⟩

/-! ## Environments -/

variable (M) in
/-- The names of a script stand for what they stand for in the environment. -/
structure Matches (env : Env) (s : State σ) : Prop where
  good : M.Good s.domain
  few : env.widths.length < 2 ^ 32
  widths : (M.ideal s.domain).widths = env.widths
  index : ∀ {name i bits}, env.vars name = some (i, bits) → env.widths[i]? = some bits
  vars : ∀ name, s.vars.get? name = (env.vars name).map fun v => ⟨UInt32.ofNat v.1⟩
  sets : ∀ name, Option.Rel (fun set v => live M s set = some v) (s.sets.get? name) (env.sets name)

theorem rel_mono {α β : Type} {R R' : α → β → Prop} {a : Option α} {b : Option β}
    (h : Option.Rel R a b) (hR : ∀ a b, R a b → R' a b) : Option.Rel R' a b := by
  cases h with
  | none => exact .none
  | some h => exact .some (hR _ _ h)

/-- Names stand for the same as long as nothing live is lost. -/
theorem Matches.leads {env : Env} {after : Live} (h : Matches M env s) (hst : Leads M s t after)
    (hlive : ∀ x v, live M s x = some v → after x = some v) : Matches M env t where
  good := hst.good
  few := h.few
  widths := hst.widths.trans h.widths
  index := h.index
  vars := by
    rw [hst.rest]
    exact h.vars
  sets name := by
    have hsets : t.sets = s.sets := by rw [hst.rest]
    rw [hsets]
    exact rel_mono (h.sets name) fun set v hset => hst.sets ▸ hlive set v hset

/-- What comes of an action that makes a set, if this is the set or the error. -/
def Makes (M : Meaning ops) (s : State σ) (result : Except RunError (Set Valuation))
    (o : Except RunError SetId) (t : State σ) : Prop :=
  match result with
  | .ok v => ∃ set, o = .ok set ∧ live M s set = none ∧
    Leads M s t (Function.update (live M s) set (some v))
  | .error e => o = .error e ∧ t.output = s.output

/-- What comes of an evaluation, if this is the set or the error. -/
def Evaluates (M : Meaning ops) (s : State σ) (result : Except RunError (Set Valuation))
    (o : Except RunError Value) (t : State σ) : Prop :=
  match result with
  | .ok v => ∃ value after, o = .ok value ∧ value.Adds (live M s) v after ∧ Leads M s t after
  | .error e => o = .error e ∧ t.output = s.output

theorem ends_fresh {x : Run σ SetId} {result : Except RunError (Set Valuation)}
    (h : Ends (OnDomain M.Spent) x s (Makes M s result)) :
    Ends (OnDomain M.Spent) (fresh x) s (Evaluates M s result) := by
  cases result with
  | ok v =>
    refine Ends.bind h ?_ ?_
    · rintro _ t ⟨set, ⟨⟩, hfresh, hst⟩
      exact Ends.pure ⟨_, _, rfl, .owned hfresh, hst⟩
    · rintro e t ⟨_, ⟨⟩, _⟩
  | error e =>
    refine Ends.bind h ?_ ?_
    · rintro _ _ ⟨⟨⟩, _⟩
    · rintro _ t ⟨⟨⟩, hout⟩
      exact ⟨rfl, hout⟩

/-- A call that makes a set, or refuses to. -/
theorem ends_makes (c : Call .set) (hs : M.Good s.domain) :
    Ends (OnDomain M.Spent) (call ops line c) s
      (Makes M s (((M.ideal s.domain).made c).mapError (.domain line))) := by
  refine (ends_made c hs).mono fun o t h => ?_
  cases hmade : (M.ideal s.domain).made c with
  | ok v =>
    simp only [hmade] at h
    exact h
  | error e =>
    simp only [hmade] at h
    exact ⟨h.1, by rw [h.2.rest]⟩

theorem ends_findVar_bind {α : Type} {env : Env} (h : Matches M env s) (name : String)
    {f : VarId → Run σ α} {Q : Except RunError α → State σ → Prop}
    (hok : ∀ i bits, env.vars name = some (i, bits) → i < 2 ^ 32 →
      Ends (OnDomain M.Spent) (f ⟨UInt32.ofNat i⟩) s Q)
    (herror : env.vars name = none → Q (.error (.undefinedVariable name line)) s) :
    Ends (OnDomain M.Spent) (findVar line name >>= f) s Q := by
  have hvar := h.vars name
  refine ends_require_bind (fun var hfound => ?_) fun hfound => ?_
  · rw [hfound] at hvar
    obtain ⟨⟨i, bits⟩, henv, rfl⟩ := Option.map_eq_some_iff.mp hvar.symm
    exact hok i bits henv ((List.getElem?_eq_some_iff.mp (h.index henv)).1.trans h.few)
  · rw [hfound] at hvar
    exact herror (Option.map_eq_none_iff.mp hvar.symm)

theorem ends_findSet_bind {α : Type} {env : Env} (h : Matches M env s) (name : String)
    {f : SetId → Run σ α} {Q : Except RunError α → State σ → Prop}
    (hok : ∀ x v, env.sets name = some v → live M s x = some v →
      Ends (OnDomain M.Spent) (f x) s Q)
    (herror : env.sets name = none → Q (.error (.undefinedSet name line)) s) :
    Ends (OnDomain M.Spent) (findSet line name >>= f) s Q := by
  have hset := h.sets name
  refine ends_require_bind (fun x hfound => ?_) fun hfound => ?_
  · rw [hfound] at hset
    generalize henv : env.sets name = v at hset
    cases hset with
    | some hx => exact hok x _ henv hx
  · rw [hfound] at hset
    generalize henv : env.sets name = v at hset
    cases hset with
    | none => exact herror henv

/-! ## Operands -/

section

variable {env : Env} {k : Answer} {x y : Run σ Value} {ra rb : Except RunError (Set Valuation)}
  {Q : Except RunError k.Value → State σ → Prop}

instance (value : Value) (result : Except RunError k.Value) :
    Keeps (fun s _ => OnDomain M.Spent s) (do
      release ops line value
      ofExcept result : Run σ k.Value) :=
  inferInstanceAs (Keeps (OfDomain fun d _ => M.Spent d) _)

/-- What a call on live operands comes to, before they are released: it makes one set or none, and the
outcome is right for a state in which only this set has been made since the start. -/
def Uses (M : Meaning ops) (s t : State σ) (before : Live)
    (Q : Except RunError k.Value → State σ → Prop) (o : Except RunError k.Value) (u : State σ) :
    Prop :=
  ∃ new, (∀ x ∈ new, before x.1 = none) ∧ Leads M t u (before.withNew new) ∧
    ∀ w, Leads M s w ((live M s).withNew new) → Q o w

theorem ends_ofExcept {result : Except RunError k.Value} (h : Q result s) :
    Ends (OnDomain M.Spent) (ofExcept result) s Q := by
  cases result
  · exact Ends.fail h
  · exact Ends.pure h

theorem ends_useOne (h : Matches M env s)
    (hx : ∀ s, Matches M env s → Ends (OnDomain M.Spent) x s (Evaluates M s ra))
    {c : SetId → Call k}
    (hok : ∀ v (a : Value) after t, ra = .ok v → a.Adds (live M s) v after → Leads M s t after →
      Ends (OnDomain M.Spent) (call ops line (c a.set)) t (Uses M s t after Q))
    (herror : ∀ e t, ra = .error e → t.output = s.output → Q (.error e) t) :
    Ends (OnDomain M.Spent) (useOne ops line x c) s Q := by
  have hcall (a : Value) : Keeps (fun s _ => OnDomain M.Spent s) (call ops line (c a.set)) :=
    keeps_call (I := fun d _ => M.Spent d) _
  cases ra with
  | error e =>
    refine Ends.bind (hx s h) ?_ ?_
    · rintro _ _ ⟨⟨⟩, _⟩
    · rintro _ t ⟨⟨⟩, hout⟩
      exact herror e t rfl hout
  | ok v =>
    refine Ends.bind (hx s h) ?_ ?_
    · rintro a t ⟨_, after, ⟨⟩, ha, hst⟩
      refine Ends.outcome_bind (hok v a after t rfl ha hst) ?_
      rintro o u ⟨new, hnew, htu, hQ⟩
      have hlive : live M u a.set = some v := by
        rw [htu.sets]
        exact Live.withNew_eq hnew ha.get
      refine Ends.bind (ends_release a htu.good fun _ => ⟨v, hlive⟩) ?_ ?_
      · rintro _ w ⟨_, huw⟩
        refine ends_ofExcept (hQ w ?_)
        rw [htu.sets, ha.remove hnew] at huw
        exact hst.trans (htu.trans huw)
      · rintro e w ⟨⟨⟩, _⟩
    · rintro e t ⟨_, _, ⟨⟩, _⟩

theorem ends_useTwo [Keeps (fun s _ => OnDomain M.Spent s) y] (h : Matches M env s)
    (hx : ∀ s, Matches M env s → Ends (OnDomain M.Spent) x s (Evaluates M s ra))
    (hy : ∀ s, Matches M env s → Ends (OnDomain M.Spent) y s (Evaluates M s rb))
    {c : SetId → SetId → Call k}
    (hok : ∀ v w (a b : Value) mid after t, ra = .ok v → rb = .ok w →
      a.Adds (live M s) v mid → b.Adds mid w after → Leads M s t after →
        Ends (OnDomain M.Spent) (call ops line (c a.set b.set)) t (Uses M s t after Q))
    (hleft : ∀ e t, ra = .error e → t.output = s.output → Q (.error e) t)
    (hright : ∀ v e t, ra = .ok v → rb = .error e → t.output = s.output → Q (.error e) t) :
    Ends (OnDomain M.Spent) (useTwo ops line x y c) s Q := by
  have hcall (a b : Value) :
      Keeps (fun s _ => OnDomain M.Spent s) (call ops line (c a.set b.set)) :=
    keeps_call (I := fun d _ => M.Spent d) _
  cases ra with
  | error e =>
    refine Ends.bind (hx s h) ?_ ?_
    · rintro _ _ ⟨⟨⟩, _⟩
    · rintro _ t ⟨⟨⟩, hout⟩
      exact hleft e t rfl hout
  | ok v =>
    refine Ends.bind (hx s h) ?_ ?_
    · rintro a t ⟨_, mid, ⟨⟩, ha, hst⟩
      have ht := h.leads hst fun _ _ => ha.mono
      have hout : t.output = s.output := by rw [hst.rest]
      cases rb with
      | error e =>
        refine Ends.bind (hy t ht) ?_ ?_
        · rintro _ _ ⟨⟨⟩, _⟩
        · rintro _ u ⟨⟨⟩, hout'⟩
          exact hright v e u rfl rfl (hout'.trans hout)
      | ok w =>
        refine Ends.bind (hy t ht) ?_ ?_
        · rintro b u ⟨_, after, ⟨⟩, hb, htu⟩
          rw [hst.sets] at hb
          have hsu := hst.trans htu
          refine Ends.outcome_bind (hok v w a b mid after u rfl rfl ha hb hsu) ?_
          rintro o u' ⟨new, hnew, huu', hQ⟩
          have hlivea : live M u' a.set = some v := by
            rw [huu'.sets]
            exact Live.withNew_eq hnew (hb.mono ha.get)
          have hliveb : live M u' b.set = some w := by
            rw [huu'.sets]
            exact Live.withNew_eq hnew hb.get
          refine Ends.bind (ends_release a huu'.good fun _ => ⟨v, hlivea⟩) ?_ ?_
          · rintro _ u'' ⟨_, hfirst⟩
            refine Ends.bind (ends_release b hfirst.good ?_) ?_ ?_
            · intro howned
              have hne := hb.ne_of_get howned ha.get
              refine ⟨w, ?_⟩
              rw [hfirst.sets, Value.remove]
              split
              · rw [Function.update_of_ne hne, hliveb]
              · exact hliveb
            · rintro _ z ⟨_, hsecond⟩
              refine ends_ofExcept (hQ z ?_)
              rw [hfirst.sets, Value.remove_comm, huu'.sets, hb.remove hnew, ha.remove] at hsecond
              · exact hsu.trans (huu'.trans (hfirst.trans hsecond))
              · exact fun x hx => hb.eq_none (hnew x hx)
            · rintro e z ⟨⟨⟩, _⟩
          · rintro e z ⟨⟨⟩, _⟩
        · rintro e u ⟨_, _, ⟨⟩, _⟩
    · rintro e t ⟨_, _, ⟨⟩, _⟩

/-- A call that makes a set of live operands. -/
theorem ends_uses_made {after : Live} (hst : Leads M s t after)
    (hafter : ∀ x, after x = none → live M s x = none) {c : Call .set} {v : Set Valuation}
    (hmade : (M.ideal t.domain).made c = .ok v) :
    Ends (OnDomain M.Spent) (call ops line c) t (Uses M s t after (Makes M s (.ok v))) := by
  refine (ends_made c hst.good).mono fun o u h => ?_
  simp only [hmade] at h
  obtain ⟨set, rfl, hfresh, htu⟩ := h
  rw [hst.sets] at hfresh htu
  exact ⟨some (set, v), by simpa using hfresh, htu, fun w hw => ⟨set, rfl, hafter set hfresh, hw⟩⟩

/-- What comes of a question, if this is the answer or the error. -/
def Answers (M : Meaning ops) (s : State σ) (result : Except RunError Prop)
    (o : Except RunError Bool) (t : State σ) : Prop :=
  match result with
  | .ok q => ∃ answer, o = .ok answer ∧ (answer = true ↔ q) ∧ Leads M s t (live M s)
  | .error e => o = .error e ∧ t.output = s.output

theorem ends_uses_asked {after : Live} (hst : Leads M s t after) {c : Call .bool} {q : Prop}
    (hq : (M.ideal t.domain).question c = .ok q) :
    Ends (OnDomain M.Spent) (call ops line c) t (Uses M s t after (Answers M s (.ok q))) := by
  refine (ends_asked c hst.good hq).mono fun o u ⟨answer, ho, hanswer, htu⟩ => ?_
  rw [hst.sets] at htu
  exact ⟨none, by simp, htu, fun w hw => ⟨answer, ho, hanswer, hw⟩⟩

end

/-! ## Expressions -/

section

variable {env : Env}

/-- One operand makes a set. -/
theorem ends_unary {x : Run σ Value} {ra : Except RunError (Set Valuation)} (h : Matches M env s)
    (hx : ∀ s, Matches M env s → Ends (OnDomain M.Spent) x s (Evaluates M s ra))
    {c : SetId → Call .set} {f : Set Valuation → Set Valuation}
    (hmade : ∀ (m : Ideal) (a : SetId) (v : Set Valuation), m.widths = env.widths →
      m.sets a = some v → m.made (c a) = .ok (f v)) :
    Ends (OnDomain M.Spent) (fresh (useOne ops line x c)) s
      (Evaluates M s (do return f (← ra))) := by
  refine ends_fresh (ends_useOne h hx ?_ ?_)
  · rintro v a after t rfl ha hst
    refine ends_uses_made hst (fun x hx => ha.eq_none hx) ?_
    exact hmade _ _ _ (hst.widths.trans h.widths) (by rw [← ha.get, ← hst.sets]; rfl)
  · rintro e t rfl hout
    exact ⟨rfl, hout⟩

/-- Two operands make a set. -/
theorem ends_binary {x y : Run σ Value} [Keeps (fun s _ => OnDomain M.Spent s) y]
    {ra rb : Except RunError (Set Valuation)} (h : Matches M env s)
    (hx : ∀ s, Matches M env s → Ends (OnDomain M.Spent) x s (Evaluates M s ra))
    (hy : ∀ s, Matches M env s → Ends (OnDomain M.Spent) y s (Evaluates M s rb))
    {c : SetId → SetId → Call .set} {f : Set Valuation → Set Valuation → Set Valuation}
    (hmade : ∀ (m : Ideal) (a b : SetId) (v w : Set Valuation), m.sets a = some v →
      m.sets b = some w → m.made (c a b) = .ok (f v w)) :
    Ends (OnDomain M.Spent) (fresh (useTwo ops line x y c)) s
      (Evaluates M s (do return f (← ra) (← rb))) := by
  refine ends_fresh (ends_useTwo h hx hy ?_ ?_ ?_)
  · rintro v w a b mid after t rfl rfl ha hb hst
    refine ends_uses_made hst (fun x hx => ha.eq_none (hb.eq_none hx)) ?_
    exact hmade _ _ _ _ _ (by rw [← hb.mono ha.get, ← hst.sets]; rfl)
      (by rw [← hb.get, ← hst.sets]; rfl)
  · rintro e t rfl hout
    exact ⟨rfl, hout⟩
  · rintro v e t rfl rfl hout
    exact ⟨rfl, hout⟩

/-- The variable that a name stands for has the width of the environment. -/
theorem Matches.width_eq (h : Matches M env s) {name : String} {i : Nat} {bits : UInt32}
    (hname : env.vars name = some (i, bits)) (hi : i < 2 ^ 32) :
    (M.ideal s.domain).width ⟨UInt32.ofNat i⟩ = .ok bits := by
  rw [Ideal.width, UInt32.toNat_ofNat_of_lt' hi, h.widths, h.index hname]

theorem Matches.made_constant (h : Matches M env s) {name : String} {i : Nat} {bits : UInt32}
    (hname : env.vars name = some (i, bits)) (hi : i < 2 ^ 32) (value : UInt64) :
    ((M.ideal s.domain).made (.varEqConst ⟨UInt32.ofNat i⟩ value)).mapError (.domain line) =
      env.value line (.equalsValue name value) := by
  simp only [Ideal.made, h.width_eq hname hi, Env.value, Env.var, hname, h.widths,
    UInt32.toNat_ofNat_of_lt' hi, Ideal.checkValue]
  by_cases hvalue : value.toNat < 2 ^ bits.toNat
  · simp only [hvalue, if_true, bind, Except.bind]
    rfl
  · simp only [hvalue, if_false, bind, Except.bind]
    rfl

theorem Matches.made_equality (h : Matches M env s) {a b : String} {i j : Nat}
    {left right : UInt32} (ha : env.vars a = some (i, left)) (hi : i < 2 ^ 32)
    (hb : env.vars b = some (j, right)) (hj : j < 2 ^ 32) :
    ((M.ideal s.domain).made (.varEqVar ⟨UInt32.ofNat i⟩ ⟨UInt32.ofNat j⟩)).mapError
      (.domain line) = env.value line (.equalsVar a b) := by
  simp only [Ideal.made, h.width_eq ha hi, h.width_eq hb hj, Env.value, Env.var, ha, hb, h.widths,
    UInt32.toNat_ofNat_of_lt' hi, UInt32.toNat_ofNat_of_lt' hj]
  by_cases hsame : left = right
  · simp only [hsame, ne_eq, not_true_eq_false, if_false, if_true, bind, Except.bind]
    rfl
  · simp only [hsame, ne_eq, not_false_eq_true, if_false, if_true, bind, Except.bind]
    rfl

theorem Matches.made_point (h : Matches M env s) (values : List UInt64) :
    ((M.ideal s.domain).made (.singleton values)).mapError (.domain line) =
      env.value line (.point values) := by
  simp only [Ideal.made, Env.value, h.widths]
  by_cases hlength : values.length = env.widths.length
  · simp only [hlength, ne_eq, not_true_eq_false, if_false, if_true]
    cases Ideal.checkPoint env.widths values <;> rfl
  · simp only [hlength, ne_eq, not_false_eq_true, if_true, if_false]
    rfl

theorem ends_eval (line : Nat) (e : Expr) (h : Matches M env s) :
    Ends (OnDomain M.Spent) (eval ops line e) s (Evaluates M s (env.value line e)) := by
  induction e generalizing s with
  | top =>
    have hvalue : env.value line .top =
        ((M.ideal s.domain).made .top).mapError (.domain line) := by
      rw [Env.value, Ideal.made, h.widths]
      rfl
    rw [eval, hvalue]
    exact ends_fresh (ends_makes .top h.good)
  | bottom =>
    rw [eval]
    exact ends_fresh (ends_makes .bottom h.good)
  | name name =>
    rw [eval]
    refine ends_findSet_bind h name (fun x v hname hx => ?_) fun hname => ?_
    · simp only [Env.value, Env.set, hname]
      exact Ends.pure ⟨_, _, rfl, .named hx, .refl h.good⟩
    · simp only [Env.value, Env.set, hname]
      exact ⟨rfl, rfl⟩
  | equalsValue var value =>
    rw [eval]
    refine ends_findVar_bind h var (fun i bits hvar hi => ?_) fun hvar => ?_
    · rw [← h.made_constant hvar hi]
      exact ends_fresh (ends_makes _ h.good)
    · simp only [Env.value, Env.var, hvar]
      exact ⟨rfl, rfl⟩
  | equalsVar a b =>
    rw [eval]
    refine ends_findVar_bind h a (fun i left ha hi => ?_) fun ha => ?_
    · refine ends_findVar_bind h b (fun j right hb hj => ?_) fun hb => ?_
      · rw [← h.made_equality ha hi hb hj]
        exact ends_fresh (ends_makes _ h.good)
      · simp only [Env.value, Env.var, ha, hb]
        exact ⟨rfl, rfl⟩
    · simp only [Env.value, Env.var, ha]
      exact ⟨rfl, rfl⟩
  | point values =>
    rw [eval, ← h.made_point]
    exact ends_fresh (ends_makes _ h.good)
  | union a b iha ihb =>
    refine ends_binary h (fun _ => iha) (fun _ => ihb) fun m a b v w ha hb => ?_
    rw [Ideal.made, Ideal.set, Ideal.set, ha, hb]
    rfl
  | intersect a b iha ihb =>
    refine ends_binary h (fun _ => iha) (fun _ => ihb) fun m a b v w ha hb => ?_
    rw [Ideal.made, Ideal.set, Ideal.set, ha, hb]
    rfl
  | difference a b iha ihb =>
    refine ends_binary h (fun _ => iha) (fun _ => ihb) fun m a b v w ha hb => ?_
    rw [Ideal.made, Ideal.set, Ideal.set, ha, hb]
    rfl
  | complement a ih =>
    refine ends_unary h (fun _ => ih) fun m a v hm ha => ?_
    rw [Ideal.made, Ideal.set, ha, hm]
    rfl
  | «exists» var body ih =>
    rw [eval]
    refine ends_findVar_bind h var (fun i bits hvar hi => ?_) fun hvar => ?_
    · have hvalue : env.value line (.exists var body) =
          do return {v ∈ box env.widths | ∃ x, v.set i x ∈ (← env.value line body)} := by
        simp only [Env.value, Env.var, hvar]
        rfl
      rw [hvalue]
      refine ends_unary h (fun _ => ih) fun m a v hm ha => ?_
      rw [Ideal.made, Ideal.width, Ideal.set, ha, hm, UInt32.toNat_ofNat_of_lt' hi, h.index hvar]
      rfl
    · simp only [Env.value, Env.var, hvar]
      exact ⟨rfl, rfl⟩

end

end LayeredSets.Script
