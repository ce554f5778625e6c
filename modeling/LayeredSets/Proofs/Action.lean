import LayeredSets.Action
import Mathlib.Tactic

/-!
# Reasoning about actions

Six things to say of an action. It keeps a property of the state and the host, from wherever it
starts. It fails only with errors of some kind, and succeeds only with values of some kind. It does
the same as another action, as far as two relations tell, one of states and one of hosts; or a map
of states carries it to that other action. And it ends well from a given state, unless something
has been spent on the way: what is spent stays so, which is why an action whose end is within bounds
was within bounds all the time.
-/

namespace LayeredSets

/-! ## Steps that may fail -/

section

variable {ε α β : Type} {x : Except ε α} {f : α → Except ε β}

theorem map_eq_ok {g : α → β} {b : β} (h : g <$> x = .ok b) : ∃ a, x = .ok a ∧ g a = b := by
  cases x with
  | error e => cases h
  | ok a => exact ⟨a, rfl, Except.ok.inj h⟩

theorem map_eq_error {g : α → β} {e : ε} (h : g <$> x = .error e) : x = .error e := by
  cases x with
  | error e' => exact congrArg Except.error (Except.error.inj h)
  | ok a => cases h

theorem bind_eq_ok {b : β} (h : x >>= f = .ok b) : ∃ a, x = .ok a ∧ f a = .ok b := by
  cases x with
  | error e => cases h
  | ok a => exact ⟨a, rfl, h⟩

theorem bind_eq_error {e : ε} (h : x >>= f = .error e) :
    x = .error e ∨ ∃ a, x = .ok a ∧ f a = .error e := by
  cases x with
  | error e' => exact .inl (congrArg Except.error (Except.error.inj h))
  | ok a => exact .inr ⟨a, rfl, h⟩

end

namespace Action

variable {ε σ τ α β : Type}

/-! ## Properties that are kept -/

class Keeps (I : σ → Host → Prop) (x : Action ε σ α) : Prop where
  keeps : ∀ s host, I s host → I (x s host).2.1 (x s host).2.2

section

variable {I : σ → Host → Prop} {x y : Action ε σ α}

instance (a : α) : Keeps I (pure a : Action ε σ α) := ⟨fun _ _ h => h⟩

instance (e : ε) : Keeps I (fail e : Action ε σ α) := ⟨fun _ _ h => h⟩

instance : Keeps I (get : Action ε σ σ) := ⟨fun _ _ h => h⟩

instance (o : Option α) (e : ε) : Keeps I (require o e : Action ε σ α) := by
  cases o <;> exact ⟨fun _ _ h => h⟩

instance [Keeps I x] {ε' : Type} : Keeps I (outcome x : Action ε' σ (Except ε α)) :=
  ⟨fun s host h => Keeps.keeps (x := x) s host h⟩

instance [hx : Keeps I x] {f : α → Action ε σ β} [hf : ∀ a, Keeps I (f a)] :
    Keeps I (x >>= f) := by
  refine ⟨fun s host h => ?_⟩
  have h' := hx.keeps s host h
  rw [bind_apply]
  generalize x s host = r at h' ⊢
  obtain ⟨_ | a, s', host'⟩ := r
  · exact h'
  · exact (hf a).keeps s' host' h'

instance {p : Prop} [Decidable p] [Keeps I x] [Keeps I y] : Keeps I (if p then x else y) := by
  split <;> infer_instance

instance {f : β → Action ε σ α} [hf : ∀ b, Keeps I (f b)] (items : List β) :
    Keeps I (items.mapM f) := by
  induction items with
  | nil =>
    rw [List.mapM_nil]
    infer_instance
  | cons b items ih =>
    rw [List.mapM_cons]
    infer_instance

instance {f : β → Action ε σ Unit} [hf : ∀ b, Keeps I (f b)] (items : List β) :
    Keeps I (items.forM f) := by
  induction items with
  | nil => exact inferInstanceAs (Keeps I (pure () : Action ε σ Unit))
  | cons b items ih => exact inferInstanceAs (Keeps I (f b >>= fun _ => items.forM f))

instance {f : α → β → Action ε σ α} [hf : ∀ a b, Keeps I (f a b)] (items : List β) (a : α) :
    Keeps I (items.foldlM f a) := by
  induction items generalizing a with
  | nil =>
    rw [List.foldlM_nil]
    infer_instance
  | cons b items ih =>
    rw [List.foldlM_cons]
    infer_instance

theorem keeps_modify {f : σ → σ} (h : ∀ s host, I s host → I (f s) host) :
    Keeps I (modify f : Action ε σ Unit) := ⟨h⟩

end

/-- What fails at first fails for good. -/
theorem bind_apply_fst_error {x : Action ε σ α} {f : α → Action ε σ β} {s : σ} {host : Host} {e : ε}
    (hx : (x s host).1 = .error e) : ((x >>= f) s host).1 = .error e := by
  rw [bind_apply]
  generalize x s host = r at hx ⊢
  obtain ⟨e' | a, s', host'⟩ := r
  · exact congrArg Except.error (Except.error.inj hx)
  · cases hx

/-! ## What an action fails with -/

/-- Wherever the action starts, an error that it fails with has the property. -/
class Fails (E : ε → Prop) (x : Action ε σ α) : Prop where
  fails : ∀ s host e, (x s host).1 = .error e → E e

section

variable {E : ε → Prop} {x y : Action ε σ α}

instance (a : α) : Fails E (pure a : Action ε σ α) := ⟨nofun⟩

instance : Fails E (get : Action ε σ σ) := ⟨nofun⟩

instance (s : σ) : Fails E (set s : Action ε σ Unit) := ⟨nofun⟩

instance (f : σ → σ) : Fails E (modify f : Action ε σ Unit) := ⟨nofun⟩

theorem fails_fail {e : ε} (h : E e) : Fails E (fail e : Action ε σ α) :=
  ⟨fun _ _ _ heq => Except.error.inj heq ▸ h⟩

theorem fails_require {e : ε} (h : E e) (o : Option α) : Fails E (require o e : Action ε σ α) := by
  cases o with
  | none => exact fails_fail h
  | some a => exact inferInstanceAs (Fails E (pure a : Action ε σ α))

instance [hx : Fails E x] {f : α → Action ε σ β} [hf : ∀ a, Fails E (f a)] : Fails E (x >>= f) := by
  refine ⟨fun s host e h => ?_⟩
  have hfails := hx.fails s host
  rw [bind_apply] at h
  generalize x s host = r at hfails h
  obtain ⟨e' | a, s', host'⟩ := r
  · exact Except.error.inj h ▸ hfails e' rfl
  · exact (hf a).fails s' host' e h

instance {p : Prop} [Decidable p] [Fails E x] [Fails E y] : Fails E (if p then x else y) := by
  split <;> infer_instance

instance {f : β → Action ε σ α} [hf : ∀ b, Fails E (f b)] (items : List β) :
    Fails E (items.mapM f) := by
  induction items with
  | nil =>
    rw [List.mapM_nil]
    infer_instance
  | cons b items ih =>
    rw [List.mapM_cons]
    infer_instance

/-- What follows may hand on the error that is kept as an outcome. -/
theorem fails_outcome_bind {ε' : Type} {E' : ε' → Prop} {f : Except ε α → Action ε' σ β}
    (hx : Fails E x) (hok : ∀ a, Fails E' (f (.ok a))) (herror : ∀ e, E e → Fails E' (f (.error e))) :
    Fails E' (outcome x >>= f) := by
  refine ⟨fun s host e h => ?_⟩
  have hfails := hx.fails s host
  rw [bind_apply, outcome] at h
  generalize x s host = r at hfails h
  obtain ⟨e' | a, s', host'⟩ := r
  · exact (herror e' (hfails e' rfl)).fails s' host' e h
  · exact (hok a).fails s' host' e h

/-- A sequence fails with the error of one of its actions. -/
theorem exists_of_forM_error {f : β → Action ε σ Unit} (items : List β) {s : σ} {host : Host} {e : ε}
    (h : (items.forM f s host).1 = .error e) : ∃ b ∈ items, ∃ s host, (f b s host).1 = .error e := by
  induction items generalizing s host with
  | nil => cases h
  | cons b items ih =>
    change ((f b >>= fun _ => items.forM f) s host).1 = .error e at h
    rw [bind_apply] at h
    generalize hr : f b s host = r at h
    obtain ⟨e' | a, s', host'⟩ := r
    · exact ⟨b, List.mem_cons_self, s, host, by rw [hr]; exact h⟩
    · obtain ⟨b', hb', hfails⟩ := ih h
      exact ⟨b', List.mem_cons_of_mem _ hb', hfails⟩

end

/-! ## What an action succeeds with -/

theorem exists_of_bind_ok {x : Action ε σ α} {f : α → Action ε σ β} {s : σ} {host : Host} {b : β}
    (h : ((x >>= f) s host).1 = .ok b) :
    ∃ a s' host', x s host = (.ok a, s', host') ∧ (f a s' host').1 = .ok b := by
  rw [bind_apply] at h
  generalize x s host = r at h
  obtain ⟨_ | a, s', host'⟩ := r
  · cases h
  · exact ⟨a, s', host', rfl, h⟩

/-- Each item with its own result. -/
theorem forall₂_of_mapM_ok {f : β → Action ε σ α} {R : β → α → Prop}
    (hf : ∀ b s host a, (f b s host).1 = .ok a → R b a) (items : List β) {s : σ} {host : Host}
    {results : List α} (h : (items.mapM f s host).1 = .ok results) : List.Forall₂ R items results := by
  induction items generalizing s host results with
  | nil =>
    obtain rfl : [] = results := Except.ok.inj h
    exact .nil
  | cons b items ih =>
    rw [List.mapM_cons] at h
    obtain ⟨a, s', host', ha, hrest⟩ := exists_of_bind_ok h
    obtain ⟨more, s'', host'', hmore, hresults⟩ := exists_of_bind_ok hrest
    obtain rfl : a :: more = results := Except.ok.inj hresults
    exact .cons (hf b s host a (by rw [ha])) (ih (by rw [hmore]))

/-! ## Actions that do the same -/

/-- Whatever related states and hosts they start with, the two actions have the same outcome and
leave related states and hosts behind. -/
def Couples (S : σ → τ → Prop) (H : Host → Host → Prop) (x : Action ε σ α) (y : Action ε τ α) :
    Prop :=
  ∀ s t, S s t → ∀ host host', H host host' → (x s host).1 = (y t host').1 ∧
    S (x s host).2.1 (y t host').2.1 ∧ H (x s host).2.2 (y t host').2.2

namespace Couples

variable {S : σ → τ → Prop} {H : Host → Host → Prop} {x : Action ε σ α} {y : Action ε τ α}

protected theorem pure (a : α) : Couples S H (pure a : Action ε σ α) (pure a) :=
  fun _ _ hs _ _ hhost => ⟨rfl, hs, hhost⟩

protected theorem fail (e : ε) : Couples S H (fail e : Action ε σ α) (fail e) :=
  fun _ _ hs _ _ hhost => ⟨rfl, hs, hhost⟩

protected theorem require (o : Option α) (e : ε) :
    Couples S H (require o e : Action ε σ α) (require o e) := by
  cases o with
  | none => exact Couples.fail e
  | some a => exact Couples.pure a

protected theorem bind (h : Couples S H x y) {g : α → Action ε σ β} {k : α → Action ε τ β}
    (hgk : ∀ a, Couples S H (g a) (k a)) : Couples S H (x >>= g) (y >>= k) := by
  intro s t hs host host' hhost
  obtain ⟨houtcome, hafter⟩ := h s t hs host host' hhost
  rw [bind_apply, bind_apply]
  generalize x s host = r at houtcome hafter ⊢
  generalize y t host' = r' at houtcome hafter ⊢
  obtain ⟨o, r⟩ := r
  obtain ⟨o', r'⟩ := r'
  obtain rfl : o = o' := houtcome
  cases o with
  | error e => exact ⟨rfl, hafter⟩
  | ok a => exact hgk a r.1 r'.1 hafter.1 r.2 r'.2 hafter.2

/-- What follows may look at the states. -/
theorem get_bind {g : σ → Action ε σ β} {k : τ → Action ε τ β}
    (h : ∀ s t, S s t → Couples S H (g s) (k t)) : Couples S H (get >>= g) (get >>= k) :=
  fun s t hs => h s t hs s t hs

protected theorem modify {g : σ → σ} {k : τ → τ} (h : ∀ s t, S s t → S (g s) (k t)) :
    Couples S H (modify g : Action ε σ Unit) (modify k) :=
  fun s t hs _ _ hhost => ⟨rfl, h s t hs, hhost⟩

protected theorem outcome (h : Couples S H x y) {ε' : Type} :
    Couples S H (outcome x : Action ε' σ (Except ε α)) (outcome y) := by
  intro s t hs host host' hhost
  obtain ⟨houtcome, hafter⟩ := h s t hs host host' hhost
  exact ⟨congrArg Except.ok houtcome, hafter⟩

protected theorem ite {p : Prop} [Decidable p] {x' : Action ε σ α} {y' : Action ε τ α}
    (h : Couples S H x y) (h' : Couples S H x' y') :
    Couples S H (if p then x else x') (if p then y else y') := by
  split
  · exact h
  · exact h'

protected theorem mapM {g : β → Action ε σ α} {k : β → Action ε τ α}
    (h : ∀ b, Couples S H (g b) (k b)) (items : List β) :
    Couples S H (items.mapM g) (items.mapM k) := by
  induction items with
  | nil => exact Couples.pure []
  | cons b items ih =>
    rw [List.mapM_cons, List.mapM_cons]
    exact (h b).bind fun _ => ih.bind fun _ => Couples.pure _

protected theorem forM {g : β → Action ε σ Unit} {k : β → Action ε τ Unit}
    (h : ∀ b, Couples S H (g b) (k b)) (items : List β) :
    Couples S H (items.forM g) (items.forM k) := by
  induction items with
  | nil => exact Couples.pure ()
  | cons b items ih => exact (h b).bind fun _ => ih

protected theorem foldlM {g : α → β → Action ε σ α} {k : α → β → Action ε τ α}
    (h : ∀ a b, Couples S H (g a b) (k a b)) (items : List β) (a : α) :
    Couples S H (items.foldlM g a) (items.foldlM k a) := by
  induction items generalizing a with
  | nil => exact Couples.pure a
  | cons b items ih =>
    rw [List.foldlM_cons, List.foldlM_cons]
    exact (h a b).bind ih

end Couples

/-! ## Actions carried by a map of states -/

def Carries (f : σ → τ) (x : Action ε σ α) (y : Action ε τ α) : Prop :=
  ∀ s host, y (f s) host = ((x s host).1, f (x s host).2.1, (x s host).2.2)

/-- To be carried by a map is to do the same on each state and its image. -/
theorem carries_iff {f : σ → τ} {x : Action ε σ α} {y : Action ε τ α} :
    Carries f x y ↔ Couples (f · = ·) (· = ·) x y := by
  constructor
  · rintro h s _ rfl host _ rfl
    rw [h s host]
    exact ⟨rfl, rfl, rfl⟩
  · intro h s host
    obtain ⟨houtcome, hstate, hhost⟩ := h s _ rfl host _ rfl
    exact Prod.ext houtcome.symm (Prod.ext hstate.symm hhost.symm)

namespace Carries

variable {f : σ → τ} {x : Action ε σ α} {y : Action ε τ α}

protected theorem pure (f : σ → τ) (a : α) : Carries f (pure a : Action ε σ α) (pure a) :=
  carries_iff.mpr (Couples.pure a)

protected theorem fail (f : σ → τ) (e : ε) : Carries f (fail e : Action ε σ α) (fail e) :=
  carries_iff.mpr (Couples.fail e)

protected theorem require (f : σ → τ) (o : Option α) (e : ε) :
    Carries f (require o e : Action ε σ α) (require o e) :=
  carries_iff.mpr (Couples.require o e)

protected theorem bind (h : Carries f x y) {g : α → Action ε σ β} {k : α → Action ε τ β}
    (hgk : ∀ a, Carries f (g a) (k a)) : Carries f (x >>= g) (y >>= k) :=
  carries_iff.mpr ((carries_iff.mp h).bind fun a => carries_iff.mp (hgk a))

/-- What follows may look at the state. -/
theorem get_bind {g : σ → Action ε σ β} {k : τ → Action ε τ β}
    (h : ∀ s, Carries f (g s) (k (f s))) : Carries f (get >>= g) (get >>= k) :=
  fun s host => h s s host

protected theorem modify {g : σ → σ} {k : τ → τ} (h : ∀ s, k (f s) = f (g s)) :
    Carries f (modify g : Action ε σ Unit) (modify k) := by
  intro s host
  simp only [modify, h]

protected theorem outcome (h : Carries f x y) {ε' : Type} :
    Carries f (outcome x : Action ε' σ (Except ε α)) (outcome y) :=
  carries_iff.mpr (carries_iff.mp h).outcome

protected theorem ite {p : Prop} [Decidable p] {x' : Action ε σ α} {y' : Action ε τ α}
    (h : Carries f x y) (h' : Carries f x' y') :
    Carries f (if p then x else x') (if p then y else y') :=
  carries_iff.mpr ((carries_iff.mp h).ite (carries_iff.mp h'))

protected theorem forM {g : β → Action ε σ Unit} {k : β → Action ε τ Unit}
    (h : ∀ b, Carries f (g b) (k b)) (items : List β) :
    Carries f (items.forM g) (items.forM k) :=
  carries_iff.mpr (Couples.forM (fun b => carries_iff.mp (h b)) items)

end Carries

/-! ## Ending well within bounds -/

/-- From `s` the action ends with an outcome and in a state of which `Q` holds, unless the
bounds are spent. -/
def Ends (spent : σ → Prop) (x : Action ε σ α) (s : σ) (Q : Except ε α → σ → Prop) : Prop :=
  ∀ host, ¬ spent (x s host).2.1 → Q (x s host).1 (x s host).2.1

namespace Ends

variable {spent : σ → Prop} {x : Action ε σ α} {s : σ} {Q R : Except ε α → σ → Prop}

theorem mono (h : Ends spent x s Q) (hQR : ∀ o t, Q o t → R o t) : Ends spent x s R :=
  fun host hwithin => hQR _ _ (h host hwithin)

/-- What ends well unless the bounds are spent ends well unless wider bounds are. -/
theorem widen {spent' : σ → Prop} (h : Ends spent x s Q) (hspent : ∀ t, spent t → spent' t) :
    Ends spent' x s Q :=
  fun host hwithin => h host fun hs => hwithin (hspent _ hs)

/-- Whatever is left at the end was left at the start. -/
theorem of_start [hx : Keeps (fun s _ => spent s) x] (h : ¬ spent s → Ends spent x s Q) :
    Ends spent x s Q :=
  fun host hwithin => h (fun hs => hwithin (hx.keeps s host hs)) host hwithin

protected theorem pure {a : α} (h : Q (.ok a) s) : Ends spent (pure a) s Q := fun _ _ => h

protected theorem fail {e : ε} (h : Q (.error e) s) : Ends spent (fail e) s Q := fun _ _ => h

protected theorem bind {S : Except ε β → σ → Prop} {f : α → Action ε σ β}
    [hk : ∀ a, Keeps (fun s _ => spent s) (f a)] (hx : Ends spent x s Q)
    (hok : ∀ a t, Q (.ok a) t → Ends spent (f a) t S)
    (herror : ∀ e t, Q (.error e) t → S (.error e) t) : Ends spent (x >>= f) s S := by
  intro host hwithin
  have h := hx host
  rw [bind_apply] at hwithin ⊢
  generalize x s host = r at h hwithin ⊢
  obtain ⟨e | a, t, host'⟩ := r
  · exact herror e t (h hwithin)
  · have hmid : ¬ spent t := fun ht => hwithin ((hk a).keeps t host' ht)
    exact hok a t (h hmid) host' hwithin

/-- Going on after an action that does not fail. -/
theorem andThen {S : Except ε β → σ → Prop} {P : α → σ → Prop} {f : α → Action ε σ β}
    [∀ a, Keeps (fun s _ => spent s) (f a)] (hx : Ends spent x s fun o t => ∃ a, o = .ok a ∧ P a t)
    (hok : ∀ a t, P a t → Ends spent (f a) t S) : Ends spent (x >>= f) s S := by
  refine hx.bind ?_ ?_
  · rintro a t ⟨_, ⟨⟩, h⟩
    exact hok a t h
  · rintro e t ⟨_, ⟨⟩, _⟩

/-- Nothing comes after an action that fails. -/
theorem error_bind {e : ε} {P : σ → Prop} {f : α → Action ε σ β}
    [∀ a, Keeps (fun s _ => spent s) (f a)]
    (hx : Ends spent x s fun o t => o = .error e ∧ P t) :
    Ends spent (x >>= f) s fun o t => o = .error e ∧ P t := by
  refine hx.bind ?_ ?_
  · rintro a t ⟨⟨⟩, -⟩
  · rintro _ t ⟨⟨⟩, h⟩
    exact ⟨rfl, h⟩

theorem get_bind {f : σ → Action ε σ α} (h : Ends spent (f s) s Q) :
    Ends spent (get >>= f) s Q := h

theorem modify_bind {g : σ → σ} {f : Unit → Action ε σ α} (h : Ends spent (f ()) (g s) Q) :
    Ends spent (modify g >>= f) s Q := h

theorem outcome_bind {ε' : Type} {S : Except ε' β → σ → Prop} {f : Except ε α → Action ε' σ β}
    [hk : ∀ o, Keeps (fun s _ => spent s) (f o)] (hx : Ends spent x s Q)
    (hf : ∀ o t, Q o t → Ends spent (f o) t S) : Ends spent (outcome x >>= f) s S := by
  intro host hwithin
  have h := hx host
  rw [bind_apply] at hwithin ⊢
  simp only [outcome] at hwithin ⊢
  have hmid : ¬ spent (x s host).2.1 := fun ht => hwithin ((hk _).keeps _ _ ht)
  exact hf _ _ (h hmid) _ hwithin

end Ends

end Action
end LayeredSets
