import LayeredSets.Host.Basic

/-!
# Actions

An action reads and changes a state and the host, and ends with a value or with an error. An
error does not undo what was done before it.
-/

namespace LayeredSets

def Action (ε σ α : Type) : Type := σ → Host → Except ε α × σ × Host

namespace Action

variable {ε ε' σ τ α β : Type}

protected def pure (a : α) : Action ε σ α := fun s h => (.ok a, s, h)

/-- Go on with `f` unless `x` failed. -/
protected def bind (x : Action ε σ α) (f : α → Action ε σ β) : Action ε σ β := fun s h =>
  match x s h with
  | (.ok a, s, h) => f a s h
  | (.error e, s, h) => (.error e, s, h)

instance : Monad (Action ε σ) where
  pure := Action.pure
  bind := Action.bind

@[simp] theorem pure_apply (a : α) (s : σ) (h : Host) :
    (pure a : Action ε σ α) s h = (.ok a, s, h) := rfl

theorem bind_apply (x : Action ε σ α) (f : α → Action ε σ β) (s : σ) (h : Host) :
    (x >>= f) s h = match x s h with
      | (.ok a, s, h) => f a s h
      | (.error e, s, h) => (.error e, s, h) := rfl

theorem bind_apply_ok {x : Action ε σ α} {f : α → Action ε σ β} {s s' : σ} {h h' : Host} {a : α}
    (hx : x s h = (.ok a, s', h')) : (x >>= f) s h = f a s' h' := by
  rw [bind_apply, hx]

theorem bind_apply_error {x : Action ε σ α} {f : α → Action ε σ β} {s s' : σ} {h h' : Host}
    {e : ε} (hx : x s h = (.error e, s', h')) : (x >>= f) s h = (.error e, s', h') := by
  rw [bind_apply, hx]

theorem bind_pure_id (x : Action ε σ α) : (do let a ← x; pure (id a)) = x := by
  funext s h
  rw [bind_apply]
  rcases x s h with ⟨_ | _, _, _⟩ <;> rfl

theorem bind_bind (x : Action ε σ α) (f : α → Action ε σ β) (g : β → Action ε σ τ) :
    x >>= f >>= g = x >>= fun a => f a >>= g := by
  funext s h
  simp only [bind_apply]
  rcases x s h with ⟨_ | _, _, _⟩ <;> rfl

instance : LawfulMonad (Action ε σ) :=
  LawfulMonad.mk' (Action ε σ) bind_pure_id (fun _ _ => rfl) bind_bind

def fail (e : ε) : Action ε σ α := fun s h => (.error e, s, h)

def get : Action ε σ σ := fun s h => (.ok s, s, h)

def set (s : σ) : Action ε σ Unit := fun _ h => (.ok (), s, h)

def modify (f : σ → σ) : Action ε σ Unit := fun s h => (.ok (), f s, h)

/-- Act on the host alone. -/
def onHost (f : Host → α × Host) : Action ε σ α := fun s h =>
  let (a, h) := f h
  (.ok a, s, h)

def report (message : Message) : Action ε σ Unit := onHost fun h => ((), h.report message)

/-- A result that is already there. -/
def ofExcept : Except ε α → Action ε σ α
  | .ok a => pure a
  | .error e => fail e

/-- The value of an option, or the error `e` in its place. -/
def require (o : Option α) (e : ε) : Action ε σ α :=
  match o with
  | some a => pure a
  | none => fail e

/-- Run an action to its end and hand on its outcome, failed or not. -/
def outcome (x : Action ε σ α) : Action ε' σ (Except ε α) := fun s h =>
  let (r, s, h) := x s h
  (.ok r, s, h)

def mapError (f : ε → ε') (x : Action ε σ α) : Action ε' σ α := fun s h =>
  let (r, s, h) := x s h
  (r.mapError f, s, h)

/-- Run an action on a part of the state. -/
def within (part : σ → τ) (restore : σ → τ → σ) (x : Action ε τ α) : Action ε σ α := fun s h =>
  let (r, t, h) := x (part s) h
  (r, restore s t, h)

end Action
end LayeredSets
