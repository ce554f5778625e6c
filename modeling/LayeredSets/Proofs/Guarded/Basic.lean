import LayeredSets.Proofs.Tap

/-!
# Guarded calls

A shift of a word by its width or more, a position behind the end of a list and a counter that
leaves its word are mistakes that stop a program where it stands. A guard comes right before such a
step and looks for the mistake. A domain whose calls are written out with their guards runs as far
as none of them stops it; if it runs like the domain without guards, then no mistake is ever made.
-/

namespace LayeredSets

/-- What stops a program where it stands. -/
inductive Mistake
  /-- A word is shifted by its width or more. -/
  | shift
  /-- There is nothing at a position. -/
  | position
  /-- A counter does not fit into its word. -/
  | counter
  deriving DecidableEq, Repr

/-- Why a guarded action ends without a value. -/
inductive Halt
  | mistake (mistake : Mistake)
  | error (e : DomainError)
  deriving DecidableEq, Repr

/-! ## Guards -/

namespace Guard

variable {α : Type}

/-- Words have 64 bits. -/
def shift (amount : UInt32) : Except Halt Unit :=
  if amount.toNat < 64 then .ok () else .error (.mistake .shift)

/-- What a list has at a position. -/
def item (items : List α) (index : Nat) : Except Halt α :=
  match items[index]? with
  | some a => .ok a
  | none => .error (.mistake .position)

def add (a b : UInt32) : Except Halt UInt32 :=
  if a.toNat + b.toNat < 2 ^ 32 then .ok (a + b) else .error (.mistake .counter)

def sub (a b : UInt32) : Except Halt UInt32 :=
  if b.toNat ≤ a.toNat then .ok (a - b) else .error (.mistake .counter)

/-- The number after `n`. The lengths of lists have 64 bits. -/
def succ (n : Nat) : Except Halt Nat :=
  if n + 1 < 2 ^ 64 then .ok (n + 1) else .error (.mistake .counter)

/-- The number before `n`. -/
def pred (n : Nat) : Except Halt Nat :=
  if 0 < n then .ok (n - 1) else .error (.mistake .counter)

theorem shift_eq {amount : UInt32} (h : amount.toNat ≤ 63) : shift amount = .ok () :=
  if_pos (Nat.lt_succ_of_le h)

theorem item_of_getElem? {items : List α} {index : Nat} {a : α} (h : items[index]? = some a) :
    item items index = .ok a := by
  rw [item, h]

theorem item_eq {items : List α} {index : Nat} (h : index < items.length) :
    item items index = .ok items[index] :=
  item_of_getElem? (List.getElem?_eq_getElem h)

theorem add_eq {a b : UInt32} (h : a.toNat + b.toNat < 2 ^ 32) : add a b = .ok (a + b) := if_pos h

theorem succ_eq {n : Nat} (h : n + 1 < 2 ^ 64) : succ n = .ok (n + 1) := if_pos h

theorem pred_eq {n : Nat} (h : 0 < n) : pred n = .ok (n - 1) := if_pos h

/-- The handle of the last of `n + 1` variables. -/
theorem sub_one_eq {n : Nat} (h : n + 1 < 2 ^ 32) :
    sub (UInt32.ofNat (n + 1)) 1 = .ok (UInt32.ofNat n) := by
  have hone : (1 : UInt32).toNat ≤ (UInt32.ofNat (n + 1)).toNat := by
    rw [UInt32.toNat_ofNat_of_lt' h]
    exact Nat.succ_le_succ (Nat.zero_le n)
  rw [sub, if_pos hone, UInt32.ofNat_add]
  exact congrArg Except.ok (UInt32.add_sub_cancel _ _)

end Guard

/-! ## Runs -/

/-- How many variables were declared. -/
def declaredVars (outcomes : List Outcome) : Nat :=
  outcomes.countP fun
    | .ok (.var _) => true
    | _ => false

/-- Not all handles were used up. -/
structure Few (outcomes : List Outcome) : Prop where
  sets : (issuedSets outcomes).length < 2 ^ 32
  vars : declaredVars outcomes < 2 ^ 32

theorem declaredVars_append (as bs : List Outcome) :
    declaredVars (as ++ bs) = declaredVars as + declaredVars bs := List.countP_append

theorem Few.of_append {as bs : List Outcome} (h : Few (as ++ bs)) : Few as where
  sets := by
    have hsets := h.sets
    rw [issuedSets_append, List.length_append] at hsets
    exact (Nat.le_add_right _ _).trans_lt hsets
  vars := by
    have hvars := h.vars
    rw [declaredVars_append] at hvars
    exact (Nat.le_add_right _ _).trans_lt hvars

namespace Guarded

variable {σ α β : Type}

/-- An action without guards. -/
abbrev plain (x : Act σ α) : Action Halt σ α := x.mapError Halt.error

theorem plain_apply (x : Act σ α) (s : σ) (host : Host) :
    plain x s host = ((x s host).1.mapError .error, (x s host).2.1, (x s host).2.2) := rfl

theorem plain_of_error {x : Act σ α} {s t : σ} {host host' : Host} {e : DomainError}
    (hx : x s host = (.error e, t, host')) : plain x s host = (.error (.error e), t, host') := by
  rw [plain_apply, hx]
  rfl

theorem plain_of_ok {x : Act σ α} {s t : σ} {host host' : Host} {a : α}
    (hx : x s host = (.ok a, t, host')) : plain x s host = (.ok a, t, host') := by
  rw [plain_apply, hx]
  rfl

theorem plain_bind (x : Act σ α) (f : α → Act σ β) :
    plain (x >>= f) = plain x >>= fun a => plain (f a) := by
  funext s host
  rcases hx : x s host with ⟨e | a, t, host'⟩
  · rw [Action.bind_apply_error (plain_of_error hx), plain_of_error (Action.bind_apply_error hx)]
  · rw [Action.bind_apply_ok (plain_of_ok hx), plain_apply, Action.bind_apply_ok hx, plain_apply]

/-- A guard that lets pass does nothing. -/
theorem guard_bind {z : Except Halt α} {a : α} (hz : z = .ok a) (f : α → Action Halt σ β) :
    (Action.ofExcept z >>= f) = f a := by
  rw [hz]
  rfl

/-- The calls of a domain, with their guards. -/
abbrev Step (σ : Type) : Type := {k : Answer} → Call k → Action Halt σ k.Value

def respond (step : Step σ) (request : Request) (s : σ) (host : Host) :
    Except Mistake (Outcome × σ × Host) :=
  match step request.call s host with
  | (.ok value, s, host) => .ok (.ok (request.kind.reply value), s, host)
  | (.error (.error e), s, host) => .ok (.error e, s, host)
  | (.error (.mistake mistake), _, _) => .error mistake

/-- Make the calls one after the other, as far as no guard stops them. -/
def run (step : Step σ) : List Request → σ → Host → Except Mistake (List Outcome × σ × Host)
  | [], s, host => .ok ([], s, host)
  | request :: requests, s, host => do
    let (outcome, s, host) ← respond step request s host
    let (outcomes, s, host) ← run step requests s host
    return (outcome :: outcomes, s, host)

theorem respond_eq {ops : Operations σ} {step : Step σ} {request : Request} {s : σ} {host : Host}
    (h : step request.call s host = plain (ops.step request.call) s host) :
    respond step request s host = .ok (ops.respond request s host) := by
  rw [respond, h, plain, Action.mapError, Operations.respond]
  rcases ops.step request.call s host with ⟨_ | _, _, _⟩ <;> rfl

/-- If the guards let every call pass that leaves some handles unused, they let a run pass that
does. -/
theorem run_eq {ops : Operations σ} {step : Step σ} {Good : List Outcome → σ → Prop}
    (hstep : ∀ past s request host, Good past s →
      Few (past ++ [(ops.respond request s host).1]) →
        step request.call s host = plain (ops.step request.call) s host ∧
        Good (past ++ [(ops.respond request s host).1]) (ops.respond request s host).2.1)
    (requests : List Request) {past : List Outcome} {s : σ} (hs : Good past s) (host : Host)
    (hfew : Few (past ++ (ops.run requests s host).1)) :
    run step requests s host = .ok (ops.run requests s host) := by
  induction requests generalizing past s host with
  | nil => rfl
  | cons request requests ih =>
    rw [Operations.run_cons, List.append_cons] at hfew
    obtain ⟨hpasses, hgood⟩ := hstep past s request host hs hfew.of_append
    rw [run, respond_eq hpasses, Operations.run_cons]
    simp only [bind, Except.bind, ih hgood _ hfew]
    rfl

end Guarded
end LayeredSets
