import LayeredSets.Domain.Chain

/-!
# Runs of calls

A run makes calls on a domain one after the other. What came of them is told as an onlooker sees
it, so that runs of different domains can be compared.
-/

namespace LayeredSets

/-- A call of any kind. -/
structure Request where
  {kind : Answer}
  call : Call kind

/-- The set handles that were issued, in order. -/
def issuedSets (outcomes : List Outcome) : List SetId :=
  outcomes.filterMap fun
    | .ok (.set set) => some set
    | _ => none

namespace Operations

variable {σ : Type} (ops : Operations σ)

def respond (request : Request) (s : σ) (host : Host) : Outcome × σ × Host :=
  let (outcome, s, host) := ops.step request.call s host
  (outcome.map request.kind.reply, s, host)

def run : List Request → σ → Host → List Outcome × σ × Host
  | [], s, host => ([], s, host)
  | request :: requests, s, host =>
    let (outcome, s, host) := ops.respond request s host
    let (outcomes, s, host) := run requests s host
    (outcome :: outcomes, s, host)

theorem run_cons (request : Request) (requests : List Request) (s : σ) (host : Host) :
    ops.run (request :: requests) s host =
      let first := ops.respond request s host
      let rest := ops.run requests first.2.1 first.2.2
      (first.1 :: rest.1, rest.2.1, rest.2.2) := rfl

theorem run_append (before after : List Request) (s : σ) (host : Host) :
    ops.run (before ++ after) s host =
      let first := ops.run before s host
      let rest := ops.run after first.2.1 first.2.2
      (first.1 ++ rest.1, rest.2.1, rest.2.2) := by
  induction before generalizing s host with
  | nil => rfl
  | cons request before ih =>
    simp only [List.cons_append, run_cons, ih]

@[simp] theorem length_run (requests : List Request) (s : σ) (host : Host) :
    (ops.run requests s host).1.length = requests.length := by
  induction requests generalizing s host with
  | nil => rfl
  | cons request requests ih => exact congrArg (· + 1) (ih _ _)

/-- The first outcomes are those of the first calls. -/
theorem run_take (requests : List Request) (n : Nat) (s : σ) (host : Host) :
    (ops.run (requests.take n) s host).1 = (ops.run requests s host).1.take n := by
  induction requests generalizing n s host with
  | nil => cases n <;> rfl
  | cons request requests ih =>
    cases n with
    | zero => rfl
    | succ n =>
      simp only [List.take_succ_cons, run_cons]
      exact congrArg (_ :: ·) (ih n _ _)

/-- Each call is made in the state that the calls before it have led to. -/
theorem getElem?_run (requests : List Request) {i : Nat} (hi : i < requests.length) (s : σ)
    (host : Host) :
    let before := ops.run (requests.take i) s host
    (ops.run requests s host).1[i]? =
      some (ops.respond requests[i] before.2.1 before.2.2).1 := by
  induction requests generalizing i s host with
  | nil => cases hi
  | cons request requests ih =>
    cases i with
    | zero => rfl
    | succ i => exact ih (Nat.lt_of_succ_lt_succ hi) _ _

end Operations

namespace Domain

/-- Make calls on a domain, whatever it is made of. -/
def run (d : Domain) (requests : List Request) (host : Host) : List Outcome × Domain × Host :=
  let (outcomes, state, host) := d.shape.operations.run requests d.state host
  (outcomes, ⟨d.shape, state⟩, host)

end Domain

@[simp] theorem issuedSets_nil : issuedSets [] = [] := rfl

@[simp] theorem issuedSets_append (before after : List Outcome) :
    issuedSets (before ++ after) = issuedSets before ++ issuedSets after :=
  List.filterMap_append

end LayeredSets
