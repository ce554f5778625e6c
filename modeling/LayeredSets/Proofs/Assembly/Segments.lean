import LayeredSets.Assembly
import LayeredSets.Proofs.Invocation.Arguments
import LayeredSets.Proofs.Observer.Life

/-!
# Commands fall into segments

A segment is a backend with the decorators that come between it and the next backend. Commands that
start with a backend are one segment after the other, and each segment makes one domain: its
backend, wrapped by its decorators in turn, so that the domain has one layer for each command of the
segment. A decorator that comes first of all finds nothing to wrap.
-/

namespace LayeredSets

/-- A backend and the decorators between it and the next one. -/
structure Segment where
  base : StackCommand
  above : List StackCommand
  base_isBackend : base.entry.isBackend = true
  above_isDecorator : ∀ c ∈ above, c.entry.isBackend = false

def Segment.commands (segment : Segment) : List StackCommand := segment.base :: segment.above

namespace Entry

end Entry

/-! ## Layers -/

/-- The fresh layer that a command asks for. -/
inductive EntryKind.Lays : EntryKind → Option String → LayerView → Prop
  | explicit {value : Option String} :
    Lays (.backend .explicit) value (.explicit (.new Explicit.defaultLimit))
  | z3 {value : Option String} : Lays (.backend .z3) value (.smt (.new "z3" .z3))
  | cvc5 {value : Option String} : Lays (.backend .cvc5) value (.smt (.new "cvc5" .cvc5))
  | log {hint : Option String} {path : String} {l : Log} (hpath : l.recorder.path = path)
    (hseq : l.seq = 0) : Lays (.decorator .log hint) (some path) (.observer (.log l))
  | stats {hint value : Option String} :
    Lays (.decorator .stats hint) value (.observer (.stats (.new true)))
  | debug {hint value : Option String} :
    Lays (.decorator .debug hint) value (.observer (.debug ⟨.diagnostics, 0⟩))
  | trace {hint : Option String} {argument : String} {r : Recording}
    (htarget : RecordingTarget.parse argument = .ok ⟨r.recorder.path, r.checkMode⟩) :
    Lays (.decorator .trace hint) (some argument) (.observer (.trace r))
  | equalities {hint value : Option String} :
    Lays (.decorator .equalities hint) value (.equalities .none)
  | singleton {hint value : Option String} : Lays (.decorator .singleton hint) value .points
  | pack {hint : Option String} {argument backend : String} {size : Nat}
    (hpack : Decorator.parsePack argument = .ok (backend, size)) :
    Lays (.decorator .pack hint) (some argument) (.packed 1 backend)

def StackCommand.Lays (c : StackCommand) (layer : LayerView) : Prop :=
  c.entry.kind.Lays c.value layer

namespace StackCommand

end StackCommand

namespace Assembly

/-- Each decorator in turn wraps what those before it have made. -/
inductive Wraps : List StackCommand → Domain → Host → Domain → Host → Prop
  | done (d : Domain) (host : Host) : Wraps [] d host d host
  | wrap {c : StackCommand} {cs : List StackCommand} {decorator : Decorator} {hint : Option String}
    {d d' last : Domain} {host host' after : Host}
    (hkind : c.entry.kind = .decorator decorator hint)
    (hwrap : decorator.wrap d c.value host = (.ok d', host'))
    (hrest : Wraps cs d' (host'.report (.decoratorApplied c.entry.name d'.describe)) last after) :
    Wraps (c :: cs) d host last after

/-- Each segment makes one domain on top of the `depth` that there are: a fresh domain of its
backend, wrapped by its decorators. The domains are listed from the bottom up. -/
inductive Piles : (depth : Nat) → List Segment → Host → List Domain → Host → Prop
  | done (depth : Nat) (host : Host) : Piles depth [] host [] host
  | push {depth : Nat} {segment : Segment} {segments : List Segment} {backend : Backend}
    {d : Domain} {ds : List Domain} {host host' after : Host}
    (hkind : segment.base.entry.kind = .backend backend)
    (hwraps : Wraps segment.above backend.build
      (host.report (.backendPushed segment.base.entry.name (depth + 1))) d host')
    (hrest : Piles (depth + 1) segments host' ds after) :
    Piles depth (segment :: segments) host (d :: ds) after

/-- Every constructor that is called in a run succeeds: wherever the run comes to a decorator and
there is a domain to wrap, it is wrapped. -/
def ConstructorsSucceed (a : Assembly) (host : Host) (commands : List StackCommand) : Prop :=
  ∀ before c after, commands = before ++ c :: after →
    ∀ inner rest host', a.run host before = (.ok (), ⟨inner :: rest⟩, host') →
      ∀ decorator hint, c.entry.kind = .decorator decorator hint →
        ∃ wrapped host'', decorator.wrap inner c.value host' = (.ok wrapped, host'')

theorem run_cons_ok {a a' : Assembly} {host host' : Host} {c : StackCommand}
    (h : a.execute c host = (.ok (), a', host')) (rest : List StackCommand) :
    a.run host (c :: rest) = a'.run host' rest := by
  rw [run, h]

theorem run_append {a a' : Assembly} {host host' : Host} {before : List StackCommand}
    (h : a.run host before = (.ok (), a', host')) (rest : List StackCommand) :
    a.run host (before ++ rest) = a'.run host' rest := by
  induction before generalizing a host with
  | nil =>
    cases h
    rfl
  | cons c before ih =>
    rw [run] at h
    split at h
    · next a₁ host₁ hfirst =>
      rw [List.cons_append, run_cons_ok hfirst]
      exact ih h
    · cases h

theorem ConstructorsSucceed.tail {a a' : Assembly} {host host' : Host} {c : StackCommand}
    {rest : List StackCommand} (h : a.ConstructorsSucceed host (c :: rest))
    (hfirst : a.execute c host = (.ok (), a', host')) : a'.ConstructorsSucceed host' rest := by
  intro before d after hsplit inner below host'' hrun
  refine h (c :: before) d after (by rw [hsplit]; rfl) inner below host'' ?_
  rw [run_cons_ok hfirst, hrun]

theorem Piles.length_eq {depth : Nat} {segments : List Segment} {host after : Host}
    {domains : List Domain} (h : Piles depth segments host domains after) :
    domains.length = segments.length := by
  induction h with
  | done => rfl
  | push _ _ _ ih => exact congrArg (· + 1) ih

end Assembly
end LayeredSets
