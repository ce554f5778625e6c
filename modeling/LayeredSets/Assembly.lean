import LayeredSets.Invocation

/-!
# Assembly

A stack of domains, built by commands: a backend pushes a fresh domain, a decorator wraps the one
on top. In the end the top domain is kept and the others are disposed of from the top down, so that
their files are written before anything else happens.
-/

namespace LayeredSets

namespace Decorator

/-- Read the backend and the size of packs. -/
def parsePack (argument : String) : Except String (String × Nat) :=
  match Invocation.cutAt ':' argument.toList with
  | (name, none) => .ok (String.ofList name, 1)
  | (name, some size) =>
    let size := String.ofList size
    match (Text.unsigned? UInt64.size size).filter (0 < ·) with
    | some n => .ok (String.ofList name, n)
    | none => .error s!"invalid pack size '{size}'"

/-- Spread the variables of `inner` over packs. Only backends that need no feature can be named;
that no feature is there is reported. -/
def wrapPack (inner : Domain) (argument : String) (host : Host) : Except String Domain × Host :=
  match parsePack argument with
  | .error e => (.error e, host)
  | .ok (name, size) =>
    let host := (FeatureSet.detectionMessages fun _ => none).foldl Host.report host
    match (Registry.standard .none).lookup name with
    | none => (.error s!"unknown pack backend '{name}'", host)
    | some entry =>
      match entry.kind with
      | .backend b => (.ok (inner.pack entry.name (.ok b.build) size), host)
      | .decorator .. => (.error s!"'{name}' is a decorator, not a backend", host)

def wrapLog (inner : Domain) (path : String) (host : Host) : Except String Domain × Host :=
  let (created, host) := Log.create path host
  (created.map fun l => inner.observe (.log l), host)

def wrapTrace (inner : Domain) (argument : String) (host : Host) : Except String Domain × Host :=
  match RecordingTarget.parse argument with
  | .error e => (.error e, host)
  | .ok target =>
    let (created, host) := Recording.create target host
    (created.map fun r => inner.observe (.trace r), host)

/-- Wrap a domain, or say why that cannot be done. -/
def wrap (d : Decorator) (inner : Domain) (value : Option String) (host : Host) :
    Except String Domain × Host :=
  match d, value with
  | .log, some path => wrapLog inner path host
  | .log, none => (.error "log decorator needs a file path", host)
  | .stats, _ => (.ok (inner.observe (.stats (.new true))), host)
  | .debug, _ => (.ok (inner.observe (.debug ⟨.diagnostics, 0⟩)), host)
  | .trace, some argument => wrapTrace inner argument host
  | .trace, none => (.error "trace decorator needs a file path", host)
  | .equalities, _ => (.ok inner.rememberEqualities, host)
  | .singleton, _ => (.ok inner.withPoints, host)
  | .pack, some argument => wrapPack inner argument host
  | .pack, none => (.error "pack decorator needs a backend name", host)

end Decorator

/-- The domain that is kept, and the names of the others from the top down. -/
structure Assembled where
  domain : Domain
  discarded : List String

namespace Assembled

/-- The warning about domains that are not used, if there are any. -/
def warning? (a : Assembled) : Option String :=
  if a.discarded.isEmpty then none
  else
    let names := ", ".intercalate (a.discarded.map fun d => s!"'{d}'")
    some (s!"{a.discarded.length + 1} domain(s) left on the stack; " ++
      s!"using '{a.domain.describe}' and discarding {names}")

end Assembled

/-- The domains built so far, the top one first. -/
structure Assembly where
  stack : List Domain

namespace Assembly

def empty : Assembly := ⟨[]⟩

def depth (a : Assembly) : Nat := a.stack.length

/-- The names of the domains from the bottom up. -/
def describe (a : Assembly) : List String := a.stack.reverse.map (·.describe)

def push (a : Assembly) (name : String) (backend : Backend) (host : Host) : Assembly × Host :=
  (⟨backend.build :: a.stack⟩, host.report (.backendPushed name (a.depth + 1)))

/-- Wrap the domain on top. If that fails the domain is lost. -/
def apply (a : Assembly) (name : String) (decorator : Decorator) (value : Option String)
    (host : Host) : Except ConfigError Unit × Assembly × Host :=
  match a.stack with
  | [] => (.error (.emptyStack name), a, host)
  | inner :: rest =>
    match decorator.wrap inner value host with
    | (.error e, host) => (.error (.construction name (.backend e)), ⟨rest⟩, inner.dispose host)
    | (.ok wrapped, host) =>
      (.ok (), ⟨wrapped :: rest⟩, host.report (.decoratorApplied name wrapped.describe))

def execute (a : Assembly) (command : StackCommand) (host : Host) :
    Except ConfigError Unit × Assembly × Host :=
  match command.entry.kind with
  | .backend b =>
    let (a, host) := a.push command.entry.name b host
    (.ok (), a, host)
  | .decorator d _ => a.apply command.entry.name d command.value host

/-- Execute commands in turn, up to the first that fails. -/
def run (a : Assembly) (host : Host) :
    List StackCommand → Except ConfigError Unit × Assembly × Host
  | [] => (.ok (), a, host)
  | command :: rest =>
    match a.execute command host with
    | (.ok (), a, host) => run a host rest
    | (.error e, a, host) => (.error e, a, host)

/-- Dispose of unused domains in turn. -/
def discard (host : Host) : List Domain → Host
  | [] => host
  | d :: rest => discard (d.dispose (host.report (.domainDiscarded d.describe))) rest

/-- Keep the top domain. -/
def finish (a : Assembly) (host : Host) : Except ConfigError Assembled × Host :=
  match a.stack with
  | [] => (.error .noDomain, host)
  | domain :: others =>
    let host := discard host others
    (.ok ⟨domain, others.map (·.describe)⟩,
      host.report (.domainAssembled domain.describe others.length))

/-- Dispose of everything, from the bottom up. -/
def dispose (a : Assembly) (host : Host) : Host :=
  a.stack.reverse.foldl (fun host d => d.dispose host) host

end Assembly
end LayeredSets
