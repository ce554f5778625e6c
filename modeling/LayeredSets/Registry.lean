import LayeredSets.Domain.Chain
import LayeredSets.Feature
import LayeredSets.Text.Printable

/-!
# The registry

The backends and decorators by name. A backend makes a fresh domain, a decorator wraps one. An entry
that depends on a feature is there only if that feature is enabled; without it, its name is as
unknown as any other.
-/

namespace LayeredSets

inductive Backend
  | explicit
  | z3
  | cvc5
  deriving DecidableEq, Repr

/-- A fresh domain. -/
def Backend.build : Backend → Domain
  | explicit => .explicit Explicit.defaultLimit
  | z3 => .smt "z3" .z3
  | cvc5 => .smt "cvc5" .cvc5

inductive Decorator
  | log
  | stats
  | debug
  | trace
  | equalities
  | singleton
  | pack
  deriving DecidableEq, Repr

inductive EntryKind
  | backend (backend : Backend)
  /-- `hint` stands for the value in the usage text, if the decorator takes one. -/
  | decorator (decorator : Decorator) (hint : Option String)
  deriving DecidableEq, Repr

structure Entry where
  name : String
  summary : String
  kind : EntryKind
  /-- The entry is there only if this feature is enabled. -/
  gate : Option Feature
  deriving DecidableEq, Repr

namespace Entry

def isBackend (e : Entry) : Bool :=
  match e.kind with
  | .backend _ => true
  | .decorator .. => false

def takesValue (e : Entry) : Bool :=
  match e.kind with
  | .decorator _ (some _) => true
  | _ => false

/-- How the option is written. -/
def usage (e : Entry) : String :=
  match e.kind with
  | .decorator _ (some hint) => s!"--{e.name} {hint}"
  | _ => s!"--{e.name}"

/-- How an entry is shown. -/
def text (e : Entry) : String :=
  let gate := match e.gate with
    | some f => s!"Some({f.label})"
    | none => "None"
  s!"RegistryEntry \x7b name: {Text.quoted e.name}, backend: {e.isBackend}, gate: {gate} \x7d"

end Entry

structure Registry where
  entries : List Entry
  deriving DecidableEq, Repr

namespace Registry

/-- Every entry there is, in the order of the usage text. -/
def allEntries : List Entry :=
  [⟨"explicit", "enumerate valuations explicitly (small universes only)", .backend .explicit, none⟩,
   ⟨"z3", "encode sets as SMT-LIB formulas decided by z3", .backend .z3, some .z3⟩,
   ⟨"cvc5", "encode sets as SMT-LIB formulas decided by cvc5", .backend .cvc5, some .cvc5⟩,
   ⟨"log", "write every interaction to a JSON lines file", .decorator .log (some "<path>"), none⟩,
   ⟨"stats", "count operations and print a summary at exit", .decorator .stats none, none⟩,
   ⟨"debug", "print every interaction to stderr", .decorator .debug none, none⟩,
   ⟨"trace", "record a replayable trace; a leading '+' also records answers to check",
    .decorator .trace (some "<[+]path>"), none⟩,
   ⟨"equalities", "remember sets proven equal and answer repeat queries directly",
    .decorator .equalities none, none⟩,
   ⟨"singleton", "provide point sets for backends without them", .decorator .singleton none, none⟩,
   ⟨"pack", "split variables into groups, each in its own instance of the named backend",
    .decorator .pack (some "<backend>[:size]"), none⟩]

/-- The entries whose features are enabled. -/
def ofEntries (entries : List Entry) (features : FeatureSet) : Registry :=
  ⟨entries.filter (·.gate.all features.isEnabled)⟩

def standard (features : FeatureSet) : Registry := ofEntries allEntries features

/-- The first entry of that name. -/
def lookup (r : Registry) (name : String) : Option Entry := r.entries.find? (·.name == name)

def usageWidth (r : Registry) : Nat := (r.entries.map (·.usage.utf8ByteSize)).foldl max 0

/-- The lines of the usage text for some entries under a heading. -/
def usageSection (width : Nat) (heading : String) (entries : List Entry) : List String :=
  ["", heading] ++ entries.map fun e => s!"  {Text.padEnd width e.usage}  {e.summary}"

def usage (r : Registry) (program : String) : String :=
  let lines := [s!"usage: {program} [OPTIONS...] [INPUT]"] ++
    usageSection r.usageWidth "Backends (push a new domain):" (r.entries.filter (·.isBackend)) ++
    usageSection r.usageWidth "Decorators (wrap the domain on top of the stack):"
      (r.entries.filter (!·.isBackend)) ++
    ["", "Options are applied left to right; words in $SETSTACK_ARGS are appended.",
      "INPUT ending in '.strace' is replayed as a trace, anything else is",
      "read as a script. Without INPUT a script is read from stdin."]
  String.join (lines.map (· ++ "\n"))

end Registry
end LayeredSets
