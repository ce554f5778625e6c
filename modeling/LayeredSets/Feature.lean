import LayeredSets.Message
import LayeredSets.Version.Basic

/-!
# Optional backends

A backend that hands its questions to a solver is offered only if the solver's package is
installed at a version that is recent enough.
-/

namespace LayeredSets

inductive Feature
  | z3
  | cvc5
  deriving DecidableEq, Repr

namespace Feature

def all : List Feature := [.z3, .cvc5]

def package : Feature → String
  | z3 => "z3"
  | cvc5 => "cvc5"

/-- The oldest version that will do. -/
def minimum : Feature → String
  | z3 => "4.8.0"
  | cvc5 => "1.0.0"

def ofPackage? (package : String) : Option Feature := all.find? (·.package == package)

/-- The name of the feature as an identifier. -/
def label : Feature → String
  | z3 => "Z3"
  | cvc5 => "Cvc5"

/-- Is a package that reports the version `found` recent enough for the feature? -/
def accepts (feature : Feature) (found : String) : Bool := Version.isAtLeast found feature.minimum

end Feature

/-- The enabled features, each with the version that enabled it. -/
structure FeatureSet where
  versionOf : Feature → Option String

namespace FeatureSet

def none : FeatureSet := ⟨fun _ => .none⟩

def isEnabled (features : FeatureSet) (feature : Feature) : Bool :=
  (features.versionOf feature).isSome

/-- Enable `feature` whatever is installed. -/
def force (features : FeatureSet) (feature : Feature) : FeatureSet :=
  ⟨fun f =>
    if f = feature then (features.versionOf f).or (some feature.minimum)
    else features.versionOf f⟩

/-- The enabled features in order, with their versions. -/
def toList (features : FeatureSet) : List (Feature × String) :=
  Feature.all.filterMap fun f => (features.versionOf f).map (f, ·)

def forcePackages (features : FeatureSet) (packages : List String) : FeatureSet :=
  (packages.filterMap Feature.ofPackage?).foldl force features

/-- The features whose installed version is recent enough. -/
def detect (installed : String → Option String) : FeatureSet :=
  ⟨fun f => (installed f.package).filter f.accepts⟩

/-- What is reported about one feature while features are detected. -/
def detectionMessage (installed : String → Option String) (feature : Feature) : Message :=
  match installed feature.package with
  | some found =>
    if feature.accepts found then .featureEnabled feature.package found
    else .featureDisabled feature.package (some found) feature.minimum
  | .none => .featureDisabled feature.package .none feature.minimum

def detectionMessages (installed : String → Option String) : List Message :=
  Feature.all.map (detectionMessage installed)

end FeatureSet
end LayeredSets
