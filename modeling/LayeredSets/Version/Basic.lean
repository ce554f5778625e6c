import LayeredSets.Text.Blank
import LayeredSets.Text.Numeral

/-!
# Versions

Dotted version numbers. Components compare as numbers from left to right and a missing component
counts as zero, so `1.2` and `1.2.0.0` agree.

The version in what a program prints when asked for it is the first word that begins with a digit
once the letters `v` and `V` in front of it are dropped.
-/

namespace LayeredSets

structure Version where
  components : List UInt64
  deriving DecidableEq, Repr

namespace Version

/-- One component. Whatever is no number below `2 ^ 64` counts as zero. -/
def parseComponent (text : String) : UInt64 :=
  UInt64.ofNat ((Text.unsigned? UInt64.size (Text.trim text)).getD 0)

/-- Reading never fails: there is always at least one component. -/
def parse (text : String) : Version :=
  ⟨(Text.pieces (Text.trim text) '.').map parseComponent⟩

/-- The component at `index`, zero when absent. -/
def component (v : Version) (index : Nat) : UInt64 := v.components.getD index 0

def compareComponents : List UInt64 → List UInt64 → Ordering
  | [], [] => .eq
  | a :: as, [] => (compare a 0).then (compareComponents as [])
  | [], b :: bs => (compare 0 b).then (compareComponents [] bs)
  | a :: as, b :: bs => (compare a b).then (compareComponents as bs)

def cmp (v w : Version) : Ordering := compareComponents v.components w.components

def text (v : Version) : String := ".".intercalate (v.components.map toString)

/-- Is the version that `installed` spells at or above the one that `minimum` spells? -/
def isAtLeast (installed minimum : String) : Bool := (parse installed).cmp (parse minimum) != .lt

/-! ## Banners -/

/-- The digits and dots at the front of a word, without closing dots. -/
def ofWord? (word : String) : Option String :=
  match word.toList.dropWhile fun c => c == 'v' || c == 'V' with
  | [] => none
  | c :: rest =>
    if c.isDigit then
      let dotted := (c :: rest).takeWhile fun c => c.isDigit || c == '.'
      some (String.ofList (dotted.reverse.dropWhile (· == '.')).reverse)
    else none

def ofBanner? (banner : String) : Option String := (Text.words banner).findSome? ofWord?

end Version
end LayeredSets
