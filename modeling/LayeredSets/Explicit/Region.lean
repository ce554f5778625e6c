/-!
# Regions

A set of bit sequences as a decision tree: a leaf holds all sequences or none, a split looks at
the next bit. Sequences may be longer than the tree is deep, so a region over some bits is at the
same time its own cylinder over any further bits. No split has two equal leaves below it, and a
set then has only one tree.
-/

namespace LayeredSets

inductive Region
  | leaf (all : Bool)
  | split (low high : Region)
  deriving DecidableEq, Repr

namespace Region

/-- Does the region hold the sequence? Bits that are missing count as zeros. -/
def has : Region → List Bool → Bool
  | leaf all, _ => all
  | split low _, [] => low.has []
  | split low high, bit :: bits => if bit then high.has bits else low.has bits

def empty : Region := leaf false

def full : Region := leaf true

/-- The part whose first bit is 0, without that bit. -/
def low : Region → Region
  | leaf all => leaf all
  | split low _ => low

/-- The part whose first bit is 1, without that bit. -/
def high : Region → Region
  | leaf all => leaf all
  | split _ high => high

/-- A split, unless both parts are the same leaf. -/
def node : Region → Region → Region
  | leaf a, leaf b => if a = b then leaf a else split (leaf a) (leaf b)
  | low, high => split low high

/-- Change the verdict on every sequence by `f`. -/
def map (f : Bool → Bool) : Region → Region
  | leaf all => leaf (f all)
  | split low high => node (low.map f) (high.map f)

/-- Combine the verdicts of two regions by `f`. -/
def combine (f : Bool → Bool → Bool) : Region → Region → Region
  | leaf all, r => r.map (f all)
  | split low high, r => node (combine f low r.low) (combine f high r.high)

def union : Region → Region → Region := combine (· || ·)

def inter : Region → Region → Region := combine (· && ·)

def diff : Region → Region → Region := combine fun a b => a && !b

def compl : Region → Region := map (!·)

/-- The sequences that spell `value` in their first `width` bits, highest first, and go on in
`rest`. -/
def exact (value : Nat) (rest : Region) : Nat → Region
  | 0 => rest
  | width + 1 =>
    if value.testBit width then node empty (exact value rest width)
    else node (exact value rest width) empty

/-- The sequences that go on in `rest` after any `count` bits. -/
def skip (rest : Region) : Nat → Region
  | 0 => rest
  | count + 1 =>
    let r := skip rest count
    node r r

/-- The sequences that spell the same number in `width` bits twice, with `gap` bits between, once
all but the first `count` bits of that number are known to be `known`. -/
def agree (width gap : Nat) : Nat → Nat → Region
  | 0, known => skip (exact known full width) gap
  | count + 1, known =>
    node (agree width gap count (2 * known)) (agree width gap count (2 * known + 1))

/-- Make the region indifferent to its first `width` bits. -/
def forget : Nat → Region → Region
  | 0, r => r
  | _ + 1, leaf all => leaf all
  | width + 1, split low high =>
    let r := forget width (union low high)
    node r r

/-- Make the region indifferent to the `width` bits after the first `offset`. -/
def forgetAt (width : Nat) : Nat → Region → Region
  | 0, r => forget width r
  | _ + 1, leaf all => leaf all
  | offset + 1, split low high => node (forgetAt width offset low) (forgetAt width offset high)

/-- How many sequences of `bits` bits the region holds. -/
def card : Nat → Region → Nat
  | bits, leaf all => if all then 2 ^ bits else 0
  | bits, split low high => card (bits - 1) low + card (bits - 1) high

@[simp] theorem has_low (r : Region) (bits : List Bool) :
    r.low.has bits = r.has (false :: bits) := by
  cases r <;> rfl

@[simp] theorem has_high (r : Region) (bits : List Bool) :
    r.high.has bits = r.has (true :: bits) := by
  cases r <;> rfl

@[simp] theorem has_node (low high : Region) (bits : List Bool) :
    (node low high).has bits = (split low high).has bits := by
  unfold node
  split
  · split
    · rename_i a b h
      subst h
      rcases bits with _ | ⟨bit, bits⟩ <;> simp [has]
    · rfl
  · rfl

@[simp] theorem has_map (f : Bool → Bool) (r : Region) (bits : List Bool) :
    (r.map f).has bits = f (r.has bits) := by
  induction r generalizing bits with
  | leaf => rfl
  | split low high ihl ihh =>
    rcases bits with _ | ⟨bit, bits⟩
    · simp [map, has, ihl]
    · cases bit <;> simp [map, has, ihl, ihh]

theorem has_nil_low (r : Region) : r.low.has [] = r.has [] := by cases r <;> rfl

@[simp] theorem has_combine (f : Bool → Bool → Bool) (r s : Region) (bits : List Bool) :
    (combine f r s).has bits = f (r.has bits) (s.has bits) := by
  induction r generalizing s bits with
  | leaf => simp [combine, has]
  | split low high ihl ihh =>
    rcases bits with _ | ⟨bit, bits⟩
    · simp only [combine, has_node, has, ihl, has_nil_low]
    · cases bit <;> simp [combine, has, ihl, ihh]

end Region
end LayeredSets
