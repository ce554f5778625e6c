/-!
# UTF-8

`first?` reads one character off a list of bytes. `decode` reads all of them, or reports the bytes
that could be read together with the first one that could not; `decodeLossy` always succeeds and
puts a replacement character for each maximal ill-formed part.
-/

namespace LayeredSets.Text

/-- May `byte` stand second after the leading byte `lead`? The narrowed ranges shut out overlong
forms, surrogates and everything above the last code point. -/
def isSecond (lead byte : UInt8) : Bool :=
  if lead == 0xE0 then 0xA0 ≤ byte && byte ≤ 0xBF
  else if lead == 0xED then 0x80 ≤ byte && byte ≤ 0x9F
  else if lead == 0xF0 then 0x90 ≤ byte && byte ≤ 0xBF
  else if lead == 0xF4 then 0x80 ≤ byte && byte ≤ 0x8F
  else 0x80 ≤ byte && byte ≤ 0xBF

/-- A continuation byte at the third or fourth place. -/
def isContinuation (byte : UInt8) : Bool := 0x80 ≤ byte && byte ≤ 0xBF

/-- How many bytes the character that `lead` opens takes, 0 if it opens none. -/
def sequenceLength (lead : UInt8) : Nat :=
  if lead < 0x80 then 1
  else if 0xC2 ≤ lead && lead ≤ 0xDF then 2
  else if 0xE0 ≤ lead && lead ≤ 0xEF then 3
  else if 0xF0 ≤ lead && lead ≤ 0xF4 then 4
  else 0

def payload (byte : UInt8) : Nat := byte.toNat % 64

/-- The first character of a list of bytes and the bytes after it. -/
def first? : List UInt8 → Option (Char × List UInt8)
  | [] => none
  | a :: rest =>
    match sequenceLength a, rest with
    | 1, rest => some (Char.ofNat a.toNat, rest)
    | 2, b :: rest =>
      if isSecond a b then some (Char.ofNat (a.toNat % 32 * 64 + payload b), rest) else none
    | 3, b :: c :: rest =>
      if isSecond a b && isContinuation c then
        some (Char.ofNat ((a.toNat % 16 * 64 + payload b) * 64 + payload c), rest)
      else none
    | 4, b :: c :: d :: rest =>
      if isSecond a b && isContinuation c && isContinuation d then
        some (Char.ofNat (((a.toNat % 8 * 64 + payload b) * 64 + payload c) * 64 + payload d), rest)
      else none
    | _, _ => none

theorem length_lt_of_first? {bytes rest : List UInt8} {c : Char}
    (h : first? bytes = some (c, rest)) : rest.length < bytes.length := by
  unfold first? at h
  repeat' split at h
  all_goals simp only [Option.some.injEq, Prod.mk.injEq, reduceCtorEq] at h
  all_goals
    obtain ⟨_, rfl⟩ := h
    simp only [List.length_cons]
    omega

/-- The longest readable beginning of some bytes, and the bytes after it. -/
def readable (bytes : List UInt8) : List Char × List UInt8 :=
  match _h : first? bytes with
  | none => ([], bytes)
  | some (c, rest) =>
    let (cs, left) := readable rest
    (c :: cs, left)
termination_by bytes.length
decreasing_by exact length_lt_of_first? _h

/-- Bytes that are no UTF-8: those that could be read, and the offending one behind them. -/
structure Undecodable where
  before : List UInt8
  byte : UInt8
  deriving DecidableEq, Repr

/-- The text that `bytes` encode. -/
def decode (bytes : List UInt8) : Except Undecodable (List Char) :=
  match readable bytes with
  | (cs, []) => .ok cs
  | (_, byte :: rest) => .error ⟨bytes.take (bytes.length - (rest.length + 1)), byte⟩

/-- Length of the maximal ill-formed part at the front of bytes that begin no character: the
leading byte with the continuation bytes that could still have followed it. -/
def illFormedLength (lead : UInt8) (rest : List UInt8) : Nat :=
  match sequenceLength lead, rest with
  | 3, b :: _ => if isSecond lead b then 2 else 1
  | 4, b :: c :: _ => if isSecond lead b then (if isContinuation c then 3 else 2) else 1
  | 4, b :: _ => if isSecond lead b then 2 else 1
  | _, _ => 1

theorem illFormedLength_pos (lead : UInt8) (rest : List UInt8) : 0 < illFormedLength lead rest := by
  unfold illFormedLength
  repeat' split
  all_goals omega

def replacement : Char := Char.ofNat 0xFFFD

/-- The text that `bytes` encode, with a replacement character for each ill-formed part. -/
def decodeLossy (bytes : List UInt8) : List Char :=
  match bytes with
  | [] => []
  | a :: rest =>
    match _h : first? (a :: rest) with
    | some (c, left) => c :: decodeLossy left
    | none => replacement :: decodeLossy ((a :: rest).drop (illFormedLength a rest))
termination_by bytes.length
decreasing_by
  · exact length_lt_of_first? _h
  · have := illFormedLength_pos a rest
    simp only [List.length_drop, List.length_cons]
    omega

def ofBytesLossy (bytes : ByteArray) : String := String.ofList (decodeLossy bytes.toList)

end LayeredSets.Text
