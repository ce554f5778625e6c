import LayeredSets.Text.Utf8
import Mathlib.Tactic

/-!
# UTF-8 and its reader

The bytes that encode a character are read as that character, and no other bytes are. So bytes are
read up to the end of the longest text that they begin with, which is all of them exactly if they
are UTF-8.
-/

namespace LayeredSets.Text

open String (utf8EncodeChar)

/-- The bytes of a text. -/
def encode (text : List Char) : List UInt8 := text.flatMap utf8EncodeChar

@[simp] theorem encode_nil : encode [] = [] := rfl

@[simp] theorem encode_cons (c : Char) (text : List Char) :
    encode (c :: text) = utf8EncodeChar c ++ encode text := rfl

@[simp] theorem encode_append (text more : List Char) :
    encode (text ++ more) = encode text ++ encode more := List.flatMap_append

theorem toByteArray_encode (text : List Char) : (encode text).toByteArray = text.utf8Encode := rfl

theorem encode_eq_iff {text : List Char} {bytes : List UInt8} :
    bytes = encode text ↔ bytes.toByteArray = text.utf8Encode := by
  rw [← toByteArray_encode]
  exact ⟨congrArg List.toByteArray, fun h => by simpa using congrArg (·.data.toList) h⟩

/-! ## The codes of sequences -/

theorem sequenceLength_iff (a : UInt8) :
    (sequenceLength a = 1 ↔ a.toNat ≤ 0x7F) ∧
      (sequenceLength a = 2 ↔ 0xC2 ≤ a.toNat ∧ a.toNat ≤ 0xDF) ∧
      (sequenceLength a = 3 ↔ 0xE0 ≤ a.toNat ∧ a.toNat ≤ 0xEF) ∧
      (sequenceLength a = 4 ↔ 0xF0 ≤ a.toNat ∧ a.toNat ≤ 0xF4) := by
  simp only [sequenceLength, UInt8.lt_iff_toNat_lt, UInt8.le_iff_toNat_le]
  split_ifs <;> simp_all <;> omega

theorem isContinuation_iff {b : UInt8} :
    isContinuation b = true ↔ 0x80 ≤ b.toNat ∧ b.toNat ≤ 0xBF := by
  simp [isContinuation, UInt8.le_iff_toNat_le]

theorem isSecond_iff {a b : UInt8} :
    isSecond a b = true ↔ 0x80 ≤ b.toNat ∧ b.toNat ≤ 0xBF ∧ (a.toNat = 0xE0 → 0xA0 ≤ b.toNat) ∧
      (a.toNat = 0xED → b.toNat ≤ 0x9F) ∧ (a.toNat = 0xF0 → 0x90 ≤ b.toNat) ∧
      (a.toNat = 0xF4 → b.toNat ≤ 0x8F) := by
  simp only [isSecond, beq_iff_eq, ← UInt8.toNat_inj, UInt8.le_iff_toNat_le]
  split_ifs <;> simp_all <;> omega

/-- Bytes that are read as one character, and the code that they have. -/
inductive Sequence : List UInt8 → Nat → Prop
  | one {a : UInt8} (ha : sequenceLength a = 1) : Sequence [a] a.toNat
  | two {a b : UInt8} (ha : sequenceLength a = 2) (hb : isSecond a b = true) :
    Sequence [a, b] (a.toNat % 32 * 64 + payload b)
  | three {a b c : UInt8} (ha : sequenceLength a = 3) (hb : isSecond a b = true)
    (hc : isContinuation c = true) :
    Sequence [a, b, c] ((a.toNat % 16 * 64 + payload b) * 64 + payload c)
  | four {a b c d : UInt8} (ha : sequenceLength a = 4) (hb : isSecond a b = true)
    (hc : isContinuation c = true) (hd : isContinuation d = true) :
    Sequence [a, b, c, d] (((a.toNat % 8 * 64 + payload b) * 64 + payload c) * 64 + payload d)

theorem Sequence.first {bytes : List UInt8} {n : Nat} (h : Sequence bytes n) (rest : List UInt8) :
    first? (bytes ++ rest) = some (Char.ofNat n, rest) := by
  cases h with
  | one ha => simp [first?, ha]
  | two ha hb => simp [first?, ha, hb]
  | three ha hb hc => simp [first?, ha, hb, hc]
  | four ha hb hc hd => simp [first?, ha, hb, hc, hd]

theorem exists_sequence {bytes rest : List UInt8} {c : Char} (h : first? bytes = some (c, rest)) :
    ∃ front n, Sequence front n ∧ c = Char.ofNat n ∧ bytes = front ++ rest := by
  unfold first? at h
  split at h
  · cases h
  split at h
  · next ha =>
    obtain ⟨rfl, rfl⟩ := Prod.mk.inj (Option.some.inj h)
    exact ⟨_, _, .one ha, rfl, rfl⟩
  · next ha =>
    split at h
    · next hb =>
      obtain ⟨rfl, rfl⟩ := Prod.mk.inj (Option.some.inj h)
      exact ⟨_, _, .two ha hb, rfl, rfl⟩
    · cases h
  · next ha =>
    split at h
    · next hbc =>
      obtain ⟨hb, hc⟩ := Bool.and_eq_true_iff.mp hbc
      obtain ⟨rfl, rfl⟩ := Prod.mk.inj (Option.some.inj h)
      exact ⟨_, _, .three ha hb hc, rfl, rfl⟩
    · cases h
  · next ha =>
    split at h
    · next hbcd =>
      obtain ⟨hbc, hd⟩ := Bool.and_eq_true_iff.mp hbcd
      obtain ⟨hb, hc⟩ := Bool.and_eq_true_iff.mp hbc
      obtain ⟨rfl, rfl⟩ := Prod.mk.inj (Option.some.inj h)
      exact ⟨_, _, .four ha hb hc hd, rfl, rfl⟩
    · cases h
  · cases h

theorem toNat_ofNat {n : Nat} (h : n.isValidChar) : (Char.ofNat n).toNat = n := by
  rw [Char.ofNat, dif_pos h]
  rfl

/-- The encoding of a character by the range of its code. -/
theorem utf8EncodeChar_eq {c : Char} {n : Nat} (hn : c.toNat = n) :
    utf8EncodeChar c =
      if n ≤ 0x7F then [.ofNat n]
      else if n ≤ 0x7FF then [.ofNat (n / 64 % 32 + 0xC0), .ofNat (n % 64 + 0x80)]
      else if n ≤ 0xFFFF then
        [.ofNat (n / 4096 % 16 + 0xE0), .ofNat (n / 64 % 64 + 0x80), .ofNat (n % 64 + 0x80)]
      else
        [.ofNat (n / 262144 % 8 + 0xF0), .ofNat (n / 4096 % 64 + 0x80),
          .ofNat (n / 64 % 64 + 0x80), .ofNat (n % 64 + 0x80)] := by
  rw [← hn]
  rfl

/-- Only codes of characters are spelled, each by the bytes that encode the character. The narrowed
ranges of the second byte are what shuts out the codes that have a shorter spelling or none. -/
theorem Sequence.encode {bytes : List UInt8} {n : Nat} (h : Sequence bytes n) :
    n.isValidChar ∧ bytes = utf8EncodeChar (Char.ofNat n) := by
  have byte {b : UInt8} {m : Nat} (hm : b.toNat = m) : b = UInt8.ofNat m := by
    rw [← hm, UInt8.ofNat_toNat]
  have hencode (hn : n.isValidChar) := utf8EncodeChar_eq (toNat_ofNat hn)
  cases h with
  | @one a ha =>
    rw [(sequenceLength_iff a).1] at ha
    have hvalid : a.toNat.isValidChar := .inl (by omega)
    rw [hencode hvalid, if_pos ha, ← byte rfl]
    exact ⟨hvalid, rfl⟩
  | @two a b ha hb =>
    rw [(sequenceLength_iff a).2.1] at ha
    rw [isSecond_iff] at hb
    generalize hn : a.toNat % 32 * 64 + payload b = n at *
    rw [payload] at hn
    have hvalid : n.isValidChar := .inl (by omega)
    rw [hencode hvalid, if_neg (by omega), if_pos (by omega), ← @byte a _ (by omega),
      ← @byte b _ (by omega)]
    exact ⟨hvalid, rfl⟩
  | @three a b c ha hb hc =>
    rw [(sequenceLength_iff a).2.2.1] at ha
    rw [isSecond_iff] at hb
    rw [isContinuation_iff] at hc
    generalize hn : (a.toNat % 16 * 64 + payload b) * 64 + payload c = n at *
    rw [payload, payload] at hn
    have hvalid : n.isValidChar := by
      rw [Nat.isValidChar]
      omega
    rw [hencode hvalid, if_neg (by omega), if_neg (by omega), if_pos (by omega),
      ← @byte a _ (by omega), ← @byte b _ (by omega), ← @byte c _ (by omega)]
    exact ⟨hvalid, rfl⟩
  | @four a b c d ha hb hc hd =>
    rw [(sequenceLength_iff a).2.2.2] at ha
    rw [isSecond_iff] at hb
    rw [isContinuation_iff] at hc hd
    generalize hn : ((a.toNat % 8 * 64 + payload b) * 64 + payload c) * 64 + payload d = n at *
    rw [payload, payload, payload] at hn
    have hvalid : n.isValidChar := by
      rw [Nat.isValidChar]
      omega
    rw [hencode hvalid, if_neg (by omega), if_neg (by omega), if_neg (by omega),
      ← @byte a _ (by omega), ← @byte b _ (by omega), ← @byte c _ (by omega),
      ← @byte d _ (by omega)]
    exact ⟨hvalid, rfl⟩

/-- Each character is spelled by the bytes that encode it. -/
theorem sequence_encode (c : Char) : Sequence (utf8EncodeChar c) c.toNat := by
  have hvalid : c.toNat < 0xD800 ∨ (0xDFFF < c.toNat ∧ c.toNat < 0x110000) := c.valid
  have byte {m : Nat} (hm : m < 256) : ∃ b : UInt8, UInt8.ofNat m = b ∧ b.toNat = m :=
    ⟨_, rfl, UInt8.toNat_ofNat_of_lt' hm⟩
  rw [utf8EncodeChar_eq rfl]
  generalize c.toNat = n at *
  split_ifs with h₁ h₂ h₃
  · obtain ⟨a, ha', ha⟩ := @byte n (by omega)
    have h := Sequence.one ((sequenceLength_iff a).1.mpr (by omega))
    rwa [ha', ← ha]
  · obtain ⟨a, ha', ha⟩ := @byte (n / 64 % 32 + 0xC0) (by omega)
    obtain ⟨b, hb', hb⟩ := @byte (n % 64 + 0x80) (by omega)
    have h := Sequence.two ((sequenceLength_iff a).2.1.mpr (by omega))
      (isSecond_iff.mpr (by omega : 0x80 ≤ b.toNat ∧ _))
    rw [payload, show a.toNat % 32 * 64 + b.toNat % 64 = n by omega] at h
    rwa [ha', hb']
  · obtain ⟨a, ha', ha⟩ := @byte (n / 4096 % 16 + 0xE0) (by omega)
    obtain ⟨b, hb', hb⟩ := @byte (n / 64 % 64 + 0x80) (by omega)
    obtain ⟨c, hc', hc⟩ := @byte (n % 64 + 0x80) (by omega)
    have h := Sequence.three ((sequenceLength_iff a).2.2.1.mpr (by omega))
      (isSecond_iff.mpr (by omega : 0x80 ≤ b.toNat ∧ _))
      (isContinuation_iff.mpr (by omega : 0x80 ≤ c.toNat ∧ _))
    rw [payload, payload,
      show (a.toNat % 16 * 64 + b.toNat % 64) * 64 + c.toNat % 64 = n by omega] at h
    rwa [ha', hb', hc']
  · obtain ⟨a, ha', ha⟩ := @byte (n / 262144 % 8 + 0xF0) (by omega)
    obtain ⟨b, hb', hb⟩ := @byte (n / 4096 % 64 + 0x80) (by omega)
    obtain ⟨c, hc', hc⟩ := @byte (n / 64 % 64 + 0x80) (by omega)
    obtain ⟨d, hd', hd⟩ := @byte (n % 64 + 0x80) (by omega)
    have h := Sequence.four ((sequenceLength_iff a).2.2.2.mpr (by omega))
      (isSecond_iff.mpr (by omega : 0x80 ≤ b.toNat ∧ _))
      (isContinuation_iff.mpr (by omega : 0x80 ≤ c.toNat ∧ _))
      (isContinuation_iff.mpr (by omega : 0x80 ≤ d.toNat ∧ _))
    rw [payload, payload, payload,
      show ((a.toNat % 8 * 64 + b.toNat % 64) * 64 + c.toNat % 64) * 64 + d.toNat % 64 = n by
        omega] at h
    rwa [ha', hb', hc', hd']

/-- A byte below the others stands for itself. -/
theorem Sequence.eq_of_mem {bytes : List UInt8} {n : Nat} (h : Sequence bytes n) {x : UInt8}
    (hx : x ∈ bytes) (hlow : x.toNat ≤ 0x7F) : n = x.toNat := by
  cases h with
  | one ha => rw [List.mem_singleton.mp hx]
  | @two a b ha hb =>
    rw [(sequenceLength_iff a).2.1] at ha
    rw [isSecond_iff] at hb
    simp only [List.mem_cons, List.not_mem_nil, or_false] at hx
    rcases hx with rfl | rfl <;> omega
  | @three a b c ha hb hc =>
    rw [(sequenceLength_iff a).2.2.1] at ha
    rw [isSecond_iff] at hb
    rw [isContinuation_iff] at hc
    simp only [List.mem_cons, List.not_mem_nil, or_false] at hx
    rcases hx with rfl | rfl | rfl <;> omega
  | @four a b c d ha hb hc hd =>
    rw [(sequenceLength_iff a).2.2.2] at ha
    rw [isSecond_iff] at hb
    rw [isContinuation_iff] at hc hd
    simp only [List.mem_cons, List.not_mem_nil, or_false] at hx
    rcases hx with rfl | rfl | rfl | rfl <;> omega

/-! ## Reading -/

theorem first_iff {bytes rest : List UInt8} {c : Char} :
    first? bytes = some (c, rest) ↔ bytes = utf8EncodeChar c ++ rest := by
  constructor
  · intro h
    obtain ⟨front, n, hfront, rfl, rfl⟩ := exists_sequence h
    rw [hfront.encode.2]
  · rintro rfl
    rw [(sequence_encode c).first, Char.ofNat_toNat]

theorem readable_append (text : List Char) (rest : List UInt8) :
    readable (encode text ++ rest) = (text ++ (readable rest).1, (readable rest).2) := by
  induction text with
  | nil => rfl
  | cons c text ih =>
    have hfirst := first_iff.mpr (List.append_assoc (utf8EncodeChar c) (encode text) rest)
    rw [encode_cons, readable]
    split
    · next h => cases h.symm.trans hfirst
    · next h =>
      obtain ⟨rfl, rfl⟩ := Prod.mk.inj (Option.some.inj (h.symm.trans hfirst))
      rw [ih]
      rfl

/-- Bytes are read up to the first place where no character begins. -/
theorem readable_iff {bytes rest : List UInt8} {text : List Char} :
    readable bytes = (text, rest) ↔ bytes = encode text ++ rest ∧ first? rest = none := by
  constructor
  · intro h
    fun_induction readable bytes generalizing text with
    | case1 bytes hnone =>
      obtain ⟨rfl, rfl⟩ := Prod.mk.inj h
      exact ⟨rfl, hnone⟩
    | case2 bytes c left hfirst cs rest' hread ih =>
      obtain ⟨rfl, rfl⟩ := Prod.mk.inj h
      obtain ⟨rfl, hnone⟩ := ih hread
      refine ⟨?_, hnone⟩
      rw [first_iff.mp hfirst, encode_cons, List.append_assoc]
  · rintro ⟨rfl, hnone⟩
    have hrest : readable rest = ([], rest) := by
      rw [readable]
      split
      · rfl
      · next h => cases hnone.symm.trans h
    rw [readable_append, hrest, List.append_nil]

theorem decode_eq_ok_iff {bytes : List UInt8} {text : List Char} :
    decode bytes = .ok text ↔ bytes = encode text := by
  have hiff := @readable_iff bytes [] text
  rw [List.append_nil, first?, eq_self, and_true] at hiff
  rw [← hiff, decode]
  split
  · next hread => simp [hread]
  · next hread => simp [hread]

@[simp] theorem decode_encode (text : List Char) : decode (encode text) = .ok text :=
  decode_eq_ok_iff.mpr rfl

/-- Where bytes are no UTF-8, the error has the bytes of the text that could be read. -/
theorem decode_eq_error {bytes rest : List UInt8} {text : List Char} {byte : UInt8}
    (h : bytes = encode text ++ byte :: rest) (hnone : first? (byte :: rest) = none) :
    decode bytes = .error ⟨encode text, byte⟩ := by
  rw [decode, readable_iff.mpr ⟨h, hnone⟩, h]
  simp

/-- Bytes are UTF-8, or they are up to a byte at which no character begins. -/
theorem exists_encode (bytes : List UInt8) : ∃ text rest,
    bytes = encode text ++ rest ∧ first? rest = none :=
  ⟨_, _, readable_iff.mp rfl⟩

end LayeredSets.Text
