import LayeredSets.Input
import LayeredSets.Proofs.Text.Utf8
import LayeredSets.Proofs.Token.Reading
import Mathlib

/-!
# Where bytes stop being text

Bytes that are no UTF-8 are refused at the first byte that belongs to no character. Its position is
counted in bytes, but it is the one that the scanner gives to what stands behind the text in front
of it: a line break is one byte, which no other character has, so lines can be told apart in either.
-/

namespace LayeredSets.Program

open String (utf8EncodeChar)
open Text (encode)

/-! ## Lines of bytes -/

theorem lineFeed_mem_iff {c : Char} : lineFeed ∈ utf8EncodeChar c ↔ c = '\n' := by
  constructor
  · intro h
    have hcode := (Text.sequence_encode c).eq_of_mem h (by decide)
    exact Char.toNat_inj.mp hcode
  · rintro rfl
    decide

theorem utf8EncodeChar_break : utf8EncodeChar '\n' = [lineFeed] := by decide

theorem count_encode (text : List Char) : (encode text).count lineFeed = text.count '\n' := by
  induction text with
  | nil => rfl
  | cons c text ih =>
    by_cases hc : c = '\n'
    · subst hc
      rw [Text.encode_cons, utf8EncodeChar_break, List.singleton_append, List.count_cons_self,
        List.count_cons_self, ih]
    · have hbytes := List.count_eq_zero.mpr (lineFeed_mem_iff.not.mpr hc)
      rw [Text.encode_cons, List.count_append, hbytes, Nat.zero_add, List.count_cons_of_ne hc, ih]

/-- What stands behind the last line break. -/
def lastLine (text : List Char) : List Char := (text.reverse.takeWhile (· != '\n')).reverse

/-- The bytes behind the last line feed are those of the last line. -/
theorem takeWhile_encode (text : List Char) :
    ((encode text).reverse.takeWhile (· != lineFeed)).reverse = encode (lastLine text) := by
  induction text using List.reverseRecOn with
  | nil => rfl
  | append_singleton text c ih =>
    by_cases hc : c = '\n'
    · subst hc
      simp [lastLine, utf8EncodeChar_break]
    · have hbytes : ∀ b ∈ (utf8EncodeChar c).reverse, (b != lineFeed) = true := by
        intro b hb
        rw [bne_iff_ne]
        rintro rfl
        exact hc (lineFeed_mem_iff.mp (List.mem_reverse.mp hb))
      have hline : lastLine (text ++ [c]) = lastLine text ++ [c] := by simp [lastLine, hc]
      rw [hline, Text.encode_append, Text.encode_append, List.reverse_append, ← ih]
      simp [List.takeWhile_append_of_pos hbytes]

theorem positionBehind_encode (text : List Char) : positionBehind (encode text) = .behind text := by
  rw [positionBehind, takeWhile_encode, Text.decode_encode, count_encode, Position.behind, lastLine]
  simp [Nat.add_comm]

/-! ## The offending byte -/

/-- Bytes are a text up to one at which no character begins, and they begin with no longer text. -/
structure BreaksOff (bytes : List UInt8) (front : List Char) (byte : UInt8) : Prop where
  stuck : ∃ rest, bytes = encode front ++ byte :: rest ∧
    ∀ c more, byte :: rest ≠ utf8EncodeChar c ++ more
  longest : ∀ text more, bytes = encode text ++ more → text <+: front

theorem breaksOff_of_first {bytes rest : List UInt8} {front : List Char} {byte : UInt8}
    (h : bytes = encode front ++ byte :: rest) (hnone : Text.first? (byte :: rest) = none) :
    BreaksOff bytes front byte where
  stuck := by
    refine ⟨rest, h, fun c more hmore => ?_⟩
    rw [Text.first_iff.mpr hmore] at hnone
    cases hnone
  longest := by
    rintro text more rfl
    have hread := Text.readable_iff.mpr ⟨h, hnone⟩
    rw [Text.readable_append] at hread
    exact ⟨_, congrArg Prod.fst hread⟩

/-- There is one such place at most. -/
theorem BreaksOff.unique {bytes : List UInt8} {front front' : List Char} {byte byte' : UInt8}
    (h : BreaksOff bytes front byte) (h' : BreaksOff bytes front' byte') :
    front = front' ∧ byte = byte' := by
  obtain ⟨rest, hbytes, -⟩ := h.stuck
  obtain ⟨rest', hbytes', -⟩ := h'.stuck
  obtain rfl : front = front' :=
    (h'.longest _ _ hbytes).sublist.antisymm (h.longest _ _ hbytes').sublist
  have hrest := List.append_cancel_left (hbytes.symm.trans hbytes')
  exact ⟨rfl, (List.cons.inj hrest).1⟩

theorem stop_of_tokenize {text : List Char} {ts : Tokens} (h : tokenize text false = .ok ts) :
    ts.stop = .behind text := by
  rcases hasTokens_or_failsAt text (.start text) (.nil text) with ⟨ts', hread⟩ | ⟨e, hread⟩
  · obtain rfl := Except.ok.inj (hread.tokenize.symm.trans h)
    obtain ⟨-, -, -, -, -, hstop⟩ := hread
    exact hstop
  · cases hread.tokenize.symm.trans h

/-- Bytes are read as a text exactly if they are its encoding. If they encode none, the error names
the byte behind the longest text that they begin with, at the position behind that text: the one
where the scanner ends if it gets through the text. -/
theorem decode_located (bytes : List UInt8) :
    (∀ text, decode bytes = .ok text ↔ bytes.toByteArray = text.utf8Encode) ∧
      (¬ bytes.toByteArray.IsValidUTF8 → ∃ front byte e,
        BreaksOff bytes front byte ∧ decode bytes = .error e ∧
          e.detail = "invalid UTF-8 byte 0x" ++ Text.hexPair byte ∧ e.position = .behind front ∧
          ∀ ts, tokenize front false = .ok ts → e.position = ts.stop) := by
  constructor
  · intro text
    rw [← Text.encode_eq_iff, ← Text.decode_eq_ok_iff, decode]
    cases Text.decode bytes <;> simp
  · intro hinvalid
    obtain ⟨front, _ | ⟨byte, rest⟩, hbytes, hnone⟩ := Text.exists_encode bytes
    · rw [List.append_nil] at hbytes
      exact absurd ⟨front, Text.encode_eq_iff.mp hbytes⟩ hinvalid
    · refine ⟨front, byte, ⟨.behind front, _⟩, breaksOff_of_first hbytes hnone, ?_, rfl, rfl,
        fun ts hts => (stop_of_tokenize hts).symm⟩
      rw [decode, Text.decode_eq_error hbytes hnone]
      simp only [positionBehind_encode]
      rfl

/-- A character that is cut short behind one of two bytes on the line above. -/
theorem decode_located_sample :
    ∃ e ts, BreaksOff [0x23, 0xC3, 0xA9, 0x0A, 0x61, 0xE2, 0x82] ['#', 'é', '\n', 'a'] 0xE2 ∧
      decode [0x23, 0xC3, 0xA9, 0x0A, 0x61, 0xE2, 0x82] = .error e ∧
        e = ⟨⟨2, 2⟩, "invalid UTF-8 byte 0xe2"⟩ ∧
          tokenize ['#', 'é', '\n', 'a'] false = .ok ts ∧ e.position = ts.stop := by
  have hread : decode [0x23, 0xC3, 0xA9, 0x0A, 0x61, 0xE2, 0x82] =
      .error ⟨⟨2, 2⟩, "invalid UTF-8 byte 0xe2"⟩ := by cbv
  obtain ⟨hok, herror⟩ := decode_located [0x23, 0xC3, 0xA9, 0x0A, 0x61, 0xE2, 0x82]
  obtain ⟨front, byte, e, hbreaks, he, -, -, hstop⟩ := herror (by
    rintro ⟨text, htext⟩
    cases hread.symm.trans ((hok text).mpr htext))
  have hplace : BreaksOff [0x23, 0xC3, 0xA9, 0x0A, 0x61, 0xE2, 0x82] ['#', 'é', '\n', 'a'] 0xE2 :=
    @breaksOff_of_first _ [0x82] _ _ (by decide) (by decide)
  obtain ⟨rfl, rfl⟩ := hplace.unique hbreaks
  have hts : tokenize ['#', 'é', '\n', 'a'] false = .ok ⟨[⟨.word "a", ⟨2, 1⟩⟩], ⟨2, 2⟩⟩ := by cbv
  exact ⟨e, _, hplace, he, Except.error.inj (he.symm.trans hread), hts, hstop _ hts⟩

end LayeredSets.Program
