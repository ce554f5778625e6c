import LayeredSets.Proofs.Text.Pieces
import LayeredSets.Proofs.Token.Words
import LayeredSets.Version.Basic
import LayeredSets.Feature
import Mathlib

/-!
# The order of versions

A version whose text is a list of decimal numbers with points between them has these numbers for its
components, as far as they are below `2 ^ 64`. The text of a version is of this kind.

A version stands for the sequence of its components with zeros behind it, and versions are compared
as these sequences are, lexicographically. So they are in a total order in which versions that
differ in closing zeros only are equal, and a newer package enables whatever an older one does.
-/

namespace LayeredSets

/-- One or more decimal digits. -/
def IsNumeral (text : String) : Prop := text ≠ "" ∧ ∀ c ∈ text.toList, c.isDigit = true

instance (text : String) : Decidable (IsNumeral text) :=
  decidable_of_iff (text ≠ "" ∧ text.toList.all Char.isDigit = true) (by simp [IsNumeral])

/-- The number that decimal digits spell. -/
def numeralValue (text : String) : Nat := Nat.ofDigitChars 10 text.toList 0

theorem isNumeral_toString (n : Nat) : IsNumeral (toString n) ∧ numeralValue (toString n) = n := by
  obtain ⟨c, cs, htext, hc, hcs, hvalue⟩ := toList_numeral n
  rw [IsNumeral, numeralValue, htext, ← decimalFrom_eq]
  refine ⟨⟨?_, List.forall_mem_cons.mpr ⟨hc, hcs⟩⟩, hvalue⟩
  rintro hempty
  simp [hempty] at htext

namespace IsNumeral

variable {text : String}

theorem isBlank_eq_false (h : IsNumeral text) {c : Char} (hc : c ∈ text.toList) :
    Text.isBlank c = false := by
  obtain ⟨hlow, hhigh⟩ := Piece.isDigit_range (h.2 c hc)
  exact Piece.isBlank_eq_false (by omega) (by omega)

theorem point_notMem (h : IsNumeral text) : '.' ∉ text.toList := fun hmem =>
  absurd (h.2 _ hmem) (by decide)

theorem decimal? (h : IsNumeral text) : Text.decimal? text.toList = some (numeralValue text) := by
  have hempty : text.toList.isEmpty = false := by
    rw [List.isEmpty_eq_false_iff, ne_eq, String.toList_eq_nil_iff]
    exact h.1
  have hall : text.toList.any (!·.isDigit) = false := by
    simpa using h.2
  rw [Text.decimal?, hempty, hall, decimalFrom_eq]
  rfl

theorem unsigned? (h : IsNumeral text) (limit : Nat) :
    Text.unsigned? limit text = (some (numeralValue text)).filter (· < limit) := by
  have hplus : ∀ rest, text.toList ≠ '+' :: rest := fun rest heq =>
    absurd (h.2 '+' (by simp [heq])) (by decide)
  rw [Text.unsigned?, ← h.decimal?]
  split
  · next rest heq => exact absurd heq (hplus rest)
  · rfl

end IsNumeral

namespace Version

/-- The number that is read for a numeral. One from `2 ^ 64` on is not read. -/
def readValue (text : String) : Nat :=
  if numeralValue text < 2 ^ 64 then numeralValue text else 0

theorem map_readValue {parts : List String} (h : ∀ part ∈ parts, numeralValue part < 2 ^ 64) :
    parts.map readValue = parts.map numeralValue :=
  List.map_congr_left fun part hpart => if_pos (h part hpart)

theorem toNat_parseComponent {text : String} (h : IsNumeral text) :
    (parseComponent text).toNat = readValue text := by
  rw [parseComponent, Text.trim_of_visible fun _ => h.isBlank_eq_false, h.unsigned?, readValue]
  by_cases hsmall : numeralValue text < 2 ^ 64
  · rw [Option.filter_some_pos (by simpa using hsmall), if_pos hsmall, Option.getD_some,
      UInt64.toNat_ofNat_of_lt' hsmall]
  · rw [Option.filter_some_neg (by simpa using hsmall), if_neg hsmall]
    rfl

theorem parseComponent_toString (n : UInt64) : parseComponent (toString n) = n := by
  obtain ⟨hnumeral, hvalue⟩ := isNumeral_toString n.toNat
  have hread : readValue (toString n.toNat) = n.toNat := by
    rw [readValue, hvalue, if_pos n.toNat_lt]
  rw [← UInt64.toNat_inj, ← hread]
  exact toNat_parseComponent hnumeral

/-- Text with a point between any two of its parts. -/
def dotted (parts : List String) : String := ".".intercalate parts

theorem components_parse_dotted {parts : List String} (hne : parts ≠ [])
    (h : ∀ part ∈ parts, IsNumeral part) :
    (parse (dotted parts)).components = parts.map parseComponent := by
  have hvisible : ∀ c ∈ (dotted parts).toList, Text.isBlank c = false := by
    rw [dotted, String.toList_intercalate]
    refine Text.forall_mem_intercalate (List.forall_mem_singleton.mpr (by decide))
      (List.forall_mem_map.mpr fun part hpart c hc => ?_)
    exact (h part hpart).isBlank_eq_false hc
  rw [parse, Text.trim_of_visible hvisible]
  exact congrArg (List.map parseComponent) (Text.pieces_intercalate hne fun part hpart =>
    (h part hpart).point_notMem)

/-- A version without components has no text, which is read as a zero. -/
theorem components_parse_text (v : Version) :
    (parse v.text).components = if v.components = [] then [0] else v.components := by
  split
  · next hnil =>
    rw [text, hnil]
    decide
  · next hne =>
    have hnumerals : ∀ part ∈ v.components.map toString, IsNumeral part :=
      List.forall_mem_map.mpr fun n _ => (isNumeral_toString n.toNat).1
    rw [show v.text = dotted (v.components.map toString) from rfl,
      components_parse_dotted (by simpa using hne) hnumerals, List.map_map]
    exact (List.map_congr_left fun n _ => parseComponent_toString n).trans (List.map_id _)

end Version

/-! ## Lists with zeros behind them -/

/-- The numbers of a list with zeros behind them, in lexicographic order. -/
def padded (l : List Nat) : Lex (ℕ → ℕ) := toLex fun i => l.getD i 0

section

variable {l m : List Nat}

theorem padded_lt_iff :
    padded l < padded m ↔ ∃ i, (∀ j < i, l.getD j 0 = m.getD j 0) ∧ l.getD i 0 < m.getD i 0 :=
  Iff.rfl

theorem padded_eq_iff : padded l = padded m ↔ ∀ i, l.getD i 0 = m.getD i 0 := by
  rw [padded, padded, toLex_inj, funext_iff]

theorem padded_lt_of_head (h : l.headD 0 < m.headD 0) : padded l < padded m := by
  refine padded_lt_iff.mpr ⟨0, nofun, ?_⟩
  cases l <;> cases m <;> exact h

/-- Where the first numbers agree, those behind them decide. -/
theorem padded_lt_iff_tail (h : l.headD 0 = m.headD 0) :
    padded l < padded m ↔ padded l.tail < padded m.tail := by
  have hhead (l : List Nat) : l.headD 0 = l.getD 0 0 := by cases l <;> rfl
  have htail (l : List Nat) (i : Nat) : l.tail.getD i 0 = l.getD (i + 1) 0 := by cases l <;> rfl
  rw [hhead, hhead] at h
  simp only [padded_lt_iff, htail]
  constructor
  · rintro ⟨_ | i, hbefore, hlt⟩
    · exact absurd h hlt.ne
    · exact ⟨i, fun j hj => hbefore (j + 1) (Nat.succ_lt_succ hj), hlt⟩
  · rintro ⟨i, hbefore, hlt⟩
    refine ⟨i + 1, fun j hj => ?_, hlt⟩
    cases j with
    | zero => exact h
    | succ j => exact hbefore j (Nat.lt_of_succ_lt_succ hj)

theorem compare_congr {α : Type} [LinearOrder α] {a b c d : α} (h : a < b ↔ c < d)
    (h' : b < a ↔ d < c) : compare a b = compare c d := by
  rw [compare_iff]
  cases hcompare : compare c d with
  | lt => exact h.mpr (compare_lt_iff_lt.mp hcompare)
  | eq =>
    obtain rfl := compare_eq_iff_eq.mp hcompare
    exact le_antisymm (not_lt.mp fun hlt => lt_irrefl _ (h'.mp hlt))
      (not_lt.mp fun hlt => lt_irrefl _ (h.mp hlt))
  | gt => exact h'.mpr (compare_gt_iff_gt.mp hcompare)

/-- The first numbers decide, unless they agree. -/
theorem compare_padded (l m : List Nat) :
    compare (padded l) (padded m) =
      (compare (l.headD 0) (m.headD 0)).then (compare (padded l.tail) (padded m.tail)) := by
  rcases Nat.lt_trichotomy (l.headD 0) (m.headD 0) with hlt | heq | hgt
  · rw [compare_lt_iff_lt.mpr hlt, compare_lt_iff_lt.mpr (padded_lt_of_head hlt)]
    rfl
  · rw [compare_eq_iff_eq.mpr heq]
    exact compare_congr (padded_lt_iff_tail heq) (padded_lt_iff_tail heq.symm)
  · rw [compare_gt_iff_gt.mpr hgt, compare_gt_iff_gt.mpr (padded_lt_of_head hgt)]
    rfl

end

namespace Version

/-! ## Comparison -/

/-- The components with zeros behind them. -/
def sequence (v : Version) : Lex (ℕ → ℕ) := padded (v.components.map UInt64.toNat)

theorem compare_toNat (a b : UInt64) : compare a b = compare a.toNat b.toNat := by
  simp only [compare, compareOfLessAndEq, UInt64.lt_iff_toNat_lt, ← UInt64.toNat_inj]

theorem compareComponents_eq (as bs : List UInt64) :
    compareComponents as bs =
      compare (padded (as.map UInt64.toNat)) (padded (bs.map UInt64.toNat)) := by
  induction as generalizing bs with
  | nil =>
    induction bs with
    | nil => simp [compareComponents]
    | cons b bs ih =>
      rw [compareComponents, ih, compare_toNat, compare_padded _ (List.map _ (b :: bs))]
      rfl
  | cons a as ih =>
    cases bs with
    | nil =>
      rw [compareComponents, ih, compare_toNat, compare_padded (List.map _ (a :: as))]
      rfl
    | cons b bs =>
      rw [compareComponents, ih, compare_toNat, compare_padded (List.map _ (a :: as))]
      rfl

theorem cmp_eq : cmp = compareOn sequence := by
  funext v w
  exact compareComponents_eq v.components w.components

instance : Std.TransCmp cmp := by
  rw [cmp_eq]
  infer_instance

theorem cmp_eq_lt_iff {v w : Version} : v.cmp w = .lt ↔ v.sequence < w.sequence := by
  rw [cmp_eq]
  exact compare_lt_iff_lt

theorem cmp_eq_eq_iff {v w : Version} : v.cmp w = .eq ↔ v.sequence = w.sequence := by
  rw [cmp_eq]
  exact compare_eq_iff_eq

theorem cmp_eq_gt_iff {v w : Version} : v.cmp w = .gt ↔ w.sequence < v.sequence := by
  rw [cmp_eq]
  exact compare_gt_iff_gt

theorem isLE_cmp_iff {v w : Version} : (v.cmp w).isLE = true ↔ v.sequence ≤ w.sequence := by
  rw [← Ordering.ne_gt_iff_isLE, cmp_eq_gt_iff.not]
  exact not_lt

theorem getD_toNat (v : Version) (i : Nat) :
    (v.components.map UInt64.toNat).getD i 0 = (v.component i).toNat := by
  rw [component, List.getD_eq_getElem?_getD, List.getD_eq_getElem?_getD, List.getElem?_map]
  cases v.components[i]? <;> rfl

/-- At the first component in which the versions differ, `v` has the smaller number. -/
def Precedes (v w : Version) : Prop :=
  ∃ i, (∀ j < i, v.component j = w.component j) ∧ v.component i < w.component i

/-- The versions agree in all components. Missing ones count as zero. -/
def Agrees (v w : Version) : Prop := ∀ i, v.component i = w.component i

theorem sequence_lt_iff {v w : Version} : v.sequence < w.sequence ↔ v.Precedes w := by
  simp only [sequence, padded_lt_iff, getD_toNat, UInt64.toNat_inj, ← UInt64.lt_iff_toNat_lt]
  rfl

theorem sequence_eq_iff {v w : Version} : v.sequence = w.sequence ↔ v.Agrees w := by
  simp only [sequence, padded_eq_iff, getD_toNat, UInt64.toNat_inj]
  rfl

theorem agrees_parse_text (v : Version) : (parse v.text).Agrees v := by
  intro i
  rw [component, component, components_parse_text]
  split
  · next hnil => cases i <;> simp [hnil]
  · rfl

theorem exactly_one (v w : Version) :
    v.Precedes w ∧ ¬ v.Agrees w ∧ ¬ w.Precedes v ∨
    ¬ v.Precedes w ∧ v.Agrees w ∧ ¬ w.Precedes v ∨
    ¬ v.Precedes w ∧ ¬ v.Agrees w ∧ w.Precedes v := by
  simp only [← sequence_lt_iff, ← sequence_eq_iff]
  rcases lt_trichotomy v.sequence w.sequence with hlt | heq | hgt
  · exact .inl ⟨hlt, hlt.ne, hlt.asymm⟩
  · exact .inr (.inl ⟨heq.not_lt, heq, heq.not_gt⟩)
  · exact .inr (.inr ⟨hgt.asymm, hgt.ne', hgt⟩)

/-! ## Detection -/

theorem isAtLeast_iff {installed minimum : String} :
    isAtLeast installed minimum = true ↔ (parse minimum).sequence ≤ (parse installed).sequence := by
  rw [isAtLeast, bne_iff_ne, ne_eq, cmp_eq_lt_iff]
  exact not_lt

end Version

namespace FeatureSet

theorem versionOf_detect (installed : String → Option String) (feature : Feature) :
    (detect installed).versionOf feature = (installed feature.package).filter feature.accepts :=
  rfl

/-- What one version of a package enables, a newer one enables as well. -/
theorem detect_mono {installed installed' : String → Option String} {feature : Feature}
    {found found' : String} (hfound : installed feature.package = some found)
    (hfound' : installed' feature.package = some found')
    (hle : ((Version.parse found).cmp (Version.parse found')).isLE = true)
    (h : (detect installed).isEnabled feature = true) :
    (detect installed').versionOf feature = some found' := by
  have haccepts : feature.accepts found = true := by
    simpa [isEnabled, versionOf_detect, hfound, Option.isSome_filter] using h
  rw [versionOf_detect, hfound', Option.filter_some_pos]
  exact Version.isAtLeast_iff.mpr
    ((Version.isAtLeast_iff.mp haccepts).trans (Version.isLE_cmp_iff.mp hle))

end FeatureSet

namespace Version

/-- Versions are in a total order. In it, versions that agree are the same, text keeps the place of
a version, and detection is monotone. -/
theorem cmp_total_order (a b c : Version) :
    (a.cmp b = .lt ↔ a.Precedes b) ∧ (a.cmp b = .eq ↔ a.Agrees b) ∧
    (a.cmp b = .gt ↔ b.Precedes a) ∧
    (a.Precedes b ∧ ¬ a.Agrees b ∧ ¬ b.Precedes a ∨
      ¬ a.Precedes b ∧ a.Agrees b ∧ ¬ b.Precedes a ∨
      ¬ a.Precedes b ∧ ¬ a.Agrees b ∧ b.Precedes a) ∧
    b.cmp a = (a.cmp b).swap ∧
    ((a.cmp b).isLE = true → (b.cmp c).isLE = true → (a.cmp c).isLE = true) ∧
    (a.cmp b = .eq → a.cmp c = b.cmp c ∧ c.cmp a = c.cmp b) ∧
    (parse a.text).cmp a = .eq ∧
    ∀ (feature : Feature) (installed installed' : String → Option String) (found found' : String),
      installed feature.package = some found → installed' feature.package = some found' →
      ((parse found).cmp (parse found')).isLE = true →
      (FeatureSet.detect installed).isEnabled feature = true →
      (FeatureSet.detect installed').isEnabled feature = true ∧
        (FeatureSet.detect installed').versionOf feature = some found' := by
  refine ⟨cmp_eq_lt_iff.trans sequence_lt_iff, cmp_eq_eq_iff.trans sequence_eq_iff,
    cmp_eq_gt_iff.trans sequence_lt_iff, exactly_one a b, Std.OrientedCmp.eq_swap,
    Std.TransCmp.isLE_trans, fun heq => ⟨Std.TransCmp.congr_left heq, Std.TransCmp.congr_right heq⟩,
    (cmp_eq_eq_iff.trans sequence_eq_iff).mpr (agrees_parse_text a), ?_⟩
  intro feature installed installed' found found' hfound hfound' hle henabled
  have hversion := FeatureSet.detect_mono hfound hfound' hle henabled
  exact ⟨by rw [FeatureSet.isEnabled, hversion, Option.isSome_some], hversion⟩

/-- `1.2` is `1.2.0.0` and below `1.10`, and z3 is as good at `4.8.0.1` as at `4.8`. -/
theorem cmp_total_order_padding :
    (cmp ⟨[1, 2]⟩ ⟨[1, 10]⟩).isLE = true ∧ cmp ⟨[1, 2]⟩ ⟨[1, 10]⟩ = cmp ⟨[1, 2, 0, 0]⟩ ⟨[1, 10]⟩ ∧
    (FeatureSet.detect fun _ => some "4.8.0.1").versionOf .z3 = some "4.8.0.1" := by
  have hequal : cmp ⟨[1, 2]⟩ ⟨[1, 2, 0, 0]⟩ = .eq := by simp [cmp, compareComponents]
  have hbelow : cmp ⟨[1, 2, 0, 0]⟩ ⟨[1, 10]⟩ = .lt := by
    simp only [cmp, compareComponents]
    decide
  have hold : parse "4.8" = ⟨[4, 8]⟩ := by decide +kernel
  have hminimum : parse "4.8.0" = ⟨[4, 8, 0]⟩ := by decide +kernel
  have hnew : parse "4.8.0.1" = ⟨[4, 8, 0, 1]⟩ := by decide +kernel
  obtain ⟨-, -, -, -, -, htrans, hcongr, -, hdetect⟩ :=
    cmp_total_order ⟨[1, 2]⟩ ⟨[1, 2, 0, 0]⟩ ⟨[1, 10]⟩
  refine ⟨htrans (by rw [hequal]; rfl) (by rw [hbelow]; rfl), (hcongr hequal).1,
    (hdetect .z3 (fun _ => some "4.8") (fun _ => some "4.8.0.1") "4.8" "4.8.0.1" rfl rfl ?_ ?_).2⟩
  · rw [hold, hnew]
    simp only [cmp, compareComponents]
    decide
  · have haccepts : Feature.z3.accepts "4.8" = true := by
      rw [Feature.accepts, Feature.minimum, isAtLeast, hold, hminimum]
      simp only [cmp, compareComponents]
      decide
    rw [FeatureSet.isEnabled, FeatureSet.versionOf_detect, Option.filter_some_pos haccepts,
      Option.isSome_some]

/-! ## Dotted numbers -/

theorem sequence_parse_dotted {parts : List String} (hne : parts ≠ [])
    (h : ∀ part ∈ parts, IsNumeral part) :
    (parse (dotted parts)).sequence = padded (parts.map readValue) := by
  rw [sequence, components_parse_dotted hne h, List.map_map]
  exact congrArg padded (List.map_congr_left fun part hpart => toNat_parseComponent (h part hpart))

/-- Dotted numbers compare as the sequences of what is read for them. As long as each number is
below `2 ^ 64`, these are the numbers themselves. -/
theorem isAtLeast_dotted {installed minimum : List String} (hinstalled : installed ≠ [])
    (hminimum : minimum ≠ []) (h : ∀ part ∈ installed ++ minimum, IsNumeral part) :
    (isAtLeast (dotted installed) (dotted minimum) = true ↔
      padded (minimum.map readValue) ≤ padded (installed.map readValue)) ∧
    ((∀ part ∈ installed ++ minimum, numeralValue part < 2 ^ 64) →
      (isAtLeast (dotted installed) (dotted minimum) = true ↔
        padded (minimum.map numeralValue) ≤ padded (installed.map numeralValue))) := by
  obtain ⟨hinstalledNumeral, hminimumNumeral⟩ := List.forall_mem_append.mp h
  have hread : isAtLeast (dotted installed) (dotted minimum) = true ↔
      padded (minimum.map readValue) ≤ padded (installed.map readValue) := by
    rw [isAtLeast_iff, sequence_parse_dotted hinstalled hinstalledNumeral,
      sequence_parse_dotted hminimum hminimumNumeral]
  refine ⟨hread, fun hsmall => ?_⟩
  obtain ⟨hinstalledSmall, hminimumSmall⟩ := List.forall_mem_append.mp hsmall
  rwa [map_readValue hinstalledSmall, map_readValue hminimumSmall] at hread

/-- Neither a leading zero nor the number of parts decides. -/
theorem isAtLeast_dotted_sample : isAtLeast (dotted ["01", "10"]) (dotted ["1", "9", "7"]) = true := by
  have hnumeral : ∀ part ∈ ["01", "10"] ++ ["1", "9", "7"], IsNumeral part := by decide
  refine ((isAtLeast_dotted (by decide) (by decide) hnumeral).2 (by decide +kernel)).mpr ?_
  exact (padded_lt_iff.mpr ⟨1, by decide +kernel, by decide +kernel⟩).le

/-- A number that does not fit into 64 bits is read as a zero. -/
theorem isAtLeast_dotted_not_numeric :
    ¬ ∀ installed minimum : List String, installed ≠ [] → minimum ≠ [] →
      (∀ part ∈ installed ++ minimum, IsNumeral part) →
      (isAtLeast (dotted installed) (dotted minimum) = true ↔
        padded (minimum.map numeralValue) ≤ padded (installed.map numeralValue)) := by
  intro hall
  have hnumeral : ∀ part ∈ ["18446744073709551616"] ++ ["1"], IsNumeral part := by decide
  have hlt : padded (["1"].map numeralValue) < padded (["18446744073709551616"].map numeralValue) :=
    padded_lt_of_head (by decide +kernel)
  have hatLeast := (hall ["18446744073709551616"] ["1"] (by decide) (by decide) hnumeral).mpr hlt.le
  have hlarge : parse (dotted ["18446744073709551616"]) = ⟨[0]⟩ := by decide +kernel
  have hone : parse (dotted ["1"]) = ⟨[1]⟩ := by decide +kernel
  have hbelow : compareComponents [0] [1] = .lt := by
    simp only [compareComponents]
    decide
  rw [isAtLeast, hlarge, hone, cmp, hbelow] at hatLeast
  exact absurd hatLeast (by decide)

end Version
end LayeredSets
