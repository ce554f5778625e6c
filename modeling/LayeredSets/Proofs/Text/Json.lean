import LayeredSets.Text.Escape
import LayeredSets.Text.Json
import Mathlib.Tactic

/-!
# JSON texts are read back

A reader for JSON texts: a text is divided into marks, words and strings, and these are put together
to a value. Texts with `null`, with negative numbers or fractions and with halves of surrogate pairs
are not read at all. What is written for a value stands on one line, and reads as this value,
whatever its strings contain.
-/

namespace LayeredSets.Text.Json

/-! ## Reading -/

/-- What a text consists of, but for blanks. -/
inductive Token
  | openArray
  | closeArray
  | openObject
  | closeObject
  | comma
  | colon
  | word (value : Json)
  | string (text : String)

/-- What a character comes to that stands between words. -/
def separator? (c : Char) : Option (List Token) :=
  match c with
  | ' ' | '\t' | '\n' | '\r' => some []
  | '[' => some [.openArray]
  | ']' => some [.closeArray]
  | '\x7b' => some [.openObject]
  | '\x7d' => some [.closeObject]
  | ',' => some [.comma]
  | ':' => some [.colon]
  | _ => none

/-- The number that is printed so. -/
def number? (word : List Char) : Option Nat :=
  let n := Nat.ofDigitChars 10 word 0
  if Nat.toDigits 10 n = word then some n else none

def word? (word : List Char) : Option Json :=
  if word = "true".toList then some (.bool true)
  else if word = "false".toList then some (.bool false)
  else (number? word).map .number

/-- The word that was being read ends here. -/
def endWord (word : List Char) : Option (List Token) :=
  if word.isEmpty then some [] else (word? word).map fun value => [.word value]

/-- The character that a letter stands for behind a backslash. -/
def escaped? (c : Char) : Option Char :=
  match c with
  | '"' | '\\' | '/' => some c
  | 'b' => some '\x08'
  | 'f' => some '\x0c'
  | 'n' => some '\n'
  | 'r' => some '\r'
  | 't' => some '\t'
  | _ => none

/-- The character with this hexadecimal number. -/
def coded? (digits : List Char) : Option Char := do
  let n := (← digits.mapM hexValue?).foldl (16 * · + ·) 0
  if n.isValidChar then some (Char.ofNat n) else none

/-- Where a reader is in a text, and what it has read of the word or string there. -/
inductive Position
  | outside (word : List Char)
  | inside (read : List Char)
  | escape (read : List Char)
  | code (read digits : List Char)

def tokensFrom : Position → List Char → Option (List Token)
  | .outside word, [] => endWord word
  | _, [] => none
  | .outside word, c :: cs =>
    match separator? c with
    | some marks => do return (← endWord word) ++ marks ++ (← tokensFrom (.outside []) cs)
    | none =>
      if c = '"' then do return (← endWord word) ++ (← tokensFrom (.inside []) cs)
      else tokensFrom (.outside (word ++ [c])) cs
  | .inside read, c :: cs =>
    if c = '"' then do return .string (String.ofList read) :: (← tokensFrom (.outside []) cs)
    else if c = '\\' then tokensFrom (.escape read) cs
    else if c.toNat < 32 then none
    else tokensFrom (.inside (read ++ [c])) cs
  | .escape read, c :: cs =>
    if c = 'u' then tokensFrom (.code read []) cs
    else do tokensFrom (.inside (read ++ [← escaped? c])) cs
  | .code read digits, c :: cs =>
    if digits.length < 3 then tokensFrom (.code read (digits ++ [c])) cs
    else do tokensFrom (.inside (read ++ [← coded? (digits ++ [c])])) cs

/-- An array or an object that is open, and what has been read of it. -/
inductive Frame
  | array (items : List Json)
  | object (members : List (String × Json)) (name : String)

/-- Put tokens together, where `outer` is open and `last` is the value in front of them, if one
comes to its end there. -/
def build : (outer : List Frame) → (last : Option Json) → List Token → Option Json
  | [], some j, [] => some j
  | .array items :: outer, some j, .comma :: ts => build (.array (items ++ [j]) :: outer) none ts
  | .array items :: outer, some j, .closeArray :: ts =>
    build outer (some (.array (items ++ [j]))) ts
  | .object members name :: outer, some j, .comma :: .string next :: .colon :: ts =>
    build (.object (members ++ [(name, j)]) next :: outer) none ts
  | .object members name :: outer, some j, .closeObject :: ts =>
    build outer (some (.object (members ++ [(name, j)]))) ts
  | outer, none, .word j :: ts => build outer (some j) ts
  | outer, none, .string text :: ts => build outer (some (.string text)) ts
  | outer, none, .openArray :: .closeArray :: ts => build outer (some (.array [])) ts
  | outer, none, .openArray :: ts => build (.array [] :: outer) none ts
  | outer, none, .openObject :: .closeObject :: ts => build outer (some (.object [])) ts
  | outer, none, .openObject :: .string name :: .colon :: ts =>
    build (.object [] name :: outer) none ts
  | _, _, _ => none

/-- The value that a text says. -/
def read? (text : String) : Option Json := do
  build [] none (← tokensFrom (.outside []) text.toList)

/-! ## Characters -/

/-- A mark or a blank comes first. -/
def Marked (text : List Char) : Prop := ∃ c ∈ text.head?, (separator? c).isSome = true

/-- No word goes on here. -/
def Ends (rest : List Char) : Prop := rest = [] ∨ Marked rest

/-- A character of a word. -/
def isPlain (c : Char) : Bool := (separator? c).isNone && c != '"' && 32 ≤ c.toNat

theorem isPlain_iff {c : Char} :
    isPlain c = true ↔ separator? c = none ∧ c ≠ '"' ∧ 32 ≤ c.toNat := by
  simp [isPlain, and_assoc]

theorem marked_cons {c : Char} {ts : List Token} (h : separator? c = some ts) (text : List Char) :
    Marked (c :: text) :=
  ⟨c, rfl, by rw [h, Option.isSome_some]⟩

/-- The characters are read as these tokens, unless a word goes on behind them, and they stand on
one line. -/
structure Spells (text : List Char) (ts : List Token) : Prop where
  visible : ∀ c ∈ text, 32 ≤ c.toNat
  tokens : ∀ rest, Ends rest →
    tokensFrom (.outside []) (text ++ rest) = (tokensFrom (.outside []) rest).map (ts ++ ·)

namespace Spells

variable {text text' : List Char} {ts ts' : List Token} {c : Char}

theorem mark (h : separator? c = some ts) (hvisible : 32 ≤ c.toNat) : Spells [c] ts where
  visible := by simpa using hvisible
  tokens rest _ := by
    rw [List.singleton_append, tokensFrom, h]
    cases tokensFrom (.outside []) rest <;> rfl

/-- What follows begins with a mark. -/
theorem append (h : Spells text ts) (h' : Spells text' ts') (hmarked : Marked text') :
    Spells (text ++ text') (ts ++ ts') where
  visible := List.forall_mem_append.mpr ⟨h.visible, h'.visible⟩
  tokens rest hrest := by
    have hends : Ends (text' ++ rest) := by
      obtain ⟨c, hc, hseparator⟩ := hmarked
      exact .inr ⟨c, List.mem_head?_append_of_mem_head? hc, hseparator⟩
    rw [List.append_assoc, h.tokens _ hends, h'.tokens rest hrest]
    cases tokensFrom (.outside []) rest <;> simp

/-- What is in front is a mark. -/
theorem cons {t : Token} (hc : separator? c = some [t]) (hvisible : 32 ≤ c.toNat)
    (h : Spells text ts) : Spells (c :: text) (t :: ts) where
  visible := List.forall_mem_cons.mpr ⟨hvisible, h.visible⟩
  tokens rest hrest := by
    rw [List.cons_append, tokensFrom, hc]
    simp only [h.tokens rest hrest]
    cases tokensFrom (.outside []) rest <;> simp [endWord]

/-- Where a word ends, it is read. -/
theorem word {value : Json} (hne : text ≠ []) (hvalue : word? text = some value)
    (htext : text.all isPlain = true) : Spells text [.word value] where
  visible c hc := (isPlain_iff.mp (List.all_eq_true.mp htext c hc)).2.2
  tokens rest hrest := by
    have hread (word : List Char) :
        tokensFrom (.outside word) (text ++ rest) = tokensFrom (.outside (word ++ text)) rest := by
      clear hne hvalue
      induction text generalizing word with
      | nil => rw [List.append_nil, List.nil_append]
      | cons c text ih =>
        rw [List.all_cons, Bool.and_eq_true] at htext
        obtain ⟨hseparator, hquote, -⟩ := isPlain_iff.mp htext.1
        rw [List.cons_append, tokensFrom, hseparator]
        simp only [if_neg hquote]
        rw [ih htext.2, List.append_assoc, List.singleton_append]
    have hend : endWord text = some [.word value] := by
      rw [endWord, if_neg (by simpa using hne), hvalue, Option.map_some]
    rw [hread, List.nil_append]
    cases rest with
    | nil =>
      rw [tokensFrom, tokensFrom, hend]
      rfl
    | cons c rest =>
      obtain ⟨d, hd, hseparator⟩ := hrest.resolve_left (List.cons_ne_nil c rest)
      obtain rfl := Option.some.inj hd
      obtain ⟨marks, hmarks⟩ := Option.isSome_iff_exists.mp hseparator
      rw [tokensFrom, tokensFrom, hmarks, hend]
      cases tokensFrom (.outside []) rest <;> rfl

end Spells

/-! ## Strings -/

theorem coded?_hexFour : ∀ n < 32, (hexFour n).length = 4 ∧
    coded? (hexFour n) = some (Char.ofNat n) ∧ (hexFour n).all (32 ≤ ·.toNat) = true := by
  decide +kernel

/-- A character is read back from what stands for it in a string. -/
theorem tokensFrom_escape (c : Char) (read rest : List Char) :
    tokensFrom (.inside read) (escape c ++ rest) = tokensFrom (.inside (read ++ [c])) rest := by
  have hletter {letter : Char} (hu : letter ≠ 'u') (h : escaped? letter = some c) :
      tokensFrom (.inside read) ('\\' :: letter :: rest) =
        tokensFrom (.inside (read ++ [c])) rest := by
    simp [tokensFrom, hu, h]
  rw [escape]
  simp only [beq_iff_eq]
  split_ifs with hquote hbackslash hbreak hreturn htab hback hfeed hcontrol
  · exact hletter (by decide) (by rw [hquote]; rfl)
  · exact hletter (by decide) (by rw [hbackslash]; rfl)
  · exact hletter (by decide) (by rw [hbreak]; rfl)
  · exact hletter (by decide) (by rw [hreturn]; rfl)
  · exact hletter (by decide) (by rw [htab]; rfl)
  · exact hletter (by decide) (by rw [hback]; rfl)
  · exact hletter (by decide) (by rw [hfeed]; rfl)
  · obtain ⟨hlength, hcoded, -⟩ := coded?_hexFour c.toNat hcontrol
    obtain ⟨a, b, d, e, hdigits⟩ := List.length_eq_four.mp hlength
    rw [hdigits, Char.ofNat_toNat] at hcoded
    rw [hdigits]
    simp [tokensFrom, hcoded]
  · simp [tokensFrom, hquote, hbackslash, hcontrol]

theorem visible_escape (c : Char) : ∀ x ∈ escape c, 32 ≤ x.toNat := by
  rw [escape]
  split_ifs with hquote hbackslash hbreak hreturn htab hback hfeed hcontrol
  rotate_left 7
  · have hdigits := (coded?_hexFour c.toNat hcontrol).2.2
    rw [List.all_eq_true] at hdigits
    simpa using hdigits
  · simpa using hcontrol
  -- The short escapes are a backslash and one more character.
  all_goals simp

theorem tokensFrom_inside (cs read rest : List Char) :
    tokensFrom (.inside read) (cs.flatMap escape ++ '"' :: rest) =
      (tokensFrom (.outside []) rest).map (.string (String.ofList (read ++ cs)) :: ·) := by
  induction cs generalizing read with
  | nil =>
    rw [List.flatMap_nil, List.nil_append, List.append_nil, tokensFrom, if_pos rfl]
    cases tokensFrom (.outside []) rest <;> rfl
  | cons c cs ih =>
    rw [List.flatMap_cons, List.append_assoc, tokensFrom_escape, ih, List.append_assoc,
      List.singleton_append]

theorem spells_string (text : String) :
    Spells ((stringParts text).flatMap String.toList) [.string text] := by
  have hchars : (stringParts text).flatMap String.toList =
      '"' :: (text.toList.flatMap escape ++ ['"']) := by
    rw [← flatten_fragments]
    simp [stringParts, List.flatMap_map]
  rw [hchars]
  refine ⟨?_, fun rest _ => ?_⟩
  · have hquote : 32 ≤ '"'.toNat := by decide
    refine List.forall_mem_cons.mpr ⟨hquote, List.forall_mem_append.mpr ⟨fun c hc => ?_, ?_⟩⟩
    · obtain ⟨d, -, hd⟩ := List.mem_flatMap.mp hc
      exact visible_escape d c hd
    · simp
  · rw [List.cons_append, List.append_assoc, List.singleton_append, tokensFrom]
    simp only [show separator? '"' = none by decide, if_true, tokensFrom_inside, List.nil_append,
      String.ofList_toList]
    cases tokensFrom (.outside []) rest <;> rfl

/-! ## Words -/

theorem spells_bool (value : Bool) :
    Spells (if value then "true" else "false").toList [.word (.bool value)] := by
  cases value <;> exact .word (by decide) rfl (by decide)

theorem spells_number (n : Nat) : Spells (toString n).toList [.word (.number n)] := by
  have hdigits : (toString n).toList = Nat.toDigits 10 n := Nat.toList_repr
  have hnumber : number? (Nat.toDigits 10 n) = some n := by
    rw [number?, Nat.ofDigitChars_ten_toDigits]
    exact if_pos rfl
  have hdigit (c : Char) (hc : c ∈ Nat.toDigits 10 n) : c.isDigit = true :=
    Nat.isDigit_of_mem_toDigits (by decide) (by decide) hc
  rw [hdigits]
  refine .word Nat.toDigits_ne_nil ?_ (List.all_eq_true.mpr fun c hc => isPlain_iff.mpr ?_)
  · have hfirst (word : List Char) (c : Char) (hc : c.isDigit = false) :
        Nat.toDigits 10 n ≠ c :: word := by
      intro h
      have := hdigit c (h ▸ List.mem_cons_self)
      rw [hc] at this
      cases this
    have htrue : Nat.toDigits 10 n ≠ "true".toList := hfirst ['r', 'u', 'e'] 't' (by decide)
    have hfalse : Nat.toDigits 10 n ≠ "false".toList := hfirst ['a', 'l', 's', 'e'] 'f' (by decide)
    rw [word?, if_neg htrue, if_neg hfalse, hnumber, Option.map_some]
  · have hc := hdigit c hc
    refine ⟨?_, ?_, ?_⟩
    · rw [separator?] <;>
      · rintro rfl
        cases hc
    · rintro rfl
      cases hc
    · simp only [Char.isDigit, Bool.and_eq_true, decide_eq_true_eq] at hc
      have hzero : '0'.val.toNat ≤ c.toNat := UInt32.le_iff_toNat_le.mp hc.1
      exact le_trans (by decide) hzero

/-! ## Values -/

/-- The tokens are put together to this value. -/
def Builds (ts : List Token) (j : Json) : Prop :=
  ∀ outer rest, build outer none (ts ++ rest) = build outer (some j) rest

/-- The tokens add these items to an array, and close it. -/
def BuildsItems (ts : List Token) (items : List Json) : Prop :=
  ∀ before j outer rest, build (.array before :: outer) (some j) (ts ++ rest) =
    build outer (some (.array (before ++ j :: items))) rest

/-- The tokens add these members to an object, and close it. -/
def BuildsMembers (ts : List Token) (members : List (String × Json)) : Prop :=
  ∀ before name j outer rest, build (.object before name :: outer) (some j) (ts ++ rest) =
    build outer (some (.object (before ++ (name, j) :: members))) rest

theorem build_openArray {ts : List Token} (h : ts.head? ≠ some .closeArray) (outer : List Frame) :
    build outer none (.openArray :: ts) = build (.array [] :: outer) none ts := by
  rw [build]
  rintro ts rfl
  exact h rfl

theorem builds_items_nil : BuildsItems [.closeArray] [] := fun before j outer rest => by
  rw [List.singleton_append, build]

theorem BuildsItems.cons {ts ts' : List Token} {item : Json} {items : List Json}
    (h : Builds ts item) (h' : BuildsItems ts' items) :
    BuildsItems (.comma :: (ts ++ ts')) (item :: items) := fun before j outer rest => by
  rw [List.cons_append, build, List.append_assoc, h, h', List.append_assoc, List.singleton_append]

theorem builds_members_nil : BuildsMembers [.closeObject] [] := fun before name j outer rest => by
  rw [List.singleton_append, build]

theorem BuildsMembers.cons {ts ts' : List Token} {name : String} {value : Json}
    {members : List (String × Json)} (h : Builds ts value) (h' : BuildsMembers ts' members) :
    BuildsMembers (.comma :: .string name :: .colon :: (ts ++ ts')) ((name, value) :: members) :=
  fun before name' j outer rest => by
    rw [List.cons_append, List.cons_append, List.cons_append, build, List.append_assoc, h, h',
      List.append_assoc, List.singleton_append]

/-- The characters are read as these tokens, and the tokens are put together to this value. -/
structure Written (text : List Char) (ts : List Token) (j : Json) : Prop where
  spells : Spells text ts
  builds : Builds ts j
  starts : ∀ rest, (ts ++ rest).head? ≠ some .closeArray

theorem Written.word {text : List Char} {value : Json} (h : Spells text [.word value]) :
    Written text [.word value] value :=
  ⟨h, fun outer rest => by rw [List.singleton_append, build], nofun⟩

theorem Written.string (text : String) :
    Written ((stringParts text).flatMap String.toList) [.string text] (.string text) :=
  ⟨spells_string text, fun outer rest => by rw [List.singleton_append, build], nofun⟩

theorem Written.emptyArray : Written ['[', ']'] [.openArray, .closeArray] (.array []) where
  spells := .cons rfl (by decide) (.mark rfl (by decide))
  builds outer rest := by rw [List.cons_append, List.singleton_append, build]
  starts := nofun

theorem Written.emptyObject :
    Written ['\x7b', '\x7d'] [.openObject, .closeObject] (.object []) where
  spells := .cons rfl (by decide) (.mark rfl (by decide))
  builds outer rest := by rw [List.cons_append, List.singleton_append, build]
  starts := nofun

section

variable {text text' : List Char} {ts ts' : List Token} {value : Json}

/-- A name, a colon and a value, before what begins with a mark. -/
theorem Written.member (name : String) (h : Written text ts value) (h' : Spells text' ts')
    (hmarked : Marked text') :
    Spells ((stringParts name).flatMap String.toList ++ ':' :: (text ++ text'))
      (.string name :: .colon :: (ts ++ ts')) :=
  (spells_string name).append
    (.cons rfl (by decide) (h.spells.append h' hmarked)) (marked_cons rfl _)

theorem Written.array {items : List Json} (h : Written text ts value) (h' : Spells text' ts')
    (hmarked : Marked text') (hitems : BuildsItems ts' items) :
    Written ('[' :: (text ++ text')) (.openArray :: (ts ++ ts')) (.array (value :: items)) where
  spells := .cons rfl (by decide) (h.spells.append h' hmarked)
  builds outer rest := by
    rw [List.cons_append, List.append_assoc, build_openArray (h.starts _), h.builds, hitems]
    rfl
  starts := nofun

theorem Written.object (name : String) {members : List (String × Json)} (h : Written text ts value)
    (h' : Spells text' ts') (hmarked : Marked text') (hmembers : BuildsMembers ts' members) :
    Written ('\x7b' :: ((stringParts name).flatMap String.toList ++ ':' :: (text ++ text')))
      (.openObject :: .string name :: .colon :: (ts ++ ts'))
      (.object ((name, value) :: members)) where
  spells := .cons rfl (by decide) (h.member name h' hmarked)
  builds outer rest := by
    rw [List.cons_append, List.cons_append, List.cons_append, build, List.append_assoc, h.builds,
      hmembers]
    rfl
  starts := nofun

end

mutual

/-- Values are read back. By induction on the value, along with the rests of arrays and objects. -/
theorem exists_written : (j : Json) → ∃ ts, Written (j.parts.flatMap String.toList) ts j
  | .bool value => ⟨_, .word (by simpa [parts] using spells_bool value)⟩
  | .number n => ⟨_, .word (by simpa [parts] using spells_number n)⟩
  | .string text => ⟨_, .string text⟩
  | .array [] => ⟨_, .emptyArray⟩
  | .object [] => ⟨_, .emptyObject⟩
  | .array (item :: items) => by
    obtain ⟨ts, hitem⟩ := exists_written item
    obtain ⟨ts', hspells, hmarked, hitems⟩ := exists_items items
    exact ⟨_, by simpa [parts, partsOfItems] using hitem.array hspells hmarked hitems⟩
  | .object ((name, value) :: members) => by
    obtain ⟨ts, hvalue⟩ := exists_written value
    obtain ⟨ts', hspells, hmarked, hmembers⟩ := exists_members members
    exact ⟨_, by
      simpa [parts, partsOfMembers] using hvalue.object name hspells hmarked hmembers⟩

theorem exists_items : (items : List Json) →
    let text := (partsOfItems false items).flatMap String.toList ++ [']']
    ∃ ts, Spells text ts ∧ Marked text ∧ BuildsItems ts items
  | [] => ⟨_, .mark rfl (by decide), marked_cons rfl [], builds_items_nil⟩
  | item :: items => by
    intro text
    obtain ⟨ts, hitem⟩ := exists_written item
    obtain ⟨ts', hspells, hmarked, hitems⟩ := exists_items items
    have htext : text = ',' :: (item.parts.flatMap String.toList ++
        ((partsOfItems false items).flatMap String.toList ++ [']'])) := by
      simp [text, partsOfItems]
    rw [htext]
    exact ⟨_, .cons rfl (by decide) (hitem.spells.append hspells hmarked),
      marked_cons rfl _, .cons hitem.builds hitems⟩

theorem exists_members : (members : List (String × Json)) →
    let text := (partsOfMembers false members).flatMap String.toList ++ ['\x7d']
    ∃ ts, Spells text ts ∧ Marked text ∧ BuildsMembers ts members
  | [] => ⟨_, .mark rfl (by decide), marked_cons rfl [], builds_members_nil⟩
  | (name, value) :: members => by
    intro text
    obtain ⟨ts, hvalue⟩ := exists_written value
    obtain ⟨ts', hspells, hmarked, hmembers⟩ := exists_members members
    have htext : text = ',' :: ((stringParts name).flatMap String.toList ++
        ':' :: (value.parts.flatMap String.toList ++
          ((partsOfMembers false members).flatMap String.toList ++ ['\x7d']))) := by
      simp [text, partsOfMembers]
    rw [htext]
    exact ⟨_, .cons rfl (by decide) (hvalue.member name hspells hmarked),
      marked_cons rfl _, hmembers.cons hvalue.builds⟩

end

theorem toList_text (j : Json) : j.text.toList = j.parts.flatMap String.toList := by
  simp [text, String.toList_join]

/-- What is written for a value reads as this value. -/
theorem read?_text (j : Json) : read? j.text = some j := by
  obtain ⟨ts, hj⟩ := exists_written j
  have htokens : tokensFrom (.outside []) (j.text.toList ++ []) = some (ts ++ []) := by
    rw [toList_text]
    exact hj.spells.tokens [] (.inl rfl)
  have hbuild : build [] none (ts ++ []) = some j := hj.builds [] []
  rw [List.append_nil] at htokens
  rw [read?, htokens]
  exact hbuild

example : (read? "[1, \x7b\"a\\u0062\" : [true]\x7d]").map text =
    some "[1,\x7b\"ab\":[true]\x7d]" := by
  decide +kernel

/-- What is written for a value stands on one line. -/
theorem visible_text (j : Json) : ∀ c ∈ j.text.toList, 32 ≤ c.toNat := by
  obtain ⟨ts, hj⟩ := exists_written j
  rw [toList_text]
  exact hj.spells.visible

end LayeredSets.Text.Json
