/-!
# JSON

JSON values and their text, which has no blanks. Within a string quotes, backslashes and the control
characters below the space are escaped, the latter by a letter where JSON has one; all else stands
for itself.
-/

namespace LayeredSets.Text

inductive Json
  | bool (value : Bool)
  | number (value : Nat)
  | string (value : String)
  | array (items : List Json)
  | object (members : List (String × Json))

namespace Json

def hexFour (n : Nat) : List Char :=
  let digits := Nat.toDigits 16 n
  List.replicate (4 - digits.length) '0' ++ digits

def isEscaped (c : Char) : Bool := c == '"' || c == '\\' || c.toNat < 32

/-- A character as it stands in a string. -/
def escape (c : Char) : List Char :=
  if c == '"' then ['\\', '"']
  else if c == '\\' then ['\\', '\\']
  else if c == '\n' then ['\\', 'n']
  else if c == '\r' then ['\\', 'r']
  else if c == '\t' then ['\\', 't']
  else if c == Char.ofNat 8 then ['\\', 'b']
  else if c == Char.ofNat 12 then ['\\', 'f']
  else if c.toNat < 32 then '\\' :: 'u' :: hexFour c.toNat
  else [c]

/-- Put a character in front of fragments, into the first of them if that `goesOn`. -/
def attach (c : Char) (goesOn : Bool) : List (List Char) → List (List Char)
  | [] => [[c]]
  | run :: others => if goesOn then (c :: run) :: others else [c] :: run :: others

theorem flatten_attach (c : Char) (goesOn : Bool) (runs : List (List Char)) :
    (attach c goesOn runs).flatten = c :: runs.flatten := by
  cases runs <;> cases goesOn <;> rfl

/-- The characters of a string, cut before and after each one that is escaped. -/
def fragments : List Char → List (List Char)
  | [] => []
  | c :: rest =>
    if isEscaped c then escape c :: fragments rest
    else attach c (rest.head?.any (!isEscaped ·)) (fragments rest)

theorem escape_of_not_isEscaped {c : Char} (h : isEscaped c = false) : escape c = [c] := by
  simp only [isEscaped, Bool.or_eq_false_iff, beq_eq_false_iff_ne, decide_eq_false_iff_not,
    Nat.not_lt] at h
  obtain ⟨⟨quote, backslash⟩, control⟩ := h
  have low (d : Char) (hd : d.toNat < 32) : c ≠ d := by
    rintro rfl
    omega
  simp [escape, quote, backslash, low '\n' (by decide), low '\r' (by decide),
    low '\t' (by decide), low (Char.ofNat 8) (by decide), low (Char.ofNat 12) (by decide), control]

theorem flatten_fragments (cs : List Char) : (fragments cs).flatten = cs.flatMap escape := by
  induction cs with
  | nil => rfl
  | cons c rest ih =>
    cases h : isEscaped c
    · simp [fragments, h, flatten_attach, ih, escape_of_not_isEscaped h]
    · simp [fragments, h, ih]

def stringParts (text : String) : List String :=
  "\"" :: (fragments text.toList).map String.ofList ++ ["\""]

mutual

/-- The text in parts: each mark, each number and each fragment of a string is one. -/
def parts : Json → List String
  | bool value => [if value then "true" else "false"]
  | number value => [toString value]
  | string value => stringParts value
  | array items => "[" :: partsOfItems true items ++ ["]"]
  | object members => "\x7b" :: partsOfMembers true members ++ ["\x7d"]

def partsOfItems (isFirst : Bool) : List Json → List String
  | [] => []
  | item :: rest =>
    (if isFirst then [] else [","]) ++ item.parts ++ partsOfItems false rest

def partsOfMembers (isFirst : Bool) : List (String × Json) → List String
  | [] => []
  | (name, value) :: rest =>
    (if isFirst then [] else [","]) ++ stringParts name ++ [":"] ++ value.parts ++
      partsOfMembers false rest

end

def text (j : Json) : String := String.join j.parts

end Json
end LayeredSets.Text
