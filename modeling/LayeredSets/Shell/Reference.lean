import LayeredSets.Shell.Word

/-!
# Parameters in braces

What is written between the braces of a parameter: which parameter is meant, and what is done with
its value before it is put in. The extended dialect knows elements of lists, names taken from
values, and more that can be done.
-/

namespace LayeredSets.Shell

/-- Where in a value a pattern has to fit. -/
inductive Edge
  | anywhere
  | front
  | back
  deriving DecidableEq, Repr

/-- What is done with the value of a parameter. With `orEmpty`, an empty value counts like none. -/
inductive Adjustment
  | plain
  | length
  | orElse (orEmpty : Bool) (word : Word)
  | orAssign (orEmpty : Bool) (word : Word)
  | orFail (orEmpty : Bool) (word : Word)
  | insteadOf (orEmpty : Bool) (word : Word)
  | dropFront (longest : Bool) (pattern : Word)
  | dropBack (longest : Bool) (pattern : Word)
  | replace (edge : Edge) (all : Bool) (pattern replacement : Word)
  /-- Take so many characters or elements from a place on. -/
  | slice (start : Word) (count : Option Word)
  /-- Change the case of the first character or of all. -/
  | recase (upper all : Bool)
  /-- Quote, so that the value can be read again. -/
  | requote
  /-- The keys of the elements in place of the elements. -/
  | keys
  /-- The names of all variables that begin like this. -/
  | namesFrom
  deriving DecidableEq, Repr

structure Reference where
  target : Target
  /-- Is the value the name of the parameter that is meant? -/
  indirect : Bool
  adjustment : Adjustment
  deriving DecidableEq, Repr

namespace Reference

/-- The name at the front of a text, if there is one. -/
def name? (cs : List Char) : Option (String × List Char) :=
  let take (p : Char → Bool) := some (String.ofList (cs.takeWhile p), cs.dropWhile p)
  match cs with
  | [] => none
  | c :: rest =>
    if isNameStart c then take isNameChar
    else if c.isDigit then take Char.isDigit
    else if Part.isSign c then some (c.toString, rest)
    else none

/-- The text up to an unquoted character, and the text after that if there is one. -/
def cutAt (dialect : Dialect) (stop : Char) : Nat → List Char → List Char × Option (List Char)
  | 0, cs => (cs, none)
  | _, [] => ([], none)
  | fuel + 1, c :: rest =>
    let keep (front rest : List Char) : List Char × Option (List Char) :=
      let (text, after) := cutAt dialect stop fuel rest
      (front ++ text, after)
    match c, rest with
    | '\\', d :: rest => keep [c, d] rest
    | c, rest =>
      if c == stop then ([], some rest)
      else match opened? dialect .plain (c :: rest) with
        | some (nest, length) =>
          match enclosed dialect length [nest] (c :: rest) with
          | .ok (text, rest) => keep text rest
          | .error _ => (c :: rest, none)
        | none => keep [c] rest

/-- The parameter or element at the front of a text, if there is one. -/
def target? (dialect : Dialect) (cs : List Char) : Option (Target × List Char) := do
  let (name, rest) ← name? cs
  match dialect, rest with
  | .extended, '[' :: inner =>
    match cutAt dialect ']' inner.length inner with
    | (index, some rest) => return (⟨name, some index⟩, rest)
    | (_, none) => none
  | _, _ => return (⟨name, none⟩, rest)

def adjustment? (dialect : Dialect) : List Char → Option Adjustment
  | [] => some .plain
  | ':' :: '-' :: word => some (.orElse true word)
  | '-' :: word => some (.orElse false word)
  | ':' :: '=' :: word => some (.orAssign true word)
  | '=' :: word => some (.orAssign false word)
  | ':' :: '?' :: word => some (.orFail true word)
  | '?' :: word => some (.orFail false word)
  | ':' :: '+' :: word => some (.insteadOf true word)
  | '+' :: word => some (.insteadOf false word)
  | '#' :: '#' :: pattern => some (.dropFront true pattern)
  | '#' :: pattern => some (.dropFront false pattern)
  | '%' :: '%' :: pattern => some (.dropBack true pattern)
  | '%' :: pattern => some (.dropBack false pattern)
  | c :: rest =>
    let cut (stop : Char) (cs : List Char) := cutAt dialect stop cs.length cs
    let replace (edge : Edge) (all : Bool) (cs : List Char) : Option Adjustment :=
      let (pattern, replacement) := cut '/' cs
      some (.replace edge all pattern (replacement.getD []))
    match dialect, c, rest with
    | .extended, '/', '/' :: rest => replace .anywhere true rest
    | .extended, '/', '#' :: rest => replace .front false rest
    | .extended, '/', '%' :: rest => replace .back false rest
    | .extended, '/', rest => replace .anywhere false rest
    | .extended, ':', rest =>
      let (start, count) := cut ':' rest
      some (.slice start count)
    | .extended, '^', '^' :: _ => some (.recase true true)
    | .extended, '^', _ => some (.recase true false)
    | .extended, ',', ',' :: _ => some (.recase false true)
    | .extended, ',', _ => some (.recase false false)
    | .extended, '@', ['Q'] => some .requote
    | .extended, '@', ['U'] => some (.recase true true)
    | .extended, '@', ['u'] => some (.recase true false)
    | .extended, '@', ['L'] => some (.recase false true)
    | _, _, _ => none

/-- Are all elements of a list meant, or all parameters? -/
def isAll (target : Target) : Bool :=
  target.index == some ['@'] || target.index == some ['*'] ||
    target.index.isNone && (target.name == "@" || target.name == "*")

/-- Read what follows an exclamation mark. -/
def indirect? (cs : List Char) : Option Reference := do
  let (target, rest) ← target? .extended cs
  if isAll target && target.index.isSome && rest.isEmpty then return ⟨target, false, .keys⟩
  else if rest == ['@'] || rest == ['*'] then
    return ⟨{ target with index := some rest }, false, .namesFrom⟩
  else return ⟨target, true, ← adjustment? .extended rest⟩

/-- Read what stands in the braces of a parameter. -/
def parse? (dialect : Dialect) (inner : List Char) : Option Reference :=
  let lengthOf : Option Reference :=
    match inner with
    | '#' :: cs =>
      match target? dialect cs with
      | some (target, []) => some ⟨target, false, .length⟩
      | _ => none
    | _ => none
  let plainly : Option Reference := do
    let (target, rest) ← target? dialect inner
    return ⟨target, false, ← adjustment? dialect rest⟩
  match dialect, inner with
  | .extended, '!' :: c :: rest =>
    if isNameStart c || c.isDigit || c == '#' || c == '@' then indirect? (c :: rest)
    else plainly
  | _, _ => lengthOf.or plainly

end Reference
end LayeredSets.Shell
