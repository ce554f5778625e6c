/-!
# Character classes

Sets of characters as they are written between square brackets in patterns: single characters,
ranges and named classes, all of it possibly negated.
-/

namespace LayeredSets

structure CharClass where
  negated : Bool
  ranges : List (Char × Char)
  deriving DecidableEq, Repr

namespace CharClass

def contains (s : CharClass) (c : Char) : Bool :=
  s.ranges.any (fun (low, high) => low ≤ c && c ≤ high) != s.negated

/-- The classes that have names. -/
def named? (name : String) : Option (List (Char × Char)) :=
  match name with
  | "alpha" => some [('A', 'Z'), ('a', 'z')]
  | "digit" => some [('0', '9')]
  | "alnum" => some [('0', '9'), ('A', 'Z'), ('a', 'z')]
  | "upper" => some [('A', 'Z')]
  | "lower" => some [('a', 'z')]
  | "space" => some [('\t', '\r'), (' ', ' ')]
  | "blank" => some [('\t', '\t'), (' ', ' ')]
  | "punct" => some [('!', '/'), (':', '@'), ('[', '\x60'), ('\x7b', '~')]
  | "print" => some [(' ', '~')]
  | "graph" => some [('!', '~')]
  | "cntrl" => some [('\x00', '\x1f'), ('\x7f', '\x7f')]
  | "xdigit" => some [('0', '9'), ('A', 'F'), ('a', 'f')]
  | _ => none

/-- The name of a class up to its closing `:]`, and what follows. -/
def nameEnd : List Char → Option (List Char × List Char)
  | ':' :: ']' :: rest => some ([], rest)
  | c :: rest => (nameEnd rest).map fun (name, rest) => (c :: name, rest)
  | [] => none

theorem length_nameEnd {cs name rest : List Char} (h : nameEnd cs = some (name, rest)) :
    rest.length < cs.length := by
  fun_induction nameEnd cs generalizing name rest with
  | case1 =>
    simp only [Option.some.injEq, Prod.mk.injEq] at h
    obtain ⟨_, rfl⟩ := h
    simp only [List.length_cons]
    omega
  | case2 c tail _ ih =>
    simp only [Option.map_eq_some_iff, Prod.exists, Prod.mk.injEq] at h
    obtain ⟨_, _, hb, _, rfl⟩ := h
    have := ih hb
    simp only [List.length_cons]
    omega
  | case3 => simp at h

/-- The items of a class up to its closing bracket, and what follows. A bracket that comes first
closes nothing. -/
def items (isFirst : Bool) (cs : List Char) : Option (List (Char × Char) × List Char) :=
  match cs with
  | [] => none
  | ']' :: rest =>
    if isFirst then (items false rest).map fun (rs, rest) => ((']', ']') :: rs, rest)
    else some ([], rest)
  | '[' :: ':' :: rest =>
    match _h : nameEnd rest with
    | some (name, after) => do
      let members ← named? (String.ofList name)
      let (rs, rest) ← items false after
      return (members ++ rs, rest)
    | none => (items false (':' :: rest)).map fun (rs, rest) => (('[', '[') :: rs, rest)
  | low :: '-' :: high :: rest =>
    if high == ']' then
      (items false ('-' :: high :: rest)).map fun (rs, rest) => ((low, low) :: rs, rest)
    else (items false rest).map fun (rs, rest) => ((low, high) :: rs, rest)
  | c :: rest => (items false rest).map fun (rs, rest) => ((c, c) :: rs, rest)
termination_by cs.length
decreasing_by
  all_goals simp only [List.length_cons]
  all_goals first
    | omega
    | have := length_nameEnd _h
      omega

/-- The class after an opening bracket, and what follows it. One of `negators` in front negates. -/
def parse? (negators : List Char) (cs : List Char) : Option (CharClass × List Char) :=
  let negated := cs.head?.any negators.contains
  (items true (if negated then cs.tail else cs)).map fun (rs, rest) => (⟨negated, rs⟩, rest)

end CharClass
end LayeredSets
