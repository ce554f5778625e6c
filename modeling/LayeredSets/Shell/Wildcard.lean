import LayeredSets.Text.CharClass

/-!
# Wildcards

Patterns for names: a star stands for any text, a question mark for any character, and a class in
brackets for one of its members. A quoted character stands for itself.
-/

namespace LayeredSets.Shell

inductive Wildcard
  | char (c : Char)
  | one
  | many
  | oneOf (members : CharClass)
  deriving DecidableEq, Repr

namespace Wildcard

/-- Read a pattern from characters that are marked if they are quoted. -/
def parse : Nat → List (Char × Bool) → List Wildcard
  | 0, _ | _, [] => []
  | fuel + 1, (c, quoted) :: rest =>
    if quoted then char c :: parse fuel rest
    else if c == '*' then many :: parse fuel rest
    else if c == '?' then one :: parse fuel rest
    else if c == '[' then
      match CharClass.parse? ['!', '^'] (rest.map (·.1)) with
      | some (members, after) =>
        oneOf members :: parse fuel (rest.drop (rest.length - after.length))
      | none => char c :: parse fuel rest
    else char c :: parse fuel rest

def ofMarked (cs : List (Char × Bool)) : List Wildcard := parse cs.length cs

/-- Does a character fit? A star takes any, like a question mark. -/
def takes (p : Wildcard) (c : Char) : Bool :=
  match p with
  | char d => c == d
  | one | many => true
  | oneOf members => members.contains c

/-- What is left of a pattern if its stars in front stand for nothing, all possibilities. -/
def withoutStars : List Wildcard → List (List Wildcard)
  | many :: ps => (many :: ps) :: withoutStars ps
  | ps => [ps]

/-- What can be left of patterns after a character. -/
def after (c : Char) (left : List (List Wildcard)) : List (List Wildcard) :=
  let next := left.flatMap fun
    | many :: ps => withoutStars (many :: ps)
    | p :: ps => if p.takes c then withoutStars ps else []
    | [] => []
  next.foldr (fun ps others => if others.any (·.length == ps.length) then others else ps :: others)
    []

/-- Does the whole of a text fit a pattern? -/
def fits (ps : List Wildcard) (cs : List Char) : Bool :=
  (cs.foldl (fun left c => after c left) (withoutStars ps)).any (·.isEmpty)

/-- The lengths of the parts of a text in front that fit, the shortest first. `left` is what can be
left of the pattern after `n` characters. -/
def lengthsFrom (n : Nat) (left : List (List Wildcard)) : List Char → List Nat
  | [] => if left.any (·.isEmpty) then [n] else []
  | c :: rest =>
    let longer := if left.all (·.isEmpty) then [] else lengthsFrom (n + 1) (after c left) rest
    if left.any (·.isEmpty) then n :: longer else longer

def lengths (ps : List Wildcard) (cs : List Char) : List Nat := lengthsFrom 0 (withoutStars ps) cs

/-- Does a pattern ask for more than itself? -/
def isOpen (ps : List Wildcard) : Bool :=
  ps.any fun
    | char _ => false
    | _ => true

/-- How long the part of `cs` in front is that fits: the longest, or else the shortest. -/
def fitting? (ps : List Wildcard) (longest : Bool) (cs : List Char) : Option Nat :=
  if longest then (lengths ps cs).getLast? else (lengths ps cs).head?

/-- Drop the part of `cs` in front that fits: the longest, or else the shortest. -/
def dropFront (ps : List Wildcard) (longest : Bool) (cs : List Char) : List Char :=
  cs.drop ((fitting? ps longest cs).getD 0)

/-- Drop the part of `cs` at its end that fits: the longest, or else the shortest. -/
def dropBack (ps : List Wildcard) (longest : Bool) (cs : List Char) : List Char :=
  (dropFront ps.reverse longest cs.reverse).reverse

/-- Put a text in the place of what fits first or, if `all`, of everything that fits. Nothing is put
in the place of nothing. -/
def replace (ps : List Wildcard) (all : Bool) (new : List Char) : Nat → List Char → List Char
  | 0, cs => cs
  | _, [] => []
  | fuel + 1, c :: rest =>
    match fitting? ps true (c :: rest) with
    | some (n + 1) =>
      new ++ if all then replace ps all new fuel (rest.drop n) else rest.drop n
    | _ => c :: replace ps all new fuel rest

end Wildcard
end LayeredSets.Shell
