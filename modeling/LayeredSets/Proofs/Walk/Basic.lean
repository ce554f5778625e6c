import LayeredSets.Token.Cursor
import Mathlib

/-!
# Walks

A reader goes along its input with a cursor, in loops and in rules that call each other, and nothing
in how it is written says that it ever ends. A walk is such a computation: it is cut off where its
rounds and calls are nested deeper than its fuel allows, and it writes down where its loops come
round, where its rules are called and where its cursor is advanced.

What is to be shown of a walk is that with enough fuel it ends, with a given outcome and a log that
is in order: the cursor goes one way, and whenever a loop comes round or a rule is called again, the
cursor has been advanced since.
-/

namespace LayeredSets

/-- What is read from the front, item by item. -/
class Source (σ : Type) where
  size : σ → Nat
  /-- What is left behind the first items. -/
  drop : Nat → σ → σ
  drop_zero : ∀ s, drop 0 s = s
  drop_drop : ∀ m n s, drop m (drop n s) = drop (n + m) s
  size_drop : ∀ n s, size (drop n s) = size s - n

instance {α : Type} : Source (List α) where
  size := List.length
  drop := List.drop
  drop_zero _ := List.drop_zero
  drop_drop m n s := by rw [List.drop_drop]
  size_drop n s := List.length_drop

instance : Source Tokens where
  size := Tokens.size
  drop n ts := { ts with items := ts.items.drop n }
  drop_zero _ := rfl
  drop_drop m n ts := by simp only [List.drop_drop]
  size_drop n ts := List.length_drop

namespace Cursor

/-- What is written down, with the position of the cursor. -/
inductive Event (ι : Type)
  | advance (position : Nat)
  /-- A loop comes round, or a rule is called. -/
  | visit (place : ι) (position : Nat)

namespace Event

variable {ι : Type}

def position : Event ι → Nat
  | advance position | visit _ position => position

def advance? : Event ι → Option Nat
  | advance position => some position
  | visit _ _ => none

def visit? [DecidableEq ι] (place : ι) : Event ι → Option Nat
  | advance _ => none
  | visit place' position => if place' = place then some position else none

end Event

end Cursor

/-- How far an input has been read, and what has been done so far. -/
structure Cursor (ι : Type) {σ : Type} (input : σ) where
  position : Nat
  log : List (Cursor.Event ι)

/-- A computation that moves a cursor and may be cut off. -/
abbrev Walk (ι : Type) {σ : Type} (input : σ) (α : Type) : Type :=
  ExceptT ParseError (StateT (Cursor ι input) Option) α

section

variable {ι σ α β : Type} {input : σ}

namespace Cursor

def start : Cursor ι input := ⟨0, []⟩

/-- The positions that the cursor was advanced from. -/
def advances (c : Cursor ι input) : List Nat := c.log.filterMap Event.advance?

/-- The positions at which a loop came round, or a rule was called. -/
def visits [DecidableEq ι] (place : ι) (c : Cursor ι input) : List Nat :=
  c.log.filterMap (Event.visit? place)

def note (e : Event ι) (c : Cursor ι input) : Cursor ι input := { c with log := c.log ++ [e] }

variable [Source σ]

/-- What has not been read yet. -/
def left (c : Cursor ι input) : σ := Source.drop c.position input

/-- The cursor stays at the end once it is there. -/
def advance (c : Cursor ι input) : Cursor ι input :=
  { c.note (.advance c.position) with
    position := if c.position < Source.size input then c.position + 1 else c.position }

/-- The cursor has gone one way and not over the end, and it has been advanced between any two
visits to the same place. -/
structure Orderly [DecidableEq ι] (c : Cursor ι input) : Prop where
  inside : c.position ≤ Source.size input
  behind : ∀ e ∈ c.log, e.position ≤ c.position
  forward : (c.log.map Event.position).SortedLE
  /-- It was advanced over each item that it has left behind, and over each only once. -/
  advances : c.advances = List.range c.position
  progress : ∀ place, (c.visits place).SortedLT

end Cursor

namespace Cursor

theorem advances_note (e : Event ι) (c : Cursor ι input) :
    (c.note e).advances = c.advances ++ e.advance?.toList := by
  cases e <;> simp [note, advances, Event.advance?]

theorem visits_note [DecidableEq ι] (place : ι) (e : Event ι) (c : Cursor ι input) :
    (c.note e).visits place = c.visits place ++ (e.visit? place).toList := by
  simp only [note, visits, List.filterMap_append, List.filterMap_cons, List.filterMap_nil]
  cases e.visit? place <;> rfl

theorem mem_visits [DecidableEq ι] {c : Cursor ι input} {place : ι} {position : Nat} :
    position ∈ c.visits place ↔ .visit place position ∈ c.log := by
  constructor
  · intro h
    obtain ⟨e, he, hposition⟩ := List.mem_filterMap.mp h
    cases e with
    | advance _ => cases hposition
    | visit place' position' =>
      obtain ⟨rfl, hsame⟩ := Option.ite_none_right_eq_some.mp hposition
      exact Option.some.inj hsame ▸ he
  · exact fun h => List.mem_filterMap.mpr ⟨_, h, if_pos rfl⟩

variable [Source σ] {c : Cursor ι input}

theorem size_left (c : Cursor ι input) : Source.size c.left = Source.size input - c.position :=
  Source.size_drop ..

theorem left_advance (h : c.position < Source.size input) :
    c.advance.left = Source.drop 1 c.left := by
  rw [left, left, Source.drop_drop, advance, if_pos h]

namespace Orderly

variable [DecidableEq ι]

theorem start : (start : Cursor ι input).Orderly where
  inside := Nat.zero_le _
  behind := by simp [Cursor.start]
  forward := List.Pairwise.nil.sortedLE
  advances := rfl
  progress _ := List.Pairwise.nil.sortedLT

/-- What is written down last is not behind what has been written down before. -/
theorem forward_concat (h : c.Orderly) {e : Event ι} (he : e.position = c.position) :
    ((c.log ++ [e]).map Event.position).SortedLE := by
  rw [List.map_append, List.map_singleton]
  refine (List.pairwise_append.mpr ⟨h.forward.pairwise, List.pairwise_singleton .., ?_⟩).sortedLE
  rintro _ hmem _ hlast
  obtain ⟨e', he', rfl⟩ := List.mem_map.mp hmem
  rw [List.mem_singleton.mp hlast, he]
  exact h.behind e' he'

theorem advance (h : c.Orderly) (hleft : c.position < Source.size input) : c.advance.Orderly := by
  have hposition : c.advance.position = c.position + 1 := if_pos hleft
  constructor
  · rw [hposition]
    exact hleft
  · intro e he
    rw [hposition]
    rcases List.mem_append.mp he with he | he
    · exact (h.behind e he).trans (Nat.le_succ _)
    · rw [List.mem_singleton.mp he]
      exact Nat.le_succ _
  · exact h.forward_concat rfl
  · rw [hposition, List.range_succ, ← h.advances]
    exact advances_note (.advance c.position) c
  · intro place
    have hsame := visits_note place (.advance c.position) c
    rw [show (Event.advance c.position).visit? place = none from rfl, Option.toList_none,
      List.append_nil] at hsame
    exact hsame ▸ h.progress place

theorem visit (h : c.Orderly) {place : ι} (hnew : .visit place c.position ∉ c.log) :
    (c.note (.visit place c.position)).Orderly := by
  constructor
  · exact h.inside
  · intro e he
    rcases List.mem_append.mp he with he | he
    · exact h.behind e he
    · rw [List.mem_singleton.mp he]
      rfl
  · exact h.forward_concat rfl
  · rw [advances_note]
    exact (List.append_nil _).trans h.advances
  · intro place'
    rw [visits_note, Event.visit?]
    split
    · next hplace =>
      subst hplace
      refine (List.pairwise_append.mpr
        ⟨(h.progress place).pairwise, List.pairwise_singleton .., ?_⟩).sortedLT
      rintro position hmem _ hlast
      obtain rfl := List.mem_singleton.mp hlast
      have hbefore := mem_visits.mp hmem
      refine lt_of_le_of_ne (h.behind _ hbefore) ?_
      rintro rfl
      exact hnew hbefore
    · simpa using h.progress place'

end Orderly

end Cursor

namespace Walk

variable [Source σ]

/-- Look at what has not been read yet. -/
def look (g : σ → α) : Walk ι input α := do
  let c ← get
  return g c.left

def advance : Walk ι input Unit := modify Cursor.advance

/-- There is no fuel left. -/
def cutOff : Walk ι input α := fun _ => none

def visit (place : ι) : Walk ι input Unit := modify fun c => c.note (.visit place c.position)

end Walk

/-! ## How walks end -/

/-- Places that are visited one after the other with no item between them have ranks that go
down. -/
class Ranked (ι : Type) where
  rank : ι → Nat
  height : Nat
  rank_lt : ∀ place, rank place < height

/-- No place of a rank below `n` has been visited since the last item. -/
def Cursor.Clear [Ranked ι] (n : Nat) (c : Cursor ι input) : Prop :=
  ∀ place, Ranked.rank place < n → .visit place c.position ∉ c.log

namespace Cursor

variable [Ranked ι] {c : Cursor ι input} {n : Nat}

theorem clear_start (n : Nat) : (start : Cursor ι input).Clear n := fun _ _ => List.not_mem_nil

theorem Clear.mono (h : c.Clear n) {n' : Nat} (hle : n' ≤ n) : c.Clear n' :=
  fun place hplace => h place (hplace.trans_le hle)

theorem Clear.visit {place : ι} (h : c.Clear n) (hplace : Ranked.rank place ≤ n) :
    (c.note (.visit place c.position)).Clear (Ranked.rank place) := by
  intro place' hlt hmem
  rcases List.mem_append.mp hmem with hmem | hmem
  · exact h place' (hlt.trans_le hplace) hmem
  · obtain ⟨rfl, -⟩ := Event.visit.inj (List.mem_singleton.mp hmem)
    exact lt_irrefl _ hlt

/-- In front of an item that is come to for the first time nothing has been visited. -/
theorem Orderly.clear_advance [DecidableEq ι] [Source σ] (h : c.Orderly)
    (hleft : c.position < Source.size input) : c.advance.Clear n := by
  intro place _ hmem
  rw [Cursor.advance, if_pos hleft] at hmem
  rcases List.mem_append.mp hmem with hmem | hmem
  · exact absurd (h.behind _ hmem) (Nat.not_succ_le_self c.position)
  · cases List.mem_singleton.mp hmem

end Cursor

namespace Walk

variable {m : Walk ι input α}

theorem bind_of_ok {k : α → Walk ι input β} {c c' : Cursor ι input} {a : α}
    (h : m c = some (.ok a, c')) : (m >>= k) c = k a c' := by
  change (m c >>= fun r => ExceptT.bindCont k r.1 r.2) = _
  rw [h]
  rfl

theorem bind_of_error {k : α → Walk ι input β} {c c' : Cursor ι input} {e : ParseError}
    (h : m c = some (.error e, c')) : (m >>= k) c = some (.error e, c') := by
  change (m c >>= fun r => ExceptT.bindCont k r.1 r.2) = _
  rw [h]
  rfl

variable [Ranked ι] [Source σ]

/-- How many visits there can be in front of `s` and behind it, if none to a place below `n` has
been in front of it. -/
def budget (ι : Type) [Ranked ι] (n : Nat) (s : σ) : Nat :=
  Ranked.height ι * Source.size s + min n (Ranked.height ι)

theorem budget_mono {n n' : Nat} (hle : n' ≤ n) (s : σ) : budget ι n' s ≤ budget ι n s := by
  rw [budget, budget]
  omega

theorem budget_visit {n : Nat} {place : ι} (hplace : Ranked.rank place < n) (s : σ) :
    budget ι (Ranked.rank place) s + 1 ≤ budget ι n s := by
  have hheight := Ranked.rank_lt place
  rw [budget, budget]
  omega

theorem budget_advance {s : σ} (hs : 0 < Source.size s) (n k : Nat) :
    budget ι k (Source.drop 1 s) ≤ budget ι n s := by
  obtain ⟨size, hsize⟩ := Nat.exists_eq_succ_of_ne_zero hs.ne'
  rw [budget, budget, Source.size_drop, hsize, Nat.succ_sub_one, Nat.mul_succ]
  omega

variable [DecidableEq ι]

/-- With more fuel than `spare`, a walk has ended in order: with this value and in front of this
rest, where it is clear up to `n` and less fuel may do, or with this error. -/
inductive Ended (n spare : Nat) (outcome : Nat → Option (Except ParseError α × Cursor ι input)) :
    Except ParseError (α × σ) → Prop
  | ok {a : α} {c : Cursor ι input} (h : ∀ fuel, spare ≤ fuel → outcome fuel = some (.ok a, c))
    (horder : c.Orderly) (hclear : c.Clear n) (hspare : budget ι n c.left ≤ spare) :
    Ended n spare outcome (.ok (a, c.left))
  | error {e : ParseError} {c : Cursor ι input}
    (h : ∀ fuel, spare ≤ fuel → outcome fuel = some (.error e, c)) (horder : c.Orderly) :
    Ended n spare outcome (.error e)

/-- From each cursor that has come in front of `s` in order and is clear up to `n`, the walk ends
with what `f` makes of `s`, if it has the fuel. -/
def Ends (n n' : Nat) (m : Nat → Walk ι input α) (f : StateT σ (Except ParseError) α) (s : σ) :
    Prop :=
  ∀ c, c.left = s → c.Orderly → c.Clear n → Ended n' (budget ι n s) (fun fuel => m fuel c) (f s)

namespace Ended

variable {n n' spare spare' : Nat}
  {outcome outcome' : Nat → Option (Except ParseError α × Cursor ι input)}
  {r : Except ParseError (α × σ)}

theorem weaken (h : Ended n spare outcome r) (hn : n' ≤ n) : Ended n' spare outcome r := by
  cases h with
  | ok h horder hclear hspare =>
    exact .ok h horder (hclear.mono hn) ((budget_mono hn _).trans hspare)
  | error h horder => exact .error h horder

/-- It takes more fuel to do the same later. -/
theorem later (h : Ended n spare outcome r) (hspare : spare ≤ spare')
    (hend : ∀ fuel, spare' ≤ fuel → ∃ fuel', spare ≤ fuel' ∧ outcome' fuel = outcome fuel') :
    Ended n spare' outcome' r := by
  have hsame {e : Except ParseError α × Cursor ι input}
      (h : ∀ fuel, spare ≤ fuel → outcome fuel = some e) (fuel : Nat) (hfuel : spare' ≤ fuel) :
      outcome' fuel = some e := by
    obtain ⟨fuel', hfuel', heq⟩ := hend fuel hfuel
    exact heq.trans (h fuel' hfuel')
  cases h with
  | ok h horder hclear hle => exact .ok (hsame h) horder hclear (hle.trans hspare)
  | error h horder => exact .error (hsame h) horder

end Ended

namespace Ends

variable {n k n' : Nat} {s : σ} {m : Nat → Walk ι input α}
  {f f' : StateT σ (Except ParseError) α}

theorem congr (h : Ends n n' m f' s) (hf : f s = f' s) : Ends n n' m f s := by
  rwa [Ends, hf]

theorem mono (h : Ends k n' m f s) (hle : k ≤ n) : Ends n n' m f s :=
  fun c hc horder hclear => (h c hc horder (hclear.mono hle)).later (budget_mono hle s)
    fun fuel hfuel => ⟨fuel, (budget_mono hle s).trans hfuel, rfl⟩

theorem weaken (h : Ends n k m f s) (hle : n' ≤ k) : Ends n n' m f s :=
  fun c hc horder hclear => (h c hc horder hclear).weaken hle

theorem pure (a : α) (s : σ) :
    Ends n n (fun _ => Pure.pure a : Nat → Walk ι input α) (Pure.pure a) s := by
  rintro c rfl horder hclear
  exact .ok (fun _ _ => rfl) horder hclear le_rfl

theorem throw {e : ParseError} (hf : f s = .error e) :
    Ends n n' (fun _ => MonadExcept.throw e : Nat → Walk ι input α) f s := by
  intro c _ horder _
  rw [hf]
  exact .error (fun _ _ => rfl) horder

theorem bind {g : α → Nat → Walk ι input β} {h : α → StateT σ (Except ParseError) β}
    (hm : Ends n k m f s) (hg : ∀ a rest, f s = .ok (a, rest) → Ends k n' (g a) (h a) rest) :
    Ends n n' (fun fuel => m fuel >>= fun a => g a fuel) (f >>= h) s := by
  intro c hc horder hclear
  change Ended n' _ _ (f s >>= fun r => h r.1 r.2)
  have hend := hm c hc horder hclear
  generalize f s = r at hend hg ⊢
  cases hend with
  | @ok a c' hend horder' hclear' hspare =>
    exact (hg a c'.left rfl c' rfl horder' hclear').later hspare fun fuel hfuel =>
      ⟨fuel, hspare.trans hfuel, bind_of_ok (hend fuel hfuel)⟩
  | error hend horder' =>
    exact .error (fun fuel hfuel => bind_of_error (hend fuel hfuel)) horder'

theorem look {w : σ → β} {g : β → Nat → Walk ι input α} (h : Ends n n' (g (w s)) f s) :
    Ends n n' (fun fuel => look w >>= fun b => g b fuel) f s := by
  rintro c rfl horder hclear
  exact h c rfl horder hclear

theorem visit {w : Nat → Walk ι input α} {place : ι}
    (hw : ∀ fuel, w (fuel + 1) = do visit place; m fuel) (hplace : Ranked.rank place < n)
    (h : Ends (Ranked.rank place) n' m f s) : Ends n n' w f s := by
  intro c hc horder hclear
  have hbudget := budget_visit hplace s
  refine (h (c.note (.visit place c.position)) hc (horder.visit (hclear place hplace))
    (hclear.visit hplace.le)).later (Nat.le_of_succ_le hbudget) fun fuel hfuel => ?_
  obtain ⟨fuel, rfl⟩ := Nat.exists_eq_add_of_le' (hbudget.trans hfuel)
  exact ⟨fuel + budget ι (Ranked.rank place) s, Nat.le_add_left _ _, congrFun (hw _) c⟩

theorem advance (hs : 0 < Source.size s) (h : Ends k n' m f' (Source.drop 1 s))
    (hf : f s = f' (Source.drop 1 s)) : Ends n n' (fun fuel => do advance; m fuel) f s := by
  rintro c rfl horder hclear
  have hleft : c.position < Source.size input := by
    rw [Cursor.size_left] at hs
    omega
  have hbudget := budget_advance (ι := ι) hs n k
  rw [hf]
  exact (h _ (Cursor.left_advance hleft) (horder.advance hleft)
    (horder.clear_advance hleft)).later hbudget fun fuel hfuel =>
      ⟨fuel, hbudget.trans hfuel, rfl⟩

end Ends

end Walk

end

end LayeredSets
