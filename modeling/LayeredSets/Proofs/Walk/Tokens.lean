import LayeredSets.Proofs.Token.Lookahead
import LayeredSets.Proofs.Walk.Basic

/-!
# Walks along tokens

The cursor of a parser looks at the next token, advances over it where it fits, and reports it where
it does not. Each of these walks ends as the reader of single tokens with its name does; one that
takes a token may be followed by any visit.
-/

namespace LayeredSets.Walk

variable {ι α β : Type} {input : Tokens}

/-! ## The cursor of a parser -/

def unexpected (wanted : String) : Walk ι input α := do
  throw (← look (Tokens.unexpected · wanted))

/-- Advance over the next token if `p` makes something of it. -/
def takeIf? (p : Token → Option α) : Walk ι input (Option α) := do
  match (← look Tokens.peek?).bind p with
  | some a =>
    advance
    return some a
  | none => return none

def take (p : Token → Option α) (wanted : String) : Walk ι input α := do
  match ← takeIf? p with
  | some a => return a
  | none => unexpected wanted

def eat (token : Token) : Walk ι input Bool := do
  let found ← takeIf? fun t => if t = token then some () else none
  return found.isSome

def expect (token : Token) : Walk ι input Unit :=
  take (fun t => if t = token then some () else none) token.display

/-- Any word that is not reserved. -/
def name (reserved : List String) (wanted : String) : Walk ι input String :=
  take
    (fun
      | .word w => if reserved.contains w then none else some w
      | _ => none)
    wanted

def number? : Walk ι input (Option UInt64) :=
  takeIf? fun
    | .number n => some n
    | _ => none

def number (wanted : String) : Walk ι input UInt64 :=
  take
    (fun
      | .number n => some n
      | _ => none)
    wanted

/-- A positive number below `2 ^ 32`. -/
def width : Walk ι input UInt32 := do
  let start ← look Tokens.position
  let bits ← number "a bit width"
  if 0 < bits ∧ bits.toNat < UInt32.size then return bits.toUInt32
  else throw ⟨start, s!"invalid bit width {bits}"⟩

/-! ## How they end -/

open Tokens (Reader reader reader_apply)

variable [DecidableEq ι] [Ranked ι]

namespace Ends

variable {n k n' : Nat} {ts rest : Tokens} {t : Token} {f f' : Reader β}

theorem drop_one_of_takes (h : ts.Takes [t] rest) :
    0 < Source.size ts ∧ Source.drop 1 ts = rest := by
  obtain ⟨items, hitems, rfl⟩ := h
  obtain ⟨item, rfl, -⟩ := List.map_eq_singleton_iff.mp hitems
  exact ⟨Nat.succ_pos _, rfl⟩

section

variable {p : Token → Option α} {a : α} {g : Option α → Nat → Walk ι input β}

theorem takeIf (h : ts.Takes [t] rest) (ha : p t = some a) (hg : Ends k n' (g (some a)) f' rest)
    (hf : f ts = f' rest) : Ends n n' (fun fuel => takeIf? p >>= fun r => g r fuel) f ts := by
  obtain ⟨hpos, rfl⟩ := drop_one_of_takes h
  simp only [takeIf?, bind_assoc]
  refine .look ?_
  rw [h.peek, Option.bind_some, ha]
  simp only [bind_assoc, pure_bind]
  exact .advance hpos hg hf

theorem takeIf_none (h : ts.peek?.bind p = none) (hg : Ends n n' (g none) f ts) :
    Ends n n' (fun fuel => takeIf? p >>= fun r => g r fuel) f ts := by
  simp only [takeIf?, bind_assoc]
  refine .look ?_
  rw [h]
  simpa only [pure_bind] using hg

end

theorem unexpected {wanted : String} (hf : f ts = .error (ts.unexpected wanted)) :
    Ends n n' (fun _ => unexpected wanted : Nat → Walk ι input β) f ts :=
  .look (.throw hf)

section

variable {yes no : Nat → Walk ι input β}

theorem eat_then (h : ts.Takes [t] rest) (hyes : Ends k n' yes f' rest) (hf : f ts = f' rest) :
    Ends n n' (fun fuel => do if ← eat t then yes fuel else no fuel) f ts := by
  simp only [eat, bind_assoc, pure_bind]
  exact .takeIf (k := k) h (if_pos rfl) hyes hf

theorem eat_else (h : ts.peek? ≠ some t) (hno : Ends n n' no f ts) :
    Ends n n' (fun fuel => do if ← eat t then yes fuel else no fuel) f ts := by
  simp only [eat, bind_assoc, pure_bind]
  refine .takeIf_none ?_ hno
  cases hpeek : ts.peek? with
  | none => rfl
  | some t' =>
    refine if_neg ?_
    rintro rfl
    exact h hpeek

theorem eat_other {t' : Token} (h : ts.Takes [t] rest) (hne : t ≠ t') (hno : Ends n n' no f ts) :
    Ends n n' (fun fuel => do if ← eat t' then yes fuel else no fuel) f ts :=
  .eat_else (h.peek ▸ fun heq => hne (Option.some.inj heq)) hno

end

section

variable {g : Option UInt64 → Nat → Walk ι input β} {value : UInt64}

theorem number? (h : ts.Takes [.number value] rest) (hg : Ends k n' (g (some value)) f' rest)
    (hf : f ts = f' rest) : Ends n n' (fun fuel => Walk.number? >>= fun r => g r fuel) f ts :=
  .takeIf h rfl hg hf

theorem number?_none (h : ts.number? = none) (hg : Ends n n' (g none) f ts) :
    Ends n n' (fun fuel => Walk.number? >>= fun r => g r fuel) f ts := by
  refine .takeIf_none ?_ hg
  cases hpeek : ts.peek? with
  | none => rfl
  | some t =>
    obtain ⟨rest, htakes⟩ := Tokens.exists_takes hpeek
    cases t with
    | number value => cases h.symm.trans htakes.number?
    | _ => rfl

end

section

variable (ts)

theorem take (p : Token → Option α) (wanted : String) :
    Ends n n' (fun _ => take p wanted : Nat → Walk ι input α) (reader (Tokens.take p wanted))
      ts := by
  unfold Walk.take
  cases h : ts.peek?.bind p with
  | none =>
    refine .takeIf_none h (.unexpected ?_)
    rw [reader_apply, Tokens.take, Tokens.takeIf_eq_none h]
    rfl
  | some a =>
    obtain ⟨t, hpeek, ha⟩ := Option.bind_eq_some_iff.mp h
    obtain ⟨rest, htakes⟩ := Tokens.exists_takes hpeek
    refine .takeIf htakes ha (.pure a rest) ?_
    rw [reader_apply, htakes.take ha]
    rfl

theorem expect (t : Token) :
    Ends n n' (fun _ => Walk.expect t : Nat → Walk ι input Unit) (Tokens.token t) ts := by
  have heq : Tokens.token t =
      reader (Tokens.take (fun t' => if t' = t then some () else none) t.display) := by
    funext ts
    rw [Tokens.token_apply, reader_apply, Tokens.expect, Tokens.eat?, Tokens.take]
    cases ts.takeIf? fun t' => if t' = t then some () else none <;> rfl
  rw [heq]
  exact .take ts _ _

theorem name (reserved : List String) (wanted : String) :
    Ends n n' (fun _ => Walk.name reserved wanted : Nat → Walk ι input String)
      (reader (Tokens.name reserved wanted)) ts :=
  .take ts _ _

theorem number (wanted : String) :
    Ends n n' (fun _ => Walk.number wanted : Nat → Walk ι input UInt64)
      (reader (Tokens.number wanted)) ts := by
  rw [Tokens.number_eq_take]
  exact .take ts _ _

theorem width :
    Ends n n' (fun _ => Walk.width : Nat → Walk ι input UInt32) (reader Tokens.width) ts := by
  have hread : reader Tokens.width ts =
      (do
        let bits ← reader (Tokens.number "a bit width")
        if 0 < bits ∧ bits.toNat < UInt32.size then return bits.toUInt32
        else MonadExcept.throw ⟨ts.position, s!"invalid bit width {bits}"⟩ : Reader UInt32) ts := by
    simp only [reader_apply, Tokens.bind_apply, Tokens.width, bind_assoc, pure_bind]
    refine bind_congr fun r => ?_
    split <;> rfl
  unfold Walk.width
  refine .congr (.look (.bind (k := n') (.number ts "a bit width") fun bits rest _ => ?_)) hread
  split
  · exact .pure _ rest
  · exact .throw rfl

end

end Ends

end LayeredSets.Walk
