import LayeredSets.Token.Cursor
import Mathlib.Tactic

/-!
# Tokens that are taken

`Takes ts taken rest` says that `ts` begins with the tokens `taken`, at whatever positions, and goes
on with `rest`. The readers of single tokens take what they say, and fail exactly if the next token
is another.
-/

namespace LayeredSets.Tokens

def Takes (ts : Tokens) (taken : List Token) (rest : Tokens) : Prop :=
  ∃ items : List Located, items.map (·.token) = taken ∧ ts = ⟨items ++ rest.items, rest.stop⟩

section

variable {ts mid rest : Tokens} {t : Token} {taken more : List Token}

namespace Takes

@[simp] theorem nil_iff : Takes ts [] rest ↔ ts = rest := by
  simp [Takes]

theorem refl (ts : Tokens) : Takes ts [] ts := nil_iff.mpr rfl

theorem append_iff : Takes ts (taken ++ more) rest ↔ ∃ mid, Takes ts taken mid ∧ Takes mid more rest := by
  constructor
  · rintro ⟨items, hitems, rfl⟩
    obtain ⟨front, back, rfl, hfront, hback⟩ := List.map_eq_append_iff.mp hitems
    exact ⟨⟨back ++ rest.items, rest.stop⟩, ⟨front, hfront, by simp⟩, back, hback, rfl⟩
  · rintro ⟨mid, ⟨front, rfl, rfl⟩, back, rfl, rfl⟩
    exact ⟨front ++ back, by simp, by simp⟩

theorem cons_iff : Takes ts (t :: taken) rest ↔ ∃ mid, Takes ts [t] mid ∧ Takes mid taken rest := by
  rw [← List.singleton_append, append_iff]

theorem append (h : Takes ts taken mid) (h' : Takes mid more rest) : Takes ts (taken ++ more) rest :=
  append_iff.mpr ⟨mid, h, h'⟩

theorem cons (h : Takes ts [t] mid) (h' : Takes mid taken rest) : Takes ts (t :: taken) rest :=
  cons_iff.mpr ⟨mid, h, h'⟩

theorem size_eq (h : Takes ts taken rest) : ts.size = taken.length + rest.size := by
  obtain ⟨items, rfl, rfl⟩ := h
  simp [size]

theorem map_token (h : Takes ts taken rest) :
    ts.items.map (·.token) = taken ++ rest.items.map (·.token) := by
  obtain ⟨items, rfl, rfl⟩ := h
  simp

theorem shorter (h : Takes ts (t :: taken) rest) : rest.size < ts.size := by
  rw [h.size_eq]
  exact Nat.lt_add_of_pos_left (Nat.succ_pos _)

theorem peek (h : Takes ts [t] rest) : ts.peek? = some t := by
  obtain ⟨items, hitems, rfl⟩ := h
  obtain ⟨item, rfl, rfl⟩ := List.map_eq_singleton_iff.mp hitems
  rfl

theorem next (h : Takes ts [t] rest) : ts.next? = some (t, ⟨rest, h.shorter⟩) := by
  obtain ⟨items, hitems, rfl⟩ := h
  obtain ⟨item, rfl, rfl⟩ := List.map_eq_singleton_iff.mp hitems
  rfl

end Takes

theorem takes_of_next {rest : ts.Rest} (h : ts.next? = some (t, rest)) : Takes ts [t] rest.1 := by
  obtain ⟨_ | ⟨item, items⟩, stop⟩ := ts
  · cases h
  · obtain ⟨rfl, rfl⟩ := Prod.mk.inj (Option.some.inj h)
    exact ⟨[item], rfl, rfl⟩

theorem next_eq_none (h : ts.next? = none) : ts.items = [] := by
  obtain ⟨_ | ⟨item, items⟩, stop⟩ := ts
  · rfl
  · cases h

theorem peek_eq (ts : Tokens) : ts.peek? = ts.next?.map (·.1) := by
  obtain ⟨_ | ⟨item, items⟩, stop⟩ := ts <;> rfl

/-! ## Readers of one token -/

section

variable {α : Type} {p : Token → Option α} {a : α}

theorem takes_of_takeIf {rest : ts.Rest} (h : ts.takeIf? p = some (a, rest)) :
    ∃ t, p t = some a ∧ Takes ts [t] rest.1 := by
  simp only [takeIf?, Option.bind_eq_bind, Option.bind_eq_some_iff, Option.pure_def,
    Option.some.injEq, Prod.mk.injEq, Prod.exists] at h
  obtain ⟨t, rest', hnext, _, ha, rfl, rfl⟩ := h
  exact ⟨t, ha, takes_of_next hnext⟩

theorem Takes.takeIf (h : Takes ts [t] rest) :
    ts.takeIf? p = (p t).map fun a => (a, ⟨rest, h.shorter⟩) := by
  rw [takeIf?, h.next]
  cases hp : p t <;> simp [hp]

theorem takes_of_take {wanted : String} {rest : ts.Rest} (h : ts.take p wanted = .ok (a, rest)) :
    ∃ t, p t = some a ∧ Takes ts [t] rest.1 := by
  rw [take] at h
  split at h
  · next htake =>
    obtain rfl := Except.ok.inj h
    exact takes_of_takeIf htake
  · cases h

theorem Takes.take (h : Takes ts [t] rest) (ha : p t = some a) (wanted : String) :
    ts.take p wanted = .ok (a, ⟨rest, h.shorter⟩) := by
  rw [Tokens.take, h.takeIf, ha]
  rfl

end

theorem takes_of_eat {rest : ts.Rest} (h : ts.eat? t = some rest) : Takes ts [t] rest.1 := by
  obtain ⟨⟨_, rest'⟩, htake, rfl⟩ := Option.map_eq_some_iff.mp h
  obtain ⟨t', hp, htakes⟩ := takes_of_takeIf htake
  split at hp
  · next heq => exact heq ▸ htakes
  · cases hp

theorem Takes.eat (h : Takes ts [t] rest) : ts.eat? t = some ⟨rest, h.shorter⟩ := by
  rw [eat?, h.takeIf, if_pos rfl]
  rfl

theorem eat_eq_none_iff : ts.eat? t = none ↔ ts.peek? ≠ some t := by
  rw [peek_eq]
  cases hnext : ts.next? with
  | none => simp [eat?, takeIf?, hnext]
  | some next => by_cases h : next.1 = t <;> simp [eat?, takeIf?, hnext, h]

theorem takes_of_expect {rest : ts.Rest} (h : ts.expect t = .ok rest) : Takes ts [t] rest.1 := by
  rw [expect] at h
  split at h
  · next heat =>
    obtain rfl := Except.ok.inj h
    exact takes_of_eat heat
  · cases h

theorem Takes.expect (h : Takes ts [t] rest) : ts.expect t = .ok ⟨rest, h.shorter⟩ := by
  rw [Tokens.expect, h.eat]

theorem takes_of_name {reserved : List String} {wanted name : String} {rest : ts.Rest}
    (h : ts.name reserved wanted = .ok (name, rest)) :
    name ∉ reserved ∧ Takes ts [.word name] rest.1 := by
  obtain ⟨t, hp, htakes⟩ := takes_of_take h
  cases t with
  | word w =>
    simp only [List.contains_iff_mem, Option.ite_none_left_eq_some, Option.some.injEq] at hp
    exact hp.2 ▸ ⟨hp.1, htakes⟩
  | _ => cases hp

theorem Takes.name {name : String} (h : Takes ts [.word name] rest) {reserved : List String}
    (hname : name ∉ reserved) (wanted : String) :
    ts.name reserved wanted = .ok (name, ⟨rest, h.shorter⟩) :=
  h.take (by simp [hname]) wanted

theorem takes_of_number? {value : UInt64} {rest : ts.Rest} (h : ts.number? = some (value, rest)) :
    Takes ts [.number value] rest.1 := by
  obtain ⟨t, hp, htakes⟩ := takes_of_takeIf h
  cases t with
  | number n => exact Option.some.inj hp ▸ htakes
  | _ => cases hp

theorem Takes.number? {value : UInt64} (h : Takes ts [.number value] rest) :
    ts.number? = some (value, ⟨rest, h.shorter⟩) := by
  rw [Tokens.number?, h.takeIf]
  rfl

theorem Takes.number?_word {name : String} (h : Takes ts [.word name] rest) : ts.number? = none := by
  rw [Tokens.number?, h.takeIf]
  rfl

theorem takes_of_number {wanted : String} {value : UInt64} {rest : ts.Rest}
    (h : ts.number wanted = .ok (value, rest)) : Takes ts [.number value] rest.1 := by
  rw [number] at h
  split at h
  · next hnumber =>
    obtain rfl := Except.ok.inj h
    exact takes_of_number? hnumber
  · cases h

theorem Takes.number {value : UInt64} (h : Takes ts [.number value] rest) (wanted : String) :
    ts.number wanted = .ok (value, ⟨rest, h.shorter⟩) := by
  rw [Tokens.number, h.number?]

theorem takes_of_width {bits : UInt32} {rest : ts.Rest} (h : ts.width = .ok (bits, rest)) :
    0 < bits ∧ Takes ts [.number bits.toUInt64] rest.1 := by
  rw [width] at h
  cases hnumber : ts.number "a bit width" with
  | error e =>
    rw [hnumber] at h
    cases h
  | ok result =>
    obtain ⟨value, rest'⟩ := result
    have htakes := takes_of_number hnumber
    rw [hnumber] at h
    change (if 0 < value ∧ value.toNat < UInt32.size then Except.ok (value.toUInt32, rest') else
      Except.error _) = _ at h
    split at h
    · next hvalue =>
      obtain ⟨rfl, rfl⟩ := Prod.mk.inj (Except.ok.inj h)
      have hback : value.toUInt32.toUInt64 = value := by
        rw [← UInt64.toNat_inj, UInt32.toNat_toUInt64, UInt64.toNat_toUInt32,
          Nat.mod_eq_of_lt hvalue.2]
      refine ⟨?_, by rwa [hback]⟩
      have hpos := UInt64.lt_iff_toNat_lt.mp hvalue.1
      rw [← hback, UInt32.toNat_toUInt64] at hpos
      exact UInt32.lt_iff_toNat_lt.mpr hpos
    · cases h

theorem Takes.width {bits : UInt32} (h : Takes ts [.number bits.toUInt64] rest) (hbits : 0 < bits) :
    ts.width = .ok (bits, ⟨rest, h.shorter⟩) := by
  have hvalue : 0 < bits.toUInt64 ∧ bits.toUInt64.toNat < UInt32.size := by
    rw [UInt64.lt_iff_toNat_lt, UInt32.toNat_toUInt64]
    exact ⟨UInt32.lt_iff_toNat_lt.mp hbits, bits.toNat_lt⟩
  rw [Tokens.width, h.number]
  change (if 0 < bits.toUInt64 ∧ bits.toUInt64.toNat < UInt32.size then
    Except.ok (bits.toUInt64.toUInt32, _) else Except.error _) = _
  rw [if_pos hvalue, UInt32.toUInt32_toUInt64]

end

end LayeredSets.Tokens
