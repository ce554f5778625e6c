import LayeredSets.Proofs.Token.Takes
import LayeredSets.Proofs.Token.Written

/-!
# One token of lookahead

The functions of the parsers are readers that are put together from smaller ones. What a reader
makes of tokens depends on those that it takes and on the one behind them. It takes a phrase, or it
fails at the first token with which no phrase goes on.
-/

namespace LayeredSets

/-- Tokens, and what they are read as. -/
abbrev Phrase (α : Type) : Type := List Token → α → Prop

namespace Phrase

variable {α β : Type}

def nothing (a : α) : Phrase α := fun tokens b => tokens = [] ∧ b = a

/-- One token that `p` makes something of. -/
def one (p : Token → Option α) : Phrase α := fun tokens a => ∃ t, tokens = [t] ∧ p t = some a

/-- A phrase, and behind it another that may depend on it. -/
def andThen (L : Phrase α) (M : α → Phrase β) : Phrase β := fun tokens b =>
  ∃ a front back, tokens = front ++ back ∧ L front a ∧ M a back b

/-- A text can have the tokens of a phrase. -/
def Productive (L : Phrase α) : Prop := ∃ tokens a, (∀ t ∈ tokens, t.Spellable) ∧ L tokens a

theorem productive_nothing (a : α) : (nothing a).Productive := ⟨[], a, by simp, rfl, rfl⟩

theorem Productive.andThen {L : Phrase α} {M : α → Phrase β} (hL : L.Productive)
    (hM : ∀ a, (M a).Productive) : (L.andThen M).Productive := by
  obtain ⟨front, a, hfront, hphrase⟩ := hL
  obtain ⟨back, b, hback, hphrase'⟩ := hM a
  exact ⟨front ++ back, b, List.forall_mem_append.mpr ⟨hfront, hback⟩, a, front, back, rfl, hphrase,
    hphrase'⟩

end Phrase

namespace Tokens

/-- A function that reads tokens from the front. -/
abbrev Reader (α : Type) : Type := StateT Tokens (Except ParseError) α

section

variable {α β : Type} {P : Tokens → Tokens → Prop}

/-- A function of a parser, without the proof of what is left. -/
def reader (f : (ts : Tokens) → Except ParseError (α × { rest // P ts rest })) : Reader α :=
  fun ts => do
    let r ← f ts
    return (r.1, r.2.1)

/-- Take this token. -/
def token (t : Token) : Reader Unit := fun ts => do
  let rest ← ts.expect t
  return ((), rest.1)

theorem reader_apply (f : (ts : Tokens) → Except ParseError (α × { rest // P ts rest }))
    (ts : Tokens) : reader f ts = (do let r ← f ts; return (r.1, r.2.1)) := rfl

theorem token_apply (t : Token) (ts : Tokens) :
    token t ts = (do let rest ← ts.expect t; return ((), rest.1)) := rfl

theorem bind_apply (x : Reader α) (k : α → Reader β) (ts : Tokens) :
    (x >>= k) ts = x ts >>= fun r => k r.1 r.2 := rfl

theorem pure_apply (a : α) (ts : Tokens) : (pure a : Reader α) ts = pure (a, ts) := rfl

theorem ok_bind (a : α) (k : α → Except ParseError β) : (Except.ok a >>= k) = k a := rfl

/-- What a function of a parser leaves is as it has been proved to be. -/
theorem left_of_reader {f : (ts : Tokens) → Except ParseError (α × { rest // P ts rest })}
    {ts rest : Tokens} {a : α} (h : reader f ts = .ok (a, rest)) : P ts rest := by
  obtain ⟨⟨a', rest', hrest⟩, -, heq⟩ := bind_eq_ok h
  obtain ⟨-, rfl⟩ := Prod.mk.inj (Except.ok.inj heq)
  exact hrest

theorem shorter_of_token {t : Token} {ts rest : Tokens} {u : Unit}
    (h : token t ts = .ok (u, rest)) : rest.size < ts.size := by
  obtain ⟨⟨rest', hrest⟩, -, heq⟩ := bind_eq_ok h
  exact (Prod.mk.inj (Except.ok.inj heq)).2 ▸ hrest

/-- From `ts`, the reader takes a phrase or fails where no phrase goes on, and it does so wherever
the same tokens are followed by the same one. -/
inductive Predicts (f : Reader α) (L : Phrase α) (ts : Tokens) : Prop
  | reads {taken : List Token} {rest : Tokens} {a : α} (htakes : ts.Takes taken rest)
    (hphrase : L taken a)
    (hlocal : ∀ ts' rest', ts'.Takes taken rest' → rest'.peek? = rest.peek? →
      f ts' = .ok (a, rest'))
  | fails {taken more : List Token} {rest : Tokens} {a : α} {e : ParseError}
    (htakes : ts.Takes taken rest) (herror : f ts = .error e)
    (hposition : e.position = rest.position)
    (hmore : ∀ t ∈ more, t.Spellable) (hphrase : L (taken ++ more) a)
    (hlocal : ∀ ts' rest', ts'.Takes taken rest' → rest'.peek? = rest.peek? →
      ∃ e', f ts' = .error e')

theorem Takes.stop_eq {ts rest : Tokens} {taken : List Token} (h : ts.Takes taken rest) :
    rest.stop = ts.stop := by
  obtain ⟨items, rfl, rfl⟩ := h
  rfl

theorem peek_takes {ts ts' rest rest' : Tokens} {taken : List Token} (h : ts.Takes taken rest)
    (h' : ts'.Takes taken rest') (hpeek : rest'.peek? = rest.peek?) : ts'.peek? = ts.peek? := by
  obtain ⟨items, rfl, rfl⟩ := h
  obtain ⟨items', hitems, rfl⟩ := h'
  simp only [peek?, ← List.head?_map, List.map_append, hitems] at hpeek ⊢
  rw [List.head?_append, List.head?_append, hpeek]

theorem eat_eq_none {ts ts' : Tokens} {t : Token} (hpeek : ts'.peek? = ts.peek?)
    (h : ts.eat? t = none) : ts'.eat? t = none := by
  rwa [eat_eq_none_iff, hpeek, ← eat_eq_none_iff]

theorem exists_takes {ts : Tokens} {t : Token} (h : ts.peek? = some t) :
    ∃ rest, ts.Takes [t] rest := by
  obtain ⟨_ | ⟨item, items⟩, stop⟩ := ts
  · cases h
  · obtain rfl := Option.some.inj h
    exact ⟨⟨items, stop⟩, [item], rfl, rfl⟩

namespace Predicts

variable {f g : Reader α} {L N : Phrase α} {ts : Tokens}

/-- Only the next token matters to begin with, so a reader may be replaced with what it does before
this token. -/
theorem congr (hg : Predicts g L ts) (h : ∀ ts', ts'.peek? = ts.peek? → f ts' = g ts') :
    Predicts f L ts := by
  cases hg with
  | reads htakes hphrase hlocal =>
    refine .reads htakes hphrase fun ts' rest' htakes' hpeek => ?_
    rw [h ts' (peek_takes htakes htakes' hpeek)]
    exact hlocal ts' rest' htakes' hpeek
  | fails htakes herror hposition hmore hphrase hlocal =>
    refine .fails htakes (by rwa [h ts rfl]) hposition hmore hphrase
      fun ts' rest' htakes' hpeek => ?_
    rw [h ts' (peek_takes htakes htakes' hpeek)]
    exact hlocal ts' rest' htakes' hpeek

theorem mono (h : Predicts f L ts) (hN : ∀ tokens a, L tokens a → N tokens a) :
    Predicts f N ts := by
  cases h with
  | reads htakes hphrase hlocal => exact .reads htakes (hN _ _ hphrase) hlocal
  | fails htakes herror hposition hmore hphrase hlocal =>
    exact .fails htakes herror hposition hmore (hN _ _ hphrase) hlocal

/-- What is read is a phrase. -/
theorem takes {a : α} {rest : Tokens} (h : Predicts f L ts) (hf : f ts = .ok (a, rest)) :
    ∃ taken, ts.Takes taken rest ∧ L taken a := by
  cases h with
  | @reads taken rest' a' htakes hphrase hlocal =>
    obtain ⟨rfl, rfl⟩ := Prod.mk.inj (Except.ok.inj ((hlocal ts rest' htakes rfl).symm.trans hf))
    exact ⟨taken, htakes, hphrase⟩
  | fails htakes herror => cases herror.symm.trans hf

/-- Where there are no tokens, only a phrase that a text can have can be missing. -/
theorem productive (h : Predicts f L ts) (hts : ts.items = []) : L.Productive := by
  have nil {taken : List Token} {rest : Tokens} (htakes : ts.Takes taken rest) : taken = [] := by
    have := htakes.map_token
    simp_all
  cases h with
  | reads htakes hphrase hlocal =>
    obtain rfl := nil htakes
    exact ⟨[], _, by simp, hphrase⟩
  | fails htakes herror hposition hmore hphrase hlocal =>
    obtain rfl := nil htakes
    exact ⟨_, _, hmore, hphrase⟩

theorem pure (a : α) : Predicts (Pure.pure a) (.nothing a) ts := by
  refine .reads (Takes.refl ts) ⟨rfl, rfl⟩ fun ts' rest' htakes hpeek => ?_
  obtain rfl := Takes.nil_iff.mp htakes
  rfl

/-- The first reader takes a phrase, or nothing of the second is read. -/
theorem bind {k : α → Reader β} {M : α → Phrase β} (hf : Predicts f L ts)
    (hM : ∀ a, (M a).Productive) (hk : ∀ a rest, f ts = .ok (a, rest) → Predicts (k a) (M a) rest) :
    Predicts (f >>= k) (L.andThen M) ts := by
  cases hf with
  | @reads taken rest a htakes hphrase hlocal =>
    have hfirst {ts' mid : Tokens} (htakes' : ts'.Takes taken mid)
        (hpeek : mid.peek? = rest.peek?) : (f >>= k) ts' = k a mid := by
      change (f ts' >>= fun r => k r.1 r.2) = _
      rw [hlocal ts' mid htakes' hpeek]
      rfl
    cases hk a rest (hlocal ts rest htakes rfl) with
    | reads htakes₂ hphrase₂ hlocal₂ =>
      refine .reads (htakes.append htakes₂) ⟨a, _, _, rfl, hphrase, hphrase₂⟩ ?_
      intro ts' rest' htakes' hpeek
      obtain ⟨mid, hfront, hback⟩ := Takes.append_iff.mp htakes'
      rw [hfirst hfront (peek_takes htakes₂ hback hpeek)]
      exact hlocal₂ mid rest' hback hpeek
    | fails htakes₂ herror hposition hmore hphrase₂ hlocal₂ =>
      refine .fails (htakes.append htakes₂) ((hfirst htakes rfl).trans herror) hposition hmore
        ⟨a, _, _, List.append_assoc .., hphrase, hphrase₂⟩ ?_
      intro ts' rest' htakes' hpeek
      obtain ⟨mid, hfront, hback⟩ := Takes.append_iff.mp htakes'
      rw [hfirst hfront (peek_takes htakes₂ hback hpeek)]
      exact hlocal₂ mid rest' hback hpeek
  | @fails taken more rest a e htakes herror hposition hmore hphrase hlocal =>
    obtain ⟨more₂, b, hmore₂, hphrase₂⟩ := hM a
    have hfirst {ts' : Tokens} {e : ParseError} (h : f ts' = .error e) :
        (f >>= k) ts' = .error e := by
      change (f ts' >>= fun r => k r.1 r.2) = _
      rw [h]
      rfl
    refine .fails htakes (hfirst herror) hposition
      (List.forall_mem_append.mpr ⟨hmore, hmore₂⟩)
      ⟨a, _, _, (List.append_assoc ..).symm, hphrase, hphrase₂⟩ ?_
    intro ts' rest' htakes' hpeek
    obtain ⟨e', he'⟩ := hlocal ts' rest' htakes' hpeek
    exact ⟨e', hfirst he'⟩

/-- What comes second can be read from wherever the first has stopped. -/
theorem andThen {k : α → Reader β} {M : α → Phrase β} (hf : Predicts f L ts)
    (hk : ∀ a rest, Predicts (k a) (M a) rest) : Predicts (f >>= k) (L.andThen M) ts :=
  hf.bind (fun a => (hk a ⟨[], ts.stop⟩).productive rfl) fun a rest _ => hk a rest

/-- A reader that takes the next token and goes on as another. -/
theorem first {t : Token} {rest : Tokens} (htakes : ts.Takes [t] rest) (hg : Predicts g L rest)
    (h : ∀ {ts' rest'}, ts'.Takes [t] rest' → f ts' = g rest')
    (hN : ∀ tokens a, L tokens a → N (t :: tokens) a) : Predicts f N ts := by
  cases hg with
  | reads htakes₂ hphrase hlocal =>
    refine .reads (htakes.cons htakes₂) (hN _ _ hphrase) fun ts' rest' htakes' hpeek => ?_
    obtain ⟨mid, hfirst, hrest⟩ := Takes.cons_iff.mp htakes'
    rw [h hfirst]
    exact hlocal mid rest' hrest hpeek
  | fails htakes₂ herror hposition hmore hphrase hlocal =>
    refine .fails (htakes.cons htakes₂) (by rwa [h htakes]) hposition hmore (hN _ _ hphrase)
      fun ts' rest' htakes' hpeek => ?_
    obtain ⟨mid, hfirst, hrest⟩ := Takes.cons_iff.mp htakes'
    rw [h hfirst]
    exact hlocal mid rest' hrest hpeek

/-- A reader that goes on as another wherever this token comes next. -/
theorem next {t : Token} (hpeek : ts.peek? = some t) (hg : ∀ rest, Predicts g L rest)
    (h : ∀ {ts' rest'}, ts'.Takes [t] rest' → f ts' = g rest')
    (hN : ∀ tokens a, L tokens a → N (t :: tokens) a) : Predicts f N ts := by
  obtain ⟨rest, htakes⟩ := exists_takes hpeek
  exact .first htakes (hg rest) h hN

/-- The next token cannot be taken, whatever comes behind it. -/
theorem stuck (hL : L.Productive) (h : ∀ ts', ts'.peek? = ts.peek? →
    ∃ e, f ts' = .error e ∧ e.position = ts'.position) : Predicts f L ts := by
  obtain ⟨more, a, hmore, hphrase⟩ := hL
  obtain ⟨e, herror, hposition⟩ := h ts rfl
  refine .fails (Takes.refl ts) herror hposition hmore hphrase fun ts' rest' htakes hpeek => ?_
  obtain rfl := Takes.nil_iff.mp htakes
  exact (h ts' hpeek).imp fun _ => And.left

/-- A reader of one token. -/
theorem one {p : Token → Option α} (hL : (Phrase.one p).Productive)
    (hread : ∀ {ts rest t a}, ts.Takes [t] rest → p t = some a → f ts = .ok (a, rest))
    (hfail : ∀ {ts : Tokens}, ts.peek?.bind p = none →
      ∃ e, f ts = .error e ∧ e.position = ts.position) : Predicts f (.one p) ts := by
  cases hp : ts.peek?.bind p with
  | none => exact .stuck hL fun ts' hpeek => hfail (hpeek ▸ hp)
  | some a =>
    obtain ⟨t, hpeek, ht⟩ := Option.bind_eq_some_iff.mp hp
    obtain ⟨rest, htakes⟩ := exists_takes hpeek
    exact .reads htakes ⟨t, rfl, ht⟩ fun ts' rest' htakes' _ => hread htakes' ht

end Predicts

/-! ## Readers of one token -/

theorem takeIf_eq_none {p : Token → Option α} {ts : Tokens} (h : ts.peek?.bind p = none) :
    ts.takeIf? p = none := by
  rw [takeIf?]
  rw [peek_eq] at h
  cases hnext : ts.next? with
  | none => rfl
  | some next =>
    rw [hnext] at h
    have hp : p next.1 = none := h
    simp [hp]

theorem predicts_take {p : Token → Option α} (wanted : String) (hL : (Phrase.one p).Productive)
    (ts : Tokens) : Predicts (reader (take p wanted)) (.one p) ts := by
  refine .one hL (fun htakes ha => ?_) (fun {ts} hnone => ?_)
  · rw [reader_apply, htakes.take ha]
    rfl
  · refine ⟨ts.unexpected wanted, ?_, rfl⟩
    rw [reader_apply, take, takeIf_eq_none hnone]
    rfl

theorem take_position {p : Token → Option α} {wanted : String} {ts : Tokens} {e : ParseError}
    (h : ts.take p wanted = .error e) : e.position = ts.position := by
  rw [take] at h
  split at h
  · cases h
  · rw [← Except.error.inj h]
    rfl

end

theorem predicts_token {t : Token} (ht : t.Spellable) (ts : Tokens) :
    Predicts (token t) (fun tokens _ => tokens = [t]) ts := by
  have hone : Predicts (token t) (.one fun t' => if t' = t then some () else none) ts := by
    refine .one ⟨[t], (), by simpa, t, rfl, if_pos rfl⟩ (fun htakes ha => ?_) (fun {ts} hnone => ?_)
    · obtain ⟨rfl, -⟩ := Option.ite_none_right_eq_some.mp ha
      rw [token_apply, htakes.expect]
      rfl
    · refine ⟨ts.unexpected t.display, ?_, rfl⟩
      rw [token_apply, expect, eat?, takeIf_eq_none hnone]
      rfl
  refine hone.mono ?_
  rintro _ _ ⟨t', rfl, ht'⟩
  rw [(Option.ite_none_right_eq_some.mp ht').1]

/-- A word that is not reserved. -/
theorem predicts_name {reserved : List String} (hfree : "x" ∉ reserved) (wanted : String)
    (ts : Tokens) : Predicts (reader (name reserved wanted))
      (fun tokens word => tokens = [.word word] ∧ word ∉ reserved) ts := by
  refine (predicts_take wanted ⟨[.word "x"], "x", by decide, .word "x", rfl, ?_⟩ ts).mono ?_
  · simp [hfree]
  · rintro _ word ⟨t, rfl, ht⟩
    cases t with
    | word w =>
      obtain ⟨hreserved, hword⟩ := Option.ite_none_left_eq_some.mp ht
      obtain rfl := Option.some.inj hword
      exact ⟨rfl, by simpa using hreserved⟩
    | _ => cases ht

theorem number_eq_take (wanted : String) :
    number wanted = take (fun | .number n => some n | _ => none) wanted := by
  funext ts
  rw [number, take, number?]
  cases takeIf? (fun | .number n => some n | _ => none) ts <;> rfl

theorem predicts_number (wanted : String) (ts : Tokens) :
    Predicts (reader (number wanted)) (fun tokens value => tokens = [.number value]) ts := by
  rw [number_eq_take]
  refine (predicts_take wanted ⟨[.number 0], 0, by decide, .number 0, rfl, rfl⟩ ts).mono ?_
  rintro _ value ⟨t, rfl, ht⟩
  cases t with
  | number n => rw [Option.some.inj ht]
  | _ => cases ht

theorem number?_eq_none {ts ts' : Tokens} (hpeek : ts'.peek? = ts.peek?) (h : ts.number? = none) :
    ts'.number? = none := by
  cases h' : ts'.number? with
  | none => rfl
  | some result =>
    obtain ⟨rest, htakes⟩ := exists_takes (hpeek ▸ (takes_of_number? h').peek)
    cases h.symm.trans htakes.number?

theorem width_position {ts : Tokens} {e : ParseError} (h : ts.width = .error e) :
    e.position = ts.position := by
  rcases bind_eq_error h with hnumber | ⟨⟨value, rest⟩, -, hvalue⟩
  · rw [number_eq_take] at hnumber
    exact take_position hnumber
  · simp only at hvalue
    split at hvalue
    · cases hvalue
    · rw [← Except.error.inj hvalue]

/-- A width that is out of range is an error at the number itself. -/
theorem predicts_width (ts : Tokens) :
    Predicts (reader width)
      (fun tokens bits => tokens = [.number bits.toUInt64] ∧ 0 < bits) ts := by
  cases h : ts.width with
  | ok result =>
    obtain ⟨bits, rest⟩ := result
    obtain ⟨hbits, htakes⟩ := takes_of_width h
    refine .reads htakes ⟨rfl, hbits⟩ fun ts' rest' htakes' _ => ?_
    rw [reader_apply, htakes'.width hbits]
    rfl
  | error e =>
    refine .stuck ⟨[.number 1], 1, by decide, rfl, by decide⟩ fun ts' hpeek => ?_
    cases h' : ts'.width with
    | ok result =>
      obtain ⟨hbits, htakes'⟩ := takes_of_width h'
      obtain ⟨rest, htakes⟩ := exists_takes (hpeek ▸ htakes'.peek)
      cases h.symm.trans (htakes.width hbits)
    | error e' => exact ⟨e', by rw [reader_apply, h']; rfl, width_position h'⟩

/-! ## The first token that does not fit -/

variable {ts : Tokens}

/-- The position of the token with this number, counted from zero, or of the end. -/
def positionAt (ts : Tokens) (k : Nat) : Position := (ts.items[k]?.map (·.position)).getD ts.stop

/-- The tokens, and the end behind them. -/
def marked (ts : Tokens) : List (Option Token) := ts.items.map (some ·.token) ++ [none]

/-- The position is that of a token, or of the end, such that the tokens before it begin valid ones
and no valid ones begin with these and with it. -/
def OffendsAt (valid : Tokens → Prop) (ts : Tokens) (position : Position) : Prop :=
  ∃ k ≤ ts.items.length, position = ts.positionAt k ∧
    (∃ ts', valid ts' ∧ (ts.items.map (·.token)).take k <+: ts'.items.map (·.token)) ∧
    ∀ ts', valid ts' → ¬ ts.marked.take (k + 1) <+: ts'.marked

theorem Takes.positionAt {taken : List Token} {rest : Tokens} (h : ts.Takes taken rest) :
    ts.positionAt taken.length = rest.position := by
  obtain ⟨items, rfl, rfl⟩ := h
  simp [Tokens.positionAt, Tokens.position, List.head?_eq_getElem?, List.getElem?_append_right]

theorem marked_eq (ts : Tokens) : ∃ more, ts.marked = ts.peek? :: more := by
  obtain ⟨_ | ⟨item, items⟩, stop⟩ := ts <;> exact ⟨_, rfl⟩

theorem Takes.marked {taken : List Token} {rest : Tokens} (h : ts.Takes taken rest) :
    ts.marked = taken.map some ++ rest.marked := by
  obtain ⟨items, rfl, rfl⟩ := h
  simp [Tokens.marked]

/-- Tokens that begin with those taken and the one behind them go on likewise. -/
theorem Takes.of_begin {taken : List Token} {rest ts' : Tokens} (h : ts.Takes taken rest)
    (hbegin : ts.marked.take (taken.length + 1) <+: ts'.marked) :
    ∃ rest', ts'.Takes taken rest' ∧ rest'.peek? = rest.peek? := by
  obtain ⟨more, hmore⟩ := rest.marked_eq
  obtain ⟨others, hothers⟩ := hbegin
  have htake : ts.marked.take (taken.length + 1) = taken.map some ++ [rest.peek?] := by
    simp [h.marked, hmore, List.take_append]
  rw [htake, List.append_assoc, List.singleton_append] at hothers
  have hlength : taken.length ≤ ts'.items.length := by
    have := congrArg List.length hothers
    simp [Tokens.marked] at this
    omega
  obtain ⟨items, stop⟩ := ts'
  obtain ⟨front, back, rfl, hfront⟩ : ∃ front back, items = front ++ back ∧
      front.length = taken.length :=
    ⟨_, _, (List.take_append_drop taken.length items).symm, List.length_take_of_le hlength⟩
  have htakes : Takes ⟨front ++ back, stop⟩ (front.map (·.token)) ⟨back, stop⟩ := ⟨front, rfl, rfl⟩
  rw [htakes.marked] at hothers
  obtain ⟨heq, hrest⟩ := List.append_inj hothers (by simp [hfront])
  obtain ⟨more', hmore'⟩ := marked_eq ⟨back, stop⟩
  rw [hmore'] at hrest
  rw [List.map_inj_right (fun _ _ => Option.some.inj)] at heq
  exact ⟨_, heq ▸ htakes, (List.cons.inj hrest).1.symm⟩

/-- A reader of whole texts that fails, fails at the first token that does not fit. -/
theorem Predicts.offendsAt {α : Type} {f : Reader α} {L : Phrase α} {keepBreaks : Bool}
    {text : List Char} {e : ParseError} {valid : Tokens → Prop} (h : Predicts f L ts)
    (htext : tokenize text keepBreaks = .ok ts) (herror : f ts = .error e)
    (hvalid : ∀ {text' ts' a}, tokenize text' keepBreaks = .ok ts' → L (ts'.items.map (·.token)) a →
      valid ts')
    (hread : ∀ {ts' e'}, valid ts' → f ts' ≠ .error e') : OffendsAt valid ts e.position := by
  cases h with
  | reads htakes hphrase hlocal => cases herror.symm.trans (hlocal ts _ htakes rfl)
  | @fails taken more rest a e' htakes herror' hposition hmore hphrase hlocal =>
    obtain rfl := Except.error.inj (herror.symm.trans herror')
    refine ⟨taken.length, ?_, by rw [hposition, htakes.positionAt], ?_, ?_⟩
    · have := htakes.size_eq
      rw [size] at this
      omega
    · obtain ⟨text', ts', htext', htokens⟩ := exists_text htext htakes.map_token hmore
      refine ⟨ts', hvalid htext' (htokens ▸ hphrase), ?_⟩
      rw [htakes.map_token, htokens, List.take_left]
      exact List.prefix_append taken more
    · intro ts' hts' hbegin
      obtain ⟨rest', htakes', hpeek⟩ := htakes.of_begin hbegin
      obtain ⟨e', he'⟩ := hlocal ts' rest' htakes' hpeek
      exact hread hts' he'

end Tokens

end LayeredSets
