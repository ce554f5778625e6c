import LayeredSets.Proofs.Chain.Bottom

/-!
# The meaning of a domain

A domain has a meaning if each of its states stands for an ideal one and its calls move on as those
of the ideal domain do. Which handles it gives out is left open, as long as none of them is live, and
so is how many variables it has room for. What is built of such domains can be reasoned about
without looking at how they keep their sets.
-/

namespace LayeredSets

namespace Ideal

/-- The same variables and the same sets. -/
structure Same (m m' : Ideal) : Prop where
  widths : m'.widths = m.widths
  sets : m'.sets = m.sets

/-- Keep a set under a handle of any number. -/
def keep (m : Ideal) (set : SetId) (s : Set Valuation) : Ideal :=
  { m with sets := Function.update m.sets set (some s) }

/-- The call may have this outcome and lead to this state. -/
def Admits (m : Ideal) : {k : Answer} → Call k → Except DomainError k.Value → Ideal → Prop
  | .var, .declare _ bits, outcome, m' =>
    (∃ total limit, outcome = .error (.universeTooLarge total limit) ∧ m.Same m') ∨
      if bits.toNat = 0 ∨ 63 < bits.toNat then outcome = .error (.invalidWidth bits) ∧ m.Same m'
      else outcome = .ok ⟨UInt32.ofNat m.widths.length⟩ ∧ (m.grow bits).Same m'
  | .set, call, outcome, m' =>
    match m.made call with
    | .ok s => ∃ set, outcome = .ok set ∧ m.sets set = none ∧ (m.keep set s).Same m'
    | .error e => outcome = .error e ∧ m.Same m'
  | .bool, call, outcome, m' =>
    Agree (fun b q => b = true ↔ q) outcome (m.question call) ∧ m.Same m'
  | .unit, .release set, outcome, m' =>
    match m.set set with
    | .ok _ => outcome = .ok () ∧ (m.release set).Same m'
    | .error e => outcome = .error e ∧ m.Same m'

end Ideal

/-- What the states of a domain stand for, as long as they are good and the domain is not spent. A
domain does not fail to make the set of all valuations, and is not spent by declarations. -/
structure Meaning {σ : Type} (ops : Operations σ) where
  ideal : σ → Ideal
  Good : σ → Prop
  Spent : σ → Prop
  bounded : ∀ {s set values}, (ideal s).sets set = some values → values ⊆ box (ideal s).widths
  keeps : ∀ (k : Answer) (call : Call k), Action.Keeps (fun s _ => Spent s) (ops.step call)
  step : ∀ {k : Answer} (call : Call k) {s : σ}, Good s →
    Action.Ends Spent (ops.step call) s fun outcome t =>
      Good t ∧ (ideal s).Admits call outcome (ideal t)
  top_ok : ∀ s host, ∃ set, (ops.step .top s host).1 = .ok set
  declare_spent : ∀ {name bits s host},
    Spent (ops.step (.declare name bits) s host).2.1 → Spent s

/-! ## The explicit domain -/

namespace Explicit

def ideal (d : Explicit) : Ideal where
  limit := d.limit
  widths := d.vars.map (·.bits)
  sets set := (d.sets.get? set).map (denote (d.vars.map (·.bits)))
  issued := d.issued.toNat

end Explicit

/-- What a state stands for can be read off it. -/
theorem Represents.ideal {d : Explicit} {m : Ideal} (h : Represents d m) :
    Represents d d.ideal where
  limit := rfl
  widths := rfl
  valid bits hbits := h.valid bits (h.widths ▸ hbits)
  sets _ := rfl
  canonical set r hr := by
    have hcanonical := h.canonical set r hr
    rwa [← h.widths] at hcanonical
  issued := (UInt32.ofNat_toNat ..).symm

namespace Explicit

variable {d d' : Explicit}

theorem Similar.same (h : Similar d d') : d.ideal.Same d'.ideal where
  widths := congrArg (List.map _) h.vars
  sets := by
    funext set
    simp only [ideal, h.vars, h.sets]

theorem ideal_keep (d : Explicit) (set : SetId) (r : Region) :
    (d.ideal.keep set (denote (d.vars.map (·.bits)) r)).Same (d.keep set r).ideal where
  widths := rfl
  sets := by
    funext other
    by_cases h : other = set
    · simp [Ideal.keep, ideal, h, keep]
    · simp [Ideal.keep, ideal, Function.update_of_ne h, keep, Table.get?_insert_of_ne _ _ h]

theorem ideal_drop (d : Explicit) (set : SetId) : (d.ideal.release set).Same (d.drop set).ideal where
  widths := rfl
  sets := by
    funext other
    by_cases h : other = set
    · simp [Ideal.release, ideal, h, drop]
    · simp [Ideal.release, ideal, Function.update_of_ne h, drop, Table.get?_erase_of_ne _ h]

end Explicit

theorem Ideal.Same.trans {m m' m'' : Ideal} (h : m.Same m') (h' : m'.Same m'') : m.Same m'' :=
  ⟨h'.widths.trans h.widths, h'.sets.trans h.sets⟩

/-- A new variable makes cylinders of the denoted sets. -/
theorem Represents.same_grow {d : Explicit} {m : Ideal} (h : Represents d m) (name : String)
    {bits : UInt32} (hvalid : isValidWidth bits = true) :
    (d.ideal.grow bits).Same
      ({ d with vars := d.vars ++ [⟨name, bits⟩] } : Explicit).ideal := by
  obtain ⟨hpos, hmax⟩ := (isValidWidth_iff bits).mp hvalid
  have hgrown := h.ideal.grow name hpos hmax
  refine ⟨by simp [Explicit.ideal, Ideal.grow], funext fun set => ?_⟩
  rw [hgrown.sets set, ← hgrown.widths]
  rfl

/-- Calls that follow the explicit domain are admitted by what it stands for. -/
theorem Explicit.Follows.admits {d d' : Explicit} {m : Ideal} (h : Represents d m)
    (htidy : d.Tidy) {k : Answer} {call : Call k} {outcome : Except DomainError k.Value}
    (hf : d.Follows call outcome d') : d.ideal.Admits call outcome d'.ideal := by
  cases k with
  | var =>
    obtain ⟨name, bits⟩ := call
    simp only [Follows, apply] at hf
    have hinvalid : isValidWidth bits = false ↔ bits.toNat = 0 ∨ 63 < bits.toNat := by
      rw [← Bool.not_eq_true, isValidWidth_iff]
      omega
    cases hdeclare : d.declare name bits with
    | error e =>
      rw [hdeclare] at hf
      obtain ⟨rfl, hsimilar⟩ := hf
      rcases declare_eq_error hdeclare with ⟨hbits, rfl⟩ | ⟨-, total, rfl⟩
      · right
        rw [if_pos (hinvalid.mp hbits)]
        exact ⟨rfl, hsimilar.same⟩
      · exact .inl ⟨_, _, rfl, hsimilar.same⟩
    | ok x =>
      obtain ⟨var, after⟩ := x
      obtain ⟨hvalid, -, rfl, rfl⟩ := declare_eq_ok hdeclare
      rw [hdeclare] at hf
      obtain ⟨rfl, hsimilar⟩ := hf
      right
      rw [if_neg (by rw [← hinvalid, hvalid]; decide)]
      exact ⟨by simp [ideal], (h.same_grow name hvalid).trans hsimilar.same⟩
  | set =>
    simp only [Follows] at hf
    simp only [Ideal.Admits]
    have hmade := h.ideal.made call
    cases hr : d.made call with
    | error e =>
      rw [hr] at hf hmade
      cases hs : d.ideal.made call with
      | error f =>
        rw [hs] at hmade
        obtain rfl : e = f := hmade
        exact ⟨hf.1, hf.2.same⟩
      | ok s => simp [hs, Agree] at hmade
    | ok r =>
      rw [hr] at hf hmade
      obtain ⟨set, rfl, hfresh, hsimilar⟩ := hf
      cases hs : d.ideal.made call with
      | error f => simp [hs, Agree] at hmade
      | ok s =>
        rw [hs] at hmade
        obtain ⟨-, rfl⟩ := hmade
        refine ⟨set, rfl, ?_, (d.ideal_keep set r).trans hsimilar.same⟩
        simp [ideal, htidy.fresh hfresh]
  | bool =>
    rw [follows_bool_iff] at hf
    obtain ⟨rfl, hsimilar⟩ := hf
    exact ⟨h.ideal.answer call, hsimilar.same⟩
  | unit =>
    cases call with
    | release set =>
      simp only [Follows, apply, region] at hf
      simp only [Ideal.Admits, Ideal.set]
      cases hr : d.sets.get? set with
      | none =>
        simp only [hr] at hf
        simp only [ideal, hr, Option.map_none]
        exact ⟨hf.1, hf.2.same⟩
      | some r =>
        simp only [hr] at hf
        simp only [ideal, hr, Option.map_some]
        exact ⟨hf.1, (d.ideal_drop set).trans hf.2.same⟩

/-- What a tapped explicit domain stands for, until its handles of sets are used up. -/
def Bottom.meaning : Meaning (Tap.operations Explicit.operations) where
  ideal s := s.inner.ideal
  Good := Sound
  Spent := Full
  bounded {s set values} h := by
    simp only [Explicit.ideal, Option.map_eq_some_iff] at h
    obtain ⟨r, -, rfl⟩ := h
    exact denote_subset _ r
  keeps _ call := keeps_full call
  step call _ hs := (Bottom.step call hs).mono fun _ _ ⟨hgood, hfollows⟩ =>
    have ⟨_, hm⟩ := hs.represents
    ⟨hgood, hfollows.admits hm hs.tidy⟩
  top_ok s host := ⟨(s.inner.store .full).1, rfl⟩
  declare_spent {name bits s host} h := by
    have hsame : (Tap.step Explicit.operations (.declare name bits) s host).2.1.layer.sets =
        s.layer.sets := by
      simp only [Tap.step, Transcript.sets, Transcript.outcomes, List.map_append, List.map_cons,
        List.map_nil, issuedSets_append, List.length_append]
      cases (Explicit.operations.step (.declare name bits) s.inner host).1 <;> rfl
    exact h.trans_eq hsame

/-- What every call keeps may be taken along. -/
def Meaning.restrict {σ : Type} {ops : Operations σ} (M : Meaning ops) (P : σ → Prop)
    (hP : ∀ (k : Answer) (call : Call k), Action.Keeps (fun s _ => P s) (ops.step call)) :
    Meaning ops where
  ideal := M.ideal
  Good s := M.Good s ∧ P s
  Spent := M.Spent
  bounded := M.bounded
  keeps := M.keeps
  step call s hs host hleft :=
    have ⟨hgood, hadmits⟩ := M.step call hs.1 host hleft
    ⟨⟨hgood, (hP _ call).keeps s host hs.2⟩, hadmits⟩
  top_ok := M.top_ok
  declare_spent := M.declare_spent

/-- A domain that is one of two kinds means what it means as that kind. -/
def Meaning.sum {σ τ : Type} {a : Operations σ} {b : Operations τ} (A : Meaning a) (B : Meaning b) :
    Meaning (a.sum b) where
  ideal := Sum.elim A.ideal B.ideal
  Good := Sum.elim A.Good B.Good
  Spent := Sum.elim A.Spent B.Spent
  bounded {s set values} h := by
    cases s with
    | inl s => exact A.bounded h
    | inr s => exact B.bounded h
  keeps k call := by
    refine ⟨fun s host h => ?_⟩
    cases s with
    | inl s => exact (A.keeps k call).keeps s host h
    | inr s => exact (B.keeps k call).keeps s host h
  step call s hs host hleft := by
    cases s with
    | inl s => exact A.step call hs host hleft
    | inr s => exact B.step call hs host hleft
  top_ok s host := by
    cases s with
    | inl s => exact A.top_ok s host
    | inr s => exact B.top_ok s host
  declare_spent {name bits s host} h := by
    cases s with
    | inl s => exact A.declare_spent (h : A.Spent _)
    | inr s => exact B.declare_spent (h : B.Spent _)

end LayeredSets
