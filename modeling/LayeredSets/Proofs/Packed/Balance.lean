import LayeredSets.Proofs.Packed.Lockstep

/-!
# Packed domains keep accounts of their packs

In every run over explicit packs each component of a stored set is a live set of its pack and
belongs to no other term. A call that succeeds adds or removes exactly the components of the set that
it is about, so that nothing leaks and nothing is released twice. A call that fails changes nothing
else, but a point that does not fit leaves the components behind that earlier packs have made for it.
-/

namespace LayeredSets

open Action

namespace Packed

variable {ρ : Type} {inner : Operations ρ} {I : Meaning inner} {size : Nat} {s : Packed ρ}
  {m : Ideal}

theorem StandsFor.owned (h : StandsFor I size s m) : Owned I.ideal s := by
  obtain ⟨table, lost, hspreads⟩ := h
  exact hspreads.owned

/-- What explicit packs stand for. -/
def contents : Explicit ⊕ Explicit → Ideal := Sum.elim Explicit.ideal Explicit.ideal

/-- Take the taps of the packs away. -/
def Tapped.untap (s : Tapped) : Packed (Explicit ⊕ Explicit) :=
  s.map (Sum.map (·.inner) (·.inner))

theorem contents_untap (d : Bottom ⊕ Bottom) :
    contents (Sum.map (·.inner) (·.inner) d) = (Bottom.meaning.sum Bottom.meaning).ideal d := by
  cases d <;> rfl

theorem mem_live_contents_iff (s : Packed (Explicit ⊕ Explicit)) (x : SetId × Nat) :
    x ∈ live contents s ↔ (s.packs[x.2]?.any fun pack =>
      ((pack.domain.elim (·.sets) (·.sets) : Table SetId Region).get? x.1).isSome) = true := by
  have hsets (d : Explicit ⊕ Explicit) : (contents d).sets x.1 ≠ none ↔
      ((d.elim (·.sets) (·.sets) : Table SetId Region).get? x.1).isSome = true := by
    cases d <;> simp [contents, Explicit.ideal, Option.isSome_iff_ne_none]
  simp only [live, Set.mem_ofPred_eq, hsets, Option.any_eq_true]

/-- A pack holds one variable at least. -/
theorem Tapped.exists_beside (first further : UInt32) (backend : String) (size : Nat) :
    ∃ d, Beside (Bottom.meaning.sum Bottom.meaning) (max size 1)
      (Tapped.new first further backend size) d := by
  have hsame : Tapped.new first further backend size =
      Tapped.new first further backend (max size 1) := by
    simp only [Tapped.new, Packed.new, max_assoc, max_self]
  have hpos : 0 < max size 1 := lt_max_of_lt_right Nat.one_pos
  exact ⟨_, hsame ▸ Tapped.beside first further first backend hpos⟩

end Packed

theorem Answer.reply_injective (k : Answer) : Function.Injective k.reply := by
  intro a b h
  cases k <;> cases h <;> rfl

namespace Domain

section

variable (first further : UInt32) (backend : String) (size : Nat) (requests : List Request)
  (host : Host)

/-- The state of a packed domain over fresh explicit ones after a run. -/
def packedEnd : Packed (Explicit ⊕ Explicit) :=
  let packed := (explicit first).pack backend (.ok (explicit further)) size
  (packed.shape.operations.run requests packed.state host).2.1

theorem packedEnd_eq : packedEnd first further backend size requests host =
    (Packed.tapped.run requests (.new first further backend size) host).2.1.untap := by
  let packed := (explicit first).pack backend (.ok (explicit further)) size
  have huntap := packed.shape.carries_untap.run requests (packed.shape.tap packed.state) host
  rw [Shape.untap_tap] at huntap
  rw [← (run_pack first further backend size requests host).2.2]
  exact congrArg (·.2.1) huntap

variable (hfew : ∀ t ∈ ((explicit first).pack backend (.ok (explicit further)) size).transcripts
  requests host, t.sets < 2 ^ 32)

include hfew

theorem exists_beside_take (n : Nat) : ∃ d,
    Packed.Beside (Bottom.meaning.sum Bottom.meaning) (max size 1)
      (Packed.tapped.run (requests.take n) (.new first further backend size) host).2.1 d := by
  obtain ⟨d, hstart⟩ := Packed.Tapped.exists_beside first further backend size
  have hleft := unspent_pack first further backend size requests host hfew
  exact hstart.exists_run _ host (Packed.Tapped.unspent_take hleft n)

theorem owned_packedEnd (n : Nat) :
    (packedEnd first further backend size (requests.take n) host).Owned Packed.contents := by
  obtain ⟨d, m, hs, -⟩ := exists_beside_take first further backend size requests host hfew n
  simp only [packedEnd_eq, Packed.Tapped.untap, Packed.owned_map, Packed.contents_untap]
  exact hs.owned

/-- The accounts of one call of a run. -/
theorem settles_packedEnd {i : Nat} (hi : i < requests.length) :
    ∃ outcome : Except DomainError requests[i].kind.Value,
      (((explicit first).pack backend (.ok (explicit further)) size).run requests host).1[i]? =
        some (outcome.map requests[i].kind.reply) ∧
      (packedEnd first further backend size (requests.take i) host).Settles Packed.contents
        requests[i].call outcome
        (packedEnd first further backend size (requests.take (i + 1)) host) := by
  have hunspent := Packed.Tapped.unspent_take
    (unspent_pack first further backend size requests host hfew) (i + 1)
  obtain ⟨d, m, hs, -⟩ := exists_beside_take first further backend size requests host hfew i
  have hnext : requests.take (i + 1) = requests.take i ++ [requests[i]] :=
    List.take_succ_eq_append_getElem hi
  rw [hnext, Operations.run_append] at hunspent
  refine ⟨_, (congrArg (·[i]?) (run_pack first further backend size requests host).1).trans
    (Operations.getElem?_run _ requests hi _ host), ?_⟩
  have hsettles := (hs.ends_step requests[i].call _ hunspent).2
  simp only [packedEnd_eq, hnext, Operations.run_append, Packed.Tapped.untap, Packed.settles_map,
    Packed.contents_untap]
  exact hsettles

end

/-- In every run of a packed domain over fresh explicit ones the packs hold each component of each
stored set under a handle of its own, and a call that succeeds changes what they hold by exactly the
components of the set that it makes or releases, or by those that a declaration appends to all
terms. -/
theorem pack_owns_components (first further : UInt32) (backend : String) (size : Nat)
    (requests : List Request) (host : Host) :
    let packed := (explicit first).pack backend (.ok (explicit further)) size
    let state n := packedEnd first further backend size (requests.take n) host
    (∀ t ∈ packed.transcripts requests host, t.sets < 2 ^ 32) →
      (∀ n, (state n).Owned Packed.contents) ∧
      ∀ i (hi : i < requests.length) (value : requests[i].kind.Value),
        (packed.run requests host).1[i]? = some (.ok (requests[i].kind.reply value)) →
          (state i).Accounts Packed.contents (state (i + 1)) requests[i].call value := by
  intro packed state hfew
  refine ⟨owned_packedEnd first further backend size requests host hfew, ?_⟩
  intro i hi value hvalue
  obtain ⟨outcome, houtcome, hsettles⟩ :=
    settles_packedEnd first further backend size requests host hfew hi
  rw [houtcome, Option.some.injEq] at hvalue
  cases outcome with
  | error e => cases hvalue
  | ok value' =>
    obtain rfl := Answer.reply_injective _ (Except.ok.inj hvalue)
    exact hsettles

/-- A set and its complement are made across a declaration that opens a second pack, and one of them
is released. -/
theorem pack_owns_components_sample :
    let requests : List Request :=
      [⟨.declare "x" 1⟩, ⟨.varEqConst ⟨0⟩ 1⟩, ⟨.declare "y" 1⟩, ⟨.complement ⟨1⟩⟩,
        ⟨.subset ⟨1⟩ ⟨2⟩⟩, ⟨.release ⟨1⟩⟩]
    let packed := (explicit 20).pack "explicit" (.ok (explicit 20)) 1
    let state n := packedEnd 20 20 "explicit" 1 (requests.take n) Host.initial
    (∀ t ∈ packed.transcripts requests Host.initial, t.sets < 2 ^ 32) ∧
      (packed.run requests Host.initial).1 = [.ok (.var ⟨0⟩), .ok (.set ⟨1⟩), .ok (.var ⟨1⟩),
        .ok (.set ⟨2⟩), .ok (.bool false), .ok .unit] ∧
      (state 6).Owned Packed.contents ∧
      (state 2).Accounts Packed.contents (state 3) (.declare "y" 1) ⟨1⟩ ∧
      (state 3).Accounts Packed.contents (state 4) (.complement ⟨1⟩) ⟨2⟩ ∧
      (state 5).Accounts Packed.contents (state 6) (.release ⟨1⟩) () := by
  intro requests packed state
  have hfew : ∀ t ∈ packed.transcripts requests Host.initial, t.sets < 2 ^ 32 := by decide +kernel
  have houtcomes : (packed.run requests Host.initial).1 = [.ok (.var ⟨0⟩), .ok (.set ⟨1⟩),
      .ok (.var ⟨1⟩), .ok (.set ⟨2⟩), .ok (.bool false), .ok .unit] := by decide +kernel
  obtain ⟨howned, haccounts⟩ := pack_owns_components 20 20 "explicit" 1 requests Host.initial hfew
  exact ⟨hfew, houtcomes, howned 6,
    haccounts 2 (by decide) ⟨1⟩ (congrArg (·[2]?) houtcomes),
    haccounts 3 (by decide) ⟨2⟩ (congrArg (·[3]?) houtcomes),
    haccounts 5 (by decide) () (congrArg (·[5]?) houtcomes)⟩

/-- A call that fails in a run of a packed domain over fresh explicit ones leaves the variables, the
packs, the stored sets and the next handle as they were, and in the packs the same live sets. Only
where a value of a point does not fit its variable, one more set stays in each pack before that of
the variable. -/
theorem pack_failure_leaves (first further : UInt32) (backend : String) (size : Nat)
    (requests : List Request) (host : Host) :
    let packed := (explicit first).pack backend (.ok (explicit further)) size
    let state n := packedEnd first further backend size (requests.take n) host
    (∀ t ∈ packed.transcripts requests host, t.sets < 2 ^ 32) →
      ∀ i (hi : i < requests.length) (e : DomainError),
        (packed.run requests host).1[i]? = some (.error e) →
          (state i).Leaves Packed.contents (state (i + 1))
            ((state i).stranded requests[i].call) := by
  intro packed state hfew i hi e he
  obtain ⟨outcome, houtcome, hsettles⟩ :=
    settles_packedEnd first further backend size requests host hfew hi
  rw [houtcome, Option.some.injEq] at he
  cases outcome with
  | ok value => cases he
  | error e' => exact hsettles

/-- A point fails in the second of two packs. -/
theorem pack_failure_leaves_sample :
    let requests : List Request := [⟨.declare "x" 1⟩, ⟨.declare "y" 1⟩, ⟨.singleton [0, 2]⟩]
    let packed := (explicit 20).pack "explicit" (.ok (explicit 20)) 1
    let state n := packedEnd 20 20 "explicit" 1 (requests.take n) Host.initial
    (∀ t ∈ packed.transcripts requests Host.initial, t.sets < 2 ^ 32) ∧
      (packed.run requests Host.initial).1[2]? = some (.error (.valueOutOfRange 2 1)) ∧
      (state 2).Leaves Packed.contents (state 3) 1 := by
  intro requests packed state
  have hfew : ∀ t ∈ packed.transcripts requests Host.initial, t.sets < 2 ^ 32 := by decide +kernel
  have hfails : (packed.run requests Host.initial).1[2]? =
      some (.error (.valueOutOfRange 2 1)) := by decide +kernel
  have hstranded : (state 2).stranded requests[2].call = 1 := by decide +kernel
  exact ⟨hfew, hfails, hstranded ▸ pack_failure_leaves 20 20 "explicit" 1 requests Host.initial
    hfew 2 (by decide) _ hfails⟩

/-- What the first pack has made for a point stays live when the second one refuses the point. -/
theorem pack_failure_not_clean :
    let requests : List Request := [⟨.declare "x" 1⟩, ⟨.declare "y" 1⟩, ⟨.singleton [0, 2]⟩]
    let packed := (explicit 20).pack "explicit" (.ok (explicit 20)) 1
    let state n := packedEnd 20 20 "explicit" 1 (requests.take n) Host.initial
    (packed.run requests Host.initial).1[2]? = some (.error (.valueOutOfRange 2 1)) ∧
      (⟨1⟩, 0) ∉ (state 2).live Packed.contents ∧ (⟨1⟩, 0) ∈ (state 3).live Packed.contents := by
  intro requests packed state
  rw [Packed.mem_live_contents_iff, Packed.mem_live_contents_iff]
  decide +kernel

end Domain
end LayeredSets
