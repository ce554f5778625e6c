import LayeredSets.Proofs.Meaning
import LayeredSets.Proofs.Packed.Keeps
import LayeredSets.Proofs.Packed.Transport

/-!
# The sets that packs hold

A packed domain owns the sets in its packs, each under a handle of its own. A call on a pack makes
one more of them, asks about one or removes one, and leaves all others as they are. Everything but
the packs' domains stays the same on the way.
-/

namespace LayeredSets

/-- A live set in one of the packs. -/
structure Cell where
  pack : Nat
  set : SetId
  value : Set Valuation

/-- Nothing has been declared or made. -/
structure Meaning.Fresh {σ : Type} {ops : Operations σ} (I : Meaning ops) (s : σ) : Prop where
  good : I.Good s
  unspent : ¬ I.Spent s
  widths : (I.ideal s).widths = []
  sets : ∀ set, (I.ideal s).sets set = none

section

variable {σ : Type} {ops : Operations σ} (I : Meaning ops)

-- one instance for each kind of answer too, since the type of an answer tells its kind only then
instance (k : Answer) (call : Call k) : Action.Keeps (fun s _ => I.Spent s) (ops.step call) :=
  I.keeps k call

instance (call : Call .var) : Action.Keeps (fun s _ => I.Spent s) (ops.step call) := I.keeps _ call

instance (call : Call .set) : Action.Keeps (fun s _ => I.Spent s) (ops.step call) := I.keeps _ call

instance (call : Call .bool) : Action.Keeps (fun s _ => I.Spent s) (ops.step call) := I.keeps _ call

instance (call : Call .unit) : Action.Keeps (fun s _ => I.Spent s) (ops.step call) := I.keeps _ call

end

namespace Packed

open Action

variable {ρ α : Type} {inner : Operations ρ} {I : Meaning inner}

/-- What can be seen without asking the packs for their sets. -/
def outline (I : Meaning inner) (s : Packed ρ) : Packed (List UInt32) :=
  s.map fun d => (I.ideal d).widths

/-- The widths of the variables in a pack. -/
def widthsOf (o : Packed (List UInt32)) (pack : Nat) : List UInt32 :=
  (o.packs[pack]?.map (·.domain)).getD []

/-- The handles of the live sets in the packs, each with its pack. -/
def live (ideal : ρ → Ideal) (s : Packed ρ) : Set (SetId × Nat) :=
  {x | ∃ pack, s.packs[x.2]? = some pack ∧ (ideal pack.domain).sets x.1 ≠ none}

/-- The handle of a cell, with its pack. -/
def Cell.handle (c : Cell) : SetId × Nat := (c.set, c.pack)

/-- The packs hold the cells and no other sets, under handles no two of which are the same. -/
structure Owns (I : Meaning inner) (o : Packed (List UInt32)) (cells : Multiset Cell)
    (s : Packed ρ) : Prop where
  outline : outline I s = o
  good : ∀ pack ∈ s.packs, I.Good pack.domain
  blank : ∃ d, s.blank = .ok d ∧ I.Fresh d
  mem_iff : ∀ c, c ∈ cells ↔ ∃ pack, s.packs[c.pack]? = some pack ∧
    (I.ideal pack.domain).sets c.set = some c.value
  distinct : (cells.map Cell.handle).Nodup

namespace Owns

variable {o : Packed (List UInt32)} {cells cells' : Multiset Cell} {s : Packed ρ}

theorem exists_of_mem (h : Owns I o cells s) {c : Cell} (hc : c ∈ cells) :
    ∃ pack, s.packs[c.pack]? = some pack ∧ (I.ideal pack.domain).sets c.set = some c.value :=
  (h.mem_iff c).mp hc

/-- The cells in a pack are the sets of its domain. -/
theorem mem_iff_sets (h : Owns I o cells s) {index : Nat} {pack : Pack ρ}
    (hpack : s.packs[index]? = some pack) {set : SetId} {value : Set Valuation} :
    ⟨index, set, value⟩ ∈ cells ↔ (I.ideal pack.domain).sets set = some value := by
  rw [h.mem_iff]
  simp [hpack]

/-- What the packs hold depends on their domains only. -/
theorem of_domains (h : Owns I o cells s) {t : Packed ρ}
    (hdomains : t.packs.map (·.domain) = s.packs.map (·.domain)) (hblank : t.blank = s.blank) :
    Owns I (Packed.outline I t) cells t where
  outline := rfl
  good pack hpack := by
    obtain ⟨pack', hpack', hsame⟩ :=
      List.mem_map.mp (hdomains ▸ List.mem_map_of_mem hpack : pack.domain ∈ s.packs.map (·.domain))
    rw [← hsame]
    exact h.good pack' hpack'
  blank := hblank ▸ h.blank
  mem_iff c := by
    have hsame := congrArg (·[c.pack]?) hdomains
    simp only [List.getElem?_map] at hsame
    have hsets (packs : List (Pack ρ)) :
        (∃ pack, packs[c.pack]? = some pack ∧
          (I.ideal pack.domain).sets c.set = some c.value) ↔
        ∃ d, packs[c.pack]?.map (·.domain) = some d ∧ (I.ideal d).sets c.set = some c.value := by
      simp
    rw [h.mem_iff, hsets, hsets, hsame]
  distinct := h.distinct

theorem length (h : Owns I o cells s) : s.packs.length = o.packs.length := by
  rw [← h.outline]
  simp [Packed.outline, map]

theorem widths (h : Owns I o cells s) {index : Nat} {pack : Pack ρ}
    (hpack : s.packs[index]? = some pack) : (I.ideal pack.domain).widths = widthsOf o index := by
  rw [← h.outline]
  simp [Packed.outline, map, widthsOf, hpack, Pack.map]

theorem exists_pack (h : Owns I o cells s) {index : Nat} (hindex : index < o.packs.length) :
    ∃ pack, s.packs[index]? = some pack :=
  ⟨_, List.getElem?_eq_getElem (h.length ▸ hindex)⟩

theorem bounded (h : Owns I o cells s) {c : Cell} (hc : c ∈ cells) :
    c.value ⊆ box (widthsOf o c.pack) := by
  obtain ⟨pack, hpack, hvalue⟩ := h.exists_of_mem hc
  rw [← h.widths hpack]
  exact I.bounded hvalue

/-- Another domain in the place of one that has the same variables. -/
theorem replace (h : Owns I o cells s) {index : Nat} {pack : Pack ρ}
    (hpack : s.packs[index]? = some pack) {domain : ρ} (hgood : I.Good domain)
    (hwidths : (I.ideal domain).widths = (I.ideal pack.domain).widths)
    (hhere : ∀ set value, ⟨index, set, value⟩ ∈ cells' ↔
      (I.ideal domain).sets set = some value)
    (helsewhere : ∀ c : Cell, c.pack ≠ index → (c ∈ cells' ↔ c ∈ cells))
    (hdistinct : (cells'.map Cell.handle).Nodup) :
    Owns I o cells' { s with packs := s.packs.set index { pack with domain } } where
  outline := by
    obtain ⟨hlt, rfl⟩ := List.getElem?_eq_some_iff.mp hpack
    rw [← h.outline]
    simp only [Packed.outline, map, List.map_set, Packed.mk.injEq, and_true]
    conv_rhs => rw [← List.set_getElem_self hlt, List.map_set]
    simp only [Pack.map, hwidths]
  good other hother := by
    rcases List.mem_or_eq_of_mem_set hother with hold | rfl
    · exact h.good other hold
    · exact hgood
  blank := h.blank
  mem_iff c := by
    obtain ⟨hlt, -⟩ := List.getElem?_eq_some_iff.mp hpack
    obtain ⟨index', set, value⟩ := c
    by_cases hindex : index' = index
    · subst hindex
      simp [hhere, hlt]
    · rw [helsewhere _ hindex, h.mem_iff]
      simp [List.getElem?_set_ne (Ne.symm hindex)]
  distinct := hdistinct

/-- Another domain that stands for the same. -/
theorem replace_same (h : Owns I o cells s) {index : Nat} {pack : Pack ρ}
    (hpack : s.packs[index]? = some pack) {domain : ρ} (hgood : I.Good domain)
    (hsame : (I.ideal pack.domain).Same (I.ideal domain)) :
    Owns I o cells { s with packs := s.packs.set index { pack with domain } } :=
  h.replace hpack hgood hsame.widths
    (fun set value => by rw [h.mem_iff_sets hpack, hsame.sets]) (fun _ _ => .rfl) h.distinct

/-- A call on one pack. -/
theorem ends_inPack (h : Owns I o cells s) {index : Nat} {pack : Pack ρ}
    (hpack : s.packs[index]? = some pack) {k : Answer} (call : Call k)
    {Q : Except DomainError k.Value → Packed ρ → Prop}
    (hcall : ∀ outcome domain, I.Good domain →
      (I.ideal pack.domain).Admits call outcome (I.ideal domain) →
        Q outcome { s with packs := s.packs.set index { pack with domain } }) :
    Ends (AnyPack I.Spent) (inPack index (inner.step call)) s Q := by
  intro host hleft
  obtain ⟨hlt, hat⟩ := List.getElem?_eq_some_iff.mp hpack
  simp only [inPack, hpack] at hleft ⊢
  obtain ⟨hgood, hadmits⟩ := I.step call (h.good pack (hat ▸ List.getElem_mem hlt)) host
    fun hspent => hleft ⟨_, List.mem_set hlt _, hspent⟩
  exact hcall _ _ hgood hadmits

/-- Making a set gives one more cell, with the set that the call makes in a domain that has the
variables of the pack and the sets in question. -/
theorem ends_made (h : Owns I o cells s) {index : Nat} (hindex : index < o.packs.length)
    (call : Call .set) :
    ∃ m : Ideal, m.widths = widthsOf o index ∧
      (∀ c ∈ cells, c.pack = index → m.sets c.set = some c.value) ∧
      Ends (AnyPack I.Spent) (inPack index (inner.step call)) s fun outcome t =>
        match m.made call with
        | .ok value => ∃ set, outcome = .ok set ∧ Owns I o (⟨index, set, value⟩ ::ₘ cells) t
        | .error e => outcome = .error e ∧ Owns I o cells t := by
  obtain ⟨pack, hpack⟩ := h.exists_pack hindex
  have hsets : ∀ c ∈ cells, c.pack = index →
      (I.ideal pack.domain).sets c.set = some c.value := by
    rintro ⟨_, set, value⟩ hc rfl
    exact (h.mem_iff_sets hpack).mp hc
  refine ⟨I.ideal pack.domain, h.widths hpack, hsets, ?_⟩
  refine h.ends_inPack hpack call fun outcome domain hgood hadmits => ?_
  simp only [Ideal.Admits] at hadmits
  cases hmade : (I.ideal pack.domain).made call with
  | error e =>
    rw [hmade] at hadmits
    exact ⟨hadmits.1, h.replace_same hpack hgood hadmits.2⟩
  | ok value =>
    rw [hmade] at hadmits
    obtain ⟨set, rfl, hfree, hsame⟩ := hadmits
    refine ⟨set, rfl, h.replace hpack hgood hsame.widths (fun set' value' => ?_) ?_ ?_⟩
    · rw [hsame.sets, Multiset.mem_cons, h.mem_iff_sets hpack]
      by_cases hset : set' = set
      · simp [hset, Ideal.keep, hfree, eq_comm]
      · simp [hset, Ideal.keep]
    · intro c hc
      exact Multiset.mem_cons.trans (or_iff_right fun heq => hc (congrArg Cell.pack heq))
    · rw [Multiset.map_cons, Multiset.nodup_cons]
      refine ⟨fun hmem => ?_, h.distinct⟩
      obtain ⟨c, hc, heq⟩ := Multiset.mem_map.mp hmem
      have hlive := hsets c hc (congrArg Prod.snd heq)
      rw [show c.set = set from congrArg Prod.fst heq, hfree] at hlive
      cases hlive

theorem ends_isEmpty (h : Owns I o cells s) {c : Cell} (hc : c ∈ cells) :
    Ends (AnyPack I.Spent) (inPack c.pack (inner.step (.isEmpty c.set))) s fun outcome t =>
      ∃ answer, outcome = .ok answer ∧ (answer = true ↔ c.value = ∅) ∧ Owns I o cells t := by
  obtain ⟨pack, hpack, hvalue⟩ := h.exists_of_mem hc
  refine h.ends_inPack hpack _ fun outcome domain hgood ⟨hagree, hsame⟩ => ?_
  have hquestion : (I.ideal pack.domain).question (.isEmpty c.set) = .ok (c.value = ∅) := by
    simp only [Ideal.question, Ideal.set, hvalue]
    rfl
  rw [hquestion] at hagree
  obtain ⟨answer, rfl, hanswer⟩ := hagree.ok_left
  exact ⟨answer, rfl, hanswer, h.replace_same hpack hgood hsame⟩

theorem ends_release {c : Cell} (h : Owns I o (c ::ₘ cells) s) :
    Ends (AnyPack I.Spent) (inPack c.pack (inner.step (.release c.set))) s fun outcome t =>
      outcome = .ok () ∧ Owns I o cells t := by
  obtain ⟨pack, hpack, hvalue⟩ := h.exists_of_mem (Multiset.mem_cons_self c cells)
  refine h.ends_inPack hpack _ fun outcome domain hgood hadmits => ?_
  simp only [Ideal.Admits, Ideal.set, hvalue] at hadmits
  obtain ⟨rfl, hsame⟩ := hadmits
  have hdistinct := h.distinct
  rw [Multiset.map_cons, Multiset.nodup_cons] at hdistinct
  refine ⟨rfl, h.replace hpack hgood hsame.widths (fun set value => ?_) ?_ hdistinct.2⟩
  · rw [hsame.sets]
    by_cases hset : set = c.set
    · subst hset
      simp only [Ideal.release, Function.update_self, reduceCtorEq, iff_false]
      exact fun hmem => hdistinct.1 (Multiset.mem_map.mpr ⟨_, hmem, rfl⟩)
    · have hold : ⟨c.pack, set, value⟩ ∈ c ::ₘ cells ↔ _ := h.mem_iff_sets hpack
      rw [Multiset.mem_cons, or_iff_right fun heq => hset (congrArg Cell.set heq)] at hold
      simp only [hold, Ideal.release, Function.update_of_ne hset]
  · intro c' hc'
    rw [Multiset.mem_cons, or_iff_right fun heq => hc' (congrArg Cell.pack heq)]

/-! ## Handles -/

/-- The packs have live sets under the handles of the cells, and no others. -/
theorem live_eq (h : Owns I o cells s) : live I.ideal s = {x | x ∈ cells.map Cell.handle} := by
  ext ⟨set, index⟩
  simp only [live, Set.mem_ofPred_eq, Multiset.mem_map, Option.ne_none_iff_exists']
  constructor
  · rintro ⟨pack, hpack, value, hvalue⟩
    exact ⟨⟨index, set, value⟩, (h.mem_iff_sets hpack).mpr hvalue, rfl⟩
  · rintro ⟨c, hc, heq⟩
    obtain ⟨rfl, rfl⟩ := Prod.mk.inj heq
    obtain ⟨pack, hpack, hvalue⟩ := h.exists_of_mem hc
    exact ⟨pack, hpack, _, hvalue⟩

end Owns

end Packed
end LayeredSets
