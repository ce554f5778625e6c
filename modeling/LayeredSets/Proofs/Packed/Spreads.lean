import LayeredSets.Proofs.Packed.Accounts

/-!
# Packed states stand for ideal states

A packed domain stands for the ideal domain whose variables are laid out over its packs and whose
sets are those of its unions of terms. The packs own every component of every term, so that terms
can be made and given up one by one; what else they own is lost. What a call replies is compared
with what the ideal domain replies to it.
-/

namespace LayeredSets

namespace Table

variable {κ α β : Type} [BEq κ]

theorem map_insert (f : α → β) (t : Table κ α) (k : κ) (a : α) :
    (t.insert k a).map f = (t.map f).insert k (f a) := by
  simp [insert, map, erase, List.filter_map, Function.comp_def]

theorem map_erase (f : α → β) (t : Table κ α) (k : κ) : (t.erase k).map f = (t.map f).erase k := by
  simp [map, erase, List.filter_map, Function.comp_def]

theorem mem_of_get? [LawfulBEq κ] {t : Table κ α} {k : κ} {a : α} (h : t.get? k = some a) :
    (k, a) ∈ t.entries := by
  obtain ⟨⟨k', a'⟩, hfind, rfl⟩ := Option.map_eq_some_iff.mp h
  have hkey := List.find?_some hfind
  simp only [beq_iff_eq] at hkey
  exact hkey ▸ List.mem_of_find?_eq_some hfind

end Table

namespace Packed

open Action

variable {ρ α : Type} {inner : Operations ρ} {I : Meaning inner}

/-- The cells of all stored terms. -/
def tableCells (table : Table SetId (List Piece)) : Multiset Cell :=
  (table.entries.map fun entry => cellsOf entry.2).sum

theorem cellsOf_subset_tableCells {table : Table SetId (List Piece)} {set : SetId}
    {pieces : List Piece} (h : table.get? set = some pieces) :
    cellsOf pieces ⊆ tableCells table := by
  have hmem : cellsOf pieces ∈
      ((table.entries.map fun entry => cellsOf entry.2 : List _) : Multiset (Multiset Cell)) :=
    Multiset.mem_coe.mpr (List.mem_map.mpr ⟨_, Table.mem_of_get? h, rfl⟩)
  exact Multiset.subset_of_le (Multiset.le_sum_of_mem hmem)

theorem tableCells_erase_le (table : Table SetId (List Piece)) (set : SetId) :
    tableCells (table.erase set) ≤ tableCells table :=
  ((List.filter_sublist (l := table.entries)).map _).sum_le_sum fun _ _ => Multiset.zero_le _

theorem tableCells_insert_le (table : Table SetId (List Piece)) (set : SetId)
    (pieces : List Piece) :
    tableCells (table.insert set pieces) ≤ cellsOf pieces + tableCells table :=
  add_le_add_right (tableCells_erase_le table set) (cellsOf pieces)

/-- An entry that is removed takes its cells with it. -/
theorem cellsOf_add_erase_le {table : Table SetId (List Piece)} {set : SetId}
    {pieces : List Piece} (h : table.get? set = some pieces) :
    cellsOf pieces + tableCells (table.erase set) ≤ tableCells table := by
  obtain ⟨entries⟩ := table
  induction entries with
  | nil => cases h
  | cons entry entries ih =>
    have hrest := tableCells_erase_le ⟨entries⟩ set
    simp only [Table.get?, Table.erase, tableCells, List.find?_cons] at h hrest ih ⊢
    by_cases hkey : entry.1 = set
    · simp only [beq_iff_eq.mpr hkey, Option.map_some, Option.some.injEq] at h
      simp only [List.filter_cons, beq_iff_eq.mpr hkey, Bool.not_true, Bool.false_eq_true, if_false,
        List.map_cons, List.sum_cons, h]
      exact add_le_add_right hrest _
    · simp only [beq_eq_false_iff_ne.mpr hkey] at h
      simp only [List.filter_cons, beq_eq_false_iff_ne.mpr hkey, Bool.not_false, if_true,
        List.map_cons, List.sum_cons]
      rw [add_left_comm]
      exact add_le_add_right (ih h) _

theorem handles_tableCells (table : Table SetId (List Piece)) :
    (tableCells table).map Cell.handle =
      (table.entries.flatMap fun entry => components (entry.2.map (·.term)) : List _) := by
  obtain ⟨entries⟩ := table
  induction entries with
  | nil => rfl
  | cons entry entries ih =>
    rw [List.flatMap_cons, ← Multiset.coe_add, ← ih, ← handles_cellsOf, ← Multiset.map_add]
    rfl

/-- The ideal state behind a packed one, by way of a table of all terms with their components. What
the packs hold besides is lost. -/
structure Spreads (I : Meaning inner) (size : Nat) (s : Packed ρ) (m : Ideal)
    (table : Table SetId (List Piece)) (lost : Multiset Cell) : Prop where
  shaped : Shaped size m.widths (outline I s)
  owns : Owns I (outline I s) (tableCells table + lost) s
  sized : ∀ entry ∈ table.entries, ∀ piece ∈ entry.2,
    piece.term.length = (outline I s).packs.length
  terms : s.sets = table.map fun pieces => pieces.map (·.term)
  sets : ∀ set, m.sets set = (table.get? set).map fun pieces =>
    gather size m.widths (outline I s).packs.length (pieces.map (·.part))
  issued : s.issued = UInt32.ofNat m.issued

def StandsFor (I : Meaning inner) (size : Nat) (s : Packed ρ) (m : Ideal) : Prop :=
  ∃ table lost, Spreads I size s m table lost

/-- The reply is the ideal one, and what follows stands for the ideal state that follows. -/
def Replies (I : Meaning inner) (size : Nat) (m : Ideal) (ideal : Except DomainError (α × Ideal))
    (outcome : Except DomainError α) (s : Packed ρ) : Prop :=
  match ideal with
  | .ok (value, m') => outcome = .ok value ∧ StandsFor I size s m'
  | .error e => outcome = .error e ∧ StandsFor I size s m

/-- The reply is the ideal one, and the accounts `W` are settled. -/
def Answers (I : Meaning inner) (size : Nat) (m : Ideal)
    (W : Except DomainError α → Packed ρ → Prop) (ideal : Except DomainError (α × Ideal))
    (outcome : Except DomainError α) (t : Packed ρ) : Prop :=
  Replies I size m ideal outcome t ∧ W outcome t

namespace Spreads

variable {size : Nat} {s t : Packed ρ} {m : Ideal} {table : Table SetId (List Piece)}
  {lost lost' : Multiset Cell} {k : Answer} {call : Call k}

/-- What still holds the stored cells, and has changed nothing else, stands for the same. -/
theorem transfer (h : Spreads I size s m table lost)
    (howns : Owns I (outline I s) (tableCells table + lost') t) :
    Spreads I size t m table lost' := by
  have houtline := howns.outline
  have hsets : t.sets = s.sets := congrArg (·.sets) houtline
  have hissued : t.issued = s.issued := congrArg (·.issued) houtline
  exact ⟨houtline ▸ h.shaped, houtline ▸ howns, houtline ▸ h.sized, hsets.trans h.terms,
    houtline ▸ h.sets, hissued.trans h.issued⟩

theorem holdings_eq (h : Spreads I size s m table lost) :
    (s.holdings : Multiset (SetId × Nat)) = (tableCells table).map Cell.handle := by
  rw [handles_tableCells, holdings, h.terms, Table.map, List.flatMap_map]

/-- What lives in the packs belongs to a stored term or is lost. -/
theorem mem_live_iff (h : Spreads I size s m table lost) (x : SetId × Nat) :
    x ∈ live I.ideal s ↔ x ∈ s.holdings ∨ x ∈ lost.map Cell.handle := by
  rw [h.owns.live_eq, Set.mem_ofPred_eq, Multiset.map_add, ← h.holdings_eq, Multiset.mem_add,
    Multiset.mem_coe]

theorem owned (h : Spreads I size s m table lost) : Owned I.ideal s where
  sized entry hentry term hterm := by
    rw [h.terms] at hentry
    obtain ⟨⟨set, pieces⟩, hold, rfl⟩ := List.mem_map.mp hentry
    obtain ⟨piece, hpiece, rfl⟩ := List.mem_map.mp hterm
    rw [h.sized _ hold piece hpiece, h.owns.length]
  live x hx := (h.mem_live_iff x).mpr (.inl hx)
  distinct := by
    have hdistinct := h.owns.distinct
    rw [Multiset.map_add, Multiset.nodup_add, ← h.holdings_eq] at hdistinct
    exact hdistinct.1

/-- An action on cells of stored terms gives what it gives beside all that is held. -/
theorem ends_yields (h : Spreads I size s m table lost) {x : Act (Packed ρ) α}
    {P : α → Multiset Cell → Prop} (hx : Yields I (outline I s) (tableCells table) 0 x P) :
    Ends (AnyPack I.Spent) x s fun outcome t => ∃ a given, outcome = .ok a ∧ P a given ∧
      Owns I (outline I s) (given + (tableCells table + lost)) t :=
  hx s (tableCells table + lost) (Multiset.subset_of_le (Multiset.le_add_right _ _))
    (by rw [zero_add]; exact h.owns)

/-- A call that fails and leaves all cells as they were. -/
theorem answers_error (h : Spreads I size s m table lost) (hstranded : s.stranded call = 0)
    {e : DomainError} (howns : Owns I (outline I s) (tableCells table + lost) t) :
    Answers I size m (Settles I.ideal s call) (.error e) (.error e) t := by
  refine ⟨⟨rfl, table, lost, h.transfer howns⟩, ?_⟩
  simp only [Settles, hstranded]
  exact h.owns.leaves howns

/-- A call that fails and leaves a component in each of the first packs. -/
theorem answers_stranded (h : Spreads I size s m table lost) {piece : Piece}
    (hpiece : piece.term.length = s.stranded call) {e : DomainError}
    (howns : Owns I (outline I s) (piece.cells + (tableCells table + lost)) t) :
    Answers I size m (Settles I.ideal s call) (.error e) (.error e) t := by
  have ht : Spreads I size t m table (piece.cells + lost) := h.transfer (by rwa [add_left_comm])
  obtain ⟨hnew, hlive⟩ := h.owns.live_add howns
  rw [handles_cells] at hnew hlive
  exact ⟨⟨rfl, table, _, ht⟩, howns.outline, piece.term, hpiece, hnew, hlive⟩

/-! ## Lookups -/

theorem ends_lookup_bind (h : Spreads I size s m table lost) {set : SetId}
    {f : List Term → Act (Packed ρ) α} {Q : Except DomainError α → Packed ρ → Prop}
    (hnone : table.get? set = none → Q (.error (.unknownSet set)) s)
    (hsome : ∀ pieces, table.get? set = some pieces →
      Ends (AnyPack I.Spent) (f (pieces.map (·.term))) s Q) :
    Ends (AnyPack I.Spent) (findTerms set >>= f) s Q := by
  have hstored : s.sets.get? set = (table.get? set).map fun pieces => pieces.map (·.term) := by
    rw [h.terms, Table.get?_map]
  intro host hleft
  simp only [findTerms, bind_apply, Action.get] at hleft ⊢
  rw [hstored] at hleft ⊢
  cases hget : table.get? set with
  | none => exact hnone hget
  | some pieces =>
    rw [hget] at hleft
    exact hsome pieces hget host hleft

theorem ends_findTerms_bind (h : Spreads I size s m table lost) (set : SetId)
    {f : List Term → Act (Packed ρ) α} {g : Set Valuation → Except DomainError (α × Ideal)}
    {W : Except DomainError α → Packed ρ → Prop} (hW : ∀ e, W (.error e) s)
    (hf : ∀ pieces, table.get? set = some pieces →
      Ends (AnyPack I.Spent) (f (pieces.map (·.term))) s (Answers I size m W
        (g (gather size m.widths (outline I s).packs.length (pieces.map (·.part)))))) :
    Ends (AnyPack I.Spent) (findTerms set >>= f) s (Answers I size m W (m.set set >>= g)) := by
  simp only [Ideal.set, h.sets set]
  refine h.ends_lookup_bind (fun hget => ?_) fun pieces hget => ?_
  · rw [hget]
    exact ⟨⟨rfl, table, lost, h⟩, hW _⟩
  · rw [hget]
    exact hf pieces hget

theorem ends_findVar_bind (h : Spreads I size s m table lost) (var : VarId)
    {f : PackedVar → Act (Packed ρ) α} {g : UInt32 → Except DomainError (α × Ideal)}
    {W : Except DomainError α → Packed ρ → Prop} (hW : ∀ e, W (.error e) s)
    (hf : ∀ hi : var.index.toNat < m.widths.length,
      Ends (AnyPack I.Spent) (f ⟨var.index.toNat / size,
        ⟨UInt32.ofNat (var.index.toNat % size)⟩, m.widths[var.index.toNat]⟩) s
        (Answers I size m W (g m.widths[var.index.toNat]))) :
    Ends (AnyPack I.Spent) (findVar var >>= f) s (Answers I size m W (m.width var >>= g)) := by
  intro host hleft
  simp only [findVar, bind_apply, Action.get] at hleft ⊢
  simp only [Ideal.width]
  have hvars : s.vars = layout size m.widths := h.shaped.vars
  by_cases hi : var.index.toNat < m.widths.length
  · have hat : s.vars[var.index.toNat]? = _ := h.shaped.var_eq hi
    rw [hat] at hleft ⊢
    rw [List.getElem?_eq_getElem hi]
    exact hf hi host hleft
  · rw [hvars, getElem?_layout, List.getElem?_eq_none (not_lt.mp hi)]
    exact ⟨⟨rfl, table, lost, h⟩, hW _⟩

/-! ## Storing and asking -/

theorem get?_sized (h : Spreads I size s m table lost) {set : SetId} {pieces : List Piece}
    (hget : table.get? set = some pieces) :
    ∀ piece ∈ pieces, piece.term.length = (outline I s).packs.length :=
  h.sized _ (Table.mem_of_get? hget)

theorem stored (h : Spreads I size s m table lost) {parts : List (Nat → Set Valuation)}
    {terms : List Term} {given : Multiset Cell}
    (hgives : Gives (outline I s).packs.length parts terms given)
    (howns : Owns I (outline I s) (given + (tableCells table + lost)) t) (host : Host)
    {call : Call .set} :
    let value := gather size m.widths (outline I s).packs.length parts
    Answers I size m (Settles I.ideal s call) (.ok (m.store value))
      (store terms t host).1 (store terms t host).2.1 := by
  intro value
  have houtline := howns.outline
  have ht : Spreads I size t m table (given + lost) := h.transfer (by rwa [add_left_comm])
  have hset : (⟨t.issued + 1⟩ : SetId) = ⟨UInt32.ofNat (m.issued + 1)⟩ := by
    rw [ht.issued, UInt32.ofNat_add]
    rfl
  obtain ⟨pieces, rfl, rfl, hsized, rfl⟩ := hgives
  obtain ⟨replaced, hreplaced⟩ :=
    Multiset.le_iff_exists_add.mp (tableCells_insert_le table ⟨t.issued + 1⟩ pieces)
  refine ⟨⟨congrArg Except.ok hset, table.insert ⟨t.issued + 1⟩ pieces, replaced + lost, ?_⟩, ?_⟩
  · constructor
    · exact ht.shaped.congr rfl rfl rfl
    · rw [← add_assoc, ← hreplaced, add_assoc]
      exact howns.of_domains rfl rfl
    · intro entry hentry
      rcases List.mem_cons.mp hentry with rfl | hold
      · have hlength : (outline I s).packs.length = (outline I t).packs.length := by rw [houtline]
        exact fun piece hpiece => (hsized piece hpiece).trans hlength
      · exact ht.sized entry (List.mem_of_mem_filter hold)
    · rw [Table.map_insert, ← ht.terms]
      rfl
    · intro set
      have hlength : (outline I s).packs.length = (outline I t).packs.length := by rw [houtline]
      by_cases hnew : set = ⟨t.issued + 1⟩
      · subst hnew
        rw [Table.get?_insert_self, hset]
        simp only [Function.update_self, Option.map_some, value, hlength]
        rfl
      · rw [Table.get?_insert_of_ne _ _ hnew]
        simp only [Function.update_of_ne (hset ▸ hnew)]
        exact ht.sets set
    · have hnext : t.issued + 1 = UInt32.ofNat (m.issued + 1) := congrArg SetId.index hset
      exact hnext
  · have hsets : t.sets = s.sets := congrArg (·.sets) houtline
    obtain ⟨hnew, hlive⟩ := h.owns.live_add howns
    rw [handles_cellsOf] at hnew hlive
    exact ⟨_, congrArg (Table.insert · _ _) hsets, hnew, hlive⟩

/-- Terms that are made and then stored. -/
theorem ends_store (h : Spreads I size s m table lost) {x : Act (Packed ρ) α} {f : α → List Term}
    {value : Set Valuation} (call : Call .set)
    (hx : Yields I (outline I s) (tableCells table) 0 x fun a given => ∃ parts,
      Gives (outline I s).packs.length parts (f a) given ∧
        gather size m.widths (outline I s).packs.length parts = value) :
    Ends (AnyPack I.Spent) (x >>= fun a => store (f a)) s
      (Answers I size m (Settles I.ideal s call) (.ok (m.store value))) := by
  refine Ends.bind (h.ends_yields hx) ?_ ?_
  · rintro a t ⟨_, given, ⟨⟩, ⟨parts, hgives, rfl⟩, howns⟩ host -
    exact h.stored hgives howns host
  · rintro e t ⟨_, _, ⟨⟩, _⟩

/-- A question about terms. -/
theorem ends_ask (h : Spreads I size s m table lost) {x : Act (Packed ρ) Bool} {q : Prop}
    (hx : Yields I (outline I s) (tableCells table) 0 x fun answer given =>
      given = 0 ∧ (answer = true ↔ q)) :
    Ends (AnyPack I.Spent) x s fun outcome t =>
      Owns I (outline I s) (tableCells table + lost) t ∧
        ∃ answer, outcome = .ok answer ∧ (answer = true ↔ q) := by
  refine (h.ends_yields hx).mono ?_
  rintro _ t ⟨answer, _, rfl, ⟨rfl, hanswer⟩, howns⟩
  rw [zero_add] at howns
  exact ⟨howns, answer, rfl, hanswer⟩

end Spreads

end Packed
end LayeredSets
