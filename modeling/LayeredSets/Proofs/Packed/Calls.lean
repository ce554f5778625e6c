import LayeredSets.Proofs.Packed.Constraints
import LayeredSets.Proofs.Packed.Spreads

/-!
# Calls on sets

Each call that makes a set, asks about sets or gives one up replies as the ideal domain does, keeps
the packed state in step with it and settles its accounts. The one exception is an equation between
wide variables of two packs, which is refused.
-/

namespace LayeredSets.Packed

open Action

variable {ρ α : Type} {inner : Operations ρ} {I : Meaning inner}

theorem ends_packIndices_bind {spent : Packed ρ → Prop} {s : Packed ρ}
    {f : List Nat → Act (Packed ρ) α} {Q : Except DomainError α → Packed ρ → Prop}
    (h : Ends spent (f (List.range s.packs.length)) s Q) : Ends spent (packIndices >>= f) s Q := h

theorem lt_of_var (var : VarId) (size : Nat) : var.index.toNat % size < 2 ^ 32 :=
  (Nat.mod_le _ _).trans_lt (UInt32.toNat_lt var.index)

/-! ## Equations that are refused -/

/-- Two variables of one width, which is too wide to compare them value by value, that lie in
different packs. -/
def Refuses (s : Packed ρ) : {k : Answer} → Call k → Prop
  | _, .varEqVar a b => ∃ x y, s.vars[a.index.toNat]? = some x ∧ s.vars[b.index.toNat]? = some y ∧
      x.bits = y.bits ∧ maxCrossBits < x.bits ∧ x.pack ≠ y.pack
  | _, _ => False

theorem step_refused {s : Packed ρ} {k : Answer} {call : Call k} (h : s.Refuses call)
    (host : Host) :
    step inner call s host = (.error (.unsupported "var_eq_var" (s.describe inner)), s, host) := by
  cases call with
  | varEqVar a b =>
    obtain ⟨x, y, hx, hy, hbits, hwide, hpack⟩ := h
    simp [step, findVar, bind_apply, Action.get, Action.require, hx, hy, varEqVar, hpack, ← hbits,
      hwide, Action.fail]
  | _ => exact h.elim

/-! ## Calls that make sets -/

namespace Spreads

variable {size : Nat} {s t : Packed ρ} {m : Ideal} {table : Table SetId (List Piece)}
  {lost : Multiset Cell}

theorem ends_top (h : Spreads I size s m table lost) :
    Ends (AnyPack I.Spent) (step inner .top) s
      (Answers I size m (Settles I.ideal s .top) (m.apply .top)) :=
  h.ends_store (f := fun term => [term]) _ <| yields_topTerm.mono fun _ _ hterm =>
    ⟨_, hterm.gives, h.shaped.gather_top⟩

theorem ends_bottom (h : Spreads I size s m table lost) :
    Ends (AnyPack I.Spent) (step inner .bottom) s
      (Answers I size m (Settles I.ideal s .bottom) (m.apply .bottom)) :=
  h.ends_store (x := pure ()) (f := fun _ => []) _ <| Yields.pure
    ⟨_, .nil _, gather_nil size m.widths _⟩

/-- What fails in the ideal domains of a pack, fails in the pack. -/
theorem ends_inPack_error (h : Spreads I size s m table lost) {index : Nat}
    (hindex : index < (outline I s).packs.length) {call : Call .set} {e : DomainError}
    (hmade : ∀ m' : Ideal, m'.widths = widthsOf (outline I s) index → m'.made call = .error e) :
    Ends (AnyPack I.Spent) (inPack index (inner.step call)) s fun outcome t =>
      outcome = .error e ∧ Owns I (outline I s) (tableCells table + lost) t := by
  obtain ⟨m', hwidths, -, hends⟩ := h.owns.ends_made hindex call
  rwa [hmade m' hwidths] at hends

/-- A call on one pack that makes the component of a term there. -/
theorem ends_constrained (h : Spreads I size s m table lost) {pack : Nat}
    (hpack : pack < (outline I s).packs.length) {call : Call .set}
    {component : Except DomainError (Set Valuation)}
    (hmade : ∀ m' : Ideal, m'.widths = widthsOf (outline I s) pack → m'.made call = component)
    {whole : Call .set} (hstranded : s.stranded whole = 0) :
    Ends (AnyPack I.Spent) (do
        let component ← inPack pack (inner.step call)
        store [← termWith inner pack component]) s
      (Answers I size m (Settles I.ideal s whole) (component.map fun value =>
        m.store (gather size m.widths (outline I s).packs.length
          [Function.update (topPart (outline I s)) pack value]))) := by
  cases component with
  | error e =>
    refine (h.ends_inPack_error hpack hmade).error_bind.mono ?_
    rintro _ t ⟨rfl, howns⟩
    exact h.answers_error hstranded howns
  | ok value =>
    have hterm : Yields I (outline I s) (tableCells table) 0
        (inPack pack (inner.step call) >>= termWith inner pack)
        (GivesOne (outline I s).packs.length
          (Function.update (topPart (outline I s)) pack value)) :=
      (yields_made hpack fun m' hm' _ => hmade m' hm').bind fun component _ hcomponent =>
        hcomponent ▸ yields_termWith hpack component _
    have hends := h.ends_store (f := fun term => [term]) whole (hterm.mono fun _ _ hone =>
      ⟨_, hone.gives, rfl⟩)
    rwa [bind_assoc] at hends

theorem ends_constant (h : Spreads I size s m table lost) (var : VarId) (value : UInt64) :
    Ends (AnyPack I.Spent) (step inner (.varEqConst var value)) s
      (Answers I size m (Settles I.ideal s (.varEqConst var value))
        (m.apply (.varEqConst var value))) := by
  simp only [Ideal.apply, Ideal.made, map_bind, map_pure]
  refine h.ends_findVar_bind var (settles_error rfl) fun hi => ?_
  have hends := h.ends_constrained (h.shaped.pack_lt hi)
    (fun m' hm' => made_constant hm' (lt_of_var var size) (h.shaped.width_eq hi) value)
    (rfl : s.stranded (.varEqConst var value) = 0)
  cases hcheck : Ideal.checkValue value m.widths[var.index.toNat] with
  | error e =>
    rw [hcheck] at hends
    exact hends
  | ok u =>
    rw [hcheck] at hends
    rw [← h.shaped.gather_constant hi]
    exact hends

theorem ends_equality_within (h : Spreads I size s m table lost) {i j : Nat}
    (hi : i < m.widths.length) (hj : j < m.widths.length) (hsame : j / size = i / size) (hsmall : i % size < 2 ^ 32)
    (hsmall' : j % size < 2 ^ 32) {whole : Call .set} (hstranded : s.stranded whole = 0) :
    Ends (AnyPack I.Spent) (do
        let component ← inPack (i / size) (inner.step
          (.varEqVar ⟨UInt32.ofNat (i % size)⟩ ⟨UInt32.ofNat (j % size)⟩))
        store [← termWith inner (i / size) component]) s
      (Answers I size m (Settles I.ideal s whole) (if m.widths[i] ≠ m.widths[j]
        then .error (.widthMismatch m.widths[i] m.widths[j])
        else .ok (m.store {v ∈ box m.widths | v[i]? = v[j]?}))) := by
  have hends := h.ends_constrained (h.shaped.pack_lt hi) (fun m' hm' =>
    made_equality hm' hsmall hsmall' (h.shaped.width_eq hi) (hsame ▸ h.shaped.width_eq hj))
    hstranded
  rw [← h.shaped.gather_equality hi hsame]
  split at hends
  · next hbits =>
    rw [if_pos hbits]
    exact hends
  · next hbits =>
    rw [if_neg hbits]
    exact hends

/-- Across packs, an equation is the union of its values. -/
theorem ends_equality_across (h : Spreads I size s m table lost) {i j : Nat}
    (hi : i < m.widths.length) (hj : j < m.widths.length) (hdiffer : i / size ≠ j / size) (hsmall : i % size < 2 ^ 32)
    (hsmall' : j % size < 2 ^ 32) (hbits : m.widths[i] = m.widths[j])
    (hnarrow : m.widths[i] ≤ maxCrossBits) {whole : Call .set} :
    Ends (AnyPack I.Spent) (do
        let terms ← (List.range (1 <<< m.widths[i].toNat)).mapM fun value =>
          crossTerm inner ⟨i / size, ⟨UInt32.ofNat (i % size)⟩, m.widths[i]⟩
            ⟨j / size, ⟨UInt32.ofNat (j % size)⟩, m.widths[j]⟩ (UInt64.ofNat value)
        store terms) s
      (Answers I size m (Settles I.ideal s whole)
        (.ok (m.store {v ∈ box m.widths | v[i]? = v[j]?}))) := by
  have hle : m.widths[i].toNat ≤ 8 := UInt32.le_iff_toNat_le.mp hnarrow
  have hpow : 2 ^ m.widths[i].toNat ≤ 2 ^ 8 := Nat.pow_le_pow_right (by omega) hle
  rw [Nat.one_shiftLeft]
  refine h.ends_store (f := fun terms => terms) _ ((Yields.terms_of_reads fun x hx => ?_).mono
    fun _ _ hterms => ⟨_, hterms, h.shaped.gather_cross hi hj hdiffer⟩)
  have hvalue : (UInt64.ofNat x).toNat = x :=
    UInt64.toNat_ofNat_of_lt' (by have := List.mem_range.mp hx; simp only [UInt64.size]; omega)
  have hcross : Yields I (outline I s) (tableCells table) 0
      (crossTerm inner ⟨i / size, ⟨UInt32.ofNat (i % size)⟩, m.widths[i]⟩
        ⟨j / size, ⟨UInt32.ofNat (j % size)⟩, m.widths[j]⟩ (UInt64.ofNat x)) _ :=
    yields_crossTerm (h.shaped.pack_lt hi) (h.shaped.pack_lt hj) hsmall hsmall' rfl rfl
      (h.shaped.width_eq hi) (hbits ▸ h.shaped.width_eq hj) (hvalue.symm ▸ List.mem_range.mp hx)
  rwa [hvalue] at hcross

theorem ends_equality (h : Spreads I size s m table lost) {a b : VarId}
    (hnot : ¬ s.Refuses (.varEqVar a b)) :
    Ends (AnyPack I.Spent) (step inner (.varEqVar a b)) s
      (Answers I size m (Settles I.ideal s (.varEqVar a b)) (m.apply (.varEqVar a b))) := by
  have hideal : m.apply (.varEqVar a b) = m.width a >>= fun left => m.width b >>= fun right =>
      if left ≠ right then .error (.widthMismatch left right)
      else .ok (m.store {v ∈ box m.widths | v[a.index.toNat]? = v[b.index.toNat]?}) := by
    simp only [Ideal.apply, Ideal.made, map_bind]
    refine bind_congr fun left => bind_congr fun right => ?_
    split <;> rfl
  rw [hideal]
  refine h.ends_findVar_bind a (settles_error rfl) fun hi =>
    h.ends_findVar_bind b (settles_error rfl) fun hj => ?_
  have hvar {i : Nat} (hi : i < m.widths.length) : s.vars[i]? = _ := h.shaped.var_eq hi
  rw [varEqVar]
  by_cases hsame : a.index.toNat / size = b.index.toNat / size
  · rw [if_pos hsame, ← hsame]
    exact h.ends_equality_within hi hj hsame.symm (lt_of_var a size) (lt_of_var b size) rfl
  · rw [if_neg hsame]
    by_cases hbits : m.widths[a.index.toNat] = m.widths[b.index.toNat]
    · have hnarrow : ¬ maxCrossBits < m.widths[a.index.toNat] := fun hwide =>
        hnot ⟨_, _, hvar hi, hvar hj, hbits, hwide, hsame⟩
      rw [if_neg (by simpa using hbits), if_neg hnarrow, if_neg (not_not_intro hbits)]
      exact h.ends_equality_across hi hj hsame (lt_of_var a size) (lt_of_var b size) hbits
        (UInt32.not_lt.mp hnarrow)
    · rw [if_pos (by simpa using hbits), if_pos hbits]
      exact Ends.fail (h.answers_error rfl h.owns)

/-! ## Points -/

/-- The component of a point in a pack that finds nothing wrong with it. -/
theorem yields_chunk (h : Spreads I size s m table lost) {point : List UInt64}
    (hlength : point.length = m.widths.length) {pack : Nat}
    (hpack : pack < (outline I s).packs.length)
    (hcheck : Ideal.checkPoint (chunk size pack m.widths) (chunk size pack point) = .ok ()) :
    Yields I (outline I s) (tableCells table) 0
      (pointComponent inner ((layout size m.widths).zip point) pack) fun set given =>
        given = {⟨pack, set, {chunk size pack (point.map UInt64.toNat)}⟩} := by
  have hwidths := h.shaped.widthsOf_eq hpack
  rw [← map_chunk]
  refine yields_pointComponent hpack (filter_layout h.shaped.pos hlength pack) ?_ ?_
  · rw [hwidths, length_chunk, length_chunk, hlength]
  · rw [hwidths, hcheck]

/-- The component of a point in the pack that finds something wrong with it. -/
theorem ends_chunk_error (h : Spreads I size s m table lost) {point : List UInt64}
    (hlength : point.length = m.widths.length) {pack : Nat}
    (hpack : pack < (outline I s).packs.length) {e : DomainError}
    (hcheck : Ideal.checkPoint (chunk size pack m.widths) (chunk size pack point) = .error e) :
    Ends (AnyPack I.Spent) (pointComponent inner ((layout size m.widths).zip point) pack) s
      fun outcome t => outcome = .error e ∧
        Owns I (outline I s) (tableCells table + lost) t := by
  have hwidths := h.shaped.widthsOf_eq hpack
  rw [pointComponent, filter_layout h.shaped.pos hlength]
  cases hvalues : chunk size pack point with
  | nil =>
    rw [hvalues] at hcheck
    cases hw : chunk size pack m.widths <;> rw [hw] at hcheck <;> cases hcheck
  | cons value values =>
    refine h.ends_inPack_error hpack fun m' hm' => made_point_error hm' ?_ ?_
    · rw [hwidths, ← hvalues, length_chunk, length_chunk, hlength]
    · rw [hwidths, ← hvalues, hcheck]

theorem yields_point (h : Spreads I size s m table lost) {point : List UInt64}
    (hlength : point.length = m.widths.length)
    (hcheck : Ideal.checkPoint m.widths point = .ok ()) :
    Yields I (outline I s) (tableCells table) 0
      (packIndices >>= List.mapM (pointComponent inner ((layout size m.widths).zip point)))
      (GivesOne (outline I s).packs.length fun pack =>
        {chunk size pack (point.map UInt64.toNat)}) := by
  have hchecks := checkPoint_chunks hlength h.shaped.room
  rw [hcheck] at hchecks
  refine yields_packIndices_bind <| Yields.term_of_reads (map_range _) fun pack hpack => ?_
  have hlt := List.mem_range.mp hpack
  exact h.yields_chunk hlength hlt (hchecks pack hlt)

/-- The components before the one that cannot be made are left behind. -/
theorem ends_point_error (h : Spreads I size s m table lost) {point : List UInt64}
    (hlength : point.length = m.widths.length) {e : DomainError}
    (hcheck : Ideal.checkPoint m.widths point = .error e) :
    Ends (AnyPack I.Spent)
      (packIndices >>= List.mapM (pointComponent inner ((layout size m.widths).zip point))) s
      fun outcome t => outcome = .error e ∧ ∃ piece : Piece,
        piece.term.length = s.stranded (.singleton point) ∧
          Owns I (outline I s) (piece.cells + (tableCells table + lost)) t := by
  have hchecks := checkPoint_chunks hlength h.shaped.room
  rw [hcheck] at hchecks
  obtain ⟨pack, hpack, hbefore, hfails⟩ := hchecks
  have hstranded : s.stranded (.singleton point) = pack := by
    have hvars : s.vars = layout size m.widths := h.shaped.vars
    obtain ⟨x, hfind, rfl⟩ := find?_layout h.shaped.pos hlength hbefore hfails
    simp only [stranded, hvars, length_layout, hlength, if_true, hfind, Option.elim_some]
  obtain ⟨after, hsplit⟩ : ∃ after,
      List.range (outline I s).packs.length = List.range pack ++ pack :: after := by
    obtain ⟨k, hk⟩ : ∃ k, (outline I s).packs.length = pack + (k + 1) :=
      ⟨(outline I s).packs.length - pack - 1, by omega⟩
    rw [hk, List.range_add, List.range_succ_eq_map]
    exact ⟨_, rfl⟩
  refine ends_packIndices_bind ?_
  rw [h.owns.length, hsplit, List.mapM_append, List.mapM_cons]
  have hmade : Yields I (outline I s) (tableCells table) 0 ((List.range pack).mapM
      (pointComponent inner ((layout size m.widths).zip point))) _ :=
    Yields.term_of_reads (map_range pack) fun before hlt =>
      h.yields_chunk hlength ((List.mem_range.mp hlt).trans hpack)
        (hbefore before (List.mem_range.mp hlt))
  refine Ends.bind (h.ends_yields hmade) ?_ ?_
  · rintro term t ⟨_, _, ⟨⟩, ⟨hterm, rfl⟩, howns⟩
    have hlt : pack < (outline I t).packs.length := by rwa [howns.outline]
    rw [add_left_comm] at howns
    refine ((h.transfer howns).ends_chunk_error hlength hlt hfails).error_bind.error_bind.mono ?_
    rintro _ u ⟨rfl, hafter⟩
    rw [howns.outline, add_left_comm] at hafter
    exact ⟨rfl, _, hterm.trans hstranded.symm, hafter⟩
  · rintro e t ⟨_, _, ⟨⟩, _⟩

theorem ends_point (h : Spreads I size s m table lost) (point : List UInt64) :
    Ends (AnyPack I.Spent) (step inner (.singleton point)) s
      (Answers I size m (Settles I.ideal s (.singleton point)) (m.apply (.singleton point))) := by
  have hvars : s.vars = layout size m.widths := h.shaped.vars
  refine Ends.get_bind ?_
  rw [hvars, length_layout]
  simp only [Ideal.apply, Ideal.made]
  by_cases hlength : point.length = m.widths.length
  · rw [if_neg (by simpa using hlength), if_neg (not_not_intro hlength)]
    cases hcheck : Ideal.checkPoint m.widths point with
    | error e =>
      refine (h.ends_point_error hlength hcheck).error_bind.mono ?_
      rintro _ t ⟨rfl, piece, hpiece, howns⟩
      exact h.answers_stranded hpiece howns
    | ok u =>
      have hbox := mem_box_of_checkPoint hlength hcheck
      exact h.ends_store (f := fun term => [term]) _ ((h.yields_point hlength hcheck).mono
        fun _ _ hone => ⟨_, hone.gives, h.shaped.gather_point hbox⟩)
  · rw [if_pos (by simpa using hlength), if_pos hlength]
    have hstranded : s.stranded (.singleton point) = 0 := by
      rw [stranded, hvars, length_layout, if_neg hlength]
    exact Ends.fail (h.answers_error hstranded h.owns)

/-! ## Sets made of sets -/

theorem ends_union (h : Spreads I size s m table lost) (a b : SetId) :
    Ends (AnyPack I.Spent) (step inner (.union a b)) s
      (Answers I size m (Settles I.ideal s (.union a b)) (m.apply (.union a b))) := by
  simp only [Ideal.apply, Ideal.made, map_bind, map_pure]
  refine h.ends_findTerms_bind a (settles_error rfl) fun left hleft =>
    h.ends_findTerms_bind b (settles_error rfl) fun right hright => ?_
  have hsized : ∀ piece ∈ left ++ right, piece.term.length = (outline I s).packs.length := by
    intro piece hpiece
    rcases List.mem_append.mp hpiece with hmem | hmem
    · exact h.get?_sized hleft piece hmem
    · exact h.get?_sized hright piece hmem
  have hreads : ∀ piece ∈ left ++ right, piece.cells ⊆ tableCells table := by
    intro piece hpiece c hc
    rcases List.mem_append.mp hpiece with hmem | hmem
    · exact cellsOf_subset_tableCells hleft (cells_subset hmem hc)
    · exact cellsOf_subset_tableCells hright (cells_subset hmem hc)
  rw [← gather_append, ← List.map_append, ← List.map_append]
  exact h.ends_store (f := fun terms => terms) _ ((yields_copyTerms hsized hreads).mono
    fun _ _ hterms => ⟨_, hterms, rfl⟩)

theorem ends_intersect (h : Spreads I size s m table lost) (a b : SetId) :
    Ends (AnyPack I.Spent) (step inner (.intersect a b)) s
      (Answers I size m (Settles I.ideal s (.intersect a b)) (m.apply (.intersect a b))) := by
  simp only [Ideal.apply, Ideal.made, map_bind, map_pure]
  refine h.ends_findTerms_bind a (settles_error rfl) fun left hleft =>
    h.ends_findTerms_bind b (settles_error rfl) fun right hright => ?_
  refine h.ends_store (f := fun terms => terms) _ ((yields_intersectTerms (h.get?_sized hleft)
    (h.get?_sized hright) (cellsOf_subset_tableCells hleft)
    (cellsOf_subset_tableCells hright)).mono ?_)
  rintro terms given ⟨parts, hgives, -, hcovers⟩
  exact ⟨parts, hgives, gather_inter hcovers⟩

theorem ends_difference (h : Spreads I size s m table lost) (a b : SetId) :
    Ends (AnyPack I.Spent) (step inner (.difference a b)) s
      (Answers I size m (Settles I.ideal s (.difference a b)) (m.apply (.difference a b))) := by
  simp only [Ideal.apply, Ideal.made, map_bind, map_pure]
  refine h.ends_findTerms_bind a (settles_error rfl) fun left hleft =>
    h.ends_findTerms_bind b (settles_error rfl) fun right hright => ?_
  have hends := h.ends_store (f := fun terms => terms) (.difference a b)
    ((yields_without (h.get?_sized hleft) (h.get?_sized hright) (cellsOf_subset_tableCells hleft)
      (cellsOf_subset_tableCells hright)).mono fun _ _ hparts =>
        hparts.imp fun _ hcovers => ⟨hcovers.1, h.shaped.gather_difference hcovers.2.2⟩)
  simp only [without, bind_assoc, pure_bind] at hends
  exact hends

theorem ends_complement (h : Spreads I size s m table lost) (a : SetId) :
    Ends (AnyPack I.Spent) (step inner (.complement a)) s
      (Answers I size m (Settles I.ideal s (.complement a)) (m.apply (.complement a))) := by
  simp only [Ideal.apply, Ideal.made, map_bind, map_pure]
  refine h.ends_findTerms_bind a (settles_error rfl) fun pieces hpieces => ?_
  refine h.ends_store (f := fun terms => terms) _ ((yields_complementTerms (h.get?_sized hpieces)
    (cellsOf_subset_tableCells hpieces)).mono ?_)
  rintro terms given ⟨parts, hgives, hcovers⟩
  exact ⟨parts, hgives, h.shaped.gather_complement hcovers⟩

theorem ends_exists (h : Spreads I size s m table lost) (set : SetId) (var : VarId) :
    Ends (AnyPack I.Spent) (step inner (.exists set var)) s
      (Answers I size m (Settles I.ideal s (.exists set var)) (m.apply (.exists set var))) := by
  simp only [Ideal.apply, Ideal.made, map_bind, map_pure]
  refine h.ends_findVar_bind var (settles_error rfl) fun hi =>
    h.ends_findTerms_bind set (settles_error rfl) fun pieces hpieces => ?_
  have hsized := h.get?_sized hpieces
  have hreads := cellsOf_subset_tableCells hpieces
  rw [List.mapM_map]
  refine h.ends_store (f := fun terms => terms) _ (Yields.of_bounded fun hcells => ?_)
  refine (Yields.terms_of_reads fun piece hpiece => yields_projectTerm (hsized piece hpiece)
    (fun c hc => hreads (cells_subset hpiece hc)) (lt_of_var var size) rfl
    (h.shaped.width_eq hi)).mono fun terms given hterms => ⟨_, hterms, ?_⟩
  rw [← h.shaped.gather_project (bounded_of_cells hsized fun c hc => hcells c (hreads hc)) hi,
    List.map_map]
  rfl

/-! ## Questions -/

theorem answers_of_agree (h : Spreads I size s m table lost) {call : Call .bool}
    {outcome : Except DomainError Bool} (howns : Owns I (outline I s) (tableCells table + lost) t)
    (hagree : Agree (fun answer q => answer = true ↔ q) outcome (m.question call)) :
    Answers I size m (Settles I.ideal s call) (m.apply call) outcome t := by
  classical
  simp only [Ideal.apply]
  cases hq : m.question call with
  | error e =>
    rw [hq] at hagree
    obtain rfl := hagree.error_left
    exact h.answers_error (by cases call <;> rfl) howns
  | ok q =>
    rw [hq] at hagree
    obtain ⟨answer, rfl, hanswer⟩ := hagree.ok_left
    refine ⟨⟨congrArg Except.ok ?_, table, lost, h.transfer howns⟩, ?_⟩
    · rw [Bool.eq_iff_iff, hanswer, decide_eq_true_iff]
    · exact ⟨congrArg (·.sets) howns.outline, h.owns.live_same howns⟩

theorem ends_isEmpty (h : Spreads I size s m table lost) (a : SetId) :
    Ends (AnyPack I.Spent) (step inner (.isEmpty a)) s
      (Answers I size m (Settles I.ideal s (.isEmpty a)) (m.apply (.isEmpty a))) := by
  have hends : Ends (AnyPack I.Spent) (step inner (.isEmpty a)) s fun outcome t =>
      Owns I (outline I s) (tableCells table + lost) t ∧
        Agree (fun answer q => answer = true ↔ q) outcome (m.question (.isEmpty a)) := by
    simp only [Ideal.question, Ideal.set, h.sets]
    refine h.ends_lookup_bind (fun hget => ?_) fun pieces hget => ?_
    · rw [hget]
      exact ⟨h.owns, rfl⟩
    have hsized := h.get?_sized hget
    have hreads := cellsOf_subset_tableCells hget
    rw [hget]
    refine (h.ends_ask (q := gather size m.widths (outline I s).packs.length
      (pieces.map (·.part)) = ∅) (Yields.of_bounded fun hcells => ?_)).mono ?_
    · refine (yields_allEmpty hsized hreads).mono ?_
      rintro _ _ ⟨hgiven, hanswer⟩
      refine ⟨hgiven, ?_⟩
      rw [hanswer, h.shaped.gather_eq_empty_iff,
        (bounded_of_cells hsized fun c hc => hcells c (hreads hc)).covers_nothing]
    · rintro _ t ⟨howns, answer, rfl, hanswer⟩
      exact ⟨howns, hanswer⟩
  exact hends.mono fun _ _ hend => h.answers_of_agree hend.1 hend.2

theorem ends_contained (h : Spreads I size s m table lost) (a b : SetId) :
    Ends (AnyPack I.Spent) (contained inner a b) s fun outcome t =>
      Owns I (outline I s) (tableCells table + lost) t ∧
        Agree (fun answer q => answer = true ↔ q) outcome (m.question (.subset a b)) := by
  rw [contained_eq]
  simp only [Ideal.question, Ideal.set, h.sets]
  refine h.ends_lookup_bind (fun hleft => ?_) fun left hleft => ?_
  · rw [hleft]
    exact ⟨h.owns, rfl⟩
  refine h.ends_lookup_bind (fun hright => ?_) fun right hright => ?_
  · rw [hleft, hright]
    exact ⟨h.owns, rfl⟩
  rw [hleft, hright]
  refine (h.ends_ask (yields_nothing_without (h.get?_sized hleft) (h.get?_sized hright)
    (cellsOf_subset_tableCells hleft) (cellsOf_subset_tableCells hright))).mono ?_
  rintro _ t ⟨howns, answer, rfl, hanswer⟩
  exact ⟨howns, hanswer.trans h.shaped.gather_subset_iff.symm⟩

theorem ends_subset (h : Spreads I size s m table lost) (a b : SetId) :
    Ends (AnyPack I.Spent) (step inner (.subset a b)) s
      (Answers I size m (Settles I.ideal s (.subset a b)) (m.apply (.subset a b))) :=
  (h.ends_contained a b).mono fun _ _ hend => h.answers_of_agree hend.1 hend.2

/-- Equality is containment one way and, unless that fails, the other. -/
theorem ends_equal (h : Spreads I size s m table lost) (a b : SetId) :
    Ends (AnyPack I.Spent) (step inner (.equal a b)) s
      (Answers I size m (Settles I.ideal s (.equal a b)) (m.apply (.equal a b))) := by
  have hends : Ends (AnyPack I.Spent) (step inner (.equal a b)) s fun outcome t =>
      Owns I (outline I s) (tableCells table + lost) t ∧
        Agree (fun answer q => answer = true ↔ q) outcome (m.question (.equal a b)) := by
    refine Ends.bind (h.ends_contained a b) ?_ ?_
    · rintro answer t ⟨ht, hagree⟩
      have hback := (h.transfer ht).ends_contained b a
      rw [ht.outline] at hback
      simp only [Ideal.question] at hagree hback ⊢
      cases hx : m.set a with
      | error e =>
        rw [hx] at hagree
        exact hagree.elim
      | ok x =>
        cases hy : m.set b <;> rw [hx, hy] at hagree hback
        case error e => exact hagree.elim
        case ok y =>
          replace hagree : answer = true ↔ x ⊆ y := hagree
          split
          · next hanswer =>
            refine hback.mono ?_
            rintro outcome u ⟨hu, hagree'⟩
            refine ⟨hu, ?_⟩
            obtain ⟨answer', rfl, hanswer'⟩ := Agree.ok_left (b := y ⊆ x) hagree'
            have hsub := hagree.mp hanswer
            exact hanswer'.trans ⟨fun hsub' => hsub.antisymm hsub', fun heq => heq.ge⟩
          · next hanswer =>
            refine Ends.pure ⟨ht, ?_⟩
            exact iff_of_false (by simp) fun heq => hanswer (hagree.mpr heq.le)
    · rintro e t ⟨ht, hagree⟩
      refine ⟨ht, ?_⟩
      simp only [Ideal.question] at hagree ⊢
      cases hx : m.set a with
      | error f =>
        rw [hx] at hagree
        exact hagree
      | ok x =>
        cases hy : m.set b <;> rw [hx, hy] at hagree
        · exact hagree
        · exact hagree.elim
  exact hends.mono fun _ _ hend => h.answers_of_agree hend.1 hend.2

/-! ## Giving a set up -/

/-- An entry that is removed, while its cells are still there. -/
theorem erase (h : Spreads I size s m table lost) {set : SetId} {pieces : List Piece}
    (hget : table.get? set = some pieces) :
    ∃ rest, tableCells table = cellsOf pieces + (tableCells (table.erase set) + rest) ∧
      Spreads I size { s with sets := s.sets.erase set } (m.release set) (table.erase set)
        (cellsOf pieces + rest + lost) := by
  obtain ⟨rest, hrest⟩ := Multiset.le_iff_exists_add.mp (cellsOf_add_erase_le hget)
  rw [add_assoc] at hrest
  refine ⟨rest, hrest, h.shaped.congr rfl rfl rfl, ?_, ?_, ?_, ?_, h.issued⟩
  · have hcells : tableCells (table.erase set) + (cellsOf pieces + rest + lost) =
        tableCells table + lost := by
      rw [hrest]
      abel
    rw [hcells]
    exact h.owns.of_domains rfl rfl
  · exact fun entry hentry => h.sized entry (List.mem_of_mem_filter hentry)
  · rw [Table.map_erase, ← h.terms]
  · intro other
    by_cases hother : other = set
    · simp [Ideal.release, hother]
    · simp only [Ideal.release, Function.update_of_ne hother, Table.get?_erase_of_ne _ hother]
      exact h.sets other

/-- The entry goes first, and its cells after it. -/
theorem ends_release (h : Spreads I size s m table lost) (set : SetId) :
    Ends (AnyPack I.Spent) (step inner (.release set)) s
      (Answers I size m (Settles I.ideal s (.release set)) (m.apply (.release set))) := by
  have hideal : m.apply (.release set) = m.set set >>= fun _ => .ok ((), m.release set) := by
    simp only [Ideal.apply]
    cases m.set set <;> rfl
  rw [hideal]
  refine h.ends_findTerms_bind set (settles_error rfl) fun pieces hget => Ends.modify_bind ?_
  obtain ⟨rest, hrest, herased⟩ := h.erase hget
  have hreleased : Yields I (outline I { s with sets := s.sets.erase set })
      (tableCells (table.erase set)) (cellsOf pieces)
      (releaseTerms inner (pieces.map (·.term))) fun _ given => given = 0 :=
    yields_releaseTerms (h.get?_sized hget)
  refine (hreleased _ (tableCells (table.erase set) + (rest + lost))
    (Multiset.subset_of_le (Multiset.le_add_right _ _)) ?_).mono ?_
  · have howns := herased.owns
    rwa [add_assoc, add_left_comm] at howns
  rintro _ t ⟨_, _, rfl, rfl, hafter⟩
  rw [zero_add] at hafter
  have hheld : Owns I (outline I s)
      (cellsOf pieces + (tableCells (table.erase set) + (rest + lost))) s := by
    have howns := h.owns
    rwa [hrest, add_assoc, add_assoc] at howns
  obtain ⟨hfresh, hlive⟩ := hafter.live_add hheld
  rw [handles_cellsOf] at hfresh hlive
  have hstored : s.sets.get? set = some (pieces.map (·.term)) := by
    rw [h.terms, Table.get?_map, hget, Option.map_some]
  refine ⟨⟨rfl, _, _, herased.transfer hafter⟩, _, hstored, congrArg (·.sets) hafter.outline, ?_, ?_⟩
  · rw [hlive]
    exact Set.subset_union_right
  · rw [hlive]
    ext x
    exact ⟨fun hx => ⟨.inl hx, fun hgiven => hfresh x hgiven hx⟩, fun hx => hx.1.resolve_right hx.2⟩

/-- One call, if it is no declaration and not refused. -/
theorem ends_step (h : Spreads I size s m table lost) {k : Answer} (hk : k ≠ .var) (call : Call k)
    (hnot : ¬ s.Refuses call) :
    Ends (AnyPack I.Spent) (step inner call) s
      (Answers I size m (Settles I.ideal s call) (m.apply call)) := by
  cases call with
  | declare name bits => exact absurd rfl hk
  | top => exact h.ends_top
  | bottom => exact h.ends_bottom
  | varEqConst var value => exact h.ends_constant var value
  | varEqVar a b => exact h.ends_equality hnot
  | singleton point => exact h.ends_point point
  | union a b => exact h.ends_union a b
  | intersect a b => exact h.ends_intersect a b
  | difference a b => exact h.ends_difference a b
  | complement a => exact h.ends_complement a
  | «exists» set var => exact h.ends_exists set var
  | isEmpty a => exact h.ends_isEmpty a
  | equal a b => exact h.ends_equal a b
  | subset a b => exact h.ends_subset a b
  | release set => exact h.ends_release set

end Spreads
end LayeredSets.Packed
