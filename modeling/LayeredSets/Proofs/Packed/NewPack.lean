import LayeredSets.Proofs.Packed.Growth

/-!
# One more pack

When the last pack is full, a fresh domain takes the next variable and gives every stored term a
component. Once the variable is declared there, this is the same as if the domain had been a pack
all along, one that is given each of its sets from outside.
-/

namespace LayeredSets.Packed

open Action

variable {ρ α β : Type} {inner : Operations ρ} {I : Meaning inner} {index : Nat}

/-! ## Actions inside a pack -/

/-- What the one action does to the domain of a pack, the other does to the pack. -/
def Inside (index : Nat) (x : Act ρ α) (y : Act (Packed ρ) α) : Prop :=
  ∀ s host, index < s.packs.length → y s host = inPack index x s host

namespace Inside

variable {x : Act ρ α} {y : Act (Packed ρ) α}

theorem inPack (index : Nat) (x : Act ρ α) : Inside index x (inPack index x) := fun _ _ _ => rfl

protected theorem pure (index : Nat) (a : α) :
    Inside index (pure a : Act ρ α) (pure a : Act (Packed ρ) α) := by
  intro s host hlt
  have hsame : s.packs.set index ⟨s.packs[index].domain, s.packs[index].held⟩ = s.packs :=
    List.set_getElem_self hlt
  simp [Packed.inPack, hlt, hsame]

protected theorem bind (h : Inside index x y) {f : α → Act ρ β} {g : α → Act (Packed ρ) β}
    (hfg : ∀ a, Inside index (f a) (g a)) : Inside index (x >>= f) (y >>= g) := by
  intro s host hlt
  rw [bind_apply, h s host hlt]
  simp only [Packed.inPack, List.getElem?_eq_getElem hlt, bind_apply]
  rcases x s.packs[index].domain host with ⟨_ | a, domain, host'⟩
  · rfl
  · simp only
    rw [hfg a _ host' (by simpa using hlt)]
    simp [Packed.inPack, hlt]

protected theorem mapM {f : β → Act ρ α} {g : β → Act (Packed ρ) α}
    (h : ∀ b, Inside index (f b) (g b)) (items : List β) :
    Inside index (items.mapM f) (items.mapM g) := by
  induction items with
  | nil => exact Inside.pure index []
  | cons b items ih =>
    rw [List.mapM_cons, List.mapM_cons]
    exact (h b).bind fun _ => ih.bind fun _ => Inside.pure index _

end Inside

/-! ## Components in a new pack -/

/-- Give every term a component, which is made by `top`. -/
def extend {σ : Type} (top : Act σ SetId) (entries : List (SetId × List Term)) :
    Act σ (List (SetId × List Term)) :=
  entries.mapM fun (key, terms) => do
    let terms ← terms.mapM fun term => do
      let component ← top
      return term ++ [component]
    return (key, terms)

theorem openPack_eq (name : String) (bits : UInt32) (sets : Table SetId (List Term)) :
    openPack inner name bits sets = (do
      let var ← inner.step (.declare name bits)
      let entries ← extend (inner.step .top) sets.entries
      return (var, ⟨entries⟩) : Act ρ (VarId × Table SetId (List Term))) := rfl

/-- Whatever makes the components, each term gets one. -/
theorem appends_of_extend {σ : Type} {top : Act σ SetId} {entries entries' : List (SetId × List Term)}
    {s s' : σ} {host host' : Host} (h : extend top entries s host = (.ok entries', s', host')) :
    Appends 1 ⟨entries⟩ ⟨entries'⟩ := by
  refine forall₂_of_mapM_ok (fun (key, terms) s host entry hentry => ?_) entries
    (congrArg (·.1) h)
  obtain ⟨terms', s', host', hterms, hpure⟩ := exists_of_bind_ok hentry
  obtain rfl : (key, terms') = entry := Except.ok.inj hpure
  refine ⟨rfl, forall₂_of_mapM_ok (fun term s host term' hterm => ?_) terms
    (congrArg (·.1) hterms)⟩
  obtain ⟨component, s', host', -, hpure⟩ := exists_of_bind_ok hterm
  exact ⟨[component], rfl, (Except.ok.inj hpure).symm⟩

theorem inside_extend (entries : List (SetId × List Term)) :
    Inside index (extend (inner.step .top) entries)
      (extend (inPack index (inner.step .top)) entries) := by
  refine Inside.mapM (fun (_, terms) => ?_) entries
  refine Inside.bind (Inside.mapM (fun term => ?_) terms) fun _ => .pure index _
  exact (Inside.inPack index _).bind fun _ => .pure index _

section

variable {s : Packed ρ} {d domain after : ρ} {name : String} {bits : UInt32} {host host' host'' : Host}

theorem declareInNewPack_of_error (hblank : s.blank = .ok d) {e : DomainError}
    (hcall : inner.step (.declare name bits) d host = (.error e, domain, host')) :
    declareInNewPack inner name bits s host = (.error e, s, inner.dispose domain host') := by
  simp [declareInNewPack, hblank, openPack_eq, bind_apply_error hcall]

theorem declareInNewPack_of_extend_error (hblank : s.blank = .ok d) {var : VarId} {e : DomainError}
    (hcall : inner.step (.declare name bits) d host = (.ok var, domain, host'))
    (hextend : extend (inner.step .top) s.sets.entries domain host' = (.error e, after, host'')) :
    declareInNewPack inner name bits s host = (.error e, s, inner.dispose after host'') := by
  have hopen := bind_apply_error (f := fun entries => pure (var, (⟨entries⟩ : Table SetId _))) hextend
  simp only [declareInNewPack, hblank, openPack_eq, bind_apply_ok hcall, hopen]

theorem declareInNewPack_of_ok (hblank : s.blank = .ok d) {var : VarId}
    {entries : List (SetId × List Term)}
    (hcall : inner.step (.declare name bits) d host = (.ok var, domain, host'))
    (hextend : extend (inner.step .top) s.sets.entries domain host' =
      (.ok entries, after, host'')) :
    declareInNewPack inner name bits s host = (.ok ⟨s.packs.length, var, bits⟩,
      { s with packs := s.packs ++ [⟨after, 1⟩], sets := ⟨entries⟩ }, host'') := by
  have hopen := bind_apply_ok (f := fun entries => pure (var, (⟨entries⟩ : Table SetId _))) hextend
  simp only [declareInNewPack, hblank, openPack_eq, bind_apply_ok hcall, hopen, pure_apply]

end

/-- Components are always made. -/
theorem extend_ok (I : Meaning inner) (entries : List (SetId × List Term)) (d : ρ) (host : Host) :
    ∃ entries', (extend (inner.step .top) entries d host).1 = .ok entries' := by
  have htop : Fails (fun _ => False) (inner.step .top) := ⟨fun s host e he => by
    obtain ⟨set, hset⟩ := I.top_ok s host
    simp [hset] at he⟩
  have hfails : Fails (fun _ => False) (extend (inner.step .top) entries) := by
    unfold extend
    infer_instance
  cases h : (extend (inner.step .top) entries d host).1 with
  | error e => exact (hfails.fails d host e h).elim
  | ok entries' => exact ⟨entries', rfl⟩

section

variable {o : Packed (List UInt32)} {reads : Multiset Cell} {n : Nat} {bits : UInt32}

theorem cellsFrom_append (part : Nat → Set Valuation) (start : Nat) (a b : Term) :
    cellsFrom part start (a ++ b) = cellsFrom part start a + cellsFrom part (start + a.length) b := by
  induction a generalizing start with
  | nil => simp
  | cons component a ih =>
    rw [List.cons_append, cellsFrom_cons, cellsFrom_cons, ih, List.length_cons,
      show start + (a.length + 1) = start + 1 + a.length by omega, ← add_assoc]

/-- Another component in a pack that the term does not reach. -/
theorem cellsFrom_extendPart (part : Nat → Set Valuation) {start : Nat} {term : Term}
    (h : start + term.length ≤ n) :
    cellsFrom (extendPart n bits part) start term = cellsFrom part start term := by
  induction term generalizing start with
  | nil => rfl
  | cons component term ih =>
    rw [List.length_cons] at h
    rw [cellsFrom_cons, cellsFrom_cons, ih (by omega), extendPart,
      Function.update_of_ne (by omega)]

theorem yields_component {piece : Piece} (hsized : piece.term.length = n)
    (hindex : n < o.packs.length) (hwidths : widthsOf o n = [bits]) :
    Yields I o reads piece.cells (do
        let component ← inPack n (inner.step .top)
        return piece.term ++ [component])
      (GivesOne (n + 1) (extendPart n bits piece.part)) := by
  refine Yields.bind (((yields_top hindex).keep piece.cells (subset_add _ _)).cast
    (zero_add _).symm) ?_
  rintro component _ ⟨_, rfl, rfl⟩
  refine .pure ⟨by simp [hsized], ?_⟩
  have hlast : extendPart n bits piece.part n = topPart o n := by
    rw [extendPart, Function.update_self, topPart, hwidths]
  simp only [Piece.cells]
  rw [cellsFrom_append, cellsFrom_extendPart _ (by omega), hsized, zero_add, cellsFrom_cons,
    cellsFrom_nil, add_zero, hlast, add_comm]

/-- Every term of the table has got a component. -/
def Extends (n : Nat) (bits : UInt32) (table table' : Table SetId (List Piece)) : Prop :=
  (table'.map fun pieces => pieces.map (·.part)) =
      (table.map fun pieces => pieces.map fun piece => extendPart n bits piece.part) ∧
    ∀ entry ∈ table'.entries, ∀ piece ∈ entry.2, piece.term.length = n + 1

theorem yields_extend {table : Table SetId (List Piece)}
    (hsized : ∀ entry ∈ table.entries, ∀ piece ∈ entry.2, piece.term.length = n)
    (hindex : n < o.packs.length) (hwidths : widthsOf o n = [bits]) :
    Yields I o reads (tableCells table) (extend (inPack n (inner.step .top))
        (table.map fun pieces => pieces.map (·.term)).entries) fun entries given =>
      ∃ table', entries = (table'.map fun pieces => pieces.map (·.term)).entries ∧
        Extends n bits table table' ∧ given = tableCells table' := by
  have hentries : extend (inPack n (inner.step .top))
      (table.map fun pieces => pieces.map (·.term)).entries = table.entries.mapM fun entry => do
        let terms ← entry.2.mapM fun piece => do
          let component ← inPack n (inner.step .top)
          return piece.term ++ [component]
        return (entry.1, terms) := by
    simp only [extend, Table.map, List.mapM_map, Function.comp_def]
  rw [hentries]
  refine Yields.mono (Yields.mapM (P := fun entry result given => ∃ pieces : List Piece,
    result = (entry.1, pieces.map (·.term)) ∧
      pieces.map (·.part) = entry.2.map (fun piece => extendPart n bits piece.part) ∧
      (∀ piece ∈ pieces, piece.term.length = n + 1) ∧ given = cellsOf pieces)
    fun entry hentry => ?_) ?_
  · refine Yields.bind (Yields.terms fun piece hpiece =>
      yields_component (hsized entry hentry piece hpiece) hindex hwidths) ?_
    rintro _ _ ⟨pieces, hparts, rfl, hpieces, rfl⟩
    exact .pure ⟨pieces, rfl, hparts, hpieces, rfl⟩
  · rintro _ _ ⟨outs, rfl, rfl, houts⟩
    obtain ⟨entries⟩ := table
    clear hsized hentries
    dsimp only at houts
    induction houts with
    | nil => exact ⟨.empty, rfl, ⟨rfl, by simp [Table.empty]⟩, rfl⟩
    | @cons entry out entries outs hout _ ih =>
      obtain ⟨pieces, hresult, hparts, hpieces, hgiven⟩ := hout
      obtain ⟨⟨entries'⟩, hentries, ⟨hextends, hsized⟩, hcells⟩ := ih
      refine ⟨⟨(entry.1, pieces) :: entries'⟩, ?_, ⟨?_, ?_⟩, ?_⟩
      · rw [List.map_cons, hresult, hentries]
        rfl
      · simp only [Table.map, Table.mk.injEq, List.map_cons] at hextends ⊢
        rw [hparts, hextends]
      · exact List.forall_mem_cons.mpr ⟨hpieces, hsized⟩
      · rw [List.map_cons, List.sum_cons, hgiven, hcells]
        rfl

end

/-- The domain is a pack of its own, and counts no variables yet. -/
def push (s : Packed ρ) (domain : ρ) : Packed ρ := { s with packs := s.packs ++ [⟨domain, 0⟩] }

theorem get?_push (s : Packed ρ) (domain : ρ) :
    (s.push domain).packs[s.packs.length]? = some ⟨domain, 0⟩ := by
  simp [push]

theorem Owns.push {o : Packed (List UInt32)} {cells : Multiset Cell} {s : Packed ρ}
    (h : Owns I o cells s) {domain : ρ} (hgood : I.Good domain)
    (hnone : ∀ set, (I.ideal domain).sets set = none) :
    Owns I (Packed.outline I (s.push domain)) cells (s.push domain) where
  outline := rfl
  good pack hpack := by
    rcases List.mem_append.mp hpack with hold | hnew
    · exact h.good pack hold
    · rw [List.mem_singleton.mp hnew]
      exact hgood
  blank := h.blank
  mem_iff c := by
    rw [h.mem_iff]
    rcases Nat.lt_trichotomy c.pack s.packs.length with hlt | heq | hgt
    · simp [Packed.push, List.getElem?_append_left hlt]
    · simp [Packed.push, heq, hnone]
    · have hbeyond : (s.push domain).packs.length ≤ c.pack := by
        simpa [Packed.push] using hgt
      simp [List.getElem?_eq_none hgt.le, List.getElem?_eq_none hbeyond]
  distinct := h.distinct

namespace Spreads

variable {size : Nat} {s t : Packed ρ} {m : Ideal} {table : Table SetId (List Piece)}
  {lost : Multiset Cell}

/-- Giving components in a domain that has the new variable. -/
theorem owns_extend (h : Spreads I size s m table lost) {domain after : ρ} (hgood : I.Good domain)
    {bits : UInt32} (hwidths : (I.ideal domain).widths = [bits])
    (hnone : ∀ set, (I.ideal domain).sets set = none) {host host' : Host}
    {entries : List (SetId × List Term)}
    (hextend : extend (inner.step .top) s.sets.entries domain host = (.ok entries, after, host'))
    (hleft : ¬ AnyPack I.Spent (s.push after)) :
    ∃ table', entries = (table'.map fun pieces => pieces.map (·.term)).entries ∧
      Extends (outline I s).packs.length bits table table' ∧
      (I.ideal after).widths = [bits] ∧
      Owns I (outline I (s.push domain)) (tableCells table' + lost) (s.push after) := by
  have hn : (outline I s).packs.length = s.packs.length := h.owns.length.symm
  have hlt : s.packs.length < (s.push domain).packs.length := by simp [push]
  have hpushed := h.owns.push hgood hnone
  have hlast : widthsOf (outline I (s.push domain)) s.packs.length = [bits] := by
    rw [← hpushed.widths (s.get?_push domain), hwidths]
  have hyields : Yields I (outline I (s.push domain)) 0 (tableCells table)
      (extend (inPack (outline I s).packs.length (inner.step .top))
        (table.map fun pieces => pieces.map (·.term)).entries) _ :=
    yields_extend h.sized (by rwa [hn, ← hpushed.length]) (by rw [hn, hlast])
  have hends := hyields (s.push domain) lost (Multiset.zero_subset _) hpushed host
  -- The components are made in the pack, and so in its domain.
  have hstate : inPack s.packs.length (extend (inner.step .top) s.sets.entries) (s.push domain)
      host = (.ok entries, s.push after, host') := by
    simp [inPack, hextend, push]
  rw [hn, ← h.terms, inside_extend _ _ _ hlt, hstate] at hends
  obtain ⟨_, _, ⟨⟩, ⟨table', hentries, hextends, rfl⟩, howns⟩ := hends hleft
  refine ⟨table', hentries, hn ▸ hextends, ?_, howns⟩
  rw [howns.widths (s.get?_push after), hlast]

/-- The new pack has its variable, and every term a component in it. -/
theorem extend (h : Spreads I size s m table lost)
    (hfull : m.widths.length = (outline I s).packs.length * size) {o : Packed (List UInt32)}
    {bits : UInt32} {after : ρ} {table' : Table SetId (List Piece)}
    (hextends : Extends (outline I s).packs.length bits table table')
    (hwidths : (I.ideal after).widths = [bits]) 
    (howns : Owns I o (tableCells table' + lost) (s.push after))
    (ht : t = { s with
      packs := s.packs ++ [⟨after, 1⟩]
      vars := s.vars ++ [⟨s.packs.length, ⟨UInt32.ofNat 0⟩, bits⟩]
      sets := table'.map fun pieces => pieces.map (·.term) }) :
    Spreads I size t (m.grow bits) table' lost where
  shaped := by
    subst ht
    refine (h.shaped.extend hfull bits).congr rfl ?_ ?_
    · simp [outline, map, Pack.map, hwidths]
    · simp [outline, map]
  owns := by
    subst ht
    exact howns.of_domains (by simp [push]) rfl
  sized := by
    have hn : (outline I t).packs.length = (outline I s).packs.length + 1 := by
      simp [ht, outline, map]
    rw [hn]
    exact hextends.2
  terms := by rw [ht]
  sets set := by
    have hn : (outline I t).packs.length = (outline I s).packs.length + 1 := by
      simp [ht, outline, map]
    have hparts := congrArg (·.get? set) hextends.1
    simp only [Table.get?_map] at hparts
    have hgathered := congrArg (Option.map
      (gather size (m.widths ++ [bits]) ((outline I s).packs.length + 1))) hparts
    simp only [Option.map_map, Function.comp_def] at hgathered
    rw [hn]
    simp only [Ideal.grow, h.sets set, Option.map_map, Function.comp_def]
    rw [hgathered]
    refine congrArg (Option.map · (table.get? set)) (funext fun pieces => ?_)
    rw [← gather_extend h.shaped.pos hfull, List.map_map]
    rfl
  issued := by
    rw [ht]
    exact h.issued

/-- The new cells are those of the components in the new pack. -/
theorem grows_extend (h : Spreads I size s m table lost) {m' : Ideal}
    {table' : Table SetId (List Piece)} (ht : Spreads I size t m' table' lost)
    (hpacks : t.packs.length = s.packs.length + 1) (happends : Appends 1 s.sets t.sets) :
    Grows I.ideal s t := by
  refine ⟨1, le_rfl, hpacks, happends, ?_⟩
  ext x
  have hold := mem_holdings_of_appends happends h.owned.sized x
  simp only [Set.mem_union, Set.mem_ofPred_eq, h.mem_live_iff, ht.mem_live_iff, hold, ← not_lt]
  tauto

theorem ends_declareInNewPack (h : Spreads I size s m table lost)
    (hfull : m.widths.length = (outline I s).packs.length * size) (name : String)
    (bits : UInt32) :
    Ends (AnyPack I.Spent) (declareInNewPack inner name bits) s (Placed I size s m bits) := by
  intro host hleft
  obtain ⟨d, hblank, hfresh⟩ := h.owns.blank
  have hstep := I.step (.declare name bits) hfresh.good host fun hspent =>
    hfresh.unspent (I.declare_spent hspent)
  rcases hcall : inner.step (.declare name bits) d host with ⟨e | var, domain, host'⟩ <;>
    rw [hcall] at hstep
  · obtain ⟨-, hadmits⟩ := hstep
    rw [declareInNewPack_of_error hblank hcall]
    refine ⟨?_, ⟨table, lost, h⟩, h.owns.leaves h.owns⟩
    rcases hadmits with ⟨total, limit, ⟨⟩, -⟩ | hfails
    · exact .inl ⟨total, limit, rfl⟩
    · split at hfails
      · next hinvalid =>
        obtain ⟨⟨⟩, -⟩ := hfails
        exact .inr ⟨hinvalid, rfl⟩
      · cases hfails.1
  · obtain ⟨hgood, ⟨_, _, ⟨⟩, -⟩ | hplaced⟩ := hstep
    split at hplaced
    · cases hplaced.1
    next hvalid =>
    obtain ⟨hvar, hsame⟩ := hplaced
    have hwidths : (I.ideal domain).widths = [bits] := by
      rw [hsame.widths, Ideal.grow, hfresh.widths, List.nil_append]
    obtain rfl : var = ⟨UInt32.ofNat 0⟩ := by
      rw [Except.ok.inj hvar, hfresh.widths, List.length_nil]
    obtain ⟨entries, hentries⟩ := extend_ok I s.sets.entries domain host'
    rcases hextend : Packed.extend (inner.step .top) s.sets.entries domain host' with
      ⟨_, after, host''⟩
    rw [hextend] at hentries
    obtain rfl := hentries
    rw [declareInNewPack_of_ok hblank hcall hextend] at hleft ⊢
    have hunspent : ¬ AnyPack I.Spent (s.push after) := by
      rintro ⟨pack, hpack, hspent⟩
      refine hleft ?_
      rcases List.mem_append.mp hpack with hold | hnew
      · exact ⟨pack, List.mem_append_left _ hold, hspent⟩
      · rw [List.mem_singleton.mp hnew] at hspent
        exact ⟨⟨after, 1⟩, by simp, hspent⟩
    have hnone (set : SetId) : (I.ideal domain).sets set = none := by
      simp only [hsame.sets, Ideal.grow, hfresh.sets, Option.map_none]
    have happends := appends_of_extend hextend
    obtain ⟨table', rfl, hextends, hafter, howns⟩ :=
      h.owns_extend hgood hwidths hnone hextend hunspent
    have hgrown := h.extend hfull hextends hafter howns rfl
    have hgrows := h.grows_extend hgrown (by simp) happends
    exact ⟨hvalid, ⟨table', lost, hgrown⟩, hgrows⟩

theorem hasRoom_iff (h : Spreads I size s m table lost) :
    s.hasRoom = true ↔ m.widths.length < (outline I s).packs.length * size := by
  rw [← h.shaped.hasRoom_iff, outline, hasRoom_map]

theorem ends_declare (h : Spreads I size s m table lost) (name : String) (bits : UInt32) :
    Ends (AnyPack I.Spent) (step inner (.declare name bits)) s fun outcome t =>
      ((∃ total limit, outcome = .error (.universeTooLarge total limit) ∧ StandsFor I size t m) ∨
        Replies I size m (m.declareFreely bits) outcome t) ∧
      Settles I.ideal s (.declare name bits) outcome t := by
  have hcount : s.vars.length = m.widths.length := by
    have hvars : s.vars = layout size m.widths := h.shaped.vars
    rw [hvars, length_layout]
  have hplaced {x : Act (Packed ρ) PackedVar}
      (hx : Ends (AnyPack I.Spent) x s (Placed I size s m bits)) :
      Ends (AnyPack I.Spent) (do
          let var ← x
          Action.modify fun s => { s with vars := s.vars ++ [var] }
          return ⟨UInt32.ofNat s.vars.length⟩) s fun outcome t =>
        ((∃ total limit, outcome = .error (.universeTooLarge total limit) ∧
          StandsFor I size t m) ∨ Replies I size m (m.declareFreely bits) outcome t) ∧
        Settles I.ideal s (.declare name bits) outcome t := by
    refine Ends.bind hx ?_ ?_
    · rintro var t ⟨hvalid, ht, hgrows⟩
      refine Ends.modify_bind (Ends.pure ⟨.inr ?_, hgrows⟩)
      rw [Ideal.declareFreely, if_neg hvalid, hcount]
      exact ⟨rfl, ht⟩
    · rintro e t ⟨⟨total, limit, rfl⟩ | ⟨hinvalid, rfl⟩, ht, hleaves⟩
      · exact ⟨.inl ⟨total, limit, rfl, ht⟩, hleaves⟩
      · rw [Ideal.declareFreely, if_pos hinvalid]
        exact ⟨.inr ⟨rfl, ht⟩, hleaves⟩
  refine Ends.get_bind ?_
  by_cases hroom : s.hasRoom = true
  · simp only [if_pos hroom]
    exact hplaced (h.ends_declareInLastPack (h.hasRoom_iff.mp hroom) name bits)
  · simp only [if_neg hroom]
    refine hplaced (h.ends_declareInNewPack (h.shaped.room.antisymm ?_) name bits)
    exact not_lt.mp fun hlt => hroom (h.hasRoom_iff.mpr hlt)

end Spreads

end LayeredSets.Packed
