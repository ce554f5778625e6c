import LayeredSets.Proofs.Layer.Transport

/-!
# Packed domains are natural in their packs

A packed domain touches its packs through their operations only. So packed domains do the same if
their packs do, as far as relations tell; and a map of states that carries the operations of the
packs also carries those of the packed domain.
-/

namespace LayeredSets

def Pack.map {ρ τ : Type} (f : ρ → τ) (p : Pack ρ) : Pack τ := ⟨f p.domain, p.held⟩

/-- The domains of the packs are related, and hold as many variables. -/
def Pack.Related {ρ τ : Type} (S : ρ → τ → Prop) (p : Pack ρ) (q : Pack τ) : Prop :=
  S p.domain q.domain ∧ p.held = q.held

namespace Packed

variable {ρ τ α β : Type}

def map (f : ρ → τ) (s : Packed ρ) : Packed τ :=
  ⟨s.packs.map (Pack.map f), s.capacity, s.backend, s.blank.map f, s.vars, s.sets, s.issued⟩

theorem hasRoom_map (f : ρ → τ) (s : Packed ρ) : (map f s).hasRoom = s.hasRoom := by
  simp only [hasRoom, map, List.getLast?_map]
  cases s.packs.getLast? <;> rfl

/-- The packs are related one by one, and so are the domains for further packs. All else is the
same. -/
structure Related (S : ρ → τ → Prop) (s : Packed ρ) (t : Packed τ) : Prop where
  packs : List.Forall₂ (Pack.Related S) s.packs t.packs
  capacity : s.capacity = t.capacity
  backend : s.backend = t.backend
  blank : (∃ e, s.blank = .error e ∧ t.blank = .error e) ∨
    ∃ d d', s.blank = .ok d ∧ t.blank = .ok d' ∧ S d d'
  vars : s.vars = t.vars
  sets : s.sets = t.sets
  issued : s.issued = t.issued

theorem related_map (f : ρ → τ) : Related (f · = ·) = fun s t => map f s = t := by
  have hpack (p : Pack ρ) (q : Pack τ) : Pack.Related (f · = ·) p q ↔ Pack.map f p = q := by
    cases q
    simp [Pack.Related, Pack.map]
  have hpacks (ps : List (Pack ρ)) (qs : List (Pack τ)) :
      List.Forall₂ (Pack.Related (f · = ·)) ps qs ↔ ps.map (Pack.map f) = qs := by
    have : List.Forall₂ (Pack.Related (f · = ·)) ps qs ↔
        List.Forall₂ (fun p q => Pack.map f p = q) ps qs :=
      ⟨fun h => h.imp fun _ _ => (hpack _ _).mp, fun h => h.imp fun _ _ => (hpack _ _).mpr⟩
    rw [this, ← List.forall₂_map_left_iff (R := (· = ·)), List.forall₂_eq_eq_eq]
  have hblank (x : Except DomainError ρ) (y : Except DomainError τ) :
      ((∃ e, x = .error e ∧ y = .error e) ∨ ∃ d d', x = .ok d ∧ y = .ok d' ∧ f d = d') ↔
        x.map f = y := by
    cases x <;> simp [Except.map, eq_comm]
  funext s t
  apply propext
  constructor
  · rintro ⟨hps, hcapacity, hbackend, hb, hvars, hsets, hissued⟩
    rw [hpacks] at hps
    rw [hblank] at hb
    cases t
    simp only [map, mk.injEq]
    exact ⟨hps, hcapacity, hbackend, hb, hvars, hsets, hissued⟩
  · rintro rfl
    exact ⟨(hpacks _ _).mpr rfl, rfl, rfl, (hblank _ _).mpr rfl, rfl, rfl, rfl⟩

section

variable {R : α → β → Prop} {xs : List α} {ys : List β}

theorem forall₂_getElem? (h : List.Forall₂ R xs ys) (i : Nat) :
    (xs[i]? = none ∧ ys[i]? = none) ∨ ∃ x y, xs[i]? = some x ∧ ys[i]? = some y ∧ R x y := by
  induction h generalizing i with
  | nil => exact .inl ⟨rfl, rfl⟩
  | cons hxy _ ih =>
    cases i with
    | zero => exact .inr ⟨_, _, rfl, rfl, hxy⟩
    | succ i => exact ih i

theorem forall₂_set (h : List.Forall₂ R xs ys) (i : Nat) {x : α} {y : β} (hxy : R x y) :
    List.Forall₂ R (xs.set i x) (ys.set i y) := by
  induction h generalizing i with
  | nil => exact .nil
  | cons hhead htail ih =>
    cases i with
    | zero => exact .cons hxy htail
    | succ i => exact .cons hhead (ih i)

theorem forall₂_modify (h : List.Forall₂ R xs ys) (i : Nat) {f : α → α} {g : β → β}
    (hfg : ∀ x y, R x y → R (f x) (g y)) : List.Forall₂ R (xs.modify i f) (ys.modify i g) := by
  induction h generalizing i with
  | nil => cases i <;> exact .nil
  | cons hhead htail ih =>
    cases i with
    | zero => exact .cons (hfg _ _ hhead) htail
    | succ i => exact .cons hhead (ih i)

end

variable {S : ρ → τ → Prop} {H : Host → Host → Prop} {a : Operations ρ} {b : Operations τ}

namespace Related

variable {s : Packed ρ} {t : Packed τ}

theorem length_eq (h : Related S s t) : s.packs.length = t.packs.length := h.packs.length_eq

theorem hasRoom_eq (h : Related S s t) : s.hasRoom = t.hasRoom := by
  have hlast := List.rel_reverse h.packs
  rw [hasRoom, hasRoom, ← List.head?_reverse, ← List.head?_reverse, h.capacity]
  generalize s.packs.reverse = ps at hlast ⊢
  generalize t.packs.reverse = qs at hlast ⊢
  cases hlast with
  | nil => rfl
  | cons hpq _ => simp only [List.head?_cons, Option.any_some, hpq.2]

theorem describe_eq (hs : Related S s t) (h : a.Couples S H b) :
    s.describe a = t.describe b := by
  have hpacks := hs.packs
  rw [describe, describe]
  generalize s.packs = ps at hpacks ⊢
  generalize t.packs = qs at hpacks ⊢
  cases hpacks with
  | nil => rfl
  | cons hpq _ => simp only [List.head?_cons, Option.map_some, h.describe _ _ hpq.1]

end Related

open Action

theorem couples_inPack {x : Act ρ α} {y : Act τ α} (h : Couples S H x y) (index : Nat) :
    Couples (Related S) H (inPack index x) (inPack index y) := by
  intro s t hs host host' hhost
  rw [inPack, inPack]
  rcases forall₂_getElem? hs.packs index with ⟨hp, hq⟩ | ⟨p, q, hp, hq, hpq⟩
  · rw [hp, hq]
    exact ⟨rfl, hs, hhost⟩
  · obtain ⟨houtcome, hdomain, hafter⟩ := h p.domain q.domain hpq.1 host host' hhost
    rw [hp, hq]
    exact ⟨houtcome, { hs with packs := forall₂_set hs.packs index ⟨hdomain, hpq.2⟩ }, hafter⟩

theorem couples_inEachPack {g : β → Act ρ α} {k : β → Act τ α}
    (h : ∀ item, Couples S H (g item) (k item)) (items : List β) :
    Couples (Related S) H (inEachPack items g) (inEachPack items k) := by
  refine Couples.get_bind fun s t hs => ?_
  rw [hs.length_eq]
  refine Couples.mapM ?_ _
  rintro ⟨item, index⟩
  exact couples_inPack (h item) index

theorem couples_packIndices :
    Couples (Related S) H (packIndices (ρ := ρ)) (packIndices (ρ := τ)) := by
  refine Couples.get_bind fun s t hs => ?_
  rw [hs.length_eq]
  exact Couples.pure _

theorem couples_findVar (var : VarId) :
    Couples (Related S) H (findVar (ρ := ρ) var) (findVar (ρ := τ) var) := by
  refine Couples.get_bind fun s t hs => ?_
  rw [hs.vars]
  exact Couples.require _ _

theorem couples_findTerms (set : SetId) :
    Couples (Related S) H (findTerms (ρ := ρ) set) (findTerms (ρ := τ) set) := by
  refine Couples.get_bind fun s t hs => ?_
  rw [hs.sets]
  exact Couples.require _ _

theorem couples_store (terms : List Term) :
    Couples (Related S) H (store (ρ := ρ) terms) (store (ρ := τ) terms) := by
  intro s t hs host host' hhost
  simp only [store, hs.issued, hs.sets]
  exact ⟨trivial, { hs with sets := rfl, issued := rfl }, hhost⟩

section

variable (h : a.Couples S H b)

include h

theorem couples_topTerm : Couples (Related S) H (topTerm a) (topTerm b) :=
  couples_packIndices.bind fun indices =>
    Couples.mapM (fun index => couples_inPack (h.step .top) index) indices

theorem couples_termWith (pack : Nat) (component : SetId) :
    Couples (Related S) H (termWith a pack component) (termWith b pack component) :=
  couples_packIndices.bind fun indices => Couples.mapM (fun index =>
    Couples.ite (Couples.pure component) (couples_inPack (h.step .top) index)) indices

theorem couples_copyTerm (term : Term) :
    Couples (Related S) H (copyTerm a term) (copyTerm b term) :=
  couples_inEachPack (fun set => h.step (.union set set)) term

theorem couples_releaseTerm (term : Term) :
    Couples (Related S) H (releaseTerm a term) (releaseTerm b term) :=
  (couples_inEachPack (fun set => h.step (.release set)) term).bind fun _ => Couples.pure ()

theorem couples_releaseTerms (terms : List Term) :
    Couples (Related S) H (releaseTerms a terms) (releaseTerms b terms) :=
  Couples.forM (couples_releaseTerm h) terms

theorem couples_anyEmpty (components : List (SetId × Nat)) :
    Couples (Related S) H (anyEmpty a components) (anyEmpty b components) := by
  induction components with
  | nil => exact Couples.pure false
  | cons component rest ih =>
    exact (couples_inPack (h.step (.isEmpty component.1)) component.2).bind fun answer =>
      Couples.ite (Couples.pure true) ih

theorem couples_termIsEmpty (term : Term) :
    Couples (Related S) H (termIsEmpty a term) (termIsEmpty b term) :=
  couples_packIndices.bind fun _ => couples_anyEmpty h _

theorem couples_products (pairs : List (Term × Term)) :
    Couples (Related S) H (products a pairs) (products b pairs) := by
  induction pairs with
  | nil => exact Couples.pure []
  | cons pair rest ih =>
    obtain ⟨left, right⟩ := pair
    refine Couples.bind (couples_inEachPack ?_ _) fun term =>
      (couples_termIsEmpty h term).bind fun vanished => Couples.ite ?_ ?_
    · rintro ⟨x, y⟩
      exact h.step (.intersect x y)
    · exact (couples_releaseTerms h [term]).bind fun _ => ih
    · exact ih.bind fun terms => Couples.pure _

theorem couples_intersectTerms (left right : List Term) :
    Couples (Related S) H (intersectTerms a left right) (intersectTerms b left right) :=
  couples_products h _

theorem couples_outsideTerm (term : Term) :
    Couples (Related S) H (outsideTerm a term) (outsideTerm b term) := by
  refine Couples.mapM ?_ _
  rintro ⟨component, pack⟩
  exact (couples_inPack (h.step (.complement component)) pack).bind fun flipped =>
    couples_termWith h pack flipped

theorem couples_cutOut (result : List Term) (term : Term) :
    Couples (Related S) H (cutOut a result term) (cutOut b result term) :=
  (couples_outsideTerm h term).bind fun outside =>
    (couples_intersectTerms h result outside).bind fun _ =>
      (couples_releaseTerms h result).bind fun _ =>
        (couples_releaseTerms h outside).bind fun _ => Couples.pure _

theorem couples_complementTerms (terms : List Term) :
    Couples (Related S) H (complementTerms a terms) (complementTerms b terms) :=
  (couples_topTerm h).bind fun _ => Couples.foldlM (couples_cutOut h) terms _

theorem couples_contained (x y : SetId) :
    Couples (Related S) H (contained a x y) (contained b x y) :=
  (couples_findTerms x).bind fun left => (couples_findTerms y).bind fun right =>
    (couples_complementTerms h right).bind fun outside =>
      (couples_intersectTerms h left outside).bind fun rest =>
        (couples_releaseTerms h outside).bind fun _ =>
          (couples_releaseTerms h rest).bind fun _ => Couples.pure _

theorem couples_openPack (name : String) (bits : UInt32) (sets : Table SetId (List Term)) :
    Couples S H (openPack a name bits sets) (openPack b name bits sets) :=
  (h.step _).bind fun _ => (Couples.mapM (fun _ =>
    (Couples.mapM (fun _ => (h.step .top).bind fun _ => Couples.pure _) _).bind fun _ =>
      Couples.pure _) _).bind fun _ => Couples.pure _

theorem couples_declareInNewPack (name : String) (bits : UInt32) :
    Couples (Related S) H (declareInNewPack a name bits) (declareInNewPack b name bits) := by
  intro s t hs host host' hhost
  rw [declareInNewPack, declareInNewPack]
  rcases hs.blank with ⟨e, hblank, hblank'⟩ | ⟨d, d', hblank, hblank', hd⟩
  · rw [hblank, hblank']
    exact ⟨rfl, hs, hhost⟩
  · obtain ⟨houtcome, hdomain, hafter⟩ :=
      couples_openPack h name bits s.sets d d' hd host host' hhost
    rw [hblank, hblank', ← hs.sets, ← hs.length_eq]
    simp only
    generalize openPack a name bits s.sets d host = r at houtcome hdomain hafter ⊢
    generalize openPack b name bits s.sets d' host' = r' at houtcome hdomain hafter ⊢
    obtain ⟨o, d, after⟩ := r
    obtain ⟨o', d', after'⟩ := r'
    obtain rfl : o = o' := houtcome
    rcases o with e | ⟨var, sets⟩
    · exact ⟨rfl, hs, h.dispose d d' hdomain after after' hafter⟩
    · have hnew : Pack.Related S ⟨d, 1⟩ ⟨d', 1⟩ := ⟨hdomain, rfl⟩
      have hpacks := List.rel_append hs.packs (.cons hnew .nil)
      exact ⟨rfl, ⟨hpacks, hs.capacity, hs.backend, .inr ⟨_, _, rfl, rfl, hd⟩, hs.vars, rfl,
        hs.issued⟩, hafter⟩

theorem couples_declareInLastPack (name : String) (bits : UInt32) :
    Couples (Related S) H (declareInLastPack a name bits) (declareInLastPack b name bits) := by
  refine Couples.get_bind fun s t hs => ?_
  rw [hs.length_eq]
  refine (couples_inPack (h.step _) _).bind fun var =>
    (Couples.modify fun s t hs => ?_).bind fun _ => Couples.pure _
  exact { hs with
    packs := forall₂_modify hs.packs _ fun p q hpq => ⟨hpq.1, congrArg (· + 1) hpq.2⟩ }

theorem couples_declare (name : String) (bits : UInt32) :
    Couples (Related S) H (declare a name bits) (declare b name bits) := by
  refine Couples.get_bind fun s t hs => ?_
  rw [hs.hasRoom_eq, hs.vars]
  have hadd (var : PackedVar) (s : Packed ρ) (t : Packed τ) (hs : Related S s t) :
      Related S { s with vars := s.vars ++ [var] } { t with vars := t.vars ++ [var] } :=
    { hs with vars := congrArg (· ++ [var]) hs.vars }
  split
  · exact (couples_declareInLastPack h name bits).bind fun var =>
      (Couples.modify (hadd var)).bind fun _ => Couples.pure _
  · exact (couples_declareInNewPack h name bits).bind fun var =>
      (Couples.modify (hadd var)).bind fun _ => Couples.pure _

theorem couples_crossTerm (x y : PackedVar) (value : UInt64) :
    Couples (Related S) H (crossTerm a x y value) (crossTerm b x y value) := by
  refine (couples_inPack (h.step _) _).bind fun left => (couples_inPack (h.step _) _).bind
    fun right => (couples_termWith h _ left).bind fun term => ?_
  split
  · exact (couples_inPack (h.step _) _).bind fun _ => Couples.pure _
  · exact Couples.pure _

theorem couples_varEqVar (x y : PackedVar) :
    Couples (Related S) H (varEqVar a x y) (varEqVar b x y) := by
  refine Couples.ite ?_ (Couples.ite (Couples.fail _) (Couples.ite ?_ ?_))
  · exact (couples_inPack (h.step _) _).bind fun component =>
      (couples_termWith h _ component).bind fun term => couples_store _
  · refine Couples.get_bind fun s t hs => ?_
    rw [hs.describe_eq h]
    exact Couples.fail _
  · exact (Couples.mapM (fun value => couples_crossTerm h x y _) _).bind fun terms =>
      couples_store terms

theorem couples_pointComponent (point : List (PackedVar × UInt64)) (pack : Nat) :
    Couples (Related S) H (pointComponent a point pack) (pointComponent b point pack) := by
  rw [pointComponent, pointComponent]
  split
  · exact couples_inPack (h.step .top) pack
  · exact couples_inPack (h.step _) pack

theorem couples_projectTerm (var : PackedVar) (term : Term) :
    Couples (Related S) H (projectTerm a var term) (projectTerm b var term) := by
  refine Couples.mapM ?_ _
  rintro ⟨component, pack⟩
  exact couples_inPack (h.step _) pack

theorem couples_allEmpty (terms : List Term) :
    Couples (Related S) H (allEmpty a terms) (allEmpty b terms) := by
  induction terms with
  | nil => exact Couples.pure true
  | cons term rest ih =>
    exact (couples_termIsEmpty h term).bind fun vanished =>
      Couples.ite ih (Couples.pure false)

theorem couples_step {k : Answer} (call : Call k) :
    Couples (Related S) H (step a call) (step b call) := by
  cases call with
  | declare name bits => exact couples_declare h name bits
  | top => exact (couples_topTerm h).bind fun term => couples_store _
  | bottom => exact couples_store []
  | varEqConst var value =>
    exact (couples_findVar var).bind fun var => (couples_inPack (h.step _) _).bind fun component =>
      (couples_termWith h _ component).bind fun term => couples_store _
  | varEqVar x y =>
    exact (couples_findVar x).bind fun x => (couples_findVar y).bind fun y =>
      couples_varEqVar h x y
  | singleton point =>
    refine Couples.get_bind fun s t hs => ?_
    rw [hs.vars]
    refine Couples.ite (Couples.fail _) ?_
    exact couples_packIndices.bind fun indices =>
      (Couples.mapM (couples_pointComponent h _) indices).bind fun term => couples_store _
  | union x y =>
    exact (couples_findTerms x).bind fun left => (couples_findTerms y).bind fun right =>
      (Couples.mapM (couples_copyTerm h) _).bind fun terms => couples_store terms
  | intersect x y =>
    exact (couples_findTerms x).bind fun left => (couples_findTerms y).bind fun right =>
      (couples_intersectTerms h left right).bind fun terms => couples_store terms
  | difference x y =>
    exact (couples_findTerms x).bind fun left => (couples_findTerms y).bind fun right =>
      (couples_complementTerms h right).bind fun outside =>
        (couples_intersectTerms h left outside).bind fun terms =>
          (couples_releaseTerms h outside).bind fun _ => couples_store terms
  | complement x =>
    exact (couples_findTerms x).bind fun terms =>
      (couples_complementTerms h terms).bind fun terms => couples_store terms
  | «exists» set var =>
    exact (couples_findVar var).bind fun var => (couples_findTerms set).bind fun terms =>
      (Couples.mapM (couples_projectTerm h var) terms).bind fun terms => couples_store terms
  | isEmpty x => exact (couples_findTerms x).bind fun terms => couples_allEmpty h terms
  | equal x y =>
    exact (couples_contained h x y).bind fun answer =>
      Couples.ite (couples_contained h y x) (Couples.pure false)
  | subset x y => exact couples_contained h x y
  | release x =>
    exact (couples_findTerms x).bind fun terms => (Couples.modify fun _ _ hs =>
      { hs with sets := congrArg (Table.erase · x) hs.sets }).bind fun _ =>
        couples_releaseTerms h terms

theorem couples : (operations a).Couples (Related S) H (operations b) where
  step call := couples_step h call
  describe s t hs := hs.describe_eq h
  dispose s t hs host host' hhost := by
    have hpacks := hs.packs
    simp only [operations]
    generalize s.packs = ps at hpacks ⊢
    generalize t.packs = qs at hpacks ⊢
    induction hpacks generalizing host host' with
    | nil => exact hhost
    | cons hpq _ ih => exact ih _ _ (h.dispose _ _ hpq.1 host host' hhost)

end

theorem carries {f : ρ → τ} (h : a.Carries f b) :
    (operations a).Carries (map f) (operations b) := by
  rw [Operations.carries_iff, ← related_map]
  exact couples (Operations.carries_iff.mp h)

end Packed
end LayeredSets
