import LayeredSets.Layer.Equalities
import Mathlib.Tactic

/-!
# Classes of equal sets

The two tables of remembered equalities mirror each other: each set is listed in the class whose
number it has, and nowhere else. As long as they do, merging two sets joins exactly their classes,
and forgetting a set takes it out of its class and changes nothing else.
-/

namespace LayeredSets

theorem Table.get?_foldl_insert {κ α : Type} [BEq κ] [LawfulBEq κ] (keys : List κ) (a : α)
    (t : Table κ α) (k : κ) :
    (keys.foldl (fun t key => t.insert key a) t).get? k =
      if keys.contains k then some a else t.get? k := by
  induction keys generalizing t with
  | nil => rfl
  | cons key keys ih =>
    rw [List.foldl_cons, ih, get?_insert, List.contains_cons]
    cases keys.contains k <;> cases k == key <;> rfl

theorem Table.get?_foldl_erase {κ α : Type} [BEq κ] [LawfulBEq κ] (keys : List κ) (t : Table κ α)
    (k : κ) : (keys.foldl erase t).get? k = if keys.contains k then none else t.get? k := by
  induction keys generalizing t with
  | nil => rfl
  | cons key keys ih =>
    rw [List.foldl_cons, ih, get?_erase, List.contains_cons]
    cases keys.contains k <;> cases k == key <;> rfl

/-- Two different members make a list of at least two. -/
theorem two_le_length {α : Type} {a b : α} {l : List α} (hab : a ≠ b) (ha : a ∈ l) (hb : b ∈ l) :
    2 ≤ l.length := by
  have hpair : [a, b].Nodup := by simpa using hab
  have hsubset : [a, b] ⊆ l := List.cons_subset.mpr ⟨ha, by simpa using hb⟩
  exact (List.subperm_of_subset hpair hsubset).length_le

namespace Equalities

/-- The two sets are the same or in one class. -/
def Known (e : Equalities) (a b : SetId) : Prop :=
  a = b ∨ ∃ n, e.classOf.get? a = some n ∧ e.classOf.get? b = some n

theorem knownEqual_iff {e : Equalities} {a b : SetId} : e.knownEqual a b = true ↔ e.Known a b := by
  rw [knownEqual, Bool.or_eq_true, beq_iff_eq, Known]
  refine or_congr_right ?_
  cases e.classOf.get? a with
  | none => simp
  | some n =>
    cases e.classOf.get? b with
    | none => simp
    | some m =>
      rw [beq_iff_eq]
      constructor
      · rintro rfl
        exact ⟨n, rfl, rfl⟩
      · rintro ⟨_, ⟨⟩, ⟨⟩⟩
        rfl

section

variable {e : Equalities} {a b c : SetId}

theorem Known.refl (e : Equalities) (a : SetId) : e.Known a a := .inl rfl

theorem Known.symm (h : e.Known a b) : e.Known b a := by
  obtain rfl | ⟨n, ha, hb⟩ := h
  · exact .refl e a
  · exact .inr ⟨n, hb, ha⟩

theorem Known.trans (h : e.Known a b) (h' : e.Known b c) : e.Known a c := by
  obtain rfl | ⟨n, ha, hb⟩ := h
  · exact h'
  · obtain rfl | ⟨m, hb', hc⟩ := h'
    · exact .inr ⟨n, ha, hb⟩
    · rw [hb] at hb'
      exact .inr ⟨n, ha, hb' ▸ hc⟩

end

/-- Each set is listed, once, in the class whose number it has, and classes are numbered below the
next one. -/
structure Mirrors (e : Equalities) : Prop where
  mem_members : ∀ a n, a ∈ e.members n ↔ e.classOf.get? a = some n
  nodup : ∀ n, (e.members n).Nodup
  numbered : ∀ n, e.nextClass ≤ n → e.classes.get? n = Option.none

/-- There are no classes of a single set. -/
def Paired (e : Equalities) : Prop :=
  ∀ n members, e.classes.get? n = some members → 2 ≤ members.length

theorem mirrors_none : none.Mirrors where
  mem_members a n := by simp [none, members]
  nodup n := by simp [none, members]
  numbered n _ := rfl

theorem Mirrors.countShortcut {e : Equalities} (h : e.Mirrors) : e.countShortcut.Mirrors :=
  ⟨h.mem_members, h.nodup, h.numbered⟩

theorem paired_none : none.Paired := by
  intro n members h
  cases h

section

variable {e : Equalities}

theorem Mirrors.members_next (h : e.Mirrors) : e.members e.nextClass = [] := by
  rw [members, h.numbered _ le_rfl]
  rfl

theorem Mirrors.classOf_ne_next (h : e.Mirrors) (a : SetId) :
    e.classOf.get? a ≠ some e.nextClass := by
  rw [Ne, ← h.mem_members, h.members_next]
  exact List.not_mem_nil

/-! ## The class for a set -/

/-- What is known does not change when a set gets a class of its own. -/
structure Opened (e : Equalities) (a : SetId) (n : Nat) (e' : Equalities) : Prop where
  mirrors : e'.Mirrors
  classOf : e'.classOf.get? a = some n
  known : ∀ x y, e'.Known x y ↔ e.Known x y
  kept : ∀ x m, e.classOf.get? x = some m → e'.classOf.get? x = some m
  others : ∀ m, m ≠ n → e'.classes.get? m = e.classes.get? m

theorem members_insert (e : Equalities) (classOf : Table SetId Nat) (n : Nat) (sets : List SetId)
    (next m : Nat) :
    members ⟨classOf, e.classes.insert n sets, next, e.shortcuts⟩ m =
      if m = n then sets else e.members m := by
  rw [members, Table.get?_insert]
  by_cases hm : m = n <;> simp [hm, members]

theorem Mirrors.opened (h : e.Mirrors) (a : SetId) :
    Opened e a (e.classFor a).1 (e.classFor a).2 := by
  unfold classFor
  cases ha : e.classOf.get? a with
  | some n => exact ⟨h, ha, fun _ _ => Iff.rfl, fun _ _ hx => hx, fun _ _ => rfl⟩
  | none =>
    have hother (x : SetId) (hx : x ≠ a) :
        (e.classOf.insert a e.nextClass).get? x = e.classOf.get? x :=
      Table.get?_insert_of_ne _ _ hx
    have hself : (e.classOf.insert a e.nextClass).get? a = some e.nextClass :=
      Table.get?_insert_self ..
    refine ⟨⟨fun x n => ?_, fun n => ?_, fun n hn => ?_⟩, hself, fun x y => ?_, fun x m hx => ?_,
      fun m hm => Table.get?_insert_of_ne _ _ hm⟩
    · rw [members_insert]
      by_cases hx : x = a
      · subst hx
        have := h.mem_members x n
        grind
      · have := h.mem_members x n
        have := h.classOf_ne_next x
        grind
    · rw [members_insert]
      split
      · exact List.nodup_singleton a
      · exact h.nodup n
    · rw [Table.get?_insert_of_ne _ _ (by dsimp only at hn; omega)]
      exact h.numbered n (by dsimp only at hn; omega)
    · have := h.classOf_ne_next x
      have := h.classOf_ne_next y
      unfold Known
      by_cases hx : x = a <;> by_cases hy : y = a <;> grind
    · rw [hother x (by rintro rfl; simp [ha] at hx), hx]

/-! ## Joining two classes -/

theorem known_iff_classOf {a : SetId} {n : Nat} (ha : e.classOf.get? a = some n) (x : SetId) :
    e.Known x a ↔ e.classOf.get? x = some n := by
  unfold Known
  grind

/-- The sets of the absorbed class get the number of the other one. -/
theorem Mirrors.classOf_absorb (h : e.Mirrors) (kept gone : Nat) (x : SetId) :
    (e.absorb kept gone).classOf.get? x =
      if e.classOf.get? x = some gone then some kept else e.classOf.get? x := by
  have hmem := h.mem_members x gone
  rw [absorb, Table.get?_foldl_insert]
  simp only [List.contains_iff_mem, hmem]

theorem Mirrors.classes_absorb (h : e.Mirrors) {kept gone : Nat} (hne : kept ≠ gone) (n : Nat) :
    (e.absorb kept gone).classes.get? n =
      if n = kept then some (e.members kept ++ e.members gone)
      else if n = gone then Option.none else e.classes.get? n := by
  have hstay : members { e with classes := e.classes.erase gone } kept = e.members kept := by
    rw [members, Table.get?_erase_of_ne _ hne, members]
  -- no set is in both classes, so nothing is listed twice
  have hmoved : (e.members gone).filter (!(e.members kept).contains ·) = e.members gone := by
    rw [List.filter_eq_self]
    intro x hx
    have := h.mem_members x kept
    have := h.mem_members x gone
    grind
  rw [absorb]
  simp only [hstay, hmoved, Table.get?_insert, Table.get?_erase, beq_iff_eq]

theorem Mirrors.members_absorb (h : e.Mirrors) {kept gone : Nat} (hne : kept ≠ gone) (n : Nat) :
    (e.absorb kept gone).members n =
      if n = kept then e.members kept ++ e.members gone
      else if n = gone then [] else e.members n := by
  rw [members, h.classes_absorb hne]
  split
  · rfl
  · split <;> rfl

theorem Mirrors.absorb (h : e.Mirrors) {kept gone : Nat} (hne : kept ≠ gone)
    (hkept : kept < e.nextClass) : (e.absorb kept gone).Mirrors where
  mem_members x n := by
    rw [h.members_absorb hne, h.classOf_absorb]
    have := h.mem_members x n
    have := h.mem_members x kept
    have := h.mem_members x gone
    grind
  nodup n := by
    rw [h.members_absorb hne]
    split
    · refine (h.nodup kept).append (h.nodup gone) fun x hx hx' => hne ?_
      rw [h.mem_members] at hx hx'
      exact Option.some.inj (hx.symm.trans hx')
    · split
      · exact List.nodup_nil
      · exact h.nodup n
  numbered n hn := by
    have hn : e.nextClass ≤ n := hn
    rw [h.classes_absorb hne, if_neg (by omega), h.numbered n hn, ite_self]

/-- What is known after two classes have been joined: what was known before, and that the sets of
one are equal to those of the other. -/
theorem Mirrors.known_absorb (h : e.Mirrors) {a b : SetId} {kept gone : Nat}
    (ha : e.classOf.get? a = some kept) (hb : e.classOf.get? b = some gone) (x y : SetId) :
    (e.absorb kept gone).Known x y ↔
      e.Known x y ∨ (e.Known x a ∧ e.Known b y) ∨ (e.Known x b ∧ e.Known a y) := by
  have hcomm (x y : SetId) : e.Known x y ↔ e.Known y x := ⟨.symm, .symm⟩
  rw [hcomm b y, hcomm a y]
  simp only [known_iff_classOf ha, known_iff_classOf hb]
  unfold Known
  simp only [h.classOf_absorb]
  grind

/-- Before two sets are joined, each of them has a class of its own. -/
theorem Mirrors.merge_cases (h : e.Mirrors) (a b : SetId) :
    ∃ x y e', e'.Mirrors ∧ e'.classOf.get? a = some x ∧ e'.classOf.get? b = some y ∧
      (∀ u v, e'.Known u v ↔ e.Known u v) ∧
      (∀ n, n ≠ x → n ≠ y → e'.classes.get? n = e.classes.get? n) ∧
      ((x = y ∧ e.merge a b = e') ∨
        (x ≠ y ∧ (e.merge a b = e'.absorb x y ∨ e.merge a b = e'.absorb y x))) := by
  have hfirst := h.opened a
  have hsecond := hfirst.mirrors.opened b
  refine ⟨_, _, _, hsecond.mirrors, hsecond.kept a _ hfirst.classOf, hsecond.classOf,
    fun u v => (hsecond.known u v).trans (hfirst.known u v),
    fun n hx hy => (hsecond.others n hy).trans (hfirst.others n hx), ?_⟩
  unfold merge
  dsimp only
  split
  · next heq => exact .inl ⟨heq, rfl⟩
  · next hne =>
    refine .inr ⟨hne, ?_⟩
    split
    · exact .inl rfl
    · exact .inr rfl

theorem Mirrors.lt_next {a : SetId} {n : Nat} (h : e.Mirrors) (ha : e.classOf.get? a = some n) :
    n < e.nextClass := by
  by_contra hle
  have hmem := (h.mem_members a n).mpr ha
  rw [members, h.numbered n (not_lt.mp hle)] at hmem
  cases hmem

theorem Mirrors.merge (h : e.Mirrors) (a b : SetId) : (e.merge a b).Mirrors := by
  obtain ⟨x, y, e', h', ha, hb, -, -, ⟨-, heq⟩ | ⟨hne, heq | heq⟩⟩ := h.merge_cases a b
  · exact heq ▸ h'
  · exact heq ▸ h'.absorb hne (h'.lt_next ha)
  · exact heq ▸ h'.absorb hne.symm (h'.lt_next hb)

/-- A merge makes known that the two sets are equal, and what follows from it. -/
theorem Mirrors.known_merge (h : e.Mirrors) (a b x y : SetId) :
    (e.merge a b).Known x y ↔
      e.Known x y ∨ (e.Known x a ∧ e.Known b y) ∨ (e.Known x b ∧ e.Known a y) := by
  obtain ⟨m, n, e', h', ha, hb, hknown, -, hcases⟩ := h.merge_cases a b
  simp only [← hknown]
  obtain ⟨rfl, heq⟩ | ⟨-, heq | heq⟩ := hcases
  · -- the two sets were in one class all along
    have hab : e'.Known a b := .inr ⟨m, ha, hb⟩
    rw [heq]
    constructor
    · exact .inl
    · rintro (hxy | ⟨hxa, hby⟩ | ⟨hxb, hay⟩)
      · exact hxy
      · exact (hxa.trans hab).trans hby
      · exact (hxb.trans hab.symm).trans hay
  · rw [heq, h'.known_absorb ha hb]
  · rw [heq, h'.known_absorb hb ha]
    exact or_congr_right or_comm

/-- A class that is listed with two different sets in it has at least two. -/
theorem Mirrors.two_le (h : e.Mirrors) {a b : SetId} (hab : a ≠ b) {n : Nat}
    (ha : e.classOf.get? a = some n) (hb : e.classOf.get? b = some n) :
    2 ≤ (e.members n).length := by
  exact two_le_length hab ((h.mem_members a n).mpr ha) ((h.mem_members b n).mpr hb)

theorem members_eq {n : Nat} {sets : List SetId} (h : e.classes.get? n = some sets) :
    e.members n = sets := by
  rw [members, h]
  rfl

theorem Mirrors.classOf_eq_some_iff (h : e.Mirrors) (a : SetId) (n : Nat) :
    e.classOf.get? a = some n ↔ ∃ sets, e.classes.get? n = some sets ∧ a ∈ sets := by
  rw [← h.mem_members, members]
  cases e.classes.get? n <;> simp

theorem Mirrors.paired_absorb (h : e.Mirrors) {a b : SetId} (hab : a ≠ b) {kept gone : Nat}
    (hne : kept ≠ gone) (ha : e.classOf.get? a = some kept) (hb : e.classOf.get? b = some gone)
    (hpaired : ∀ n sets, e.classes.get? n = some sets → n ≠ kept → n ≠ gone → 2 ≤ sets.length) :
    (e.absorb kept gone).Paired := by
  have hmirrors := h.absorb hne (h.lt_next ha)
  intro n sets hn
  by_cases hkept : n = kept
  · rw [← members_eq hn]
    refine hmirrors.two_le hab ?_ ?_ <;> rw [h.classOf_absorb] <;> grind
  · rw [h.classes_absorb hne, if_neg hkept] at hn
    split at hn
    · cases hn
    · next hgone => exact hpaired n sets hn hkept hgone

theorem Mirrors.paired_merge (h : e.Mirrors) (hpaired : e.Paired) {a b : SetId} (hab : a ≠ b) :
    (e.merge a b).Paired := by
  obtain ⟨x, y, e', h', ha, hb, -, hothers, hcases⟩ := h.merge_cases a b
  have hrest (n : Nat) (sets : List SetId) (hn : e'.classes.get? n = some sets) (hx : n ≠ x)
      (hy : n ≠ y) : 2 ≤ sets.length :=
    hpaired n sets (hothers n hx hy ▸ hn)
  obtain ⟨rfl, heq⟩ | ⟨hne, heq | heq⟩ := hcases
  · rw [heq]
    intro n sets hn
    by_cases hx : n = x
    · subst hx
      exact members_eq hn ▸ h'.two_le hab ha hb
    · exact hrest n sets hn hx hx
  · exact heq ▸ h'.paired_absorb hab hne ha hb hrest
  · exact heq ▸ h'.paired_absorb hab.symm hne.symm hb ha fun n sets hn hy hx => hrest n sets hn hx hy

/-! ## Forgetting a set -/

/-- What is left after a set has been taken out of its class. -/
theorem Mirrors.forget_cases (h : e.Mirrors) (a : SetId) :
    (e.classOf.get? a = Option.none ∧ e.forget a = e) ∨
      ∃ n, e.classOf.get? a = some n ∧
        let left := (e.members n).filter (· != a)
        let gone := left.length ≤ 1
        (∀ x, (e.forget a).classOf.get? x =
          if x = a ∨ gone ∧ x ∈ left then Option.none else e.classOf.get? x) ∧
        (∀ m, (e.forget a).classes.get? m =
          if m = n then (if gone then Option.none else some left) else e.classes.get? m) ∧
        (e.forget a).nextClass = e.nextClass := by
  cases ha : e.classOf.get? a with
  | none =>
    refine .inl ⟨rfl, ?_⟩
    rw [forget, ha]
  | some n =>
    refine .inr ⟨n, rfl, ?_⟩
    have hmem := (h.mem_members a n).mpr ha
    cases hn : e.classes.get? n with
    | none =>
      rw [members, hn] at hmem
      cases hmem
    | some sets =>
      rw [members_eq hn]
      simp only [forget, ha, hn]
      split
      · next hgone =>
        refine ⟨fun x => ?_, fun m => ?_, rfl⟩
        · simp only [Table.get?_foldl_erase, Table.get?_erase, List.contains_iff_mem, beq_iff_eq]
          grind
        · simp only [Table.get?_erase, beq_iff_eq]
      · next hgone =>
        refine ⟨fun x => ?_, fun m => ?_, rfl⟩
        · simp only [Table.get?_erase, beq_iff_eq, hgone, false_and, or_false]
        · simp only [Table.get?_insert, beq_iff_eq]

theorem Mirrors.forget (h : e.Mirrors) (a : SetId) : (e.forget a).Mirrors := by
  obtain ⟨-, heq⟩ | ⟨n, ha, hclassOf, hclasses, hnext⟩ := h.forget_cases a
  · rwa [heq]
  have hmembers (m : Nat) : (e.forget a).members m =
      if m = n then
        (if ((e.members n).filter (· != a)).length ≤ 1 then [] else (e.members n).filter (· != a))
      else e.members m := by
    rw [members, hclasses]
    by_cases hm : m = n
    · rw [if_pos hm, if_pos hm]
      split <;> rfl
    · rw [if_neg hm, if_neg hm, members]
  refine ⟨fun x m => ?_, fun m => ?_, fun m hm => ?_⟩
  · rw [hmembers, hclassOf]
    have hx := h.mem_members x m
    have hxn := h.mem_members x n
    have hleft : x ∈ (e.members n).filter (· != a) ↔ x ∈ e.members n ∧ x ≠ a := by simp
    by_cases hm : m = n
    · grind
    · grind
  · rw [hmembers]
    split
    · split
      · exact List.nodup_nil
      · exact (h.nodup n).filter _
    · exact h.nodup m
  · rw [hnext] at hm
    have hlt := h.lt_next ha
    rw [hclasses, if_neg (by omega), h.numbered m hm]

theorem Mirrors.paired_forget (h : e.Mirrors) (hpaired : e.Paired) (a : SetId) :
    (e.forget a).Paired := by
  obtain ⟨-, heq⟩ | ⟨n, ha, -, hclasses, -⟩ := h.forget_cases a
  · rwa [heq]
  intro m sets hm
  rw [hclasses] at hm
  have := hpaired m sets
  grind

/-- What is known of the other sets is not forgotten. -/
theorem Mirrors.known_forget (h : e.Mirrors) (a x y : SetId) :
    (e.forget a).Known x y ↔ x = y ∨ (e.Known x y ∧ x ≠ a ∧ y ≠ a) := by
  obtain ⟨ha, heq⟩ | ⟨n, ha, hclassOf, -, -⟩ := h.forget_cases a
  · rw [heq]
    unfold Known
    grind
  unfold Known
  simp only [hclassOf]
  -- two different sets that are left keep their class
  have hleft (hxy : x ≠ y) (hx : x ∈ (e.members n).filter (· != a))
      (hy : y ∈ (e.members n).filter (· != a)) : ¬ ((e.members n).filter (· != a)).length ≤ 1 := by
    have := two_le_length hxy hx hy
    omega
  have hmem (z : SetId) :
      z ∈ (e.members n).filter (· != a) ↔ e.classOf.get? z = some n ∧ z ≠ a := by
    simp [h.mem_members]
  have hx := hmem x
  have hy := hmem y
  constructor
  · grind
  · rintro (rfl | ⟨rfl | ⟨m, hxm, hym⟩, hxa, hya⟩)
    · exact .inl rfl
    · exact .inl rfl
    · by_cases hxy : x = y
      · exact .inl hxy
      · refine .inr ⟨m, ?_, ?_⟩ <;> grind

end

end Equalities
end LayeredSets
