import LayeredSets.Text.Blank
import Mathlib.Tactic

/-!
# Pieces of a text

Pieces that do not contain the cut are what one gets back by cutting the text that joins them.
-/

namespace LayeredSets.Text

section

variable {α : Type} [BEq α] [LawfulBEq α] {cut : α} {piece : List α}

theorem splitAt_of_notMem (h : cut ∉ piece) : splitAt (· == cut) piece = [piece] := by
  induction piece with
  | nil => rfl
  | cons a piece ih =>
    obtain ⟨ha, hpiece⟩ := not_or.mp (List.mem_cons.not.mp h)
    rw [splitAt, if_neg (by simpa using Ne.symm ha), ih hpiece]

theorem splitAt_append (h : cut ∉ piece) (rest : List α) :
    splitAt (· == cut) (piece ++ cut :: rest) = piece :: splitAt (· == cut) rest := by
  induction piece with
  | nil => simp [splitAt]
  | cons a piece ih =>
    obtain ⟨ha, hpiece⟩ := not_or.mp (List.mem_cons.not.mp h)
    rw [List.cons_append, splitAt, if_neg (by simpa using Ne.symm ha), ih hpiece]

theorem splitAt_intercalate {pieces : List (List α)} (hne : pieces ≠ [])
    (h : ∀ piece ∈ pieces, cut ∉ piece) :
    splitAt (· == cut) ([cut].intercalate pieces) = pieces := by
  induction pieces with
  | nil => exact absurd rfl hne
  | cons piece rest ih =>
    obtain ⟨hpiece, hrest⟩ := List.forall_mem_cons.mp h
    cases rest with
    | nil => rw [List.intercalate_singleton, splitAt_of_notMem hpiece]
    | cons next rest =>
      rw [List.intercalate_cons_cons, List.append_assoc, List.singleton_append,
        splitAt_append hpiece, ih (List.cons_ne_nil _ _) hrest]

end

theorem forall_mem_intercalate {α : Type} {p : α → Prop} {cut : List α} {pieces : List (List α)}
    (hcut : ∀ a ∈ cut, p a) (h : ∀ piece ∈ pieces, ∀ a ∈ piece, p a) :
    ∀ a ∈ cut.intercalate pieces, p a := by
  induction pieces with
  | nil => simp
  | cons piece rest ih =>
    obtain ⟨hpiece, hrest⟩ := List.forall_mem_cons.mp h
    cases rest with
    | nil => rwa [List.intercalate_singleton]
    | cons next rest =>
      rw [List.intercalate_cons_cons, List.forall_mem_append, List.forall_mem_append]
      exact ⟨⟨hpiece, hcut⟩, ih hrest⟩

theorem pieces_intercalate {texts : List String} {cut : Char} (hne : texts ≠ [])
    (h : ∀ text ∈ texts, cut ∉ text.toList) :
    pieces ((String.singleton cut).intercalate texts) cut = texts := by
  have hcut : (String.singleton cut).toList = [cut] := by simp
  rw [pieces, String.toList_intercalate, hcut,
    splitAt_intercalate (by simpa using hne) (by simpa using h), List.map_map]
  exact (List.map_congr_left fun text _ => String.ofList_toList).trans (List.map_id _)

/-- Nothing is trimmed off a text without blanks. -/
theorem trim_of_visible {text : String} (h : ∀ c ∈ text.toList, isBlank c = false) :
    trim text = text := by
  have hvisible {cs : List Char} (hcs : ∀ c ∈ cs, isBlank c = false) :
      cs.dropWhile isBlank = cs := by
    cases cs with
    | nil => rfl
    | cons c cs => rw [List.dropWhile_cons_of_neg (by simp [hcs])]
  rw [trim, trimStart, hvisible h, trimEnd, hvisible (by simpa using h), List.reverse_reverse,
    String.ofList_toList]

end LayeredSets.Text
