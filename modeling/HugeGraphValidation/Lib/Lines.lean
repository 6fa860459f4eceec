import Mathlib

/-!
# Sorted lists and sorted lines

Sorting forgets the order and nothing else.

`"\n".join(sorted(lines))`: a text that stands for a multiset of lines.  It
determines the multiset when no line contains a newline and the number of lines
is known, since no line at all and one empty line give the same text.
-/

namespace HugeGraphValidation.Lib

theorem insertionSort_eq_iff {α : Type*} [LinearOrder α] {xs ys : List α} :
    xs.insertionSort (· ≤ ·) = ys.insertionSort (· ≤ ·) ↔ xs.Perm ys := by
  have hx := List.perm_insertionSort (· ≤ ·) xs
  have hy := List.perm_insertionSort (· ≤ ·) ys
  constructor
  · intro h
    exact hx.symm.trans (h ▸ hy)
  · intro hperm
    refine List.Perm.eq_of_pairwise ?_ (List.pairwise_insertionSort _ _)
      (List.pairwise_insertionSort _ _) ((hx.trans hperm).trans hy.symm)
    exact fun _ _ _ _ hab hba ↦ le_antisymm hab hba

def joinSorted (lines : List String) : String :=
  "\n".intercalate (lines.insertionSort (· ≤ ·))

/-- No line break inside the line. -/
def OneLine (line : String) : Prop := '\n' ∉ line.toList

theorem joinSorted_perm {lines lines' : List String} (hperm : lines.Perm lines') :
    joinSorted lines = joinSorted lines' := by
  rw [joinSorted, joinSorted, insertionSort_eq_iff.mpr hperm]

theorem intercalate_newline_inj {lines lines' : List String}
    (hline : ∀ s ∈ lines, OneLine s) (hline' : ∀ s ∈ lines', OneLine s)
    (hlength : lines.length = lines'.length)
    (h : "\n".intercalate lines = "\n".intercalate lines') : lines = lines' := by
  have hchars : ['\n'].intercalate (lines.map String.toList) =
      ['\n'].intercalate (lines'.map String.toList) := by
    have htoList := congrArg String.toList h
    rwa [String.toList_intercalate, String.toList_intercalate] at htoList
  cases lines with
  | nil => exact (List.length_eq_zero_iff.mp hlength.symm).symm
  | cons s rest =>
      have hne' : lines' ≠ [] := by
        rintro rfl
        simp at hlength
      have hsplit := congrArg (List.splitOn '\n') hchars
      rw [List.splitOn_intercalate _ (by simpa [OneLine] using hline) (by simp),
        List.splitOn_intercalate _ (by simpa [OneLine] using hline') (by simpa using hne')]
        at hsplit
      exact List.map_injective_iff.mpr (fun _ _ ↦ String.toList_inj.mp) hsplit

/-- The line breaks of a joined text: one less than its lines, and those inside them. -/
theorem count_newline_intercalate {lines : List String} (hne : lines ≠ []) :
    ("\n".intercalate lines).toList.count '\n' + 1 =
      lines.length + (lines.map fun s ↦ s.toList.count '\n').sum := by
  induction lines with
  | nil => exact absurd rfl hne
  | cons s rest ih =>
      rcases eq_or_ne rest [] with rfl | hrest
      · simp [String.intercalate_singleton, Nat.add_comm]
      · rw [String.intercalate_cons_of_ne_nil hrest, String.toList_append, String.toList_append,
          List.count_append, List.count_append, List.length_cons, List.map_cons, List.sum_cons]
        have hnewline : "\n".toList.count '\n' = 1 := by decide
        have := ih hrest
        omega

/-- Of two lists of one length with one joined text, neither has a line break in a line
or both have. -/
theorem oneLine_of_joinSorted_eq {lines lines' : List String} (hline : ∀ s ∈ lines, OneLine s)
    (hlength : lines.length = lines'.length) (h : joinSorted lines = joinSorted lines') :
    ∀ s ∈ lines', OneLine s := by
  have hperm := List.perm_insertionSort (· ≤ ·) lines
  have hperm' := List.perm_insertionSort (· ≤ ·) lines'
  intro s hs
  have hne' : lines'.insertionSort (· ≤ ·) ≠ [] := List.ne_nil_of_mem (hperm'.mem_iff.mpr hs)
  have hlengths : (lines.insertionSort (· ≤ ·)).length = (lines'.insertionSort (· ≤ ·)).length :=
    hperm.length_eq.trans (hlength.trans hperm'.length_eq.symm)
  have hne : lines.insertionSort (· ≤ ·) ≠ [] := by
    rw [← List.length_pos_iff, hlengths]
    exact List.length_pos_iff.mpr hne'
  have hnone : ((lines.insertionSort (· ≤ ·)).map fun s ↦ s.toList.count '\n').sum = 0 := by
    rw [List.sum_eq_zero_iff]
    intro n hn
    obtain ⟨t, ht, rfl⟩ := List.mem_map.mp hn
    exact List.count_eq_zero.mpr (hline t (hperm.subset ht))
  have hcount := count_newline_intercalate hne
  have hcount' := count_newline_intercalate hne'
  rw [joinSorted, joinSorted] at h
  rw [h] at hcount
  have hnone' : ((lines'.insertionSort (· ≤ ·)).map fun s ↦ s.toList.count '\n').sum = 0 := by
    omega
  rw [List.sum_eq_zero_iff] at hnone'
  exact List.count_eq_zero.mp (hnone' _ (List.mem_map_of_mem (hperm'.mem_iff.mpr hs)))

/-- Lists of one length with one joined text have the same lines, where those of one list
contain no line break. -/
theorem joinSorted_inj {lines lines' : List String} (hline : ∀ s ∈ lines, OneLine s)
    (hlength : lines.length = lines'.length) (h : joinSorted lines = joinSorted lines') :
    lines.Perm lines' := by
  have hline' := oneLine_of_joinSorted_eq hline hlength h
  have hperm := List.perm_insertionSort (· ≤ ·) lines
  have hperm' := List.perm_insertionSort (· ≤ ·) lines'
  refine insertionSort_eq_iff.mp (intercalate_newline_inj ?_ ?_ ?_ h)
  · exact fun s hs ↦ hline s (hperm.subset hs)
  · exact fun s hs ↦ hline' s (hperm'.subset hs)
  · rw [hperm.length_eq, hperm'.length_eq, hlength]

end HugeGraphValidation.Lib
