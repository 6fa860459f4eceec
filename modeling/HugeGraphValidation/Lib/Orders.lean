import Mathlib

/-!
# Extremes and order statistics of a list

When more items leave the largest and the least one as they are, and where the items
of a sorted list stand among all of them.
-/

namespace HugeGraphValidation.Lib

variable {α : Type*} [LinearOrder α]

/-! ## The largest and the least item -/

theorem max?_concat (xs : List α) (x : α) :
    (xs ++ [x]).max? = some (xs.max?.elim x (max · x)) := by
  cases xs with
  | nil => rfl
  | cons y ys =>
      rw [List.cons_append, List.max?_cons', List.max?_cons', List.foldl_append]
      rfl

theorem min?_concat (xs : List α) (x : α) :
    (xs ++ [x]).min? = some (xs.min?.elim x (min · x)) := by
  cases xs with
  | nil => rfl
  | cons y ys =>
      rw [List.cons_append, List.min?_cons', List.min?_cons', List.foldl_append]
      rfl

theorem max?_append_eq_iff {xs : List α} (hne : xs ≠ []) (ys : List α) :
    (xs ++ ys).max? = xs.max? ↔ ∀ y ∈ ys, ∃ x ∈ xs, y ≤ x := by
  obtain ⟨m, hm⟩ := Option.ne_none_iff_exists'.mp (mt List.max?_eq_none_iff.mp hne)
  obtain ⟨hmem, hmax⟩ := List.max?_eq_some_iff.mp hm
  rw [hm, List.max?_eq_some_iff]
  constructor
  · rintro ⟨-, hall⟩ y hy
    exact ⟨m, hmem, hall y (List.mem_append_right _ hy)⟩
  · intro h
    refine ⟨List.mem_append_left _ hmem, fun z hz ↦ ?_⟩
    rcases List.mem_append.mp hz with hz | hz
    · exact hmax z hz
    · obtain ⟨x, hx, hzx⟩ := h z hz
      exact hzx.trans (hmax x hx)

theorem min?_append_eq_iff {xs : List α} (hne : xs ≠ []) (ys : List α) :
    (xs ++ ys).min? = xs.min? ↔ ∀ y ∈ ys, ∃ x ∈ xs, x ≤ y := by
  obtain ⟨m, hm⟩ := Option.ne_none_iff_exists'.mp (mt List.min?_eq_none_iff.mp hne)
  obtain ⟨hmem, hmin⟩ := List.min?_eq_some_iff.mp hm
  rw [hm, List.min?_eq_some_iff]
  constructor
  · rintro ⟨-, hall⟩ y hy
    exact ⟨m, hmem, hall y (List.mem_append_right _ hy)⟩
  · intro h
    refine ⟨List.mem_append_left _ hmem, fun z hz ↦ ?_⟩
    rcases List.mem_append.mp hz with hz | hz
    · exact hmin z hz
    · obtain ⟨x, hx, hxz⟩ := h z hz
      exact (hmin x hx).trans hxz

/-! ## Sorted lists -/

/-- The last `k` items of a sorted list without repeats are those with fewer than `k`
larger ones. -/
theorem mem_drop_iff_of_sorted {xs : List α} (h : xs.Pairwise (· < ·)) (k : ℕ) {x : α} :
    x ∈ xs.drop (xs.length - k) ↔ x ∈ xs ∧ xs.countP (x < ·) < k := by
  by_cases hmem : x ∈ xs
  · obtain ⟨before, behind, rfl⟩ := List.append_of_mem hmem
    obtain ⟨-, hbehind, hcross⟩ := List.pairwise_append.mp h
    have hlarger : ∀ y ∈ behind, x < y := (List.pairwise_cons.mp hbehind).1
    have hsmaller : ∀ y ∈ before, y < x := fun y hy ↦ hcross y hy x List.mem_cons_self
    have hcount : (before ++ x :: behind).countP (x < ·) = behind.length := by
      rw [List.countP_append, List.countP_cons_of_neg (by simp),
        List.countP_eq_zero.mpr fun y hy ↦ by simpa using (hsmaller y hy).le,
        List.countP_eq_length.mpr fun y hy ↦ by simpa using hlarger y hy, Nat.zero_add]
    have hfresh : x ∉ behind := fun hx ↦ lt_irrefl x (hlarger x hx)
    rw [hcount, List.length_append, List.length_cons]
    refine ⟨fun hx ↦ ⟨hmem, ?_⟩, fun hx ↦ ?_⟩
    · by_contra hk
      have hskip : before.length + (behind.length + 1) - k =
          before.length + 1 + (behind.length - k) := by omega
      have hdrop : (before ++ x :: behind).drop (before.length + 1) = behind := by
        rw [List.append_cons]
        exact List.drop_left' (by simp)
      rw [hskip, ← List.drop_drop, hdrop] at hx
      exact hfresh (List.mem_of_mem_drop hx)
    · rw [List.drop_append_of_le_length (by omega)]
      exact List.mem_append_right _ List.mem_cons_self
  · simp only [hmem, false_and, iff_false]
    exact fun hx ↦ hmem (List.mem_of_mem_drop hx)

/-- In a sorted list the items below a bound come first. -/
theorem filter_eq_takeWhile {β : Type*} {p : β → Bool} {xs : List β}
    (h : xs.Pairwise fun x y ↦ p y = true → p x = true) : xs.filter p = xs.takeWhile p := by
  induction xs with
  | nil => rfl
  | cons x xs ih =>
      obtain ⟨hx, hxs⟩ := List.pairwise_cons.mp h
      cases hp : p x with
      | true => rw [List.filter_cons_of_pos hp, List.takeWhile_cons_of_pos hp, ih hxs]
      | false =>
          rw [List.filter_cons_of_neg (by simp [hp]), List.takeWhile_cons_of_neg (by simp [hp]),
            List.filter_eq_nil_iff]
          intro y hy hpy
          exact Bool.false_ne_true (hp.symm.trans (hx y hy hpy))

/-- An interval of a sorted list is a stretch of it. -/
theorem filter_between {β : Type*} {f : β → α} {xs : List β}
    (h : xs.Pairwise fun x y ↦ f x ≤ f y) (a b : α) :
    ∃ n m, xs.filter (fun x ↦ decide (a ≤ f x) && decide (f x < b)) = (xs.drop n).take m := by
  induction xs with
  | nil => exact ⟨0, 0, rfl⟩
  | cons x xs ih =>
      obtain ⟨hx, hxs⟩ := List.pairwise_cons.mp h
      by_cases ha : a ≤ f x
      · have hall : (x :: xs).filter (fun x ↦ decide (a ≤ f x) && decide (f x < b)) =
            (x :: xs).filter fun x ↦ decide (f x < b) := by
          refine List.filter_congr fun y hy ↦ ?_
          have hay : a ≤ f y := by
            rcases List.mem_cons.mp hy with rfl | hy
            · exact ha
            · exact ha.trans (hx y hy)
          rw [decide_eq_true hay, Bool.true_and]
        have hdown : (x :: xs).Pairwise fun x y ↦ decide (f y < b) = true →
            decide (f x < b) = true := by
          refine h.imp fun hle hlt ↦ ?_
          rw [decide_eq_true_iff] at hlt ⊢
          exact hle.trans_lt hlt
        rw [hall, filter_eq_takeWhile hdown]
        refine ⟨0, ((x :: xs).takeWhile fun x ↦ decide (f x < b)).length, ?_⟩
        exact List.prefix_iff_eq_take.mp (List.takeWhile_prefix _)
      · obtain ⟨n, m, hrest⟩ := ih hxs
        refine ⟨n + 1, m, ?_⟩
        rw [List.filter_cons_of_neg (by simp [ha]), hrest, List.drop_succ_cons]

end HugeGraphValidation.Lib
