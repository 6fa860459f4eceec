import Mathlib

/-!
# Consecutive slices of a list

The batches `xs[i:i+size] for i in range(0, len(xs), size)`: they tile the list.
-/

namespace HugeGraphValidation.Lib

variable {α : Type*}

/-- How many steps `range(0, n, size)` takes. -/
def sliceCount (size n : ℕ) : ℕ := (n + size - 1) / size

/-- The slices of the list, all of the given size but perhaps the last. -/
def slices (size : ℕ) (xs : List α) : List (List α) :=
  (List.range (sliceCount size xs.length)).map fun k ↦ (xs.drop (k * size)).take size

theorem sliceCount_zero {size : ℕ} (hsize : 1 ≤ size) : sliceCount size 0 = 0 := by
  rw [sliceCount, Nat.div_eq_zero_iff]
  omega

theorem sliceCount_step {size n : ℕ} (hsize : 1 ≤ size) (hn : 1 ≤ n) :
    sliceCount size n = sliceCount size (n - size) + 1 := by
  unfold sliceCount
  rcases Nat.lt_or_ge n size with hlt | hle
  · have hsmall : (n - size + size - 1) / size = 0 := by
      rw [Nat.div_eq_zero_iff]
      omega
    rw [hsmall, show n + size - 1 = (n - 1) + size by omega,
      Nat.add_div_right _ (by omega), Nat.div_eq_of_lt (by omega)]
  · rw [show n + size - 1 = (n - size + size - 1) + size by omega,
      Nat.add_div_right _ (by omega)]

theorem lt_sliceCount_iff {size n k : ℕ} (hsize : 1 ≤ size) :
    k < sliceCount size n ↔ k * size < n := by
  rw [sliceCount, Nat.lt_iff_add_one_le, Nat.le_div_iff_mul_le (by omega), Nat.succ_mul]
  omega

theorem take_drop_range (V i size : ℕ) :
    ((List.range V).drop i).take size = List.range' i (min (i + size) V - i) := by
  rw [List.range_eq_range', List.drop_range', Nat.zero_add, Nat.mul_one]
  rcases Nat.le_total (V - i) size with hle | hle
  · rw [List.take_range'_of_length_le hle, show min (i + size) V - i = V - i by omega]
  · rw [List.take_range'_of_length_ge hle, show min (i + size) V - i = size by omega]

theorem slices_nil {size : ℕ} (hsize : 1 ≤ size) : slices size ([] : List α) = [] := by
  simp [slices, sliceCount_zero hsize]

theorem slices_cons {size : ℕ} (hsize : 1 ≤ size) {xs : List α} (hxs : xs ≠ []) :
    slices size xs = xs.take size :: slices size (xs.drop size) := by
  have hlen : 1 ≤ xs.length := List.length_pos_iff.mpr hxs
  rw [slices, slices, sliceCount_step hsize hlen, List.range_succ_eq_map, List.length_drop]
  simp only [List.map_cons, List.map_map, Nat.zero_mul, List.drop_zero]
  congr 1
  apply List.map_congr_left
  intro k _
  simp [List.drop_drop, Nat.succ_mul, Nat.add_comm]

theorem slices_flatten {size : ℕ} (hsize : 1 ≤ size) (xs : List α) :
    (slices size xs).flatten = xs := by
  induction hn : xs.length using Nat.strong_induction_on generalizing xs with
  | _ n ih =>
      by_cases hxs : xs = []
      · simp [hxs, slices_nil hsize]
      · have hpos : 1 ≤ xs.length := List.length_pos_iff.mpr hxs
        have hrest := ih (xs.drop size).length (by simp; omega) (xs.drop size) rfl
        rw [slices_cons hsize hxs, List.flatten_cons, hrest, List.take_append_drop]

end HugeGraphValidation.Lib
