import Mathlib

/-!
# Windows and repeats

Pages that are read from a list one after the other, each `size` items long and
each starting `step` items behind the one before.  With `step = size` they tile the
list; with `step` one less, each begins with the last item of the one before, and
these are the only items that a reader meets twice.
-/

namespace HugeGraphValidation.Lib

variable {α : Type*}

/-! ## The items met before -/

section Repeats

variable [DecidableEq α]

/-- The items that occur before, with their positions; every item read joins `seen`. -/
def repeatsFrom (seen : Finset α) (i : ℕ) : List α → List (ℕ × α)
  | [] => []
  | x :: xs =>
      if x ∈ seen then (i, x) :: repeatsFrom (insert x seen) (i + 1) xs
      else repeatsFrom (insert x seen) (i + 1) xs

def repeats (xs : List α) : List (ℕ × α) := repeatsFrom ∅ 0 xs

theorem insert_union_toFinset (seen : Finset α) (x : α) (xs : List α) :
    insert x seen ∪ xs.toFinset = seen ∪ (x :: xs).toFinset := by
  ext y
  simp

theorem repeatsFrom_append (seen : Finset α) (i : ℕ) (xs ys : List α) :
    repeatsFrom seen i (xs ++ ys) =
      repeatsFrom seen i xs ++ repeatsFrom (seen ∪ xs.toFinset) (i + xs.length) ys := by
  induction xs generalizing seen i with
  | nil => simp [repeatsFrom]
  | cons x xs ih =>
      rw [List.cons_append, repeatsFrom, repeatsFrom, ih, insert_union_toFinset, List.length_cons,
        show i + 1 + xs.length = i + (xs.length + 1) by omega]
      split_ifs with hx
      · rfl
      · rfl

theorem repeats_append (xs ys : List α) :
    repeats (xs ++ ys) = repeats xs ++ repeatsFrom xs.toFinset xs.length ys := by
  simpa [repeats] using repeatsFrom_append ∅ 0 xs ys

theorem repeatsFrom_eq_nil {seen : Finset α} {i : ℕ} {xs : List α} (hxs : xs.Nodup)
    (hfresh : ∀ x ∈ xs, x ∉ seen) : repeatsFrom seen i xs = [] := by
  induction xs generalizing seen i with
  | nil => rfl
  | cons x xs ih =>
      rw [List.nodup_cons] at hxs
      rw [repeatsFrom, if_neg (hfresh x List.mem_cons_self)]
      apply ih hxs.2
      intro y hy
      rw [Finset.mem_insert, not_or]
      exact ⟨fun h ↦ hxs.1 (h ▸ hy), hfresh y (List.mem_cons_of_mem x hy)⟩

theorem length_repeatsFrom (seen : Finset α) (i : ℕ) (xs : List α) :
    (repeatsFrom seen i xs).length + (seen ∪ xs.toFinset).card = seen.card + xs.length := by
  induction xs generalizing seen i with
  | nil => simp [repeatsFrom]
  | cons x xs ih =>
      have hrest := ih (insert x seen) (i + 1)
      rw [insert_union_toFinset] at hrest
      rw [repeatsFrom, List.length_cons]
      split_ifs with hx
      · rw [Finset.insert_eq_of_mem hx] at hrest
        rw [List.length_cons, Finset.insert_eq_of_mem hx]
        omega
      · rw [Finset.card_insert_of_notMem hx] at hrest
        omega

/-- The repeated and the distinct items make up the list. -/
theorem length_repeats (xs : List α) : (repeats xs).length + xs.toFinset.card = xs.length := by
  simpa [repeats] using length_repeatsFrom ∅ 0 xs

theorem repeats_eq_nil_iff {xs : List α} : repeats xs = [] ↔ xs.Nodup := by
  have hcard : xs.toFinset.card = xs.length ↔ xs.Nodup := by
    simpa using Multiset.toFinset_card_eq_card_iff_nodup (m := (xs : Multiset α))
  have hlength := length_repeats xs
  rw [← hcard, ← List.length_eq_zero_iff]
  omega

theorem mem_repeatsFrom {seen : Finset α} {i j : ℕ} {xs : List α} {x : α} (hj : xs[j]? = some x)
    (hx : x ∈ seen ∨ x ∈ xs.take j) : (i + j, x) ∈ repeatsFrom seen i xs := by
  induction xs generalizing seen i j with
  | nil => simp at hj
  | cons y xs ih =>
      cases j with
      | zero =>
          obtain rfl : y = x := by simpa using hj
          rw [repeatsFrom, if_pos (by simpa using hx)]
          exact List.mem_cons_self
      | succ j =>
          have hx' : x ∈ insert y seen ∨ x ∈ xs.take j := by
            rw [Finset.mem_insert]
            rw [List.take_succ_cons, List.mem_cons] at hx
            tauto
          have hrest := ih (i := i + 1) (by simpa using hj) hx'
          rw [show i + 1 + j = i + (j + 1) by omega] at hrest
          rw [repeatsFrom]
          split_ifs with hy
          · exact List.mem_cons_of_mem _ hrest
          · exact hrest

theorem mem_repeats {j : ℕ} {xs : List α} {x : α} (hj : xs[j]? = some x) (hx : x ∈ xs.take j) :
    (j, x) ∈ repeats xs := by
  have hmem : (0 + j, x) ∈ repeatsFrom ∅ 0 xs := mem_repeatsFrom hj (Or.inr hx)
  rwa [Nat.zero_add] at hmem

end Repeats

/-! ## Windows -/

def window (size step : ℕ) (xs : List α) (k : ℕ) : List α := (xs.drop (k * step)).take size

def windowPages (size step : ℕ) (xs : List α) (count : ℕ) : List (List α) :=
  (List.range count).map (window size step xs)

/-- How many windows it takes until nothing is left behind the last one. -/
def windowCount (step n : ℕ) : ℕ := 1 + (n - 1) / step

theorem lt_windowCount_iff {step n k : ℕ} (hstep : 1 ≤ step) :
    k + 1 < windowCount step n ↔ (k + 1) * step < n := by
  have hpos : 1 ≤ (k + 1) * step := Nat.mul_pos k.succ_pos hstep
  rw [windowCount, Nat.add_comm 1, Nat.add_lt_add_iff_right, Nat.lt_iff_add_one_le,
    Nat.le_div_iff_mul_le (by omega)]
  omega

/-- The last window reaches the end of the list. -/
theorem le_windowCount_mul {step : ℕ} (hstep : 1 ≤ step) (n : ℕ) :
    n ≤ windowCount step n * step := by
  have hmod := Nat.mod_lt (n - 1) (Nat.lt_of_succ_le hstep)
  have hdiv := Nat.div_add_mod (n - 1) step
  rw [Nat.mul_comm] at hdiv
  rw [windowCount, Nat.add_mul]
  omega

theorem windowPages_succ (size step : ℕ) (xs : List α) (count : ℕ) :
    windowPages size step xs (count + 1) =
      windowPages size step xs count ++ [window size step xs count] := by
  simp [windowPages, List.range_succ]

theorem getElem?_window {size step i : ℕ} (hi : i < size) (xs : List α) (k : ℕ) :
    (window size step xs k)[i]? = xs[k * step + i]? := by
  rw [window, List.getElem?_take_of_lt hi, List.getElem?_drop]

theorem length_window {size step k : ℕ} {xs : List α} (h : k * step + size ≤ xs.length) :
    (window size step xs k).length = size := by
  rw [window, List.length_take, List.length_drop]
  omega

/-- Windows as wide as their step tile the list. -/
theorem flatten_windowPages (size : ℕ) (xs : List α) (count : ℕ) :
    (windowPages size size xs count).flatten = xs.take (count * size) := by
  induction count with
  | zero => simp [windowPages]
  | succ count ih =>
      rw [windowPages_succ, List.flatten_append, ih, List.flatten_singleton, window, Nat.succ_mul,
        List.take_add]

theorem length_flatten_windowPages {size step : ℕ} {xs : List α} (count : ℕ)
    (h : ∀ k < count, k * step + size ≤ xs.length) :
    (windowPages size step xs count).flatten.length = count * size := by
  induction count with
  | zero => simp [windowPages]
  | succ count ih =>
      rw [windowPages_succ, List.flatten_append, List.length_append,
        ih fun k hk ↦ h k (hk.trans count.lt_succ_self), List.flatten_singleton,
        length_window (h count count.lt_succ_self), Nat.succ_mul]

theorem getElem?_windowPages (size step : ℕ) (xs : List α) {count k : ℕ} (hk : k < count) :
    (windowPages size step xs count)[k]?.getD [] = window size step xs k := by
  simp [windowPages, hk]

theorem head?_window {size : ℕ} (hsize : 1 ≤ size) (step : ℕ) (xs : List α) (k : ℕ) :
    (window size step xs k).head? = xs[k * step]? := by
  rw [List.head?_eq_getElem?, getElem?_window hsize, Nat.add_zero]

theorem getLast?_window {size step k : ℕ} {xs : List α} (hsize : 1 ≤ size)
    (h : k * step + size ≤ xs.length) :
    (window size step xs k).getLast? = xs[k * step + (size - 1)]? := by
  rw [List.getLast?_eq_getElem?, length_window h, getElem?_window (by omega)]

section Overlap

variable [DecidableEq α]

/-- Windows that overlap in one item: what they show and what they repeat, as long
as each of them but the last is full. -/
theorem windowPages_overlap {step : ℕ} {xs : List α} (hxs : xs.Nodup) (count : ℕ)
    (hfull : ∀ k < count, (k + 1) * step < xs.length) :
    (windowPages (step + 1) step xs (count + 1)).flatten.toFinset =
        (xs.take ((count + 1) * step + 1)).toFinset ∧
      repeats (windowPages (step + 1) step xs (count + 1)).flatten =
        (List.range count).filterMap fun k ↦
          xs[(k + 1) * step]?.map fun x ↦ ((k + 1) * (step + 1), x) := by
  induction count with
  | zero =>
      have hone : (windowPages (step + 1) step xs 1).flatten = xs.take (step + 1) := by
        simp [windowPages, window]
      rw [Nat.zero_add, hone, Nat.one_mul]
      refine ⟨rfl, ?_⟩
      rw [repeats_eq_nil_iff.mpr (hxs.sublist (List.take_sublist _ xs))]
      rfl
  | succ count ih =>
      obtain ⟨hseen, hrepeats⟩ := ih fun k hk ↦ hfull k (hk.trans count.lt_succ_self)
      have hlast : (count + 1) * step < xs.length := hfull count count.lt_succ_self
      have hlength : (windowPages (step + 1) step xs (count + 1)).flatten.length =
          (count + 1) * (step + 1) := by
        apply length_flatten_windowPages
        intro k hk
        have hle : (k + 1) * step ≤ (count + 1) * step := Nat.mul_le_mul_right step hk
        rw [Nat.succ_mul] at hle
        omega
      -- the new window begins with the last item shown, and the others are new
      have hwindow : window (step + 1) step xs (count + 1) =
          xs[(count + 1) * step] :: (xs.drop ((count + 1) * step + 1)).take step := by
        rw [window, List.drop_eq_getElem_cons hlast, List.take_succ_cons]
      have hshown : xs[(count + 1) * step] ∈ (xs.take ((count + 1) * step + 1)).toFinset := by
        rw [List.mem_toFinset, List.mem_take_iff_getElem]
        exact ⟨(count + 1) * step, by omega, rfl⟩
      have hsplit : xs.take ((count + 1 + 1) * step + 1) =
          xs.take ((count + 1) * step + 1) ++ (xs.drop ((count + 1) * step + 1)).take step := by
        rw [← List.take_add]
        congr 1
        ring
      have hnew : (xs.take ((count + 1 + 1) * step + 1)).Nodup :=
        hxs.sublist (List.take_sublist _ xs)
      rw [hsplit, List.nodup_append] at hnew
      obtain ⟨-, hnodup, hdisjoint⟩ := hnew
      rw [windowPages_succ, List.flatten_append, List.flatten_singleton, hwindow]
      constructor
      · rw [List.toFinset_append, hseen, hsplit, List.toFinset_append, List.toFinset_cons,
          Finset.union_insert, Finset.insert_eq_of_mem (Finset.mem_union_left _ hshown)]
      · have hrest : repeatsFrom (insert xs[(count + 1) * step]
            (xs.take ((count + 1) * step + 1)).toFinset) ((count + 1) * (step + 1) + 1)
            ((xs.drop ((count + 1) * step + 1)).take step) = [] := by
          apply repeatsFrom_eq_nil hnodup
          intro y hy
          rw [Finset.insert_eq_of_mem hshown, List.mem_toFinset]
          exact fun h ↦ hdisjoint y h y hy rfl
        rw [repeats_append, hrepeats, hseen, hlength, repeatsFrom, if_pos hshown, hrest,
          List.range_succ, List.filterMap_append]
        simp [hlast]

end Overlap

/-! ## Seams -/

section Seams

variable [DecidableEq α]

/-- Both are non-empty, and the second begins with the item that ends the first. -/
def meets (p q : List α) : Bool :=
  match p.getLast?, q.head? with
  | some x, some y => x = y
  | _, _ => false

theorem meets_iff {p q : List α} :
    meets p q = true ↔ ∃ x, p.getLast? = some x ∧ q.head? = some x := by
  unfold meets
  split
  · rename_i x y hp hq
    simp [hp, hq, eq_comm]
  · rename_i h
    refine iff_of_false Bool.false_ne_true ?_
    rintro ⟨x, hp, hq⟩
    exact h x x hp hq

/-- The pages, from 0 on, that the next page begins with the last item of. -/
def seams (pages : List (List α)) : List ℕ :=
  (List.range (pages.length - 1)).filter fun k ↦
    meets (pages[k]?.getD []) (pages[k + 1]?.getD [])

/-- A seam is a repeat, at the start of the page behind it. -/
theorem repeats_of_mem_seams {pages : List (List α)} {k : ℕ} (hk : k ∈ seams pages) :
    ∃ x, ((pages.take (k + 1)).flatten.length, x) ∈ repeats pages.flatten := by
  obtain ⟨hlt, hmeets⟩ := List.mem_filter.mp hk
  rw [List.mem_range] at hlt
  obtain ⟨x, hlast, hhead⟩ := meets_iff.mp hmeets
  have hk' : k < pages.length := by omega
  have hk'' : k + 1 < pages.length := by omega
  rw [List.getElem?_eq_getElem hk', Option.getD_some] at hlast
  rw [List.getElem?_eq_getElem hk'', Option.getD_some] at hhead
  have hsplit : pages.flatten =
      (pages.take (k + 1)).flatten ++ (pages.drop (k + 1)).flatten := by
    rw [← List.flatten_append, List.take_append_drop]
  refine ⟨x, mem_repeats ?_ ?_⟩
  · rw [hsplit, List.getElem?_append_right le_rfl, Nat.sub_self,
      List.drop_eq_getElem_cons hk'', List.flatten_cons, ← List.head?_eq_getElem?,
      List.head?_append, hhead]
    rfl
  · rw [hsplit, List.take_left, List.mem_flatten]
    refine ⟨pages[k], ?_, List.mem_of_getLast? hlast⟩
    rw [List.mem_take_iff_getElem]
    exact ⟨k, by omega, rfl⟩

theorem seams_overlap {step : ℕ} (xs : List α) (count : ℕ)
    (hfull : ∀ k < count, (k + 1) * step < xs.length) :
    seams (windowPages (step + 1) step xs (count + 1)) = List.range count := by
  have hlength : (windowPages (step + 1) step xs (count + 1)).length - 1 = count := by
    simp [windowPages]
  rw [seams, hlength, List.filter_eq_self]
  intro k hk
  rw [List.mem_range] at hk
  have hlt := hfull k hk
  have hnext : k * step + step = (k + 1) * step := (Nat.succ_mul k step).symm
  rw [getElem?_windowPages _ _ _ (by omega), getElem?_windowPages _ _ _ (by omega), meets_iff,
    getLast?_window (Nat.le_add_left 1 step) (by omega), head?_window (Nat.le_add_left 1 step),
    Nat.add_sub_cancel, hnext]
  exact ⟨xs[(k + 1) * step], List.getElem?_eq_getElem (by omega),
    List.getElem?_eq_getElem (by omega)⟩

/-- Pages without a repeated item have no seam. -/
theorem seams_eq_nil {pages : List (List α)} (h : pages.flatten.Nodup) : seams pages = [] := by
  rw [List.eq_nil_iff_forall_not_mem]
  intro k hk
  obtain ⟨x, hx⟩ := repeats_of_mem_seams hk
  rw [repeats_eq_nil_iff.mpr h] at hx
  exact List.not_mem_nil hx

end Seams

end HugeGraphValidation.Lib
