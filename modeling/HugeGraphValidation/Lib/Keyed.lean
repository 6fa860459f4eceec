import Mathlib

/-!
# Lists with keys

The dictionary of a list whose items have keys, and the loop that looks for a
key not taken yet.
-/

namespace HugeGraphValidation.Lib

variable {α κ : Type*} [DecidableEq κ]

section Lookup

variable (key : α → κ)

/-- `{key(x): x for x in xs}.get(k)`: a later item replaces an earlier one. -/
def lookup (xs : List α) (k : κ) : Option α := xs.reverse.find? fun x ↦ key x = k

variable {key} {xs : List α} {k : κ} {x : α}

theorem lookup_eq_none_iff : lookup key xs k = none ↔ k ∉ xs.map key := by
  simp [lookup]

theorem mem_of_lookup_eq_some (h : lookup key xs k = some x) : x ∈ xs ∧ key x = k := by
  have hmem := List.mem_of_find?_eq_some h
  have hkey := List.find?_some h
  exact ⟨List.mem_reverse.mp hmem, by simpa using hkey⟩

theorem lookup_eq_some_iff (hnodup : (xs.map key).Nodup) :
    lookup key xs k = some x ↔ x ∈ xs ∧ key x = k := by
  refine ⟨mem_of_lookup_eq_some, ?_⟩
  rintro ⟨hx, hk⟩
  cases hlookup : lookup key xs k with
  | none =>
      rw [lookup_eq_none_iff] at hlookup
      exact absurd (hk ▸ List.mem_map_of_mem hx) hlookup
  | some y =>
      obtain ⟨hy, hky⟩ := mem_of_lookup_eq_some hlookup
      rw [List.inj_on_of_nodup_map hnodup hy hx (hky.trans hk.symm)]

theorem lookup_map {f : α → α} (hkey : ∀ x, key (f x) = key x) :
    lookup key (xs.map f) k = (lookup key xs k).map f := by
  rw [lookup, lookup, ← List.map_reverse, List.find?_map]
  simp only [Function.comp_def, hkey]

theorem sum_ite_eq_count (a : κ) (ks : List κ) :
    (ks.map fun k ↦ if a = k then 1 else 0).sum = ks.count a := by
  induction ks with
  | nil => rfl
  | cons k ks ih =>
      rw [List.map_cons, List.sum_cons, ih, List.count_cons]
      simp only [beq_iff_eq, eq_comm (a := a)]
      omega

/-- Counted key by key, over distinct keys that cover the list, each item is
counted once. -/
theorem sum_countP_eq_length {f : α → κ} {xs : List α} {ks : List κ} (hnodup : ks.Nodup)
    (hcover : ∀ x ∈ xs, f x ∈ ks) :
    (ks.map fun k ↦ xs.countP fun x ↦ f x = k).sum = xs.length := by
  induction xs with
  | nil => simp
  | cons x xs ih =>
      have hone : (ks.map fun k ↦ if f x = k then 1 else 0).sum = 1 := by
        rw [sum_ite_eq_count, List.count_eq_one_of_mem hnodup (hcover x List.mem_cons_self)]
      have hrest := ih fun y hy ↦ hcover y (List.mem_cons_of_mem x hy)
      simp only [List.countP_cons, decide_eq_true_eq, List.sum_map_add, hrest, hone,
        List.length_cons]

end Lookup

section Fresh

/-- `while k in taken: k = next(i); i += 1`, for at most `fuel` checks. -/
def skipTaken (taken : List κ) (next : ℕ → κ) : ℕ → κ → ℕ → Option κ
  | 0, _, _ => none
  | fuel + 1, k, i => if k ∈ taken then skipTaken taken next fuel (next i) (i + 1) else some k

variable {taken : List κ} {next : ℕ → κ} {fuel i : ℕ} {k k' : κ}

theorem not_mem_of_skipTaken (h : skipTaken taken next fuel k i = some k') : k' ∉ taken := by
  induction fuel generalizing k i with
  | zero => simp [skipTaken] at h
  | succ fuel ih =>
      unfold skipTaken at h
      split at h
      · exact ih h
      · rename_i hk
        exact Option.some.inj h ▸ hk

theorem eq_or_exists_of_skipTaken (h : skipTaken taken next fuel k i = some k') :
    k' = k ∨ ∃ j, k' = next j := by
  induction fuel generalizing k i with
  | zero => simp [skipTaken] at h
  | succ fuel ih =>
      unfold skipTaken at h
      split at h
      · rcases ih h with rfl | hj
        · exact Or.inr ⟨i, rfl⟩
        · exact Or.inr hj
      · exact Or.inl (Option.some.inj h).symm

theorem skipTaken_eq_none (h : skipTaken taken next (fuel + 1) k i = none) :
    k :: (List.range' i fuel).map next ⊆ taken := by
  induction fuel generalizing k i with
  | zero =>
      unfold skipTaken at h
      split at h
      · simpa
      · cases h
  | succ fuel ih =>
      unfold skipTaken at h
      split at h
      · rename_i hk
        rw [List.range'_succ, List.map_cons]
        exact List.cons_subset.mpr ⟨hk, ih h⟩
      · cases h

theorem skipTaken_isSome (hinj : Function.Injective next) (hk : ∀ j, next j ≠ k)
    (hfuel : taken.length < fuel) : (skipTaken taken next fuel k i).isSome := by
  cases fuel with
  | zero => omega
  | succ fuel =>
      by_contra hnone
      rw [Option.not_isSome_iff_eq_none] at hnone
      have hnodup : (k :: (List.range' i fuel).map next).Nodup := by
        rw [List.nodup_cons]
        refine ⟨?_, (List.nodup_range').map hinj⟩
        rw [List.mem_map]
        rintro ⟨j, -, hj⟩
        exact hk j hj
      have hle := (hnodup.subperm (skipTaken_eq_none hnone)).length_le
      simp only [List.length_cons, List.length_map, List.length_range'] at hle
      omega

end Fresh

end HugeGraphValidation.Lib
