import Mathlib

/-!
# Dictionaries in the order of their first insertion

A dictionary is a list of pairs; setting a key replaces its value in place, or
appends the pair.
-/

namespace HugeGraphValidation.Lib.Dict

variable {κ ν : Type*}

def keys (d : List (κ × ν)) : List κ := d.map Prod.fst

def values (d : List (κ × ν)) : List ν := d.map Prod.snd

variable [BEq κ]

/-- `d[k] = v` -/
def set (k : κ) (v : ν) : List (κ × ν) → List (κ × ν)
  | [] => [(k, v)]
  | (k', v') :: d => if k' == k then (k, v) :: d else (k', v') :: set k v d

/-- `d.update(e)` -/
def update (d e : List (κ × ν)) : List (κ × ν) := e.foldl (fun d p ↦ set p.1 p.2 d) d

/-- `d[k] = d.get(k, 0) + 1` -/
def count (k : κ) (d : List (κ × ℕ)) : List (κ × ℕ) := set k ((d.lookup k).getD 0 + 1) d

variable [LawfulBEq κ]

theorem keys_set (k : κ) (v : ν) (d : List (κ × ν)) :
    keys (set k v d) = if k ∈ keys d then keys d else keys d ++ [k] := by
  induction d with
  | nil => simp [keys, set]
  | cons p d ih =>
      obtain ⟨k', v'⟩ := p
      by_cases hk : k' = k
      · simp [keys, set, hk]
      · have hmem : k ∈ keys ((k', v') :: d) ↔ k ∈ keys d := by
          simp [keys, Ne.symm hk]
        have hset : keys (set k v ((k', v') :: d)) = k' :: keys (set k v d) := by
          simp [keys, set, hk]
        rw [hset, ih]
        simp only [hmem]
        split
        · rfl
        · rfl

theorem mem_keys_set {k k' : κ} {v : ν} {d : List (κ × ν)} :
    k' ∈ keys (set k v d) ↔ k' = k ∨ k' ∈ keys d := by
  rw [keys_set]
  split
  · rename_i hk
    refine ⟨Or.inr, ?_⟩
    rintro (rfl | hk')
    · exact hk
    · exact hk'
  · rw [List.mem_append, List.mem_singleton, or_comm]

theorem nodup_keys_set {d : List (κ × ν)} (h : (keys d).Nodup) (k : κ) (v : ν) :
    (keys (set k v d)).Nodup := by
  rw [keys_set]
  split
  · exact h
  · rename_i hk
    rw [← List.concat_eq_append]
    exact h.concat hk

theorem mem_of_mem_set {k : κ} {v : ν} {d : List (κ × ν)} {p : κ × ν} (hp : p ∈ set k v d) :
    p = (k, v) ∨ p ∈ d := by
  induction d with
  | nil => exact Or.inl (List.mem_singleton.mp hp)
  | cons q d ih =>
      obtain ⟨k', v'⟩ := q
      by_cases hk : k' = k
      · rw [set, if_pos (beq_iff_eq.mpr hk), List.mem_cons] at hp
        exact hp.imp_right (List.mem_cons_of_mem _)
      · rw [set, if_neg (beq_iff_eq.not.mpr hk), List.mem_cons] at hp
        rcases hp with rfl | hp
        · exact Or.inr List.mem_cons_self
        · exact (ih hp).imp_right (List.mem_cons_of_mem _)

theorem lookup_cons_of_ne {k k' : κ} (h : k ≠ k') (v : ν) (d : List (κ × ν)) :
    ((k', v) :: d).lookup k = d.lookup k := by
  rw [List.lookup_cons, beq_eq_false_iff_ne.mpr h]

@[simp] theorem lookup_set_self (k : κ) (v : ν) (d : List (κ × ν)) :
    (set k v d).lookup k = some v := by
  induction d with
  | nil => simp [set]
  | cons p d ih =>
      obtain ⟨k', v'⟩ := p
      by_cases hk : k' = k
      · simp [set, hk]
      · rw [set, if_neg (beq_iff_eq.not.mpr hk), lookup_cons_of_ne (Ne.symm hk), ih]

theorem lookup_set_of_ne {k k' : κ} (h : k' ≠ k) (v : ν) (d : List (κ × ν)) :
    (set k v d).lookup k' = d.lookup k' := by
  induction d with
  | nil => simp [set, h]
  | cons p d ih =>
      obtain ⟨j, v'⟩ := p
      by_cases hj : j = k
      · rw [set, if_pos (beq_iff_eq.mpr hj), hj, lookup_cons_of_ne h, lookup_cons_of_ne h]
      · rw [set, if_neg (beq_iff_eq.not.mpr hj), List.lookup_cons, List.lookup_cons, ih]

theorem lookup_count (k k' : κ) (d : List (κ × ℕ)) :
    ((count k d).lookup k').getD 0 = (d.lookup k').getD 0 + if k' == k then 1 else 0 := by
  by_cases hk : k' = k
  · subst hk
    rw [count, lookup_set_self, if_pos (beq_iff_eq.mpr rfl), Option.getD_some]
  · rw [count, lookup_set_of_ne hk, if_neg (beq_iff_eq.not.mpr hk), Nat.add_zero]

theorem mem_keys_update {d e : List (κ × ν)} {k : κ} :
    k ∈ keys (update d e) ↔ k ∈ keys d ∨ k ∈ keys e := by
  induction e generalizing d with
  | nil => simp [update, keys]
  | cons p e ih =>
      rw [update, List.foldl_cons, ← update, ih, mem_keys_set, keys, keys, keys, List.map_cons,
        List.mem_cons]
      tauto

theorem nodup_keys_update {d : List (κ × ν)} (h : (keys d).Nodup) (e : List (κ × ν)) :
    (keys (update d e)).Nodup := by
  induction e generalizing d with
  | nil => exact h
  | cons p e ih => exact ih (nodup_keys_set h p.1 p.2)

theorem length_update_of_fresh {e d : List (κ × ν)} (hnodup : (keys e).Nodup)
    (hfresh : ∀ k ∈ keys e, k ∉ keys d) : (update d e).length = d.length + e.length := by
  induction e generalizing d with
  | nil => rfl
  | cons p e ih =>
      obtain ⟨k, v⟩ := p
      obtain ⟨hk, hnodup⟩ := List.nodup_cons.mp hnodup
      have hkeys : keys (set k v d) = keys d ++ [k] := by
        rw [keys_set, if_neg (hfresh k List.mem_cons_self)]
      have hlength : (set k v d).length = d.length + 1 := by
        simpa [keys] using congrArg List.length hkeys
      have hrest : ∀ k' ∈ keys e, k' ∉ keys (set k v d) := by
        intro k' hmem
        rw [hkeys, List.mem_append, List.mem_singleton, not_or]
        exact ⟨hfresh k' (List.mem_cons_of_mem _ hmem), fun h ↦ hk (h ▸ hmem)⟩
      change (update (set k v d) e).length = _
      rw [ih hnodup hrest, hlength, List.length_cons]
      omega

theorem mem_of_mem_update {d e : List (κ × ν)} {p : κ × ν} (hp : p ∈ update d e) :
    p ∈ d ∨ p ∈ e := by
  induction e generalizing d with
  | nil => exact Or.inl hp
  | cons q e ih =>
      rcases ih hp with hd | he
      · rcases mem_of_mem_set hd with rfl | hd
        · exact Or.inr List.mem_cons_self
        · exact Or.inl hd
      · exact Or.inr (List.mem_cons_of_mem q he)

theorem lookup_update_of_not_mem {d e : List (κ × ν)} {k : κ} (h : k ∉ keys e) :
    (update d e).lookup k = d.lookup k := by
  induction e generalizing d with
  | nil => rfl
  | cons p e ih =>
      rw [keys, List.map_cons, List.mem_cons, not_or] at h
      rw [update, List.foldl_cons, ← update, ih h.2, lookup_set_of_ne h.1]

theorem lookup_update_of_mem {d e : List (κ × ν)} (hnodup : (keys e).Nodup) {p : κ × ν}
    (hp : p ∈ e) : (update d e).lookup p.1 = some p.2 := by
  induction e generalizing d with
  | nil => cases hp
  | cons q e ih =>
      rw [keys, List.map_cons, List.nodup_cons] at hnodup
      rw [update, List.foldl_cons, ← update]
      rcases List.mem_cons.mp hp with rfl | hp
      · rw [lookup_update_of_not_mem hnodup.1, lookup_set_self]
      · exact ih hnodup.2 hp

/-- `d[k] = add(d.get(k, zero), v)` -/
def addTo (zero : ν) (add : ν → ν → ν) (k : κ) (v : ν) (d : List (κ × ν)) : List (κ × ν) :=
  set k (add ((d.lookup k).getD zero) v) d

section AddTo

variable {σ : Type*} (zero : ν) (add : ν → ν → ν) (key : σ → κ) (value : σ → ν)

def addAll (d : List (κ × ν)) (xs : List σ) : List (κ × ν) :=
  xs.foldl (fun d x ↦ addTo zero add (key x) (value x) d) d

/-- What a key holds is added up over the items with this key, in their order. -/
theorem lookup_addAll (k : κ) (d : List (κ × ν)) (xs : List σ) :
    ((addAll zero add key value d xs).lookup k).getD zero =
      ((xs.filter fun x ↦ key x == k).map value).foldl add ((d.lookup k).getD zero) := by
  induction xs generalizing d with
  | nil => rfl
  | cons x xs ih =>
      rw [addAll, List.foldl_cons, ← addAll, ih, List.filter_cons]
      by_cases hk : key x = k
      · rw [if_pos (beq_iff_eq.mpr hk), List.map_cons, List.foldl_cons, addTo, hk, lookup_set_self,
          Option.getD_some]
      · rw [if_neg (beq_iff_eq.not.mpr hk), addTo, lookup_set_of_ne (Ne.symm hk)]

theorem mem_keys_addAll {k : κ} {d : List (κ × ν)} {xs : List σ} :
    k ∈ keys (addAll zero add key value d xs) ↔ k ∈ keys d ∨ ∃ x ∈ xs, key x = k := by
  induction xs generalizing d with
  | nil => simp [addAll]
  | cons x xs ih =>
      rw [addAll, List.foldl_cons, ← addAll, ih, addTo, mem_keys_set, List.exists_mem_cons_iff,
        eq_comm (a := k)]
      tauto

theorem nodup_keys_addAll {d : List (κ × ν)} (h : (keys d).Nodup) (xs : List σ) :
    (keys (addAll zero add key value d xs)).Nodup := by
  induction xs generalizing d with
  | nil => exact h
  | cons x xs ih => exact ih (nodup_keys_set h _ _)

end AddTo

/-- Counting an item adds one to the sum of the counts. -/
theorem sum_values_count (k : κ) (d : List (κ × ℕ)) :
    (values (count k d)).sum = (values d).sum + 1 := by
  suffices h : ∀ n, (values (set k ((d.lookup k).getD 0 + n) d)).sum = (values d).sum + n from h 1
  intro n
  induction d with
  | nil => simp [values, set]
  | cons p d ih =>
      obtain ⟨k', v⟩ := p
      by_cases hk : k' = k
      · simp [values, set, hk]
        omega
      · rw [lookup_cons_of_ne (Ne.symm hk), set, if_neg (beq_iff_eq.not.mpr hk), values,
          List.map_cons, List.sum_cons, ← values, ih, values, values, List.map_cons, List.sum_cons,
          Nat.add_assoc]

/-- How often each item occurs. -/
def histogram (xs : List κ) : List (κ × ℕ) := xs.foldl (fun d x ↦ count x d) []

theorem sum_values_histogram (xs : List κ) : (values (histogram xs)).sum = xs.length := by
  induction xs using List.reverseRecOn with
  | nil => rfl
  | append_singleton xs x ih =>
      rw [histogram, List.foldl_append, List.foldl_cons, List.foldl_nil, sum_values_count,
        ← histogram, ih, List.length_append, List.length_singleton]

end HugeGraphValidation.Lib.Dict
