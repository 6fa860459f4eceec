import Mathlib

/-!
# Seeded generators

A generator hands its state on from draw to draw.  Nothing is known of what is
drawn but its range.
-/

namespace HugeGraphValidation.Lib

/-- `random.Random`: its draws from a state, with the state after them. -/
structure Generator (G : Type) where
  seed : ℕ → G
  random : G → ℚ × G
  getrandbits : ℕ → G → ℕ × G
  randbelow : ℕ → G → ℕ × G
  sample : {β : Type} → ℕ → List β → G → List β × G
  shuffle : {β : Type} → List β → G → List β × G
  randbelow_lt : ∀ {n : ℕ} (g : G), 0 < n → (randbelow n g).1 < n
  sample_subperm : ∀ {β : Type} (k : ℕ) (xs : List β) (g : G), (sample k xs g).1.Subperm xs
  length_sample : ∀ {β : Type} {k : ℕ} {xs : List β} (g : G), k ≤ xs.length →
    (sample k xs g).1.length = k
  shuffle_perm : ∀ {β : Type} (xs : List β) (g : G), (shuffle xs g).1.Perm xs

namespace Generator

variable {G : Type} (gen : Generator G)

/-- `r.choice(xs)`, with a value for the empty list. -/
def choice {β : Type} (xs : List β) (default : β) (g : G) : β × G :=
  ((xs.getD (gen.randbelow xs.length g).1 default), (gen.randbelow xs.length g).2)

/-- One draw for each item of a list, in order. -/
def each {ι β : Type} (draw : ι → G → β × G) : List ι → G → List β × G
  | [], g => ([], g)
  | i :: is, g =>
      let first := draw i g
      let rest := each draw is first.2
      (first.1 :: rest.1, rest.2)

variable {gen}

theorem length_each {ι β : Type} (draw : ι → G → β × G) (is : List ι) (g : G) :
    (each draw is g).1.length = is.length := by
  induction is generalizing g with
  | nil => rfl
  | cons i is ih => rw [each, List.length_cons, ih, List.length_cons]

theorem map_each {ι β κ : Type} {draw : ι → G → β × G} {f : β → κ} {k : ι → κ}
    (h : ∀ i g, f (draw i g).1 = k i) (is : List ι) (g : G) :
    (each draw is g).1.map f = is.map k := by
  induction is generalizing g with
  | nil => rfl
  | cons i is ih => rw [each, List.map_cons, ih, h, List.map_cons]

/-- What holds of every draw holds of all that are drawn. -/
theorem forall_mem_each {ι β : Type} {draw : ι → G → β × G} {P : β → Prop}
    (h : ∀ i g, P (draw i g).1) (is : List ι) (g : G) : ∀ x ∈ (each draw is g).1, P x := by
  induction is generalizing g with
  | nil => exact List.forall_mem_nil P
  | cons i is ih =>
      rw [each]
      exact List.forall_mem_cons.mpr ⟨h i g, ih (draw i g).2⟩

theorem choice_mem {β : Type} {xs : List β} (hne : xs ≠ []) (default : β) (g : G) :
    (gen.choice xs default g).1 ∈ xs := by
  have hlt := gen.randbelow_lt g (List.length_pos_iff.mpr hne)
  rw [choice, List.getD_eq_getElem _ _ hlt]
  exact List.getElem_mem hlt

end Generator

/-- A generator that counts its draws, shuffles by turning the list around and
samples the first items. -/
def counting : Generator ℕ where
  seed n := n
  random g := (((g % 10 : ℕ) : ℚ) / 10, g + 1)
  getrandbits k g := (g % 2 ^ k, g + 1)
  randbelow n g := (g % n, g + 1)
  sample k xs g := (xs.take k, g + 1)
  shuffle xs g := (xs.reverse, g + 1)
  randbelow_lt g hn := Nat.mod_lt g hn
  sample_subperm k xs _ := (List.take_sublist k xs).subperm
  length_sample _ hk := List.length_take_of_le hk
  shuffle_perm xs _ := List.reverse_perm xs

end HugeGraphValidation.Lib
