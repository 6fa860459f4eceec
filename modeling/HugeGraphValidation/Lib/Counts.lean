import Mathlib

/-!
# Counting along lists

Counts over predicates that exclude one another, and traversals whose items are
related to the items they come from.
-/

namespace HugeGraphValidation.Lib

variable {α β : Type*}

/-! ## Disjoint predicates -/

theorem countP_cons_toNat (p : α → Bool) (x : α) (xs : List α) :
    (x :: xs).countP p = xs.countP p + (p x).toNat := by
  rw [List.countP_cons]
  cases p x <;> rfl

theorem countP_or_of_disjoint {p q : α → Bool} (h : ∀ x, p x = true → q x = false)
    (xs : List α) : xs.countP (fun x ↦ p x || q x) = xs.countP p + xs.countP q := by
  induction xs with
  | nil => rfl
  | cons x xs ih =>
      simp only [countP_cons_toNat, ih]
      cases hp : p x with
      | false =>
          rw [Bool.false_or, Bool.toNat_false]
          omega
      | true =>
          rw [h x hp, Bool.true_or, Bool.toNat_true, Bool.toNat_false]
          omega

theorem sum_countP_of_disjoint {ps : List (α → Bool)}
    (h : ps.Pairwise fun p q ↦ ∀ x, p x = true → q x = false) (xs : List α) :
    (ps.map fun p ↦ xs.countP p).sum = xs.countP fun x ↦ ps.any fun p ↦ p x := by
  induction ps with
  | nil => simp
  | cons p ps ih =>
      obtain ⟨hp, hps⟩ := List.pairwise_cons.mp h
      simp only [List.map_cons, List.sum_cons, List.any_cons, ih hps]
      rw [← countP_or_of_disjoint]
      intro x hx
      rw [List.any_eq_false]
      intro q hq
      rw [hp q hq x hx]
      exact Bool.false_ne_true

/-! ## Traversals -/

theorem exists_mapM_forall₂ {f : α → Option β} {P : α → β → Prop} {as : List α}
    (h : ∀ a ∈ as, ∃ b, f a = some b ∧ P a b) :
    ∃ bs, as.mapM f = some bs ∧ List.Forall₂ P as bs := by
  induction as with
  | nil => exact ⟨[], rfl, .nil⟩
  | cons a as ih =>
      obtain ⟨b, hb, hP⟩ := h a List.mem_cons_self
      obtain ⟨bs, hbs, hall⟩ := ih fun a' ha' ↦ h a' (List.mem_cons_of_mem a ha')
      exact ⟨b :: bs, by rw [List.mapM_cons, hb, hbs]; rfl, .cons hP hall⟩

theorem forall_iff_of_forall₂ {Q : α → Prop} {R : β → Prop} {as : List α} {bs : List β}
    (h : List.Forall₂ (fun a b ↦ R b ↔ Q a) as bs) : (∀ b ∈ bs, R b) ↔ ∀ a ∈ as, Q a := by
  induction h with
  | nil => simp
  | cons hab _ ih => rw [List.forall_mem_cons, List.forall_mem_cons, hab, ih]

theorem countP_eq_of_forall₂ {q : α → Bool} {r : β → Bool} {as : List α} {bs : List β}
    (h : List.Forall₂ (fun a b ↦ r b = true ↔ q a = true) as bs) : bs.countP r = as.countP q := by
  induction h with
  | nil => rfl
  | cons hab _ ih => rw [List.countP_cons, List.countP_cons, ih, if_congr hab rfl rfl]

end HugeGraphValidation.Lib
