import Mathlib

/-!
# The worst weight reachable in a finite graph

`worst` is the largest weight over everything reachable from a node.  A
depth-first walk with a shared set of visited nodes computes it, also when it
stops at the top weight; `Explored` says what a part of such a walk has done,
and its rules follow the walk's moves.
-/

namespace HugeGraphValidation.Lib

variable {ρ ω : Type*}

/-- `b` is reached from `a` by following successors. -/
def Reaches (succ : ρ → List ρ) : ρ → ρ → Prop :=
  Relation.ReflTransGen fun a b ↦ b ∈ succ a

theorem Reaches.step {succ : ρ → List ρ} {a b : ρ} (h : b ∈ succ a) : Reaches succ a b :=
  Relation.ReflTransGen.single h

theorem Reaches.mem_of_closed {succ : ρ → List ρ} {S : Set ρ}
    (hclosed : ∀ a ∈ S, ∀ b ∈ succ a, b ∈ S) {a b : ρ} (h : Reaches succ a b)
    (ha : a ∈ S) : b ∈ S := by
  induction h with
  | refl => exact ha
  | tail _ hstep ih => exact hclosed _ ih _ hstep

section Worst

variable [Fintype ρ] [LinearOrder ω] [OrderBot ω] {succ : ρ → List ρ} {weight : ρ → ω}

open Classical in
/-- The largest weight over the nodes reachable from `a`, itself included. -/
noncomputable def worst (succ : ρ → List ρ) (weight : ρ → ω) (a : ρ) : ω :=
  (Finset.univ.filter (Reaches succ a)).sup weight

theorem worst_le_iff {a : ρ} {w : ω} :
    worst succ weight a ≤ w ↔ ∀ b, Reaches succ a b → weight b ≤ w := by
  simp [worst, Finset.sup_le_iff]

theorem le_worst {a b : ρ} (h : Reaches succ a b) : weight b ≤ worst succ weight a :=
  worst_le_iff.mp le_rfl b h

theorem worst_mono {a b : ρ} (h : Reaches succ a b) :
    worst succ weight b ≤ worst succ weight a :=
  worst_le_iff.mpr fun _ hc ↦ le_worst (h.trans hc)

theorem exists_eq_worst (succ : ρ → List ρ) (weight : ρ → ω) (a : ρ) :
    ∃ b, Reaches succ a b ∧ weight b = worst succ weight a := by
  classical
  have hne : (Finset.univ.filter (Reaches succ a)).Nonempty :=
    ⟨a, Finset.mem_filter.mpr ⟨Finset.mem_univ a, Relation.ReflTransGen.refl⟩⟩
  obtain ⟨b, hb, hmax⟩ := Finset.exists_max_image _ weight hne
  refine ⟨b, (Finset.mem_filter.mp hb).2, le_antisymm (le_worst (Finset.mem_filter.mp hb).2) ?_⟩
  exact worst_le_iff.mpr fun c hc ↦ hmax c (by simpa using hc)

theorem worst_congr {succ' : ρ → List ρ} {weight' : ρ → ω}
    (hsucc : ∀ a, (succ' a).Perm (succ a)) (hweight : ∀ a, weight' a = weight a) (a : ρ) :
    worst succ' weight' a = worst succ weight a := by
  have hreach : Reaches succ' = Reaches succ := by
    unfold Reaches
    congr 1
    funext b c
    exact propext (hsucc b).mem_iff
  have hweights : weight' = weight := funext hweight
  rw [worst, worst, hreach, hweights]

end Worst

section Explored

variable [LinearOrder ω] [BoundedOrder ω]

/-- A walk from the start nodes went from the running maximum `w₀` and the
visited set `seen` to `w` and `seen'`.  Below the top weight it has visited the
start nodes and every successor of what it visited. -/
structure Explored (succ : ρ → List ρ) (weight : ρ → ω) (starts : List ρ)
    (w₀ : ω) (seen : Finset ρ) (w : ω) (seen' : Finset ρ) : Prop where
  subset : seen ⊆ seen'
  sound : ∀ b ∈ seen', b ∉ seen → ∃ a ∈ starts, Reaches succ a b
  le : w₀ ≤ w
  attained : w = w₀ ∨ ∃ b ∈ seen', b ∉ seen ∧ weight b = w
  bound : ∀ b ∈ seen', b ∉ seen → weight b ≤ w
  visited : w ≠ ⊤ → ∀ a ∈ starts, a ∈ seen'
  closed : w ≠ ⊤ → ∀ b ∈ seen', b ∉ seen → ∀ c ∈ succ b, c ∈ seen'

namespace Explored

variable {succ : ρ → List ρ} {weight : ρ → ω} {starts more : List ρ} {w₀ w w' : ω}
  {seen seen₁ seen₂ : Finset ρ}

theorem skip (h : ∀ a ∈ starts, a ∈ seen) :
    Explored succ weight starts w seen w seen where
  subset := Finset.Subset.refl _
  sound := fun _ hb hnot ↦ absurd hb hnot
  le := le_rfl
  attained := Or.inl rfl
  bound := fun _ hb hnot ↦ absurd hb hnot
  visited := fun _ ↦ h
  closed := fun _ _ hb hnot ↦ absurd hb hnot

theorem trans (h₁ : Explored succ weight starts w₀ seen w seen₁)
    (h₂ : Explored succ weight more w seen₁ w' seen₂) :
    Explored succ weight (starts ++ more) w₀ seen w' seen₂ where
  subset := h₁.subset.trans h₂.subset
  sound := by
    intro b hb hnot
    by_cases hb₁ : b ∈ seen₁
    · obtain ⟨a, ha, hreach⟩ := h₁.sound b hb₁ hnot
      exact ⟨a, List.mem_append_left _ ha, hreach⟩
    · obtain ⟨a, ha, hreach⟩ := h₂.sound b hb hb₁
      exact ⟨a, List.mem_append_right _ ha, hreach⟩
  le := h₁.le.trans h₂.le
  attained := by
    rcases h₂.attained with rfl | ⟨b, hb, hnot, hw⟩
    · rcases h₁.attained with rfl | ⟨b, hb, hnot, hw⟩
      · exact Or.inl rfl
      · exact Or.inr ⟨b, h₂.subset hb, hnot, hw⟩
    · exact Or.inr ⟨b, hb, fun hseen ↦ hnot (h₁.subset hseen), hw⟩
  bound := by
    intro b hb hnot
    by_cases hb₁ : b ∈ seen₁
    · exact (h₁.bound b hb₁ hnot).trans h₂.le
    · exact h₂.bound b hb hb₁
  visited := by
    intro htop a ha
    have htop₁ : w ≠ ⊤ := fun hw ↦ htop (top_le_iff.mp (hw ▸ h₂.le))
    rcases List.mem_append.mp ha with ha | ha
    · exact h₂.subset (h₁.visited htop₁ a ha)
    · exact h₂.visited htop a ha
  closed := by
    intro htop b hb hnot c hc
    have htop₁ : w ≠ ⊤ := fun hw ↦ htop (top_le_iff.mp (hw ▸ h₂.le))
    by_cases hb₁ : b ∈ seen₁
    · exact h₂.subset (h₁.closed htop₁ b hb₁ hnot c hc)
    · exact h₂.closed htop b hb hb₁ c hc

/-- At the top weight the walk may stop: the remaining start nodes cannot
raise it. -/
theorem stop (h : Explored succ weight starts w₀ seen ⊤ seen₁) (more : List ρ) :
    Explored succ weight (starts ++ more) w₀ seen ⊤ seen₁ where
  subset := h.subset
  sound := by
    intro b hb hnot
    obtain ⟨a, ha, hreach⟩ := h.sound b hb hnot
    exact ⟨a, List.mem_append_left _ ha, hreach⟩
  le := h.le
  attained := h.attained
  bound := h.bound
  visited := fun htop ↦ absurd rfl htop
  closed := fun htop ↦ absurd rfl htop

/-- A walk made with its own maximum counts towards the running one. -/
theorem join (h : Explored succ weight starts ⊥ seen w seen₁) (w₀ : ω) :
    Explored succ weight starts w₀ seen (max w₀ w) seen₁ where
  subset := h.subset
  sound := h.sound
  le := le_max_left _ _
  attained := by
    rcases max_choice w₀ w with hmax | hmax
    · exact Or.inl hmax
    · rcases h.attained with rfl | ⟨b, hb, hnot, hw⟩
      · exact Or.inl (max_eq_left bot_le)
      · exact Or.inr ⟨b, hb, hnot, hw.trans hmax.symm⟩
  bound := fun b hb hnot ↦ (h.bound b hb hnot).trans (le_max_right _ _)
  visited := fun htop ↦ h.visited fun hw ↦ htop (top_le_iff.mp (hw ▸ le_max_right w₀ w))
  closed := fun htop ↦ h.closed fun hw ↦ htop (top_le_iff.mp (hw ▸ le_max_right w₀ w))

/-- Visiting a new node: mark it, count its weight, walk its successors. -/
theorem visit [DecidableEq ρ] {a : ρ} (ha : a ∉ seen)
    (h : Explored succ weight (succ a) (max w₀ (weight a)) (insert a seen) w seen₁) :
    Explored succ weight [a] w₀ seen w seen₁ where
  subset := (Finset.subset_insert a seen).trans h.subset
  sound := by
    intro b hb hnot
    refine ⟨a, List.mem_singleton_self a, ?_⟩
    by_cases hba : b = a
    · exact hba ▸ Relation.ReflTransGen.refl
    · obtain ⟨c, hc, hreach⟩ := h.sound b hb (by simp [hba, hnot])
      exact (Reaches.step hc).trans hreach
  le := (le_max_left _ _).trans h.le
  attained := by
    have hmem : a ∈ seen₁ := h.subset (Finset.mem_insert_self a seen)
    rcases h.attained with hw | ⟨b, hb, hnot, hw⟩
    · rcases max_choice w₀ (weight a) with hmax | hmax
      · exact Or.inl (hw.trans hmax)
      · exact Or.inr ⟨a, hmem, ha, (hw.trans hmax).symm⟩
    · exact Or.inr ⟨b, hb, fun hseen ↦ hnot (Finset.mem_insert_of_mem hseen), hw⟩
  bound := by
    intro b hb hnot
    by_cases hba : b = a
    · exact hba ▸ (le_max_right _ _).trans h.le
    · exact h.bound b hb (by simp [hba, hnot])
  visited := by
    intro _ b hb
    rw [List.mem_singleton.mp hb]
    exact h.subset (Finset.mem_insert_self a seen)
  closed := by
    intro htop b hb hnot c hc
    by_cases hba : b = a
    · exact h.visited htop c (hba ▸ hc)
    · exact h.closed htop b hb (by simp [hba, hnot]) c hc

theorem top [DecidableEq ρ] {a : ρ} (ha : a ∉ seen) (hweight : weight a = ⊤) :
    Explored succ weight [a] w₀ seen ⊤ (insert a seen) := by
  apply visit ha
  have h : Explored succ weight [] (max w₀ (weight a)) (insert a seen)
      (max w₀ (weight a)) (insert a seen) := skip (by simp)
  rw [hweight, max_eq_right le_top] at h ⊢
  simpa using h.stop (succ a)

theorem eq_worst [Fintype ρ] {a : ρ} (h : Explored succ weight [a] ⊥ ∅ w seen₁) :
    w = worst succ weight a := by
  have hsound : ∀ b ∈ seen₁, Reaches succ a b := by
    intro b hb
    simpa using h.sound b hb (by simp)
  apply le_antisymm
  · rcases h.attained with rfl | ⟨b, hb, -, rfl⟩
    · exact bot_le
    · exact le_worst (hsound b hb)
  · by_cases htop : w = ⊤
    · exact htop ▸ le_top
    · refine worst_le_iff.mpr fun b hb ↦ h.bound b ?_ (by simp)
      refine Reaches.mem_of_closed (S := {b | b ∈ seen₁}) ?_ hb (h.visited htop a (by simp))
      exact fun c hc ↦ h.closed htop c hc (by simp)

end Explored

end Explored

end HugeGraphValidation.Lib
