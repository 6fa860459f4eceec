import Mathlib

/-!
# Threads that share counters

A state machine that goes from event to event, whatever their order: how a sum over
the threads changes when one of them goes on to another phase, and what a counter
holds that keeps the largest value so far.
-/

namespace HugeGraphValidation.Lib

section Tally

variable {W : ℕ} {P : Type*}

/-- A number that every thread has by its phase, added up. -/
def sumOver (g : P → ℕ) (phase : Fin W → P) : ℕ := ∑ w, g (phase w)

theorem sumOver_update (g : P → ℕ) (phase : Fin W → P) (w : Fin W) (p : P) :
    sumOver g (Function.update phase w p) + g (phase w) = sumOver g phase + g p := by
  have hrest : ∑ w' ∈ Finset.univ.erase w, g (Function.update phase w p w') =
      ∑ w' ∈ Finset.univ.erase w, g (phase w') := by
    apply Finset.sum_congr rfl
    intro w' hw'
    rw [Function.update_of_ne (Finset.ne_of_mem_erase hw')]
  rw [sumOver, sumOver, ← Finset.add_sum_erase _ _ (Finset.mem_univ w),
    ← Finset.add_sum_erase _ (fun w' ↦ g (phase w')) (Finset.mem_univ w), hrest,
    Function.update_self]
  omega

theorem sumOver_add (g g' : P → ℕ) (phase : Fin W → P) :
    sumOver (fun p ↦ g p + g' p) phase = sumOver g phase + sumOver g' phase :=
  Finset.sum_add_distrib

theorem sumOver_le {g : P → ℕ} (hg : ∀ p, g p ≤ 1) (phase : Fin W → P) : sumOver g phase ≤ W := by
  calc ∑ w, g (phase w) ≤ ∑ _w : Fin W, 1 := Finset.sum_le_sum fun w _ ↦ hg (phase w)
    _ = W := by simp

theorem sumOver_eq_zero {g : P → ℕ} {phase : Fin W → P} (h : ∀ w, g (phase w) = 0) :
    sumOver g phase = 0 :=
  Finset.sum_eq_zero fun w _ ↦ h w

end Tally

section Runs

variable {σ ε : Type*} {step : σ → ε → σ}

/-- What every step keeps holds at the end of every run. -/
theorem foldl_invariant {I : σ → Prop} (hstep : ∀ s e, I s → I (step s e)) {start : σ}
    (hstart : I start) (events : List ε) : I (events.foldl step start) := by
  induction events using List.reverseRecOn with
  | nil => exact hstart
  | append_singleton events e ih =>
      rw [List.foldl_append]
      exact hstep _ e ih

/-- The values of the states of a run. -/
def valuesOf (step : σ → ε → σ) (value : σ → ℤ) (start : σ) (events : List ε) : Set ℤ :=
  {v | ∃ k ≤ events.length, v = value ((events.take k).foldl step start)}

theorem valuesOf_concat (value : σ → ℤ) (start : σ) (events : List ε) (e : ε) :
    valuesOf step value start (events ++ [e]) =
      insert (value ((events ++ [e]).foldl step start)) (valuesOf step value start events) := by
  ext v
  simp only [valuesOf, Set.mem_insert_iff, Set.mem_ofPred_eq, List.length_append,
    List.length_singleton]
  constructor
  · rintro ⟨k, hk, rfl⟩
    rcases Nat.lt_or_ge events.length k with hlt | hle
    · rw [List.take_of_length_le (by rw [List.length_append, List.length_singleton]; omega)]
      exact Or.inl rfl
    · rw [List.take_append_of_le_length hle]
      exact Or.inr ⟨k, hle, rfl⟩
  · rintro (rfl | ⟨k, hk, rfl⟩)
    · exact ⟨events.length + 1, le_rfl, by rw [List.take_of_length_le (by simp)]⟩
    · exact ⟨k, by omega, by rw [List.take_append_of_le_length hk]⟩

/-- A counter that every step raises to the value, where the value is above it, holds
the greatest value of the run. -/
theorem isGreatest_peak (value peak : σ → ℤ)
    (hstep : ∀ s e, value s ≤ peak s → peak (step s e) = max (peak s) (value (step s e)))
    {start : σ} (hstart : peak start = value start) (events : List ε) :
    IsGreatest (valuesOf step value start events) (peak (events.foldl step start)) := by
  induction events using List.reverseRecOn with
  | nil =>
      have hvalues : valuesOf step value start [] = {value start} := by
        ext v
        simp [valuesOf]
      rw [hvalues, List.foldl_nil, hstart]
      exact isGreatest_singleton
  | append_singleton events e ih =>
      have hle : value (events.foldl step start) ≤ peak (events.foldl step start) :=
        ih.2 ⟨events.length, le_rfl, by rw [List.take_length]⟩
      have hpeak := hstep _ e hle
      rw [valuesOf_concat, List.foldl_append, List.foldl_cons, List.foldl_nil, hpeak, max_comm]
      exact ih.insert _

end Runs

end HugeGraphValidation.Lib
