import Mathlib

/-!
# Loops that may be left early

A loop over a list of items whose body either goes on with a new state or
leaves with a result.  The rules below run such a loop: one for a block of
rounds that all go on, one for the round that leaves.
-/

namespace HugeGraphValidation.Lib

variable {ι σ ρ : Type*}

/-- What one round of a loop body ends in. -/
inductive Round (σ ρ : Type*) where
  | again (state : σ)
  | leave (state : σ) (result : ρ)
  deriving DecidableEq

def Round.map {κ : Type*} (f : ρ → κ) : Round σ ρ → Round σ κ
  | .again s => .again s
  | .leave s r => .leave s (f r)

/-- The state at the end of a round, also of one that leaves. -/
def Round.state : Round σ ρ → σ
  | .again s => s
  | .leave s _ => s

/-- Run the body over the items in order until a round leaves. -/
def forRounds (step : ι → σ → Round σ ρ) : List ι → σ → Round σ ρ
  | [], s => .again s
  | i :: items, s =>
      match step i s with
      | .again s' => forRounds step items s'
      | .leave s' r => .leave s' r

@[simp] theorem forRounds_nil (step : ι → σ → Round σ ρ) (s : σ) :
    forRounds step [] s = .again s := rfl

theorem forRounds_cons_again {step : ι → σ → Round σ ρ} {i : ι} {s s' : σ}
    (h : step i s = .again s') (items : List ι) :
    forRounds step (i :: items) s = forRounds step items s' := by
  simp [forRounds, h]

theorem forRounds_cons_leave {step : ι → σ → Round σ ρ} {i : ι} {s s' : σ} {r : ρ}
    (h : step i s = .leave s' r) (items : List ι) :
    forRounds step (i :: items) s = .leave s' r := by
  simp [forRounds, h]

theorem forRounds_state {step : ι → σ → Round σ ρ} {P : σ → Prop} {items : List ι}
    (h : ∀ i ∈ items, ∀ s, P s → P (step i s).state) {s : σ} (hs : P s) :
    P (forRounds step items s).state := by
  induction items generalizing s with
  | nil => exact hs
  | cons i items ih =>
      have hround := h i List.mem_cons_self s hs
      unfold forRounds
      cases hstep : step i s with
      | again s' =>
          rw [hstep] at hround
          exact ih (fun j hj ↦ h j (List.mem_cons_of_mem i hj)) hround
      | leave s' r =>
          rw [hstep] at hround
          exact hround

/-- The items whose rounds are run. -/
def roundsRun (step : ι → σ → Round σ ρ) : List ι → σ → List ι
  | [], _ => []
  | i :: items, s =>
      match step i s with
      | .again s' => i :: roundsRun step items s'
      | .leave _ _ => [i]

theorem roundsRun_prefix (step : ι → σ → Round σ ρ) (items : List ι) (s : σ) :
    roundsRun step items s <+: items := by
  induction items generalizing s with
  | nil => exact List.prefix_rfl
  | cons i items ih =>
      unfold roundsRun
      cases step i s with
      | again s' => exact List.prefix_cons_inj i |>.mpr (ih s')
      | leave s' r => exact ⟨items, rfl⟩

/-- Where every round moves the state by `f`, so does the loop, over the items
whose rounds are run. -/
theorem forRounds_state_eq_foldl {step : ι → σ → Round σ ρ} {f : σ → ι → σ}
    (h : ∀ i s, (step i s).state = f s i) (items : List ι) (s : σ) :
    (forRounds step items s).state = (roundsRun step items s).foldl f s := by
  induction items generalizing s with
  | nil => rfl
  | cons i items ih =>
      have hround := h i s
      unfold forRounds roundsRun
      cases hstep : step i s with
      | again s' =>
          rw [hstep] at hround
          rw [List.foldl_cons, ← hround]
          exact ih s'
      | leave s' r =>
          rw [hstep] at hround
          exact hround

theorem roundsRun_of_again {step : ι → σ → Round σ ρ} {items : List ι} {s s' : σ}
    (h : forRounds step items s = .again s') : roundsRun step items s = items := by
  induction items generalizing s with
  | nil => rfl
  | cons i items ih =>
      unfold forRounds at h
      unfold roundsRun
      cases hstep : step i s with
      | again t =>
          rw [hstep] at h
          simpa using ih h
      | leave t r => simp [hstep] at h

/-- The last round that is run is the one that leaves. -/
theorem roundsRun_of_leave {step : ι → σ → Round σ ρ} {items : List ι} {s s' : σ} {r : ρ}
    (h : forRounds step items s = .leave s' r) :
    ∃ i t, (roundsRun step items s).getLast? = some i ∧ step i t = .leave s' r := by
  induction items generalizing s with
  | nil => simp at h
  | cons i items ih =>
      unfold forRounds at h
      unfold roundsRun
      cases hstep : step i s with
      | again t =>
          rw [hstep] at h
          obtain ⟨j, t', hlast, hj⟩ := ih h
          exact ⟨j, t', by simp [List.getLast?_cons, hlast], hj⟩
      | leave t r' =>
          rw [hstep] at h
          exact ⟨i, s, rfl, by rw [hstep]; exact h⟩

theorem forRounds_map_eq {ρ' κ : Type*} {step : ι → σ → Round σ ρ} {step' : ι → σ → Round σ ρ'}
    {f : ρ → κ} {g : ρ' → κ} (h : ∀ i s, (step i s).map f = (step' i s).map g) (items : List ι)
    (s : σ) : (forRounds step items s).map f = (forRounds step' items s).map g := by
  induction items generalizing s with
  | nil => rfl
  | cons i items ih =>
      have hround := h i s
      unfold forRounds
      cases hstep : step i s with
      | again t =>
          cases hstep' : step' i s with
          | again t' =>
              rw [hstep, hstep'] at hround
              obtain rfl : t = t' := Round.again.inj hround
              exact ih t
          | leave t' r' => simp [hstep, hstep', Round.map] at hround
      | leave t r =>
          cases hstep' : step' i s with
          | again t' => simp [hstep, hstep', Round.map] at hround
          | leave t' r' => rwa [hstep, hstep'] at hround

/-- A block of rounds that all go on is skipped, whatever follows it. -/
theorem forRounds_range'_skip {step : ℕ → σ → Round σ ρ} (states : ℕ → σ) {i k : ℕ} (n : ℕ)
    (h : ∀ j, i ≤ j → j < i + k → step j (states j) = .again (states (j + 1))) :
    forRounds step (List.range' i (k + n)) (states i) =
      forRounds step (List.range' (i + k) n) (states (i + k)) := by
  induction k generalizing i with
  | zero => simp
  | succ k ih =>
      have hfirst : step i (states i) = .again (states (i + 1)) :=
        h i le_rfl (by omega)
      have hrest := ih (i := i + 1) fun j hj hjk ↦ h j (by omega) (by omega)
      rw [show k + 1 + n = (k + n) + 1 by omega, List.range'_succ,
        forRounds_cons_again hfirst, hrest,
        show i + 1 + k = i + (k + 1) by omega]

end HugeGraphValidation.Lib
