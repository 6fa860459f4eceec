import HugeGraphValidation.StoreClient.Retry

/-!
# The retry policy

Without interrupts the loop ends at the first attempt that `Stops` it.  What
the policy costs follows: two deadlines are never followed by a third attempt,
so at most every second attempt but the last ends in one.
-/

namespace HugeGraphValidation.StoreClient

open Lib

variable {α τ : Type*}

/-- Of the first `k` indices at most every second one satisfies a predicate
that never holds twice in a row. -/
theorem countP_range_of_spaced (p : ℕ → Bool) :
    ∀ k, (∀ i, i + 1 < k → p i = true → p (i + 1) = false) →
      (List.range k).countP p ≤ (k + 1) / 2
  | 0, _ => by simp
  | 1, _ => by simpa using List.countP_le_length (p := p) (l := List.range 1)
  | k + 2, hspaced => by
      have ih := countP_range_of_spaced p k fun i hi ↦ hspaced i (by omega)
      have hpair : (if p k then 1 else 0) + (if p (k + 1) then 1 else 0) ≤ 1 := by
        cases hk : p k with
        | false => simp; split <;> omega
        | true => simp [hspaced k (by omega) hk]
      rw [List.range_succ, List.range_succ, List.countP_append, List.countP_append,
        List.countP_singleton, List.countP_singleton]
      omega

section Policy

variable {ops : Supplied τ} {maxRetryingTimes : ℕ} {script : ℕ → Outcome α τ}

theorem exists_first_stop (ops : Supplied τ) (maxRetryingTimes : ℕ)
    (script : ℕ → Outcome α τ) :
    ∃ k ≤ maxRetryingTimes, Stops ops maxRetryingTimes script k ∧
      ∀ j < k, ¬ Stops ops maxRetryingTimes script j := by
  classical
  have hex : ∃ k, Stops ops maxRetryingTimes script k :=
    ⟨maxRetryingTimes, stops_last ops maxRetryingTimes script⟩
  refine ⟨Nat.find hex, Nat.find_min' hex (stops_last ops maxRetryingTimes script),
    Nat.find_spec hex, ?_⟩
  intro j hj
  exact Nat.find_min hex hj

theorem isDeadline_spaced {k : ℕ}
    (hfirst : ∀ j < k, ¬ Stops ops maxRetryingTimes script j) :
    ∀ i, i + 1 < k → isDeadline ops (script i) = true →
      isDeadline ops (script (i + 1)) = false := by
  intro i hi hdeadline
  have hgo := hfirst (i + 1) hi
  unfold Stops at hgo
  cases houtcome : script (i + 1) with
  | value a => rfl
  | failure t =>
      simp only [houtcome, not_or, not_and] at hgo
      have hnot : ops.classify t ≠ .deadline := fun hclass ↦ hgo.2.1 hclass hdeadline
      simp [isDeadline, hnot]

theorem countP_deadline_le {k : ℕ} (hle : k ≤ maxRetryingTimes)
    (hfirst : ∀ j < k, ¬ Stops ops maxRetryingTimes script j) :
    (List.range (k + 1)).countP (fun i ↦ isDeadline ops (script i)) ≤
      (maxRetryingTimes + 1) / 2 + 1 := by
  have hspaced := countP_range_of_spaced (fun i ↦ isDeadline ops (script i)) k
    (isDeadline_spaced hfirst)
  rw [List.range_succ, List.countP_append]
  have hlast := List.countP_le_length (p := fun i ↦ isDeadline ops (script i)) (l := [k])
  rw [List.length_singleton] at hlast
  omega

theorem sum_sleeps_mono {k n : ℕ} (hle : k ≤ n) :
    ((List.range k).map sleepTime).sum ≤ ((List.range n).map sleepTime).sum := by
  induction hle with
  | refl => exact le_rfl
  | @step n _ ih =>
      rw [List.range_succ, List.map_append, List.sum_append]
      exact ih.trans (Nat.le_add_right _ _)

theorem retryingInvoke_never {k : ℕ} (hle : k ≤ maxRetryingTimes)
    (hstops : Stops ops maxRetryingTimes script k)
    (hfirst : ∀ j < k, ¬ Stops ops maxRetryingTimes script j) :
    ∃ retried, retryingInvoke ops maxRetryingTimes script never =
      (⟨retried, false, List.range (k + 1), (List.range k).map sleepTime⟩,
        finalExit ops (script k)) :=
  retryingInvoke_of_stops hle hstops hfirst fun _ _ ↦ rfl

end Policy

/-- The retry policy without interrupts: the attempts are `0 .. k` for the
first `k` that stops the loop, the call ends with the outcome of attempt `k`,
and the number of attempts, of deadlines and the time slept are bounded. -/
theorem retryingInvoke_policy (ops : Supplied τ) (maxRetryingTimes : ℕ)
    (script : ℕ → Outcome α τ) :
    ∃ k ≤ maxRetryingTimes,
      Stops ops maxRetryingTimes script k ∧
      (∀ j < k, ¬ Stops ops maxRetryingTimes script j) ∧
      (retryingInvoke ops maxRetryingTimes script never).1.attempts = List.range (k + 1) ∧
      (retryingInvoke ops maxRetryingTimes script never).2 = finalExit ops (script k) ∧
      (retryingInvoke ops maxRetryingTimes script never).1.attempts.length ≤
        maxRetryingTimes + 1 ∧
      (retryingInvoke ops maxRetryingTimes script never).1.attempts.countP
          (fun i ↦ isDeadline ops (script i)) ≤ (maxRetryingTimes + 1) / 2 + 1 ∧
      (retryingInvoke ops maxRetryingTimes script never).1.sleeps =
        (List.range k).map sleepTime ∧
      (retryingInvoke ops maxRetryingTimes script never).1.sleeps.sum ≤
        ((List.range maxRetryingTimes).map sleepTime).sum ∧
      ((List.range 10).map sleepTime).sum = 38 := by
  obtain ⟨k, hle, hstops, hfirst⟩ := exists_first_stop ops maxRetryingTimes script
  obtain ⟨_, hrun⟩ := retryingInvoke_never hle hstops hfirst
  rw [hrun]
  refine ⟨k, hle, hstops, hfirst, rfl, rfl, ?_, countP_deadline_le hle hfirst, rfl,
    sum_sleeps_mono hle, by decide⟩
  simpa using hle

/-! ## What the loop depends on -/

def Outcome.failureClass (ops : Supplied τ) : Outcome α τ → Option Failure
  | .value _ => none
  | .failure t => some (ops.classify t)

/-- Up to what it returns or throws, a round depends on the class of the
attempt's outcome only. -/
theorem retryRound_congr (ops : Supplied τ) (maxRetryingTimes : ℕ)
    (interrupts : Moment → Bool) {script script' : ℕ → Outcome α τ}
    (hclass : ∀ i, (script i).failureClass ops = (script' i).failureClass ops) (i : ℕ)
    (s : LoopState) :
    (retryRound ops maxRetryingTimes script interrupts i s).map (fun _ ↦ ()) =
      (retryRound ops maxRetryingTimes script' interrupts i s).map (fun _ ↦ ()) := by
  have hi := hclass i
  cases houtcome : script i with
  | value a =>
      cases houtcome' : script' i with
      | value a' =>
          simp only [retryRound, houtcome, houtcome', apply_ite (Round.map fun _ ↦ ())]
          rfl
      | failure t' => simp [houtcome, houtcome', Outcome.failureClass] at hi
  | failure t =>
      cases houtcome' : script' i with
      | value a' => simp [houtcome, houtcome', Outcome.failureClass] at hi
      | failure t' =>
          have heq : ops.classify t = ops.classify t' := by
            simpa [houtcome, houtcome', Outcome.failureClass] using hi
          -- the values are dropped under each test, and the tests agree
          simp only [retryRound, sleepRound, houtcome, houtcome', heq,
            apply_ite (Round.map fun _ ↦ ())]
          rfl

theorem retryingInvoke_congr (ops : Supplied τ) (maxRetryingTimes : ℕ)
    (interrupts : Moment → Bool) {script script' : ℕ → Outcome α τ}
    (hclass : ∀ i, (script i).failureClass ops = (script' i).failureClass ops) :
    (retryingInvoke ops maxRetryingTimes script interrupts).1 =
      (retryingInvoke ops maxRetryingTimes script' interrupts).1 := by
  have hloop := forRounds_map_eq (retryRound_congr ops maxRetryingTimes interrupts hclass)
    (List.range' 0 (maxRetryingTimes + 1)) LoopState.init
  unfold retryingInvoke
  revert hloop
  cases forRounds (retryRound ops maxRetryingTimes script interrupts)
      (List.range' 0 (maxRetryingTimes + 1)) LoopState.init with
  | again s =>
      cases forRounds (retryRound ops maxRetryingTimes script' interrupts)
          (List.range' 0 (maxRetryingTimes + 1)) LoopState.init with
      | again s' => exact fun hloop ↦ Round.again.inj hloop
      | leave s' r' => exact fun hloop ↦ by simp [Round.map] at hloop
  | leave s r =>
      cases forRounds (retryRound ops maxRetryingTimes script' interrupts)
          (List.range' 0 (maxRetryingTimes + 1)) LoopState.init with
      | again s' => exact fun hloop ↦ by simp [Round.map] at hloop
      | leave s' r' => exact fun hloop ↦ (Round.leave.inj hloop).1

end HugeGraphValidation.StoreClient
