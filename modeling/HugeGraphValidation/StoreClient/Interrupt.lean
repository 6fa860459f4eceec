import HugeGraphValidation.StoreClient.RetryPolicy

/-!
# Interrupts of the retry loop

A run with interrupts is compared with the run of the same script without any.
The first interrupt ends the loop at the next place that looks at the flag: the
check before an attempt, or `Thread.sleep`; a terminal attempt in between ends
it as it would have ended anyway.
-/

namespace HugeGraphValidation.StoreClient

open Lib

variable {α τ : Type*}

namespace Moment

/-- How many attempts have begun by the moment. -/
def begun : Moment → ℕ
  | beforeAttempt i => i
  | duringAttempt i => i + 1
  | duringSleep i => i + 1

/-- The moment comes up in a call that is not interrupted. -/
def Occurs (s : LoopState) : Moment → Prop
  | beforeAttempt i => i < s.attempts.length
  | duringAttempt i => i < s.attempts.length
  | duringSleep i => i < s.sleeps.length

end Moment

namespace LoopThrowable

def getCause (ops : Supplied τ) : LoopThrowable τ → Option (LoopThrowable τ)
  | supplied t => (ops.getCause t).map supplied
  | interruptedException _ => none
  | hgStoreClientException _ cause => some cause

def RootCause (ops : Supplied τ) (e root : LoopThrowable τ) : Prop :=
  Relation.ReflTransGen (fun e c ↦ e.getCause ops = some c) e root ∧ root.getCause ops = none

theorem rootCause_interrupted (ops : Supplied τ) (message : Option String)
    (suppressed : List τ) :
    RootCause ops (hgStoreClientException message (interruptedException suppressed))
      (interruptedException suppressed) :=
  ⟨Relation.ReflTransGen.single rfl, rfl⟩

end LoopThrowable

section Interrupted

variable {ops : Supplied τ} {maxRetryingTimes : ℕ} {script : ℕ → Outcome α τ}
  {interrupts : Moment → Bool} {i : ℕ}

theorem retryingInvoke_of_interrupted_before (hle : i ≤ maxRetryingTimes)
    (hstops : ∀ j < i, ¬ Stops ops maxRetryingTimes script j)
    (hquiet : ∀ m, m.time < (Moment.beforeAttempt i).time → interrupts m = false)
    (hnow : interrupts (.beforeAttempt i) = true) :
    retryingInvoke ops maxRetryingTimes script interrupts =
      (⟨deadlineBefore ops script i, true, List.range i, (List.range i).map sleepTime⟩,
        .threw (.hgStoreClientException (some s!"Interrupted before retry {i}")
          (.interruptedException []))) := by
  have hskip := retryingInvoke_skip hle hstops hquiet
  have hround : retryRound ops maxRetryingTimes script interrupts i (stateAt ops script i) =
      .leave ⟨deadlineBefore ops script i, true, List.range i, (List.range i).map sleepTime⟩
        (.threw (.hgStoreClientException (some s!"Interrupted before retry {i}")
          (.interruptedException []))) := by
    simp [retryRound, stateAt, LoopState.interruptIf, hnow]
  rw [retryingInvoke, hskip, forRounds_cons_leave hround]

theorem retryingInvoke_of_interrupted_sleep (hle : i ≤ maxRetryingTimes)
    (hstops : ∀ j ≤ i, ¬ Stops ops maxRetryingTimes script j)
    (hquiet : ∀ m, m.time < (Moment.duringAttempt i).time → interrupts m = false)
    (hnow : (interrupts (.duringAttempt i) || interrupts (.duringSleep i)) = true) :
    ∃ t, script i = .failure t ∧
      retryingInvoke ops maxRetryingTimes script interrupts =
        ({ stateAfter ops script i true with interrupted := true },
          .threw (.hgStoreClientException
            (concatMessage "Interrupted while waiting to retry: " (ops.getMessage t))
            (.interruptedException [t]))) := by
  have hskip := retryingInvoke_skip hle (fun j hj ↦ hstops j hj.le)
    fun m hm ↦ hquiet m (Nat.lt_succ_of_lt hm)
  have hbefore : interrupts (.beforeAttempt i) = false :=
    hquiet (.beforeAttempt i) (Nat.lt_succ_self _)
  obtain ⟨t, houtcome, hround⟩ := retryRound_of_not_stops hle (hstops i le_rfl) hbefore
  refine ⟨t, houtcome, ?_⟩
  have hsleep : retryRound ops maxRetryingTimes script interrupts i (stateAt ops script i) =
      .leave { stateAfter ops script i true with interrupted := true }
        (.threw (.hgStoreClientException
          (concatMessage "Interrupted while waiting to retry: " (ops.getMessage t))
          (.interruptedException [t]))) := by
    rw [hround]
    simp [sleepRound, LoopState.interruptIf, stateAfter, hnow]
  rw [retryingInvoke, hskip, forRounds_cons_leave hsleep]

end Interrupted

/-- The failure of the attempt that was interrupted, as the sleep records it. -/
def noticedBySleep (script : ℕ → Outcome α τ) : Moment → List τ → Prop
  | .beforeAttempt _, suppressed => suppressed = []
  | .duringAttempt i, suppressed => ∃ t, script i = .failure t ∧ suppressed = [t]
  | .duringSleep i, suppressed => ∃ t, script i = .failure t ∧ suppressed = [t]

/-- The first interrupt of the thread, at whatever moment of the run: no attempt
starts after it, the flag is set at the end, and where another attempt would
have followed the root cause of the exception is an `InterruptedException`. -/
theorem retryingInvoke_interrupted (ops : Supplied τ) (maxRetryingTimes : ℕ)
    (script : ℕ → Outcome α τ) (interrupts : Moment → Bool) (m : Moment)
    (hoccurs : m.Occurs (retryingInvoke ops maxRetryingTimes script never).1)
    (hnow : interrupts m = true)
    (hquiet : ∀ m' : Moment, m'.time < m.time → interrupts m' = false) :
    (retryingInvoke ops maxRetryingTimes script interrupts).1.attempts =
        List.range m.begun ∧
      (retryingInvoke ops maxRetryingTimes script interrupts).1.interrupted = true ∧
      if m.begun < (retryingInvoke ops maxRetryingTimes script never).1.attempts.length then
        ∃ e suppressed,
          (retryingInvoke ops maxRetryingTimes script interrupts).2 = .threw e ∧
            e.RootCause ops (.interruptedException suppressed) ∧
            noticedBySleep script m suppressed
      else
        (retryingInvoke ops maxRetryingTimes script interrupts).2 =
          (retryingInvoke ops maxRetryingTimes script never).2 := by
  obtain ⟨k, hle, hstops, hfirst⟩ := exists_first_stop ops maxRetryingTimes script
  obtain ⟨_, hrun⟩ := retryingInvoke_never hle hstops hfirst
  rw [hrun] at hoccurs ⊢
  simp only [List.length_range]
  cases m with
  | beforeAttempt i =>
      have hi : i ≤ k := by
        simpa [Moment.Occurs, Nat.lt_succ_iff] using hoccurs
      have hbefore := retryingInvoke_of_interrupted_before (hi.trans hle)
        (fun j hj ↦ hfirst j (by omega)) hquiet hnow
      have hmore : (Moment.beforeAttempt i).begun < k + 1 := Nat.lt_succ_of_le hi
      rw [hbefore, if_pos hmore]
      exact ⟨rfl, rfl, _, [], rfl, LoopThrowable.rootCause_interrupted ops _ [], rfl⟩
  | duringAttempt i =>
      have hi : i ≤ k := by
        simpa [Moment.Occurs, Nat.lt_succ_iff] using hoccurs
      rcases hi.lt_or_eq with hlt | rfl
      · obtain ⟨t, houtcome, hsleep⟩ := retryingInvoke_of_interrupted_sleep (hi.trans hle)
          (fun j hj ↦ hfirst j (by omega)) hquiet (by rw [hnow, Bool.true_or])
        have hmore : (Moment.duringAttempt i).begun < k + 1 := Nat.succ_lt_succ hlt
        rw [hsleep, if_pos hmore]
        exact ⟨rfl, rfl, _, [t], rfl, LoopThrowable.rootCause_interrupted ops _ [t], t,
          houtcome, rfl⟩
      · obtain ⟨_, hlast⟩ := retryingInvoke_of_stops hle hstops hfirst hquiet
        have hlast' : ¬ (Moment.duringAttempt i).begun < i + 1 := lt_irrefl _
        rw [hlast, if_neg hlast']
        exact ⟨rfl, hnow, rfl⟩
  | duringSleep i =>
      have hi : i < k := by
        simpa [Moment.Occurs] using hoccurs
      obtain ⟨t, houtcome, hsleep⟩ := retryingInvoke_of_interrupted_sleep (hi.le.trans hle)
        (fun j hj ↦ hfirst j (by omega))
        (fun m hm ↦ hquiet m (Nat.lt_succ_of_lt hm)) (by rw [hnow, Bool.or_true])
      have hmore : (Moment.duringSleep i).begun < k + 1 := Nat.succ_lt_succ hi
      rw [hsleep, if_pos hmore]
      exact ⟨rfl, rfl, _, [t], rfl, LoopThrowable.rootCause_interrupted ops _ [t], t,
        houtcome, rfl⟩

/-- Three attempts would fail; the thread is interrupted in the second one. -/
theorem retryingInvoke_interrupted_second_attempt :
    (retryingInvoke (α := ℕ) (τ := Failure) ⟨id, fun _ ↦ none, fun _ ↦ none⟩ 2
      (fun _ ↦ .failure .retryable) (fun m ↦ decide (m = .duringAttempt 1))).1.attempts =
        [0, 1] := by
  have hoccurs : (Moment.duringAttempt 1).Occurs
      (retryingInvoke (α := ℕ) (τ := Failure) ⟨id, fun _ ↦ none, fun _ ↦ none⟩ 2
        (fun _ ↦ .failure .retryable) never).1 := by
    unfold Moment.Occurs
    decide
  have hquiet : ∀ m : Moment, m.time < (Moment.duringAttempt 1).time →
      decide (m = .duringAttempt 1) = false := by
    intro m hm
    rw [decide_eq_false_iff_not]
    rintro rfl
    exact lt_irrefl _ hm
  exact (retryingInvoke_interrupted _ _ _ _ _ hoccurs (decide_eq_true rfl) hquiet).1

end HugeGraphValidation.StoreClient
