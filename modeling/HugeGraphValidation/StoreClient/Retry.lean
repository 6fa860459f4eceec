import HugeGraphValidation.Lib.Rounds
import HugeGraphValidation.StoreClient.Throwable

/-!
# The retry loop

`retryingInvoke` calls the supplier up to `NODE_MAX_RETRYING_TIMES + 1` times
and sleeps between the attempts.  The model keeps the thread's interrupt flag,
and an environment that may set it at any moment of a round.
-/

namespace HugeGraphValidation.StoreClient

open Lib

variable {α τ : Type*}

/-- What the loop reads of a throwable of the supplier. -/
structure Supplied (τ : Type*) where
  classify : τ → Failure
  getMessage : τ → Option String
  getCause : τ → Option τ

/-- The throwables of the supplier, and those the loop makes itself. -/
inductive LoopThrowable (τ : Type*) where
  | supplied (t : τ)
  | interruptedException (suppressed : List τ)
  | hgStoreClientException (message : Option String) (cause : LoopThrowable τ)

/-- What one call of the supplier ends in; the values are not null. -/
inductive Outcome (α τ : Type*) where
  | value (a : α)
  | failure (t : τ)

inductive Exit (α τ : Type*) where
  | returned (value : Option α)
  | threw (e : LoopThrowable τ)

/-- When the calling thread may be interrupted.  An attempt begins when its
check of the flag has passed. -/
inductive Moment where
  | beforeAttempt (i : ℕ)
  | duringAttempt (i : ℕ)
  | duringSleep (i : ℕ)
  deriving DecidableEq

def Moment.time : Moment → ℕ
  | beforeAttempt i => 3 * i
  | duringAttempt i => 3 * i + 1
  | duringSleep i => 3 * i + 2

structure LoopState where
  deadlineRetried : Bool
  interrupted : Bool
  attempts : List ℕ
  sleeps : List ℕ
  deriving DecidableEq

namespace LoopState

def init : LoopState := ⟨false, false, [], []⟩

def interruptIf (s : LoopState) (now : Bool) : LoopState :=
  { s with interrupted := s.interrupted || now }

@[simp] theorem interruptIf_false (s : LoopState) : s.interruptIf false = s := by
  simp [interruptIf]

end LoopState

/-- Seconds slept after the failed attempt `i`: the first three times one
second, subsequent incremental. -/
def sleepTime (i : ℕ) : ℕ := if i < 3 then 1 else i - 1

/-- Java's concatenation with a message that may be null. -/
def concatMessage (text : String) (message : Option String) : String :=
  text ++ message.getD "null"

section Loop

variable (ops : Supplied τ) (maxRetryingTimes : ℕ) (script : ℕ → Outcome α τ)
  (interrupts : Moment → Bool)

/-- The end of a failed round: `Thread.sleep` throws and clears the flag when
it is set, and the handler sets it again. -/
def sleepRound (i : ℕ) (t : τ) (s : LoopState) : Round LoopState (Exit α τ) :=
  let s := s.interruptIf (interrupts (.duringSleep i))
  if s.interrupted then
    let s := { s with interrupted := false }
    .leave { s with interrupted := true }
      (.threw (.hgStoreClientException
        (concatMessage "Interrupted while waiting to retry: " (ops.getMessage t))
        (.interruptedException [t])))
  else .again { s with sleeps := s.sleeps ++ [sleepTime i] }

def retryRound (i : ℕ) (s : LoopState) : Round LoopState (Exit α τ) :=
  let s := s.interruptIf (interrupts (.beforeAttempt i))
  if s.interrupted then
    .leave s (.threw (.hgStoreClientException (some s!"Interrupted before retry {i}")
      (.interruptedException [])))
  else
    let s := { s with attempts := s.attempts ++ [i] }
    let s := s.interruptIf (interrupts (.duringAttempt i))
    match script i with
    | .value a => .leave s (.returned (some a))
    | .failure t =>
        let failure := ops.classify t
        let rethrow : Exit α τ :=
          .threw (.hgStoreClientException (ops.getMessage t) (.supplied t))
        let s := if failure ≠ .deadline then { s with deadlineRetried := false } else s
        if failure = .fatal then .leave s rethrow
        else if failure = .deadline ∧ s.deadlineRetried then .leave s rethrow
        else
          let s := if failure = .deadline then { s with deadlineRetried := true } else s
          if i + 1 > maxRetryingTimes then .leave s rethrow
          else sleepRound ops interrupts i t s

/-- `retryingInvoke(supplier)`: the rounds `0 .. NODE_MAX_RETRYING_TIMES` until
one of them returns a value or throws. -/
def retryingInvoke : LoopState × Exit α τ :=
  match forRounds (retryRound ops maxRetryingTimes script interrupts)
      (List.range' 0 (maxRetryingTimes + 1)) LoopState.init with
  | .leave s exit => (s, exit)
  | .again s => (s, .returned none)

def never : Moment → Bool := fun _ ↦ false

/-! ## The policy -/

def isDeadline : Outcome α τ → Bool
  | .value _ => false
  | .failure t => decide (ops.classify t = .deadline)

/-- The attempt immediately before attempt `i` failed with a deadline. -/
def deadlineBefore : ℕ → Bool
  | 0 => false
  | j + 1 => isDeadline ops (script j)

/-- No attempt follows attempt `i`: it is a value, a fatal failure, a second
deadline in a row, or the last one allowed. -/
def Stops (i : ℕ) : Prop :=
  match script i with
  | .value _ => True
  | .failure t =>
      ops.classify t = .fatal ∨
        (ops.classify t = .deadline ∧ deadlineBefore ops script i = true) ∨
        i = maxRetryingTimes

def finalExit : Outcome α τ → Exit α τ
  | .value a => .returned (some a)
  | .failure t => .threw (.hgStoreClientException (ops.getMessage t) (.supplied t))

/-! ## One round -/

def stateAt (i : ℕ) : LoopState where
  deadlineRetried := deadlineBefore ops script i
  interrupted := false
  attempts := List.range i
  sleeps := (List.range i).map sleepTime

def stateAfter (i : ℕ) (interrupted : Bool) : LoopState where
  deadlineRetried := deadlineBefore ops script (i + 1)
  interrupted := interrupted
  attempts := List.range (i + 1)
  sleeps := (List.range i).map sleepTime

variable {ops maxRetryingTimes script interrupts}

theorem retryRound_of_stops {i : ℕ} (hstops : Stops ops maxRetryingTimes script i)
    (hbefore : interrupts (.beforeAttempt i) = false) :
    ∃ retried, retryRound ops maxRetryingTimes script interrupts i (stateAt ops script i) =
      .leave ⟨retried, interrupts (.duringAttempt i), List.range (i + 1),
        (List.range i).map sleepTime⟩ (finalExit ops (script i)) := by
  unfold Stops at hstops
  cases houtcome : script i with
  | value a =>
      exact ⟨deadlineBefore ops script i, by
        simp [retryRound, hbefore, stateAt, houtcome, LoopState.interruptIf, finalExit,
          List.range_succ]⟩
  | failure t =>
      simp only [houtcome] at hstops
      cases hclass : ops.classify t with
      | fatal =>
          exact ⟨false, by
            simp [retryRound, hbefore, stateAt, houtcome, hclass, LoopState.interruptIf,
              finalExit, List.range_succ]⟩
      | retryable =>
          -- neither fatal nor a deadline: it was the last attempt allowed
          have hlast : i = maxRetryingTimes := by simpa [hclass] using hstops
          subst hlast
          exact ⟨false, by
            simp [retryRound, hbefore, stateAt, houtcome, hclass, LoopState.interruptIf,
              finalExit, List.range_succ]⟩
      | deadline =>
          have hagain : deadlineBefore ops script i = true ∨ i = maxRetryingTimes := by
            simpa [hclass] using hstops
          refine ⟨true, ?_⟩
          cases hretried : deadlineBefore ops script i with
          | true =>
              simp [retryRound, hbefore, stateAt, houtcome, hclass, LoopState.interruptIf,
                finalExit, List.range_succ, hretried]
          | false =>
              have hlast : i = maxRetryingTimes := by simpa [hretried] using hagain
              subst hlast
              simp [retryRound, hbefore, stateAt, houtcome, hclass, LoopState.interruptIf,
                finalExit, List.range_succ, hretried]

theorem retryRound_of_not_stops {i : ℕ} (hle : i ≤ maxRetryingTimes)
    (hstops : ¬ Stops ops maxRetryingTimes script i)
    (hbefore : interrupts (.beforeAttempt i) = false) :
    ∃ t, script i = .failure t ∧
      retryRound ops maxRetryingTimes script interrupts i (stateAt ops script i) =
        sleepRound ops interrupts i t
          (stateAfter ops script i (interrupts (.duringAttempt i))) := by
  unfold Stops at hstops
  cases houtcome : script i with
  | value a => simp [houtcome] at hstops
  | failure t =>
      simp only [houtcome, not_or, not_and] at hstops
      obtain ⟨hfatal, hagain, hlast⟩ := hstops
      have hmore : ¬ i + 1 > maxRetryingTimes := by omega
      refine ⟨t, rfl, ?_⟩
      cases hclass : ops.classify t with
      | fatal => exact absurd hclass hfatal
      | retryable =>
          have hnext : deadlineBefore ops script (i + 1) = false := by
            simp [deadlineBefore, isDeadline, houtcome, hclass]
          simp [retryRound, hbefore, stateAt, stateAfter, houtcome, hclass, hnext,
            LoopState.interruptIf, List.range_succ, hmore]
      | deadline =>
          have hnext : deadlineBefore ops script (i + 1) = true := by
            simp [deadlineBefore, isDeadline, houtcome, hclass]
          have hretried : deadlineBefore ops script i = false := by
            simpa using hagain hclass
          simp [retryRound, hbefore, stateAt, stateAfter, houtcome, hclass, hnext,
            LoopState.interruptIf, List.range_succ, hmore, hretried]

theorem retryRound_again {i : ℕ} (hle : i ≤ maxRetryingTimes)
    (hstops : ¬ Stops ops maxRetryingTimes script i)
    (hbefore : interrupts (.beforeAttempt i) = false)
    (hduring : interrupts (.duringAttempt i) = false)
    (hsleep : interrupts (.duringSleep i) = false) :
    retryRound ops maxRetryingTimes script interrupts i (stateAt ops script i) =
      .again (stateAt ops script (i + 1)) := by
  obtain ⟨t, -, hround⟩ := retryRound_of_not_stops hle hstops hbefore
  rw [hround]
  simp [sleepRound, hsleep, hduring, stateAfter, stateAt, List.range_succ]

/-! ## The whole call -/

theorem stops_last (ops : Supplied τ) (maxRetryingTimes : ℕ) (script : ℕ → Outcome α τ) :
    Stops ops maxRetryingTimes script maxRetryingTimes := by
  unfold Stops
  split
  · trivial
  · exact Or.inr (Or.inr rfl)

theorem retryingInvoke_skip {i : ℕ} (hle : i ≤ maxRetryingTimes)
    (hstops : ∀ j < i, ¬ Stops ops maxRetryingTimes script j)
    (hquiet : ∀ m, m.time < (Moment.beforeAttempt i).time → interrupts m = false) :
    forRounds (retryRound ops maxRetryingTimes script interrupts)
        (List.range' 0 (maxRetryingTimes + 1)) LoopState.init =
      forRounds (retryRound ops maxRetryingTimes script interrupts)
        (i :: List.range' (i + 1) (maxRetryingTimes - i)) (stateAt ops script i) := by
  have hround : ∀ j, 0 ≤ j → j < 0 + i →
      retryRound ops maxRetryingTimes script interrupts j (stateAt ops script j) =
        .again (stateAt ops script (j + 1)) := by
    intro j _ hj
    apply retryRound_again (by omega) (hstops j (by omega))
    · exact hquiet (.beforeAttempt j) (by simp only [Moment.time]; omega)
    · exact hquiet (.duringAttempt j) (by simp only [Moment.time]; omega)
    · exact hquiet (.duringSleep j) (by simp only [Moment.time]; omega)
  have hskip := forRounds_range'_skip (stateAt ops script) (maxRetryingTimes - i + 1) hround
  have hinit : stateAt ops script 0 = LoopState.init := rfl
  rw [show i + (maxRetryingTimes - i + 1) = maxRetryingTimes + 1 by omega, hinit,
    Nat.zero_add] at hskip
  rw [hskip, List.range'_succ]

/-- The call when the first attempt that stops the loop is attempt `k`, and no
interrupt is seen before it has begun. -/
theorem retryingInvoke_of_stops {k : ℕ} (hle : k ≤ maxRetryingTimes)
    (hstops : Stops ops maxRetryingTimes script k)
    (hfirst : ∀ j < k, ¬ Stops ops maxRetryingTimes script j)
    (hquiet : ∀ m, m.time < (Moment.duringAttempt k).time → interrupts m = false) :
    ∃ retried, retryingInvoke ops maxRetryingTimes script interrupts =
      (⟨retried, interrupts (.duringAttempt k), List.range (k + 1),
        (List.range k).map sleepTime⟩, finalExit ops (script k)) := by
  have hbefore : interrupts (.beforeAttempt k) = false :=
    hquiet (.beforeAttempt k) (Nat.lt_succ_self _)
  obtain ⟨retried, hround⟩ := retryRound_of_stops hstops hbefore
  refine ⟨retried, ?_⟩
  rw [retryingInvoke, retryingInvoke_skip hle hfirst fun m hm ↦ hquiet m (Nat.lt_succ_of_lt hm),
    forRounds_cons_leave hround]

end Loop

end HugeGraphValidation.StoreClient
