import HugeGraphValidation.StoreClient.Interrupt

/-!
# The retry loop before the patch

The loop that the patch removes retries every failure, and an interrupted sleep
is logged and forgotten.  It is run beside the patched loop on the same script
and the same interrupts: the patched loop stops somewhere along the attempts of
the old one, and follows it to its end exactly when there is nothing the patch
has a rule for.
-/

namespace HugeGraphValidation.StoreClient

open Lib

variable {α τ : Type*}

/-- What the removed loop keeps: there is no `deadlineRetried`. -/
structure UnpatchedState where
  interrupted : Bool
  attempts : List ℕ
  sleeps : List ℕ
  deriving DecidableEq

namespace UnpatchedState

def init : UnpatchedState := ⟨false, [], []⟩

def interruptIf (s : UnpatchedState) (now : Bool) : UnpatchedState :=
  { s with interrupted := s.interrupted || now }

end UnpatchedState

section Loop

variable (ops : Supplied τ) (maxRetryingTimes : ℕ) (script : ℕ → Outcome α τ)
  (interrupts : Moment → Bool)

/-- `Thread.sleep` throws and clears the flag when it is set; the handler logs
"Failed to sleep" and the loop goes on. -/
def sleepRoundUnpatched (i : ℕ) (s : UnpatchedState) : UnpatchedState :=
  let s := s.interruptIf (interrupts (.duringSleep i))
  if s.interrupted then { s with interrupted := false }
  else { s with sleeps := s.sleeps ++ [sleepTime i] }

def retryRoundUnpatched (i : ℕ) (s : UnpatchedState) : Round UnpatchedState (Exit α τ) :=
  let s := s.interruptIf (interrupts (.beforeAttempt i))
  let s := { s with attempts := s.attempts ++ [i] }
  let s := s.interruptIf (interrupts (.duringAttempt i))
  match script i with
  | .value a => .leave s (.returned (some a))
  | .failure t =>
      if i + 1 ≤ maxRetryingTimes then .again (sleepRoundUnpatched interrupts i s)
      else .leave s (.threw (.hgStoreClientException (ops.getMessage t) (.supplied t)))

def retryingInvokeUnpatched : UnpatchedState × Exit α τ :=
  match forRounds (retryRoundUnpatched ops maxRetryingTimes script interrupts)
      (List.range' 0 (maxRetryingTimes + 1)) UnpatchedState.init with
  | .leave s exit => (s, exit)
  | .again s => (s, .returned none)

def Outcome.isValue : Outcome α τ → Bool
  | .value _ => true
  | .failure _ => false

/-- The thread is interrupted in round `i`, at whatever moment of it. -/
def interruptedInRound (i : ℕ) : Bool :=
  interrupts (.beforeAttempt i) || interrupts (.duringAttempt i) ||
    interrupts (.duringSleep i)

/-- The rounds before round `i` whose sleep nothing cut short. -/
def sleptBefore (i : ℕ) : List ℕ :=
  ((List.range i).filter fun j ↦ !interruptedInRound interrupts j).map sleepTime

def unpatchedAt (i : ℕ) : UnpatchedState := ⟨false, List.range i, sleptBefore interrupts i⟩

/-- What the patch does not retry although attempts are left. -/
def Refused (i : ℕ) : Prop :=
  ∃ t, script i = .failure t ∧
    (ops.classify t = .fatal ∨
      (ops.classify t = .deadline ∧ deadlineBefore ops script i = true))

variable {ops maxRetryingTimes script interrupts}

/-! ## The old loop alone -/

theorem sleptBefore_succ (i : ℕ) :
    sleptBefore interrupts (i + 1) =
      if interruptedInRound interrupts i then sleptBefore interrupts i
      else sleptBefore interrupts i ++ [sleepTime i] := by
  unfold sleptBefore
  rw [List.range_succ, List.filter_append, List.map_append]
  cases hround : interruptedInRound interrupts i <;> simp [hround]

theorem retryRoundUnpatched_again {i : ℕ} (hlt : i < maxRetryingTimes)
    (hfailure : (script i).isValue = false) :
    retryRoundUnpatched ops maxRetryingTimes script interrupts i (unpatchedAt interrupts i) =
      .again (unpatchedAt interrupts (i + 1)) := by
  cases houtcome : script i with
  | value a => simp [houtcome, Outcome.isValue] at hfailure
  | failure t =>
      have hmore : i + 1 ≤ maxRetryingTimes := hlt
      simp only [retryRoundUnpatched, houtcome, if_pos hmore]
      congr 1
      -- the flag is clear again after the round, whether the sleep was cut short or not
      cases hround : interruptedInRound interrupts i <;>
        simp_all [sleepRoundUnpatched, UnpatchedState.interruptIf, unpatchedAt,
          sleptBefore_succ, interruptedInRound, List.range_succ]

theorem retryRoundUnpatched_leave {i : ℕ}
    (hlast : (script i).isValue = true ∨ i = maxRetryingTimes) :
    retryRoundUnpatched ops maxRetryingTimes script interrupts i (unpatchedAt interrupts i) =
      .leave ⟨interrupts (.beforeAttempt i) || interrupts (.duringAttempt i),
        List.range (i + 1), sleptBefore interrupts i⟩ (finalExit ops (script i)) := by
  cases houtcome : script i with
  | value a =>
      simp [retryRoundUnpatched, houtcome, UnpatchedState.interruptIf, unpatchedAt, finalExit,
        List.range_succ]
  | failure t =>
      have hmax : i = maxRetryingTimes := by
        simpa [houtcome, Outcome.isValue] using hlast
      have hnone : ¬ i + 1 ≤ maxRetryingTimes := by omega
      simp [retryRoundUnpatched, houtcome, UnpatchedState.interruptIf, unpatchedAt, finalExit,
        List.range_succ, hnone]

/-- The old loop ends with its first value or its last attempt, whatever the
failures are and whenever the thread is interrupted. -/
theorem retryingInvokeUnpatched_eq {k : ℕ} (hle : k ≤ maxRetryingTimes)
    (hlast : (script k).isValue = true ∨ k = maxRetryingTimes)
    (hfailures : ∀ j < k, (script j).isValue = false) :
    retryingInvokeUnpatched ops maxRetryingTimes script interrupts =
      (⟨interrupts (.beforeAttempt k) || interrupts (.duringAttempt k),
        List.range (k + 1), sleptBefore interrupts k⟩, finalExit ops (script k)) := by
  have hround : ∀ j, 0 ≤ j → j < 0 + k →
      retryRoundUnpatched ops maxRetryingTimes script interrupts j (unpatchedAt interrupts j) =
        .again (unpatchedAt interrupts (j + 1)) := by
    intro j _ hj
    exact retryRoundUnpatched_again (by omega) (hfailures j (by omega))
  have hskip := forRounds_range'_skip (unpatchedAt interrupts)
    (maxRetryingTimes - k + 1) hround
  have hinit : unpatchedAt interrupts 0 = UnpatchedState.init := rfl
  rw [show k + (maxRetryingTimes - k + 1) = maxRetryingTimes + 1 by omega, hinit,
    Nat.zero_add] at hskip
  rw [retryingInvokeUnpatched, hskip, List.range'_succ,
    forRounds_cons_leave (retryRoundUnpatched_leave hlast)]

theorem exists_last_attempt (maxRetryingTimes : ℕ) (script : ℕ → Outcome α τ) :
    ∃ k ≤ maxRetryingTimes, ((script k).isValue = true ∨ k = maxRetryingTimes) ∧
      ∀ j < k, (script j).isValue = false := by
  classical
  have hex : ∃ k, (script k).isValue = true ∨ k = maxRetryingTimes :=
    ⟨maxRetryingTimes, Or.inr rfl⟩
  refine ⟨Nat.find hex, Nat.find_min' hex (Or.inr rfl), Nat.find_spec hex, ?_⟩
  intro j hj
  have hnot := Nat.find_min hex hj
  exact Bool.eq_false_iff.mpr fun hvalue ↦ hnot (Or.inl hvalue)

/-! ## Beside the patched loop -/

theorem stops_iff_refused {i : ℕ} (hlt : i < maxRetryingTimes)
    (hfailure : (script i).isValue = false) :
    Stops ops maxRetryingTimes script i ↔ Refused ops script i := by
  cases houtcome : script i with
  | value a => simp [houtcome, Outcome.isValue] at hfailure
  | failure t =>
      have hlast : i ≠ maxRetryingTimes := hlt.ne
      simp [Stops, Refused, houtcome, hlast]

theorem stops_of_last {k : ℕ} (hlast : (script k).isValue = true ∨ k = maxRetryingTimes) :
    Stops ops maxRetryingTimes script k := by
  rcases hlast with hvalue | rfl
  · cases houtcome : script k with
    | value a => simp [Stops, houtcome]
    | failure t => simp [houtcome, Outcome.isValue] at hvalue
  · exact stops_last ops k script

theorem exists_first_interrupt {m : Moment} (hnow : interrupts m = true) :
    ∃ m' : Moment, m'.time ≤ m.time ∧ interrupts m' = true ∧
      ∀ m'' : Moment, m''.time < m'.time → interrupts m'' = false := by
  classical
  have hex : ∃ n, ∃ m' : Moment, m'.time = n ∧ interrupts m' = true := ⟨m.time, m, rfl, hnow⟩
  obtain ⟨m', htime, hfirst⟩ := Nat.find_spec hex
  refine ⟨m', ?_, hfirst, ?_⟩
  · rw [htime]
    exact Nat.find_min' hex ⟨m, rfl, hnow⟩
  · intro m'' hlt
    have hnot := Nat.find_min hex (htime ▸ hlt)
    exact Bool.eq_false_iff.mpr fun hm'' ↦ hnot ⟨m'', rfl, hm''⟩

theorem range_prefix_range {k n : ℕ} (hle : k ≤ n) : List.range k <+: List.range n := by
  obtain ⟨d, rfl⟩ := Nat.exists_eq_add_of_le hle
  rw [List.range_add]
  exact List.prefix_append _ _

theorem finalExit_ne_returned {i : ℕ} (hfailure : (script i).isValue = false)
    (a : Option α) : finalExit ops (script i) ≠ .returned a := by
  cases houtcome : script i with
  | value b => simp [houtcome, Outcome.isValue] at hfailure
  | failure t => simp [finalExit]

/-- An interrupt that comes before the attempt that stops the loop ends the
call before that attempt, with an exception. -/
theorem retryingInvoke_of_interrupt {k : ℕ} (hle : k ≤ maxRetryingTimes)
    (hfirst : ∀ j < k, ¬ Stops ops maxRetryingTimes script j) {m : Moment}
    (htime : m.time < (Moment.duringAttempt k).time) (hnow : interrupts m = true) :
    ∃ n ≤ k, ∃ e,
      (retryingInvoke ops maxRetryingTimes script interrupts).1.attempts = List.range n ∧
        (retryingInvoke ops maxRetryingTimes script interrupts).2 = .threw e := by
  obtain ⟨m', hm', hnow', hquiet⟩ := exists_first_interrupt hnow
  have hearly : m'.time < 3 * k + 1 := hm'.trans_lt htime
  cases m' with
  | beforeAttempt i =>
      have hi : i ≤ k := by simp only [Moment.time] at hearly; omega
      have hrun := retryingInvoke_of_interrupted_before (hi.trans hle)
        (fun j hj ↦ hfirst j (hj.trans_le hi)) hquiet hnow'
      exact ⟨i, hi, _, congrArg (·.1.attempts) hrun, congrArg Prod.snd hrun⟩
  | duringAttempt i =>
      have hi : i < k := by simp only [Moment.time] at hearly; omega
      obtain ⟨t, -, hrun⟩ := retryingInvoke_of_interrupted_sleep (hi.le.trans hle)
        (fun j hj ↦ hfirst j (hj.trans_lt hi)) hquiet (by rw [hnow', Bool.true_or])
      exact ⟨i + 1, hi, _, congrArg (·.1.attempts) hrun, congrArg Prod.snd hrun⟩
  | duringSleep i =>
      have hi : i < k := by simp only [Moment.time] at hearly; omega
      obtain ⟨t, -, hrun⟩ := retryingInvoke_of_interrupted_sleep (hi.le.trans hle)
        (fun j hj ↦ hfirst j (hj.trans_lt hi))
        (fun m hm ↦ hquiet m (Nat.lt_succ_of_lt hm)) (by rw [hnow', Bool.or_true])
      exact ⟨i + 1, hi, _, congrArg (·.1.attempts) hrun, congrArg Prod.snd hrun⟩

theorem interruptedInRound_of_quiet {i k : ℕ} (hlt : i < k)
    (hquiet : ∀ m : Moment, m.time < (Moment.duringAttempt k).time → interrupts m = false) :
    interruptedInRound interrupts i = false := by
  have hbefore := hquiet (.beforeAttempt i) (by simp only [Moment.time]; omega)
  have hduring := hquiet (.duringAttempt i) (by simp only [Moment.time]; omega)
  have hsleep := hquiet (.duringSleep i) (by simp only [Moment.time]; omega)
  simp [interruptedInRound, hbefore, hduring, hsleep]

theorem sleptBefore_of_quiet {k : ℕ}
    (hquiet : ∀ m : Moment, m.time < (Moment.duringAttempt k).time → interrupts m = false) :
    sleptBefore interrupts k = (List.range k).map sleepTime := by
  unfold sleptBefore
  rw [List.filter_eq_self.mpr]
  intro j hj
  rw [interruptedInRound_of_quiet (List.mem_range.mp hj) hquiet, Bool.not_false]

/-- The attempt that stops the patched loop is one of the old loop's, and the
last one of both only where the patch refuses nothing before. -/
theorem first_stop_le_last {k n : ℕ}
    (hlast : (script n).isValue = true ∨ n = maxRetryingTimes)
    (hfirst : ∀ j < k, ¬ Stops ops maxRetryingTimes script j) : k ≤ n := by
  by_contra hlt
  exact hfirst n (not_le.mp hlt) (stops_of_last hlast)

theorem first_stop_eq_last_iff {k n : ℕ} (hle : n ≤ maxRetryingTimes)
    (hlast : (script n).isValue = true ∨ n = maxRetryingTimes)
    (hfailures : ∀ j < n, (script j).isValue = false)
    (hstops : Stops ops maxRetryingTimes script k)
    (hfirst : ∀ j < k, ¬ Stops ops maxRetryingTimes script j) :
    k = n ↔ ∀ j < n, ¬ Refused ops script j := by
  have hrefused : ∀ j < n, (Stops ops maxRetryingTimes script j ↔ Refused ops script j) :=
    fun j hj ↦ stops_iff_refused (hj.trans_le hle) (hfailures j hj)
  constructor
  · rintro rfl j hj
    exact fun hr ↦ hfirst j hj ((hrefused j hj).mpr hr)
  · intro hnone
    refine le_antisymm (first_stop_le_last hlast hfirst) (not_lt.mp fun hlt ↦ ?_)
    exact hnone k hlt ((hrefused k hlt).mp hstops)

end Loop

/-- The old loop and the patched one, on one script and one run of interrupts.
The old one always goes to its first value or its last attempt and keeps only an
interrupt of that last round.  The patched one makes no attempt the old one does
not make, and returns no value the old one does not return; it makes as many
exactly when the patch refuses none of them and no interrupt comes before the
last has begun, and then nothing else differs either. -/
theorem retryingInvoke_patch (ops : Supplied τ) (maxRetryingTimes : ℕ)
    (script : ℕ → Outcome α τ) (interrupts : Moment → Bool) :
    ∃ n ≤ maxRetryingTimes,
      ((script n).isValue = true ∨ n = maxRetryingTimes) ∧
      (∀ j < n, (script j).isValue = false) ∧
      retryingInvokeUnpatched ops maxRetryingTimes script interrupts =
        (⟨interrupts (.beforeAttempt n) || interrupts (.duringAttempt n),
          List.range (n + 1), sleptBefore interrupts n⟩, finalExit ops (script n)) ∧
      (retryingInvoke ops maxRetryingTimes script interrupts).1.attempts <+:
        (retryingInvokeUnpatched ops maxRetryingTimes script interrupts).1.attempts ∧
      (∀ a, (retryingInvoke ops maxRetryingTimes script interrupts).2 = .returned a →
        (retryingInvokeUnpatched ops maxRetryingTimes script interrupts).2 = .returned a) ∧
      ((retryingInvoke ops maxRetryingTimes script interrupts).1.attempts =
          (retryingInvokeUnpatched ops maxRetryingTimes script interrupts).1.attempts ↔
        (∀ j < n, ¬ Refused ops script j) ∧
          ∀ m : Moment, m.time < (Moment.duringAttempt n).time → interrupts m = false) ∧
      ((retryingInvoke ops maxRetryingTimes script interrupts).1.attempts =
          (retryingInvokeUnpatched ops maxRetryingTimes script interrupts).1.attempts →
        (retryingInvoke ops maxRetryingTimes script interrupts).1.sleeps =
            (retryingInvokeUnpatched ops maxRetryingTimes script interrupts).1.sleeps ∧
          (retryingInvoke ops maxRetryingTimes script interrupts).1.interrupted =
            (retryingInvokeUnpatched ops maxRetryingTimes script interrupts).1.interrupted ∧
          (retryingInvoke ops maxRetryingTimes script interrupts).2 =
            (retryingInvokeUnpatched ops maxRetryingTimes script interrupts).2) := by
  obtain ⟨n, hn, hlast, hfailures⟩ := exists_last_attempt maxRetryingTimes script
  obtain ⟨k, hle, hstops, hfirst⟩ := exists_first_stop ops maxRetryingTimes script
  have hkn : k ≤ n := first_stop_le_last hlast hfirst
  have hold : retryingInvokeUnpatched ops maxRetryingTimes script interrupts =
      (⟨interrupts (.beforeAttempt n) || interrupts (.duringAttempt n),
        List.range (n + 1), sleptBefore interrupts n⟩, finalExit ops (script n)) :=
    retryingInvokeUnpatched_eq hn hlast hfailures
  refine ⟨n, hn, hlast, hfailures, hold, ?_⟩
  rw [hold]
  by_cases hquiet : ∀ m : Moment, m.time < (Moment.duringAttempt k).time → interrupts m = false
  · obtain ⟨_, hnew⟩ := retryingInvoke_of_stops hle hstops hfirst hquiet
    have hattempts : List.range (k + 1) = List.range (n + 1) ↔ k = n :=
      ⟨fun h ↦ by simpa using congrArg List.length h, fun h ↦ by rw [h]⟩
    rw [hnew]
    refine ⟨range_prefix_range (Nat.succ_le_succ hkn), ?_, ?_, ?_⟩
    · intro a ha
      obtain rfl : k = n := by
        refine le_antisymm hkn (not_lt.mp fun hlt ↦ ?_)
        exact finalExit_ne_returned (hfailures k hlt) a ha
      exact ha
    · rw [hattempts, first_stop_eq_last_iff hn hlast hfailures hstops hfirst]
      refine ⟨fun hnone ↦ ⟨hnone, ?_⟩, And.left⟩
      rwa [← (first_stop_eq_last_iff hn hlast hfailures hstops hfirst).mpr hnone]
    · intro h
      obtain rfl : k = n := hattempts.mp h
      have hbefore : interrupts (.beforeAttempt k) = false :=
        hquiet (.beforeAttempt k) (Nat.lt_succ_self _)
      exact ⟨(sleptBefore_of_quiet hquiet).symm, by rw [hbefore, Bool.false_or], rfl⟩
  · push Not at hquiet
    obtain ⟨m, htime, hm⟩ := hquiet
    rw [Bool.ne_false_iff] at hm
    obtain ⟨i, hi, e, hattempts, hexit⟩ := retryingInvoke_of_interrupt hle hfirst htime hm
    -- the old loop makes at least one attempt more
    have hshort : List.range i ≠ List.range (n + 1) := by
      intro h
      have hlength : i = n + 1 := by simpa using congrArg List.length h
      omega
    rw [hattempts, hexit]
    refine ⟨range_prefix_range (by omega), fun a ha ↦ by simp at ha, ?_, fun h ↦ absurd h hshort⟩
    refine ⟨fun h ↦ absurd h hshort, ?_⟩
    rintro ⟨hnone, hnever⟩
    obtain rfl := (first_stop_eq_last_iff hn hlast hfailures hstops hfirst).mpr hnone
    have hfalse := hnever m htime
    rw [hm] at hfalse
    exact absurd hfalse (by decide)

end HugeGraphValidation.StoreClient
