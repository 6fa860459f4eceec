import HugeGraphValidation.Faults.Load
import HugeGraphValidation.Lib.Counts
import HugeGraphValidation.Lib.Numerals

/-!
# The summary of a load

Every request of a load is recorded with the time it ended at and the time it
took.  `Load.summary` describes those that end in a window of time, and a scenario
may ask for several windows of one load.
-/

namespace HugeGraphValidation.Faults

open Lib

inductive LoadKind where
  | w
  | r
  deriving DecidableEq

def LoadEvent.kind : LoadEvent → LoadKind
  | .w _ => .w
  | .r _ => .r

def LoadEvent.status : LoadEvent → ℕ
  | .w st => st
  | .r st => st

/-- One of `self.events`. -/
structure TimedEvent where
  time : ℚ
  event : LoadEvent
  dt : ℚ

/-- The events of a load in their order, each with what the clock shows when it is
recorded. -/
def timedEvents (clock : ℕ → ℚ × ℚ) (s : Load) : List TimedEvent :=
  s.events.zipIdx.map fun e ↦ ⟨(clock e.2).1, e.1, (clock e.2).2⟩

def TimedEvent.ofKind (kind : LoadKind) (e : TimedEvent) : Bool := e.event.kind = kind

def TimedEvent.within (a b : ℚ) (e : TimedEvent) : Bool := a ≤ e.time && e.time ≤ b

def TimedEvent.bad (e : TimedEvent) : Bool := e.event.status ∉ [200, 201]

structure PhaseStats where
  requests : ℕ
  failed : ℕ
  firstFailureS : Option ℚ
  lastFailureS : Option ℚ
  maxLatencyS : ℚ
  codes : List ℕ
  deriving DecidableEq

/-- `stats(kind)` -/
def phaseStats (events : List TimedEvent) (tFault tEnd : ℚ) (kind : LoadKind) : PhaseStats :=
  let ev := events.filter fun e ↦ e.ofKind kind && e.within tFault tEnd
  let bad := ev.filter TimedEvent.bad
  { requests := ev.length
    failed := bad.length
    firstFailureS := (bad.map TimedEvent.time).min?.map fun t ↦ roundTo 1 (t - tFault)
    lastFailureS := (bad.map TimedEvent.time).max?.map fun t ↦ roundTo 1 (t - tFault)
    maxLatencyS := roundTo 1 ((ev.map TimedEvent.dt).max?.getD 0)
    codes := (bad.map fun e ↦ e.event.status).dedup.insertionSort (· ≤ ·) }

structure LoadSummary where
  writes : PhaseStats
  reads : PhaseStats
  deriving DecidableEq

/-- `Load.summary(ld, t_fault, t_end)` -/
def loadSummary (events : List TimedEvent) (tFault tEnd : ℚ) : LoadSummary where
  writes := phaseStats events tFault tEnd .w
  reads := phaseStats events tFault tEnd .r

/-! ## One window -/

section Window

variable {events : List TimedEvent} {a b c : ℚ} {kind : LoadKind}

theorem within_iff {e : TimedEvent} : e.within a b = true ↔ a ≤ e.time ∧ e.time ≤ b := by
  simp [TimedEvent.within]

/-- The failed requests of a window. -/
def failures (events : List TimedEvent) (a b : ℚ) (kind : LoadKind) : List TimedEvent :=
  (events.filter fun e ↦ e.ofKind kind && e.within a b).filter TimedEvent.bad

theorem mem_failures {e : TimedEvent} :
    e ∈ failures events a b kind ↔
      e ∈ events ∧ e.ofKind kind = true ∧ (a ≤ e.time ∧ e.time ≤ b) ∧ e.bad = true := by
  rw [failures, List.mem_filter, List.mem_filter, Bool.and_eq_true, within_iff]
  tauto

theorem requests_eq : (phaseStats events a b kind).requests =
    events.countP fun e ↦ e.ofKind kind && e.within a b := List.countP_eq_length_filter.symm

theorem failed_eq : (phaseStats events a b kind).failed =
    events.countP fun e ↦ (e.bad && e.ofKind kind) && e.within a b := by
  simp only [phaseStats, List.filter_filter, ← List.countP_eq_length_filter, Bool.and_assoc]

theorem failed_eq_zero_iff :
    (phaseStats events a b kind).failed = 0 ↔ failures events a b kind = [] :=
  List.length_eq_zero_iff

theorem mem_codes_iff {st : ℕ} :
    st ∈ (phaseStats events a b kind).codes ↔
      ∃ e ∈ failures events a b kind, e.event.status = st := by
  change st ∈ (((failures events a b kind).map fun e ↦ e.event.status).dedup.insertionSort _) ↔ _
  rw [List.mem_insertionSort, List.mem_dedup, List.mem_map]

theorem firstFailureS_eq_some {e : TimedEvent} (he : e ∈ failures events a b kind)
    (hfirst : ∀ e' ∈ failures events a b kind, e.time ≤ e'.time) :
    (phaseStats events a b kind).firstFailureS = some (roundTo 1 (e.time - a)) := by
  change ((failures events a b kind).map TimedEvent.time).min?.map _ = _
  have hmin : ((failures events a b kind).map TimedEvent.time).min? = some e.time := by
    rw [List.min?_eq_some_iff]
    exact ⟨List.mem_map_of_mem he, List.forall_mem_map.mpr hfirst⟩
  rw [hmin, Option.map_some]

theorem lastFailureS_eq_some {e : TimedEvent} (he : e ∈ failures events a b kind)
    (hlast : ∀ e' ∈ failures events a b kind, e'.time ≤ e.time) :
    (phaseStats events a b kind).lastFailureS = some (roundTo 1 (e.time - a)) := by
  change ((failures events a b kind).map TimedEvent.time).max?.map _ = _
  have hmax : ((failures events a b kind).map TimedEvent.time).max? = some e.time := by
    rw [List.max?_eq_some_iff]
    exact ⟨List.mem_map_of_mem he, List.forall_mem_map.mpr hlast⟩
  rw [hmax, Option.map_some]

theorem exists_firstFailure (h : failures events a b kind ≠ []) :
    ∃ e ∈ failures events a b kind, ∀ e' ∈ failures events a b kind, e.time ≤ e'.time := by
  cases hmin : ((failures events a b kind).map TimedEvent.time).min? with
  | none => exact absurd (List.map_eq_nil_iff.mp (List.min?_eq_none_iff.mp hmin)) h
  | some t =>
      obtain ⟨hmem, hle⟩ := List.min?_eq_some_iff.mp hmin
      obtain ⟨e, he, rfl⟩ := List.mem_map.mp hmem
      exact ⟨e, he, fun e' he' ↦ hle _ (List.mem_map_of_mem he')⟩

theorem exists_lastFailure (h : failures events a b kind ≠ []) :
    ∃ e ∈ failures events a b kind, ∀ e' ∈ failures events a b kind, e'.time ≤ e.time := by
  cases hmax : ((failures events a b kind).map TimedEvent.time).max? with
  | none => exact absurd (List.map_eq_nil_iff.mp (List.max?_eq_none_iff.mp hmax)) h
  | some t =>
      obtain ⟨hmem, hle⟩ := List.max?_eq_some_iff.mp hmax
      obtain ⟨e, he, rfl⟩ := List.mem_map.mp hmem
      exact ⟨e, he, fun e' he' ↦ hle _ (List.mem_map_of_mem he')⟩

/-- The latencies of a window are bounded by a number that is not negative exactly
when `max_latency_s` is, before it is rounded. -/
def maxLatency (events : List TimedEvent) (a b : ℚ) (kind : LoadKind) : ℚ :=
  (((events.filter fun e ↦ e.ofKind kind && e.within a b).map TimedEvent.dt).max?).getD 0

theorem maxLatency_le_iff {bound : ℚ} (hbound : 0 ≤ bound) :
    maxLatency events a b kind ≤ bound ↔
      ∀ e ∈ events, e.ofKind kind = true → (a ≤ e.time ∧ e.time ≤ b) → e.dt ≤ bound := by
  have hmem : ∀ {e}, e ∈ events.filter (fun e ↦ e.ofKind kind && e.within a b) ↔
      e ∈ events ∧ e.ofKind kind = true ∧ (a ≤ e.time ∧ e.time ≤ b) := by
    intro e
    rw [List.mem_filter, Bool.and_eq_true, within_iff]
  unfold maxLatency
  cases hmax : ((events.filter fun e ↦ e.ofKind kind && e.within a b).map TimedEvent.dt).max? with
  | none =>
      have hnil := List.map_eq_nil_iff.mp (List.max?_eq_none_iff.mp hmax)
      refine iff_of_true hbound fun e he hkind hwithin ↦ ?_
      have hin := hmem.mpr ⟨he, hkind, hwithin⟩
      rw [hnil] at hin
      cases hin
  | some t =>
      obtain ⟨ht, hle⟩ := List.max?_eq_some_iff.mp hmax
      obtain ⟨e, he, rfl⟩ := List.mem_map.mp ht
      constructor
      · intro h e' he' hkind hwithin
        exact (hle _ (List.mem_map_of_mem (hmem.mpr ⟨he', hkind, hwithin⟩))).trans h
      · intro h
        obtain ⟨he, hkind, hwithin⟩ := hmem.mp he
        exact h e he hkind hwithin

theorem maxLatency_nonneg (hdt : ∀ e ∈ events, 0 ≤ e.dt) :
    0 ≤ maxLatency events a b kind := by
  unfold maxLatency
  cases hmax : ((events.filter fun e ↦ e.ofKind kind && e.within a b).map TimedEvent.dt).max? with
  | none => exact le_rfl
  | some t =>
      obtain ⟨e, he, rfl⟩ := List.mem_map.mp (List.max?_eq_some_iff.mp hmax).1
      exact hdt e (List.mem_filter.mp he).1

theorem maxLatencyS_eq :
    (phaseStats events a b kind).maxLatencyS = roundTo 1 (maxLatency events a b kind) := rfl

end Window

/-! ## Two windows that meet -/

section Phases

variable {events : List TimedEvent} {a b c : ℚ} {kind : LoadKind}

theorem within_of_le (hac : a ≤ c) (hcb : c ≤ b) (e : TimedEvent) :
    (a ≤ e.time ∧ e.time ≤ b) ↔ (a ≤ e.time ∧ e.time ≤ c) ∨ (c ≤ e.time ∧ e.time ≤ b) := by
  constructor
  · rintro ⟨ha, hb⟩
    exact (le_total e.time c).imp (fun h ↦ ⟨ha, h⟩) fun h ↦ ⟨h, hb⟩
  · rintro (⟨ha, hc⟩ | ⟨hc, hb⟩)
    · exact ⟨ha, hc.trans hcb⟩
    · exact ⟨hac.trans hc, hb⟩

/-- What ends at the moment between two windows is in both of them. -/
theorem countP_phases (hac : a ≤ c) (hcb : c ≤ b) (p : TimedEvent → Bool) :
    (events.countP fun e ↦ p e && e.within a b) + (events.countP fun e ↦ p e && e.time = c) =
      (events.countP fun e ↦ p e && e.within a c) +
        events.countP fun e ↦ p e && e.within c b := by
  induction events with
  | nil => rfl
  | cons e events ih =>
      simp only [List.countP_cons]
      have hwindow := within_of_le hac hcb e
      have hboth : (a ≤ e.time ∧ e.time ≤ c) ∧ (c ≤ e.time ∧ e.time ≤ b) ↔ e.time = c := by
        constructor
        · rintro ⟨⟨-, hle⟩, hge, -⟩
          exact le_antisymm hle hge
        · rintro rfl
          exact ⟨⟨hac, le_rfl⟩, le_rfl, hcb⟩
      simp only [Bool.and_eq_true, within_iff, hwindow, ← hboth, decide_eq_true_iff]
      by_cases hp : p e = true <;> by_cases hl : a ≤ e.time ∧ e.time ≤ c <;>
        by_cases hr : c ≤ e.time ∧ e.time ≤ b <;> simp [hp, hl, hr] <;> omega

theorem mem_failures_phases (hac : a ≤ c) (hcb : c ≤ b) {e : TimedEvent} :
    e ∈ failures events a b kind ↔
      e ∈ failures events a c kind ∨ e ∈ failures events c b kind := by
  rw [mem_failures, mem_failures, mem_failures, within_of_le hac hcb]
  tauto

theorem failures_of_none_after (hac : a ≤ c) (hcb : c ≤ b) (h : failures events c b kind = []) :
    failures events a b kind = failures events a c kind := by
  rw [failures, failures, List.filter_filter, List.filter_filter]
  refine List.filter_congr fun e he ↦ ?_
  have hnone : e ∉ failures events c b kind := by simp [h]
  rw [mem_failures] at hnone
  rw [Bool.eq_iff_iff]
  simp only [Bool.and_eq_true, within_iff, within_of_le hac hcb]
  tauto

theorem maxLatency_phases (hac : a ≤ c) (hcb : c ≤ b) (hdt : ∀ e ∈ events, 0 ≤ e.dt) :
    maxLatency events a b kind =
      max (maxLatency events a c kind) (maxLatency events c b kind) := by
  have hwhole : ∀ {bound : ℚ}, 0 ≤ bound → (maxLatency events a b kind ≤ bound ↔
      max (maxLatency events a c kind) (maxLatency events c b kind) ≤ bound) := by
    intro bound hbound
    rw [max_le_iff, maxLatency_le_iff hbound, maxLatency_le_iff hbound, maxLatency_le_iff hbound,
      ← forall₂_and]
    refine forall₂_congr fun e _ ↦ ?_
    rw [within_of_le hac hcb, ← forall_and, ← or_imp]
  apply le_antisymm
  · exact (hwhole (le_max_of_le_left (maxLatency_nonneg hdt))).mpr le_rfl
  · exact (hwhole (maxLatency_nonneg hdt)).mp le_rfl

end Phases

/-- What the summaries of two windows that meet say of the window they make up. -/
structure Phases (events : List TimedEvent) (tFault tCont tEnd : ℚ) (kind : LoadKind) :
    Prop where
  requests : (phaseStats events tFault tEnd kind).requests +
      (events.countP fun e ↦ e.ofKind kind && e.time = tCont) =
    (phaseStats events tFault tCont kind).requests + (phaseStats events tCont tEnd kind).requests
  failed : (phaseStats events tFault tEnd kind).failed +
      (events.countP fun e ↦ (e.bad && e.ofKind kind) && e.time = tCont) =
    (phaseStats events tFault tCont kind).failed + (phaseStats events tCont tEnd kind).failed
  codes : ∀ st, st ∈ (phaseStats events tFault tEnd kind).codes ↔
    st ∈ (phaseStats events tFault tCont kind).codes ∨
      st ∈ (phaseStats events tCont tEnd kind).codes
  maxLatencyS : (phaseStats events tFault tEnd kind).maxLatencyS =
    max (phaseStats events tFault tCont kind).maxLatencyS
      (phaseStats events tCont tEnd kind).maxLatencyS
  first : (phaseStats events tFault tCont kind).failed ≠ 0 →
    (phaseStats events tFault tEnd kind).firstFailureS =
      (phaseStats events tFault tCont kind).firstFailureS
  first_after : (phaseStats events tFault tCont kind).failed = 0 →
    (phaseStats events tCont tEnd kind).failed ≠ 0 →
      ∃ t, tCont ≤ t ∧ t ≤ tEnd ∧
        (phaseStats events tFault tEnd kind).firstFailureS = some (roundTo 1 (t - tFault)) ∧
        (phaseStats events tCont tEnd kind).firstFailureS = some (roundTo 1 (t - tCont))
  last : (phaseStats events tCont tEnd kind).failed = 0 →
    (phaseStats events tFault tEnd kind).lastFailureS =
      (phaseStats events tFault tCont kind).lastFailureS
  last_after : (phaseStats events tCont tEnd kind).failed ≠ 0 →
    ∃ t, tCont ≤ t ∧ t ≤ tEnd ∧
      (phaseStats events tFault tEnd kind).lastFailureS = some (roundTo 1 (t - tFault)) ∧
      (phaseStats events tCont tEnd kind).lastFailureS = some (roundTo 1 (t - tCont))

/-- The summaries that `store_stall` makes of one load: during the stall, after it,
and of both. -/
theorem load_summary_phases (events : List TimedEvent) (tFault tCont tEnd : ℚ)
    (kind : LoadKind) (hcont : tFault ≤ tCont) (hend : tCont ≤ tEnd)
    (hdt : ∀ e ∈ events, 0 ≤ e.dt) : Phases events tFault tCont tEnd kind where
  requests := by
    rw [requests_eq, requests_eq, requests_eq]
    exact countP_phases hcont hend _
  failed := by
    rw [failed_eq, failed_eq, failed_eq]
    exact countP_phases hcont hend _
  codes := by
    intro st
    simp only [mem_codes_iff, mem_failures_phases hcont hend, or_and_right, exists_or]
  maxLatencyS := by
    rw [maxLatencyS_eq, maxLatencyS_eq, maxLatencyS_eq, maxLatency_phases hcont hend hdt,
      roundTo_max]
  first := by
    intro hfailed
    obtain ⟨e, he, hfirst⟩ := exists_firstFailure (mt failed_eq_zero_iff.mpr hfailed)
    rw [firstFailureS_eq_some he hfirst]
    refine firstFailureS_eq_some ((mem_failures_phases hcont hend).mpr (Or.inl he)) ?_
    intro e' he'
    rcases (mem_failures_phases hcont hend).mp he' with he' | he'
    · exact hfirst e' he'
    · exact (mem_failures.mp he).2.2.1.2.trans (mem_failures.mp he').2.2.1.1
  first_after := by
    intro hnone hfailed
    obtain ⟨e, he, hfirst⟩ := exists_firstFailure (mt failed_eq_zero_iff.mpr hfailed)
    obtain ⟨hge, hle⟩ := (mem_failures.mp he).2.2.1
    refine ⟨e.time, hge, hle, ?_, firstFailureS_eq_some he hfirst⟩
    refine firstFailureS_eq_some ((mem_failures_phases hcont hend).mpr (Or.inr he)) ?_
    intro e' he'
    rcases (mem_failures_phases hcont hend).mp he' with he' | he'
    · rw [failed_eq_zero_iff.mp hnone] at he'
      cases he'
    · exact hfirst e' he'
  last := by
    intro hnone
    have hsame := failures_of_none_after hcont hend (failed_eq_zero_iff.mp hnone)
    change ((failures events tFault tEnd kind).map TimedEvent.time).max?.map _ = _
    rw [hsame]
    rfl
  last_after := by
    intro hfailed
    obtain ⟨e, he, hlast⟩ := exists_lastFailure (mt failed_eq_zero_iff.mpr hfailed)
    obtain ⟨hge, hle⟩ := (mem_failures.mp he).2.2.1
    refine ⟨e.time, hge, hle, ?_, lastFailureS_eq_some he hlast⟩
    refine lastFailureS_eq_some ((mem_failures_phases hcont hend).mpr (Or.inr he)) ?_
    intro e' he'
    rcases (mem_failures_phases hcont hend).mp he' with he' | he'
    · exact (mem_failures.mp he').2.2.1.2.trans hge
    · exact hlast e' he'

def stalled : List TimedEvent :=
  [⟨1, .w 201, 1 / 10⟩, ⟨5, .w 500, 3⟩, ⟨10, .w 0, 130⟩, ⟨12, .w 201, 1 / 5⟩]

theorem load_summary_phases_stalled :
    (phaseStats stalled 2 20 .w).maxLatencyS = 130 ∧
      (phaseStats stalled 2 20 .w).firstFailureS = some 3 := by
  have hphases := load_summary_phases stalled 2 10 20 .w (by norm_num) (by norm_num)
    (by simp [stalled])
  exact ⟨hphases.maxLatencyS.trans (by decide +kernel),
    (hphases.first (by decide +kernel)).trans (by decide +kernel)⟩

/-! ## The steps of a rolling upgrade -/

/-- A component of the upgrade: how many events there were when it had rolled out,
and the times it began and had rolled out at. -/
structure RolloutStep where
  seen : ℕ
  tStep : ℚ
  tNow : ℚ

def RolloutStep.stats (events : List TimedEvent) (kind : LoadKind) (s : RolloutStep) :
    PhaseStats := phaseStats (events.take s.seen) s.tStep s.tNow kind

section Rollout

variable {events : List TimedEvent} {steps : List RolloutStep} {tStart tEnd : ℚ}

theorem sum_countP_steps_le (hdisjoint : steps.Pairwise fun s s' ↦ s.tNow < s'.tStep)
    (hinside : ∀ s ∈ steps, tStart ≤ s.tStep ∧ s.tNow ≤ tEnd) (p : TimedEvent → Bool) :
    (steps.map fun s ↦ (events.take s.seen).countP fun e ↦ p e && e.within s.tStep s.tNow).sum ≤
      events.countP fun e ↦ p e && e.within tStart tEnd := by
  have htake : ∀ s ∈ steps,
      (events.take s.seen).countP (fun e ↦ p e && e.within s.tStep s.tNow) ≤
        events.countP fun e ↦ p e && e.within s.tStep s.tNow :=
    fun s _ ↦ (List.take_sublist s.seen events).countP_le
  refine (List.sum_le_sum htake).trans ?_
  have hwindows : (steps.map fun s e ↦ p e && TimedEvent.within s.tStep s.tNow e).Pairwise
      fun q r ↦ ∀ e, q e = true → r e = false := by
    rw [List.pairwise_map]
    refine hdisjoint.imp fun {s s'} hlt e he ↦ ?_
    rw [Bool.and_eq_true, within_iff] at he
    have hnot : ¬ (s'.tStep ≤ e.time ∧ e.time ≤ s'.tNow) :=
      fun h ↦ absurd (he.2.2.trans_lt hlt) (not_lt.mpr h.1)
    rw [← within_iff, Bool.not_eq_true] at hnot
    simp only [hnot, Bool.and_false]
  have hsum := sum_countP_of_disjoint hwindows events
  rw [List.map_map] at hsum
  refine hsum.le.trans (List.countP_mono_left fun e _ he ↦ ?_)
  obtain ⟨q, hq, hqe⟩ := List.any_eq_true.mp he
  obtain ⟨s, hs, rfl⟩ := List.mem_map.mp hq
  rw [Bool.and_eq_true, within_iff] at hqe ⊢
  obtain ⟨hstart, hend⟩ := hinside s hs
  exact ⟨hqe.1, hstart.trans hqe.2.1, hqe.2.2.trans hend⟩

theorem failures_step_subset {s : RolloutStep} (hs : tStart ≤ s.tStep ∧ s.tNow ≤ tEnd)
    {kind : LoadKind} {e : TimedEvent}
    (he : e ∈ failures (events.take s.seen) s.tStep s.tNow kind) :
    e ∈ failures events tStart tEnd kind := by
  rw [mem_failures] at he ⊢
  obtain ⟨hmem, hkind, ⟨hge, hle⟩, hbad⟩ := he
  exact ⟨List.mem_of_mem_take hmem, hkind, ⟨hs.1.trans hge, hle.trans hs.2⟩, hbad⟩

end Rollout

/-- The summaries of the steps of a rolling upgrade against the one of its whole
load: no request is counted twice, and no status or latency is lost. -/
theorem rolling_upgrade_steps (events : List TimedEvent) (steps : List RolloutStep)
    (tStart tEnd : ℚ) (kind : LoadKind)
    (hdisjoint : steps.Pairwise fun s s' ↦ s.tNow < s'.tStep)
    (hinside : ∀ s ∈ steps, tStart ≤ s.tStep ∧ s.tNow ≤ tEnd) (hdt : ∀ e ∈ events, 0 ≤ e.dt) :
    (steps.map fun s ↦ (s.stats events kind).requests).sum ≤
        (phaseStats events tStart tEnd kind).requests ∧
      (steps.map fun s ↦ (s.stats events kind).failed).sum ≤
        (phaseStats events tStart tEnd kind).failed ∧
      ∀ s ∈ steps,
        (∀ st ∈ (s.stats events kind).codes, st ∈ (phaseStats events tStart tEnd kind).codes) ∧
        (s.stats events kind).maxLatencyS ≤ (phaseStats events tStart tEnd kind).maxLatencyS := by
  refine ⟨?_, ?_, fun s hs ↦ ⟨fun st hst ↦ ?_, roundTo_mono 1 ?_⟩⟩
  · simp only [RolloutStep.stats, requests_eq]
    exact sum_countP_steps_le hdisjoint hinside _
  · simp only [RolloutStep.stats, failed_eq]
    exact sum_countP_steps_le hdisjoint hinside _
  · obtain ⟨e, he, rfl⟩ := mem_codes_iff.mp hst
    exact mem_codes_iff.mpr ⟨e, failures_step_subset (hinside s hs) he, rfl⟩
  · refine (maxLatency_le_iff (maxLatency_nonneg hdt)).mpr fun e he hkind hwithin ↦ ?_
    have hwhole := (maxLatency_le_iff (maxLatency_nonneg hdt)).mp
      (le_refl (maxLatency events tStart tEnd kind))
    exact hwhole e (List.mem_of_mem_take he) hkind
      ⟨(hinside s hs).1.trans hwithin.1, hwithin.2.trans (hinside s hs).2⟩

theorem rolling_upgrade_steps_two :
    (([⟨2, 0, 6⟩, ⟨4, 8, 15⟩] : List RolloutStep).map
      fun s ↦ (s.stats stalled .w).requests).sum ≤ (phaseStats stalled 0 20 .w).requests :=
  (rolling_upgrade_steps stalled [⟨2, 0, 6⟩, ⟨4, 8, 15⟩] 0 20 .w (by norm_num) (by norm_num)
    (by simp [stalled])).1

/-! ## The summary and the ledger -/

section Ledger

variable {tag : String} {edgesPerVertex : ℕ}

/-- What a round records. -/
def roundEvents (edgesPerVertex : ℕ) (i : LoadRound) : List LoadEvent :=
  match i.write with
  | none => []
  | some st =>
      .w st :: ((i.read.bind (readStatus edgesPerVertex)).map LoadEvent.r).toList

theorem events_round (i : LoadRound) (s : Load) :
    (Load.round tag edgesPerVertex i s).state.events =
      s.events ++ roundEvents edgesPerVertex i := by
  cases hwrite : i.write with
  | none => simp [Load.round, hwrite, Round.state, roundEvents]
  | some st =>
      cases hread : i.read.bind (readStatus edgesPerVertex) with
      | none =>
          by_cases hst : st = 201 <;>
            simp [Load.round, hwrite, hread, hst, Round.state, roundEvents]
      | some st' =>
          by_cases hst : st = 201 <;>
            simp [Load.round, hwrite, hread, hst, Round.state, roundEvents]

theorem count_roundEvents (i : LoadRound) :
    (roundEvents edgesPerVertex i).count (.w 201) = if i.write = some 201 then 1 else 0 := by
  cases hwrite : i.write with
  | none => simp [roundEvents, hwrite]
  | some st =>
      cases hread : i.read.bind (readStatus edgesPerVertex) <;>
        by_cases hst : st = 201 <;> simp [roundEvents, hwrite, hread, hst]

/-- Twenty names are acknowledged for each write that was answered 201, and all
are names of batches posted so far. -/
structure Load.Counted (tag : String) (s : Load) : Prop where
  names : ∀ name ∈ Dict.keys s.acked, ∃ n ≤ s.n, ∃ k, name = loadName tag n k
  length : s.acked.length = 20 * s.events.count (.w 201)

theorem length_acknowledge {n : ℕ} {acked : List (String × ℤ)}
    (hfresh : ∀ name ∈ Dict.keys acked, ∃ m ≤ n, ∃ k, name = loadName tag m k) :
    (acknowledge (loadBatch tag (n + 1)) acked).length = acked.length + 20 := by
  have hkeys : Dict.keys ((loadBatch tag (n + 1)).map fun d ↦ (d.name, (d.w : ℤ))) =
      (List.range 20).map fun k ↦ loadName tag (n + 1) k := by
    simp [Dict.keys, loadBatch]
  rw [acknowledge, Dict.length_update_of_fresh]
  · simp [loadBatch]
  · rw [hkeys]
    exact List.nodup_range.map fun k k' h ↦ (loadName_inj.mp h).2.2
  · intro name hname hacked
    rw [hkeys] at hname
    obtain ⟨k, -, rfl⟩ := List.mem_map.mp hname
    obtain ⟨m, hm, k', h⟩ := hfresh _ hacked
    have heq := (loadName_inj.mp h).2.1
    omega

theorem Load.Counted.round {s : Load} (h : s.Counted tag) (i : LoadRound) :
    (Load.round tag edgesPerVertex i s).state.Counted tag := by
  have hevents : (Load.round tag edgesPerVertex i s).state.events =
      s.events ++ roundEvents edgesPerVertex i := events_round i s
  obtain ⟨events, hstate⟩ := state_round tag edgesPerVertex i s
  rw [hstate] at hevents ⊢
  obtain rfl : events = s.events ++ roundEvents edgesPerVertex i := hevents
  constructor
  · intro name hname
    dsimp only at hname ⊢
    split at hname
    · rcases (keys_acknowledge _ _ _).mp hname with hname | ⟨d, hd, rfl⟩
      · obtain ⟨n, hn, hk⟩ := h.names name hname
        exact ⟨n, hn.trans (Nat.le_succ _), hk⟩
      · obtain ⟨k, -, rfl⟩ := List.mem_map.mp hd
        exact ⟨s.n + 1, le_rfl, k, rfl⟩
    · obtain ⟨n, hn, hk⟩ := h.names name hname
      exact ⟨n, hn.trans (Nat.le_succ _), hk⟩
  · dsimp only
    rw [List.count_append, count_roundEvents]
    split
    · rw [length_acknowledge h.names, h.length]
      omega
    · rw [h.length]
      omega

theorem counted_run (tag : String) (edgesPerVertex : ℕ) (rounds : List LoadRound) :
    (Load.run tag edgesPerVertex rounds).Counted tag := by
  apply forRounds_state
  · intro i _ s hs
    exact hs.round i
  · exact ⟨by simp [Load.init, Dict.keys], rfl⟩

theorem countP_timedEvents (clock : ℕ → ℚ × ℚ) (s : Load) (event : LoadEvent) :
    (timedEvents clock s).countP (fun e ↦ e.event = event) = s.events.count event := by
  have hevents : (timedEvents clock s).map TimedEvent.event = s.events := by
    rw [timedEvents, List.map_map]
    exact List.zipIdx_map_fst 0 s.events
  rw [List.count_eq_countP]
  conv_rhs => rw [← hevents, List.countP_map]
  exact List.countP_congr fun e _ ↦ by simp

/-- A write up to the end of the window is answered 201 before the window, or it is
in the window: as failed, or with 200, or with 201. -/
theorem write_cases {e : TimedEvent} {a b : ℚ} (hle : e.time ≤ b) :
    (decide (e.event = .w 201)).toNat + (decide (e.event = .w 200) && e.within a b).toNat +
        ((e.bad && e.ofKind .w) && e.within a b).toNat =
      (decide (e.event = .w 201) && decide (e.time < a)).toNat +
        (e.ofKind .w && e.within a b).toNat := by
  have hwithin : e.within a b = decide (a ≤ e.time) := by
    simp [TimedEvent.within, hle]
  have hbefore : decide (e.time < a) = !decide (a ≤ e.time) := by
    rw [← decide_not]
    exact decide_eq_decide.mpr not_le.symm
  rw [hwithin, hbefore]
  obtain ⟨time, event, dt⟩ := e
  cases event with
  | r st => simp [TimedEvent.ofKind, LoadEvent.kind]
  | w st =>
      by_cases h200 : st = 200
      · simp [TimedEvent.bad, TimedEvent.ofKind, LoadEvent.kind, LoadEvent.status, h200]
      · by_cases h201 : st = 201
        · cases hin : decide (a ≤ time) <;>
            simp [TimedEvent.bad, TimedEvent.ofKind, LoadEvent.kind, LoadEvent.status, h201]
        · simp [TimedEvent.bad, TimedEvent.ofKind, LoadEvent.kind, LoadEvent.status, h200, h201]

theorem countP_writes {events : List TimedEvent} {a b : ℚ} (hle : ∀ e ∈ events, e.time ≤ b) :
    events.countP (fun e ↦ e.event = .w 201) +
        events.countP (fun e ↦ e.event = .w 200 && e.within a b) +
        events.countP (fun e ↦ (e.bad && e.ofKind .w) && e.within a b) =
      events.countP (fun e ↦ e.event = .w 201 && e.time < a) +
        events.countP fun e ↦ e.ofKind .w && e.within a b := by
  induction events with
  | nil => rfl
  | cons e events ih =>
      have ih := ih fun e' he' ↦ hle e' (List.mem_cons_of_mem e he')
      have hcases := write_cases (a := a) (hle e List.mem_cons_self)
      simp only [countP_cons_toNat]
      omega

end Ledger

/-- The ledger of a load and its summary: a load that has ended by the end of the
window has acknowledged twenty names for each write that is in the summary and has
not failed, or was answered 201 before; only an answer 200 is no failure and
acknowledges nothing. -/
theorem load_summary_ledger (tag : String) (edgesPerVertex : ℕ) (rounds : List LoadRound)
    (clock : ℕ → ℚ × ℚ) (tFault tEnd : ℚ)
    (hended : ∀ e ∈ timedEvents clock (Load.run tag edgesPerVertex rounds), e.time ≤ tEnd) :
    (Load.run tag edgesPerVertex rounds).acked.length +
        20 * ((timedEvents clock (Load.run tag edgesPerVertex rounds)).countP
            (fun e ↦ e.event = .w 200 && e.within tFault tEnd) +
          (loadSummary (timedEvents clock (Load.run tag edgesPerVertex rounds))
            tFault tEnd).writes.failed) =
      20 * ((timedEvents clock (Load.run tag edgesPerVertex rounds)).countP
          (fun e ↦ e.event = .w 201 && e.time < tFault) +
        (loadSummary (timedEvents clock (Load.run tag edgesPerVertex rounds))
          tFault tEnd).writes.requests) := by
  have hwrites := countP_writes (a := tFault) hended
  rw [countP_timedEvents] at hwrites
  rw [(counted_run tag edgesPerVertex rounds).length, loadSummary, failed_eq, requests_eq]
  omega

/-- One write before the window, one in it, and one that fails there. -/
def threeWrites : List LoadRound :=
  [⟨some 201, some ⟨200, "", some 5⟩⟩, ⟨some 201, some ⟨200, "", some 5⟩⟩,
    ⟨some 500, some ⟨200, "", some 5⟩⟩]

theorem load_summary_ledger_three :
    (Load.run "crash" 5 threeWrites).acked.length + 20 * (0 + 1) = 20 * (1 + 2) :=
  load_summary_ledger "crash" 5 threeWrites (fun i ↦ (i, 1)) 1 10 (by decide +kernel)

end HugeGraphValidation.Faults
