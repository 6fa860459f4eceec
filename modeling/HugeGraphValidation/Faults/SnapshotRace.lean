import HugeGraphValidation.Faults.Battery

/-!
# A snapshot during a compaction

`k3s_3164.py` starts a compaction on a Store, asks for a snapshot and kills the
Store.  The attempt counts only if the race has fired, which a line of the Store's
log is to prove.  It reads the log of the running container from some seconds back,
and the whole log of the container that was killed.
-/

namespace HugeGraphValidation.Faults

open Lib

structure LogLine where
  time : ℚ
  text : String

/-- A container's log when it is served, and the time at which the harness has
computed how far back it asks. -/
structure LogRead where
  log : List LogLine
  asked : ℚ
  served : ℚ

/-- `store_log(f"{int(time.time() - t_start) + 5}s")` -/
def LogRead.lines (r : LogRead) (tStart : ℚ) : List LogLine :=
  let since := (r.asked - tStart).floor + 5
  r.log.filter fun l ↦ r.served - since ≤ l.time

/-- `partition_state`: the list of the answer, or its body. -/
inductive PartitionState where
  | listed (partitions : List (ℕ × String))
  | body (text : String)

def PartitionState.normal : PartitionState → Bool
  | .listed partitions => partitions.any fun p ↦ p.2 = "PState_Normal"
  | .body _ => false

/-- What the calls of an attempt return; `previous` is the whole log of the container
before the restart. -/
structure AttemptObs where
  part : ℕ
  pod : String
  gapMs : ℕ
  tStart : ℚ
  tKill : ℚ
  preKill : LogRead
  restarted : LogRead
  previous : List LogLine
  snapshotsDuring : List String
  snapshotsAfterKill : List String
  snapshotsFinal : List String
  back : Option ℚ
  state : PartitionState

/-- The record that is written. -/
structure Attempt where
  part : ℕ
  pod : String
  gapMs : ℕ
  snapshotsDuring : List String
  snapshotsAfterKill : List String
  snapshotsFinal : List String
  stateAfter : PartitionState
  readyAgainS : Option ℚ
  raceFired : Bool
  busyLines : List String
  compactionLines : List String
  corruptLines : List String
  errorCount : ℕ
  errors : List String
  metaOnlyDirs : List String
  verdict : Verdict

def LogLine.busy (l : LogLine) : Bool :=
  mentions "compaction in progress" l.text || mentions "EBUSY" l.text

def LogLine.compaction (part : ℕ) (l : LogLine) : Bool :=
  mentions ("Partition " ++ toString part) l.text && mentions "dbCompaction" l.text

def LogLine.corrupt (l : LogLine) : Bool :=
  mentions "snapshot is corrupt" l.text || mentions "data dir" l.text && mentions "missing" l.text

/-- `pre_kill + "\n" + prev` -/
def AttemptObs.evidenceLines (o : AttemptObs) : List LogLine :=
  o.preKill.lines o.tStart ++ o.previous

def attempt (o : AttemptObs) : Attempt :=
  let lg := o.restarted.lines o.tStart
  let busy := o.evidenceLines.filter LogLine.busy
  let compaction := o.evidenceLines.filter (LogLine.compaction o.part)
  let corrupt := lg.filter LogLine.corrupt
  let errors := lg.filter fun l ↦ mentions "[ERROR]" l.text
  let metaOnly := o.snapshotsFinal.filter fun d ↦ mentions "meta=yes" d && mentions "data=NO" d
  let ok := metaOnly.isEmpty && corrupt.isEmpty && o.back.isSome && o.state.normal
  { part := o.part
    pod := o.pod
    gapMs := o.gapMs
    snapshotsDuring := o.snapshotsDuring
    snapshotsAfterKill := o.snapshotsAfterKill
    snapshotsFinal := o.snapshotsFinal
    stateAfter := o.state
    readyAgainS := o.back
    raceFired := !busy.isEmpty
    busyLines := (busy.take 3).map LogLine.text
    compactionLines := (compaction.drop (compaction.length - 4)).map fun l ↦ clip 160 l.text
    corruptLines := (corrupt.take 3).map LogLine.text
    errorCount := errors.length
    errors := (errors.take 5).map fun l ↦ clip 200 l.text
    metaOnlyDirs := metaOnly
    verdict := if busy.isEmpty then .inconclusive else if ok then .pass else .fail }

/-! ## What the race rests on -/

/-- A line of either log from between the submission and the kill. -/
def AttemptObs.Evidence (o : AttemptObs) : Prop :=
  ∃ l ∈ o.preKill.log ++ o.previous, l.busy = true ∧ o.tStart ≤ l.time ∧ l.time ≤ o.tKill

/-- A line is read, of any age in the log of the killed container, or from the last seconds
of the running one, and all such lines of both logs were written at another time. -/
def AttemptObs.OnlyStale (o : AttemptObs) : Prop :=
  ((∃ l ∈ o.previous, l.busy = true) ∨
    ∃ l ∈ o.preKill.log, l.busy = true ∧
      o.preKill.served - ((o.preKill.asked - o.tStart).floor + 5) ≤ l.time) ∧
  ∀ l ∈ o.preKill.log ++ o.previous, l.busy = true → l.time < o.tStart ∨ o.tKill < l.time

theorem mem_lines {r : LogRead} {tStart : ℚ} {l : LogLine} :
    l ∈ r.lines tStart ↔
      l ∈ r.log ∧ r.served - ((r.asked - tStart).floor + 5) ≤ l.time := by
  simp [LogRead.lines]

/-- A line of the running container is at most five seconds older than the
submission. -/
theorem time_of_mem_lines {r : LogRead} {tStart : ℚ} (hserved : r.asked ≤ r.served) {l : LogLine}
    (hl : l ∈ r.lines tStart) : tStart - 5 ≤ l.time := by
  have htime := (mem_lines.mp hl).2
  have hfloor : ((r.asked - tStart).floor : ℚ) ≤ r.asked - tStart := Rat.floor_le _
  linarith

theorem raceFired_iff (o : AttemptObs) :
    (attempt o).raceFired = true ↔ ∃ l ∈ o.evidenceLines, l.busy = true := by
  simp [attempt]

/-- The race fires on what is read of the two logs. -/
theorem raceFired_iff_read (o : AttemptObs) :
    (attempt o).raceFired = true ↔
      (∃ l ∈ o.previous, l.busy = true) ∨
        ∃ l ∈ o.preKill.log, l.busy = true ∧
          o.preKill.served - ((o.preKill.asked - o.tStart).floor + 5) ≤ l.time := by
  rw [raceFired_iff]
  constructor
  · rintro ⟨l, hl, hbusy⟩
    rcases List.mem_append.mp hl with hl | hl
    · obtain ⟨hlog, htime⟩ := mem_lines.mp hl
      exact Or.inr ⟨l, hlog, hbusy, htime⟩
    · exact Or.inl ⟨l, hl, hbusy⟩
  · rintro (⟨l, hl, hbusy⟩ | ⟨l, hl, hbusy, htime⟩)
    · exact ⟨l, List.mem_append_right _ hl, hbusy⟩
    · exact ⟨l, List.mem_append_left _ (mem_lines.mpr ⟨hl, htime⟩), hbusy⟩

theorem verdict_eq_inconclusive_iff (o : AttemptObs) :
    (attempt o).verdict = .inconclusive ↔ (attempt o).raceFired = false := by
  unfold attempt
  dsimp only
  split
  · rename_i hempty
    simp [hempty]
  · rename_i hbusy
    split
    · simp [hbusy]
    · simp [hbusy]

theorem onlyStale_iff (o : AttemptObs) :
    o.OnlyStale ↔ (attempt o).raceFired = true ∧ ¬ o.Evidence := by
  rw [raceFired_iff_read, AttemptObs.OnlyStale, AttemptObs.Evidence]
  apply and_congr_right'
  push Not
  refine forall₂_congr fun l _ ↦ imp_congr_right fun _ ↦ ?_
  rw [← not_le, ← not_le, imp_iff_not_or]

/-- The race rests on a line of this attempt, or the attempt is inconclusive, unless
all lines are stale.  So it does where the killed container has no such line in its log,
and the running one has none from the five seconds before the submission or after the
kill. -/
theorem race_fired_iff (o : AttemptObs) :
    ((((attempt o).raceFired = true → o.Evidence) ∧
      (¬ o.Evidence → (attempt o).verdict = .inconclusive)) ↔ ¬ o.OnlyStale) ∧
    (o.preKill.asked ≤ o.preKill.served → (∀ l ∈ o.previous, l.busy = false) →
      (∀ l ∈ o.preKill.log, l.busy = true →
        (l.time < o.tStart - 5 ∨ o.tStart ≤ l.time) ∧ l.time ≤ o.tKill) →
      ((attempt o).raceFired = true → o.Evidence) ∧
        (¬ o.Evidence → (attempt o).verdict = .inconclusive)) := by
  have hiff : (((attempt o).raceFired = true → o.Evidence) ∧
      (¬ o.Evidence → (attempt o).verdict = .inconclusive)) ↔ ¬ o.OnlyStale := by
    rw [onlyStale_iff, verdict_eq_inconclusive_iff]
    cases (attempt o).raceFired with
    | false => simp
    | true => simp
  refine ⟨hiff, fun hserved hprevious hpreKill ↦ hiff.mpr ?_⟩
  rw [onlyStale_iff, raceFired_iff]
  rintro ⟨⟨l, hl, hbusy⟩, hnone⟩
  rcases List.mem_append.mp hl with hl | hl
  · have hlog := (mem_lines.mp hl).1
    obtain ⟨hbefore, hkill⟩ := hpreKill l hlog hbusy
    have hstart := hbefore.resolve_left (not_lt.mpr (time_of_mem_lines hserved hl))
    exact hnone ⟨l, List.mem_append_left _ hlog, hbusy, hstart, hkill⟩
  · exact Bool.false_ne_true ((hprevious l hl).symm.trans hbusy)

def ebusyLine (time : ℚ) : LogLine :=
  ⟨time, "[WARN] Partition 3 snapshot save failed: compaction in progress (EBUSY)"⟩

/-- The container has logged such a line a minute before the attempt, and one in it. -/
def freshAttempt : AttemptObs where
  part := 3
  pod := "hugegraph-store-1"
  gapMs := 300
  tStart := 1000
  tKill := 1003
  preKill := ⟨[ebusyLine 940, ebusyLine 1001], 1002, 1002⟩
  restarted := ⟨[], 1060, 1060⟩
  previous := []
  snapshotsDuring := []
  snapshotsAfterKill := []
  snapshotsFinal := []
  back := some 21
  state := .listed [(3, "PState_Normal")]

theorem race_fired_iff_fresh_line :
    (attempt freshAttempt).raceFired = true ∧ freshAttempt.Evidence := by
  have hfired : (attempt freshAttempt).raceFired = true := by decide +kernel
  refine ⟨hfired, ((race_fired_iff freshAttempt).2 le_rfl (by decide) ?_).1 hfired⟩
  decide +kernel

/-- The container that is killed has logged one such line ten minutes before. -/
def staleAttempt : AttemptObs where
  part := 0
  pod := "hugegraph-store-1"
  gapMs := 300
  tStart := 1000
  tKill := 1003
  preKill := ⟨[ebusyLine 400], 1002, 1002⟩
  restarted := ⟨[], 1060, 1060⟩
  previous := [ebusyLine 400]
  snapshotsDuring := ["snapshot_7 meta=yes data=10 should_not_load=no"]
  snapshotsAfterKill := ["snapshot_7 meta=yes data=10 should_not_load=no"]
  snapshotsFinal := ["snapshot_7 meta=yes data=10 should_not_load=no"]
  back := some 21
  state := .listed [(0, "PState_Normal")]

theorem race_fired_on_stale_line :
    staleAttempt.tStart < staleAttempt.tKill ∧ (attempt staleAttempt).raceFired = true ∧
      (attempt staleAttempt).verdict = .pass ∧ ¬ staleAttempt.Evidence := by
  have hfired : (attempt staleAttempt).raceFired = true := by decide +kernel
  have hpass : (attempt staleAttempt).verdict = .pass := by decide +kernel
  refine ⟨by decide +kernel, hfired, hpass, ?_⟩
  rintro ⟨l, hl, -, hstart, -⟩
  have htime : ∀ l ∈ staleAttempt.preKill.log ++ staleAttempt.previous, l.time < 1000 := by
    decide +kernel
  exact absurd hstart (htime l hl).not_ge

end HugeGraphValidation.Faults
