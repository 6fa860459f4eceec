import HugeGraphValidation.Faults.Readiness
import HugeGraphValidation.Lib.Runs

/-!
# The unavailability windows

While a store is frozen, `repro_rate.py` probes the server until it has answered
ten times in a row after the writes, or time is up.  Its accumulators split the
probes into windows in which the server was dead.
-/

namespace HugeGraphValidation.Faults

open Lib

structure ProbeResult where
  now : ℚ
  st : String

def ProbeResult.ok (r : ProbeResult) : Bool := r.st = "200"

def ProbeResult.dead (r : ProbeResult) : Bool := !r.ok

structure Probing where
  streak : ℕ
  deadProbes : ℕ
  firstDead : Option ℚ
  lastDead : Option ℚ
  deadWindows : List (ℚ × ℚ)
  cur : Option ℚ

namespace Probing

def start : Probing := ⟨0, 0, none, none, [], none⟩

/-- `if cur is not None: dead_windows.append((cur, now))` -/
def closed (s : Probing) (now : ℚ) : List (ℚ × ℚ) :=
  match s.cur with
  | none => s.deadWindows
  | some cur => s.deadWindows ++ [(cur, now)]

def probed (s : Probing) (r : ProbeResult) : Probing :=
  if r.ok then
    { s with
      streak := s.streak + 1
      deadWindows := s.closed r.now
      cur := none }
  else
    { s with
      streak := 0
      deadProbes := s.deadProbes + 1
      lastDead := some r.now
      firstDead := some (s.firstDead.getD r.now)
      cur := some (s.cur.getD r.now) }

/-- One round of the loop; `ws` is the length of the writes. -/
def round (ws : ℤ) (r : ProbeResult) (s : Probing) : Round Probing Unit :=
  let s' := s.probed r
  if ws < r.now ∧ 10 ≤ s'.streak then .leave s' () else .again s'

end Probing

/-- What the summary is made of; `answered` tells the break from MAXS. -/
structure Measured where
  deadProbes : ℕ
  firstDead : Option ℚ
  lastDead : Option ℚ
  deadWindows : List (ℚ × ℚ)
  restDeadAfterWritesStopped : Option ℚ
  answered : Bool

/-- `probes` are those that fit in before MAXS; the loop may leave earlier. -/
def reproRate (ws : ℤ) (probes : List ProbeResult) (tEnd : ℚ) : Measured :=
  let loop := forRounds (Probing.round ws) probes .start
  let s := loop.state
  { deadProbes := s.deadProbes
    firstDead := s.firstDead
    lastDead := s.lastDead
    deadWindows := s.closed tEnd
    restDeadAfterWritesStopped := s.lastDead.map fun t ↦ roundTo 1 (max 0 (t - ws))
    answered := match loop with
      | .again _ => false
      | .leave _ _ => true }

/-- The probes that the loop makes. -/
def probesMade (ws : ℤ) (probes : List ProbeResult) : List ProbeResult :=
  roundsRun (Probing.round ws) probes .start

/-! ## The accumulators -/

namespace Probing

theorem probed_of_ok {r : ProbeResult} (h : r.dead = false) (s : Probing) :
    s.probed r =
      { s with streak := s.streak + 1, deadWindows := s.closed r.now, cur := none } :=
  if_pos (by simpa [ProbeResult.dead] using h)

theorem probed_of_dead {r : ProbeResult} (h : r.dead = true) (s : Probing) :
    s.probed r =
      { s with
        streak := 0
        deadProbes := s.deadProbes + 1
        lastDead := some r.now
        firstDead := some (s.firstDead.getD r.now)
        cur := some (s.cur.getD r.now) } :=
  if_neg (by simpa [ProbeResult.dead] using h)

theorem state_round (ws : ℤ) (r : ProbeResult) (s : Probing) :
    (s.round ws r).state = s.probed r := by
  unfold round
  dsimp only
  split
  · rfl
  · rfl

theorem deadProbes_foldl (probes : List ProbeResult) (s : Probing) :
    (probes.foldl probed s).deadProbes = s.deadProbes + probes.countP ProbeResult.dead := by
  induction probes generalizing s with
  | nil => rfl
  | cons r probes ih =>
      rw [List.foldl_cons, ih]
      cases hr : r.dead with
      | false => simp [probed_of_ok hr, hr]
      | true => simp [probed_of_dead hr, hr, Nat.add_comm, Nat.add_left_comm]

theorem firstDead_foldl (probes : List ProbeResult) (s : Probing) :
    (probes.foldl probed s).firstDead =
      s.firstDead.or ((probes.filter ProbeResult.dead).head?.map ProbeResult.now) := by
  induction probes generalizing s with
  | nil => simp
  | cons r probes ih =>
      rw [List.foldl_cons, ih]
      cases hr : r.dead with
      | false => simp [probed_of_ok hr, hr]
      | true =>
          cases hfirst : s.firstDead with
          | none => simp [probed_of_dead hr, hr, hfirst]
          | some t => simp [probed_of_dead hr, hr, hfirst]

theorem lastDead_foldl (probes : List ProbeResult) :
    (probes.foldl probed start).lastDead =
      (probes.filter ProbeResult.dead).getLast?.map ProbeResult.now := by
  induction probes using List.reverseRecOn with
  | nil => rfl
  | append_singleton probes r ih =>
      rw [List.foldl_append, List.foldl_cons, List.foldl_nil, List.filter_append]
      cases hr : r.dead with
      | false => simpa [probed_of_ok hr, hr] using ih
      | true => simp [probed_of_dead hr, hr]

/-- The streak is the length of the run of answers at the end. -/
theorem streak_foldl (probes : List ProbeResult) :
    (probes.foldl probed start).streak =
      (probes.reverse.takeWhile fun r ↦ !r.dead).length := by
  induction probes using List.reverseRecOn with
  | nil => rfl
  | append_singleton probes r ih =>
      rw [List.foldl_append, List.foldl_cons, List.foldl_nil, List.reverse_append,
        List.reverse_singleton, List.singleton_append]
      cases hr : r.dead with
      | false => simp [probed_of_ok hr, hr, ih]
      | true => simp [probed_of_dead hr, hr]

/-- The windows that the loop still adds: the end of the open one, and the runs
of dead probes behind it. -/
theorem closed_foldl (probes : List ProbeResult) (s : Probing) (tEnd : ℚ) :
    (probes.foldl probed s).closed tEnd =
      s.closed (endTime ProbeResult.now tEnd (probes.find? fun r ↦ !r.dead)) ++
        (runsAfter ProbeResult.dead s.cur.isSome probes).map fun run ↦
          (run.1.now, endTime ProbeResult.now tEnd run.2) := by
  induction probes generalizing s with
  | nil => simp [runsAfter, endTime]
  | cons r probes ih =>
      rw [List.foldl_cons, ih]
      cases hr : r.dead with
      | false =>
          rw [probed_of_ok hr, runsAfter_cons_outside hr, List.find?_cons_of_pos (by simp [hr])]
          rfl
      | true =>
          rw [probed_of_dead hr, List.find?_cons_of_neg (by simp [hr])]
          cases hcur : s.cur with
          | none =>
              simp [closed, hcur, runsAfter_cons_start hr]
          | some cur =>
              simp [closed, hcur, runsAfter_cons_inside hr]

theorem le_of_round_eq_leave {ws : ℤ} {r : ProbeResult} {s s' : Probing}
    (h : s.round ws r = .leave s' ()) : ws < r.now ∧ 10 ≤ s'.streak := by
  unfold round at h
  dsimp only at h
  split at h
  · rename_i hleave
    cases h
    exact hleave
  · cases h

end Probing

/-! ## The measurement -/

section Measurement

variable {ws : ℤ} {probes : List ProbeResult} {tEnd : ℚ}

theorem state_eq_foldl (ws : ℤ) (probes : List ProbeResult) :
    (forRounds (Probing.round ws) probes .start).state =
      (probesMade ws probes).foldl Probing.probed .start :=
  forRounds_state_eq_foldl (fun r s ↦ Probing.state_round ws r s) probes _

theorem deadWindows_eq_windows (ws : ℤ) (probes : List ProbeResult) (tEnd : ℚ) :
    (reproRate ws probes tEnd).deadWindows =
      windows ProbeResult.dead ProbeResult.now tEnd (probesMade ws probes) := by
  simp only [reproRate, state_eq_foldl, Probing.closed_foldl]
  rfl

/-- A loop that was left has ten answers behind it. -/
theorem last_answered (h : (reproRate ws probes tEnd).answered = true) :
    ∃ before last, probesMade ws probes = before ++ last ∧ last.length = 10 ∧
      (∀ r ∈ last, r.st = "200") ∧ ∀ r ∈ last.getLast?, ws < r.now := by
  cases hloop : forRounds (Probing.round ws) probes .start with
  | again s => simp [reproRate, hloop] at h
  | leave s u =>
      obtain ⟨r, t, hr, hround⟩ := roundsRun_of_leave hloop
      obtain ⟨hws, hstreak⟩ := Probing.le_of_round_eq_leave hround
      have hs : s = (probesMade ws probes).foldl Probing.probed .start := by
        rw [← state_eq_foldl, hloop]
        rfl
      rw [hs, Probing.streak_foldl] at hstreak
      obtain ⟨before, last, hsplit, hlength, hlast⟩ := exists_suffix_of_le_takeWhile hstreak
      refine ⟨before, last, hsplit, hlength, ?_, ?_⟩
      · intro r hr
        simpa [ProbeResult.dead, ProbeResult.ok] using hlast r hr
      · intro r' hr'
        have hsame : (probesMade ws probes).getLast? = some r' := by
          rw [hsplit, List.getLast?_append, Option.mem_def.mp hr']
          rfl
        obtain rfl := Option.some.inj (hr.symm.trans hsame)
        exact hws

theorem probesMade_of_not_answered (h : (reproRate ws probes tEnd).answered = false) :
    probesMade ws probes = probes := by
  cases hloop : forRounds (Probing.round ws) probes .start with
  | again s => exact roundsRun_of_again hloop
  | leave s u => simp [reproRate, hloop] at h

end Measurement

/-- The windows of the probes made are the maximal runs of dead probes, in order
and apart; the counters are those of the dead probes; and a loop that was left
has ten answers behind it, the last one after the writes. -/
theorem repro_rate_windows (ws : ℤ) (probes : List ProbeResult) (tEnd : ℚ)
    (htimes : probes.Pairwise fun r r' ↦ r.now < r'.now)
    (hEnd : ∀ r ∈ probesMade ws probes, r.now < tEnd) :
    let made := probesMade ws probes
    let m := reproRate ws probes tEnd
    (made <+: probes ∧ (m.answered = false → made = probes)) ∧
    (m.deadWindows.Pairwise (fun w w' ↦ w.2 < w'.1) ∧ ∀ w ∈ m.deadWindows, w.1 < w.2) ∧
    (∀ w, w ∈ m.deadWindows ↔ ∃ pre run post,
      MaximalRun ProbeResult.dead made pre run post ∧
        run.head?.map ProbeResult.now = some w.1 ∧
        (post.head?.map ProbeResult.now).getD tEnd = w.2) ∧
    (∀ w ∈ m.deadWindows, ∃! s : List ProbeResult × List ProbeResult × List ProbeResult,
      MaximalRun ProbeResult.dead made s.1 s.2.1 s.2.2 ∧
        s.2.1.head?.map ProbeResult.now = some w.1) ∧
    (∀ r ∈ made, r.st ≠ "200" → ∃! w, w ∈ m.deadWindows ∧ r.now ∈ Set.Ico w.1 w.2) ∧
    (∀ r ∈ made, r.st = "200" → ∀ w ∈ m.deadWindows, r.now ∉ Set.Ico w.1 w.2) ∧
    m.deadProbes = made.countP (fun r ↦ r.st ≠ "200") ∧
    m.firstDead = (made.filter fun r ↦ r.st ≠ "200").head?.map ProbeResult.now ∧
    m.lastDead = (made.filter fun r ↦ r.st ≠ "200").getLast?.map ProbeResult.now ∧
    (m.answered = true → ∃ before last, made = before ++ last ∧ last.length = 10 ∧
      (∀ r ∈ last, r.st = "200") ∧ ∀ r ∈ last.getLast?, ws < r.now) := by
  intro made m
  have hinitial : made <+: probes := roundsRun_prefix _ _ _
  have hmade : made.Pairwise fun r r' ↦ r.now < r'.now := htimes.sublist hinitial.sublist
  have hwindows : m.deadWindows = windows ProbeResult.dead ProbeResult.now tEnd made :=
    deadWindows_eq_windows ws probes tEnd
  have hdead : ProbeResult.dead = fun r ↦ decide (r.st ≠ "200") := by
    funext r
    simp [ProbeResult.dead, ProbeResult.ok]
  have hruns : ∀ w, w ∈ m.deadWindows ↔ ∃ pre run post,
      MaximalRun ProbeResult.dead made pre run post ∧
        run.head?.map ProbeResult.now = some w.1 ∧
        (post.head?.map ProbeResult.now).getD tEnd = w.2 := by
    intro w
    rw [hwindows]
    exact mem_windows_iff
  refine ⟨⟨hinitial, probesMade_of_not_answered⟩, ⟨?_, ?_⟩, hruns, ?_, ?_, ?_, ?_, ?_, ?_,
    last_answered⟩
  · exact hwindows ▸ windows_pairwise hmade
  · exact hwindows ▸ fun w hw ↦ window_lt hmade hEnd hw
  · intro w hw
    obtain ⟨pre, run, post, hrun, hstart, -⟩ := (hruns w).mp hw
    refine ⟨(pre, run, post), ⟨hrun, hstart⟩, ?_⟩
    rintro ⟨pre', run', post'⟩ ⟨hrun', hstart'⟩
    obtain ⟨rfl, rfl, rfl⟩ := hrun.eq_of_start hmade hrun' (hstart.trans hstart'.symm)
    rfl
  · intro r hr hst
    rw [hwindows]
    exact existsUnique_window hmade hEnd hr (by simp [hdead, hst])
  · intro r hr hst w hw
    exact not_mem_window hmade hr (by simp [hdead, hst]) (hwindows ▸ hw)
  · rw [← hdead]
    simp only [m, reproRate, state_eq_foldl, Probing.deadProbes_foldl]
    exact Nat.zero_add _
  · rw [← hdead]
    simp only [m, reproRate, state_eq_foldl, Probing.firstDead_foldl]
    rfl
  · rw [← hdead]
    simp only [m, reproRate, state_eq_foldl, Probing.lastDead_foldl]
    rfl

/-- The server is dead at 2 s and 4 s, and answers from 6 s on. -/
def recovering : List ProbeResult :=
  [⟨2, "503"⟩, ⟨4, "TIMEOUT"⟩] ++ (List.range 10).map fun i ↦ ⟨2 * i + 6, "200"⟩

theorem repro_rate_windows_recovering :
    (reproRate 5 recovering 25).deadWindows = [(2, 6)] ∧
      (reproRate 5 recovering 25).answered = true ∧
      ∃ before last, probesMade 5 recovering = before ++ last ∧ last.length = 10 ∧
        (∀ r ∈ last, r.st = "200") ∧ ∀ r ∈ last.getLast?, (5 : ℤ) < r.now := by
  have hanswered : (reproRate 5 recovering 25).answered = true := by decide +kernel
  obtain ⟨-, -, -, -, -, -, -, -, -, hlast⟩ := repro_rate_windows 5 recovering 25
    (by decide +kernel) (by decide +kernel)
  exact ⟨by decide +kernel, hanswered, hlast hanswered⟩

end HugeGraphValidation.Faults
