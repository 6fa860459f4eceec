import HugeGraphValidation.Faults.Readiness
import HugeGraphValidation.Lib.Counts
import HugeGraphValidation.Lib.Numerals
import HugeGraphValidation.Lib.Orders

/-!
# A full disk under PD

`k3s_pd_disk_full.py` samples PD and the Server once a second while the disk of PD is
filled and freed, with a write and a read in every fifth sample, and describes the
samples of each phase by histograms.
-/

namespace HugeGraphValidation.Faults

open Lib

/-- The body of `/readiness`: an object, or what cannot be read as one. -/
inductive ServerBody where
  | json (reason : Option String) (pdReachable : Option Bool)
  | text (b : String)

/-- What the calls of a round return: the seconds since the start, the answers of PD and
of the Server where they have an address, and the words of `df`. -/
structure PdRound where
  elapsed : ℚ
  pdReady : Option (ℕ × String)
  pdHealth : Option ℕ
  pdPod : String
  server : Option (ℕ × ServerBody)
  write : ℕ
  read : ℕ
  disk : List String

/-- A row of the samples. -/
structure PdSample where
  t : ℚ
  pdReadyHttp : ℕ
  pdReadyBody : String
  pdHealth : ℕ
  pdPod : String
  srvReadiness : ℕ
  srvReason : Option String
  srvPdReachable : Option Bool
  write : Option ℕ
  read : Option ℕ
  pdDiskUsedPct : Option String

/-- The `n`-th round of `Sampler.run`. -/
def PdRound.row (n : ℕ) (i : PdRound) : PdSample where
  t := roundTo 1 i.elapsed
  pdReadyHttp := (i.pdReady.map Prod.fst).getD 0
  pdReadyBody := clip 80 ((i.pdReady.map Prod.snd).getD "")
  pdHealth := i.pdHealth.getD 0
  pdPod := i.pdPod
  srvReadiness := (i.server.map Prod.fst).getD 0
  srvReason :=
    match i.server.map Prod.snd with
    | some (.json reason _) => reason
    | some (.text b) => some (clip 60 b)
    | none => some ""
  srvPdReachable :=
    match i.server.map Prod.snd with
    | some (.json _ pdReachable) => pdReachable
    | _ => none
  write := if n % 5 = 0 then some i.write else none
  read := if n % 5 = 0 then some i.read else none
  pdDiskUsedPct := i.disk[4]?

/-- The rows of the rounds behind the first `n`. -/
def rowsFrom : ℕ → List PdRound → List PdSample
  | _, [] => []
  | n, i :: is => i.row (n + 1) :: rowsFrom (n + 1) is

structure PdPhase where
  samples : ℕ
  pdReady : List (ℕ × ℕ)
  pdHealth : List (ℕ × ℕ)
  pdPod : List (String × ℕ)
  srvReadiness : List (ℕ × ℕ)
  srvReasons : List String
  writes : List (ℕ × ℕ)
  reads : List (ℕ × ℕ)
  diskUsedPct : List String

/-- `sorted({...})`, by the code points of the texts. -/
def sortedSet (texts : List String) : List String := texts.dedup.insertionSort (· ≤ ·)

/-- `xs[-k:]` -/
def lastItems {α : Type*} (k : ℕ) (xs : List α) : List α := xs.drop (xs.length - k)

def PdSample.within (a b : ℚ) (r : PdSample) : Bool := decide (a ≤ r.t) && decide (r.t < b)

def phaseSummary (rows : List PdSample) (a b : ℚ) : PdPhase :=
  let rs := rows.filter (PdSample.within a b)
  { samples := rs.length
    pdReady := Dict.histogram (rs.map PdSample.pdReadyHttp)
    pdHealth := Dict.histogram (rs.map PdSample.pdHealth)
    pdPod := Dict.histogram (rs.map PdSample.pdPod)
    srvReadiness := Dict.histogram (rs.map PdSample.srvReadiness)
    srvReasons := sortedSet (rs.map fun r ↦ clip 50 (r.srvReason.getD "None"))
    writes := Dict.histogram (rs.filterMap PdSample.write)
    reads := Dict.histogram (rs.filterMap PdSample.read)
    diskUsedPct := lastItems 3 (sortedSet ((rs.filterMap PdSample.pdDiskUsedPct).filter (· ≠ ""))) }

/-- The phases of the summary, the last one where PD is restarted. -/
structure PdDiskFull where
  baseline : PdPhase
  full : PdPhase
  freed : PdPhase
  afterRestart : Option PdPhase

/-- PD is restarted where the `last` sample at `tEnd` still finds it not ready. -/
def pdDiskFull (rows : List PdSample) (last : PdSample) (tFill tFree tEnd tStop : ℚ) :
    PdDiskFull where
  baseline := phaseSummary rows 0 tFill
  full := phaseSummary rows (tFill + 2) tFree
  freed := phaseSummary rows (tFree + 2) tEnd
  afterRestart := if last.pdReadyHttp ≠ 200 then some (phaseSummary rows tEnd tStop) else none

def PdDiskFull.phases (s : PdDiskFull) : List PdPhase :=
  [s.baseline, s.full, s.freed] ++ s.afterRestart.toList

/-- How the histograms of a phase agree: each sample is in each of the first four, and
every fifth has a write and a read. -/
structure PdPhase.Counted (s : PdPhase) : Prop where
  pdReady : (Dict.values s.pdReady).sum = s.samples
  pdHealth : (Dict.values s.pdHealth).sum = s.samples
  pdPod : (Dict.values s.pdPod).sum = s.samples
  srvReadiness : (Dict.values s.srvReadiness).sum = s.samples
  reads : (Dict.values s.reads).sum = (Dict.values s.writes).sum
  le_writes : s.samples / 5 ≤ (Dict.values s.writes).sum
  writes_le : (Dict.values s.writes).sum ≤ (s.samples + 4) / 5

/-! ## The rows -/

theorem rowsFrom_drop (n : ℕ) (is : List PdRound) (k : ℕ) :
    (rowsFrom n is).drop k = rowsFrom (n + k) (is.drop k) := by
  induction k generalizing n is with
  | zero => rfl
  | succ k ih =>
      cases is with
      | nil => simp [rowsFrom]
      | cons i is =>
          rw [rowsFrom, List.drop_succ_cons, List.drop_succ_cons, ih]
          congr 1
          omega

theorem rowsFrom_take (n : ℕ) (is : List PdRound) (k : ℕ) :
    (rowsFrom n is).take k = rowsFrom n (is.take k) := by
  induction k generalizing n is with
  | zero => rfl
  | succ k ih =>
      cases is with
      | nil => rfl
      | cons i is => rw [rowsFrom, List.take_succ_cons, List.take_succ_cons, rowsFrom, ih]

theorem length_rowsFrom (n : ℕ) (is : List PdRound) : (rowsFrom n is).length = is.length := by
  induction is generalizing n with
  | nil => rfl
  | cons i is ih => rw [rowsFrom, List.length_cons, ih, List.length_cons]

/-- A column that is written in every fifth round. -/
theorem length_everyFifth {f : PdSample → Option ℕ} {g : PdRound → ℕ}
    (hf : ∀ n i, f (PdRound.row n i) = if n % 5 = 0 then some (g i) else none)
    (n : ℕ) (is : List PdRound) :
    ((rowsFrom n is).filterMap f).length = (n + is.length) / 5 - n / 5 := by
  induction is generalizing n with
  | nil => simp [rowsFrom]
  | cons i is ih =>
      rw [rowsFrom, List.length_cons]
      by_cases hn : (n + 1) % 5 = 0
      · have hsome : f (i.row (n + 1)) = some (g i) := (hf _ _).trans (if_pos hn)
        rw [List.filterMap_cons_some hsome, List.length_cons, ih]
        omega
      · have hnone : f (i.row (n + 1)) = none := (hf _ _).trans (if_neg hn)
        rw [List.filterMap_cons_none hnone, ih]
        omega

theorem length_writes (n : ℕ) (is : List PdRound) :
    ((rowsFrom n is).filterMap PdSample.write).length = (n + is.length) / 5 - n / 5 :=
  length_everyFifth (fun _ _ ↦ rfl) n is

theorem length_reads (n : ℕ) (is : List PdRound) :
    ((rowsFrom n is).filterMap PdSample.read).length = (n + is.length) / 5 - n / 5 :=
  length_everyFifth (fun _ _ ↦ rfl) n is

theorem exists_round_of_mem {is : List PdRound} {n : ℕ} {r : PdSample}
    (hr : r ∈ rowsFrom n is) : ∃ i ∈ is, r.t = roundTo 1 i.elapsed := by
  induction is generalizing n with
  | nil => cases hr
  | cons i is ih =>
      rcases List.mem_cons.mp hr with rfl | hr
      · exact ⟨i, List.mem_cons_self, rfl⟩
      · obtain ⟨i', hi', ht⟩ := ih hr
        exact ⟨i', List.mem_cons_of_mem i hi', ht⟩

theorem pairwise_rowsFrom {is : List PdRound}
    (h : is.Pairwise fun i i' ↦ i.elapsed ≤ i'.elapsed) (n : ℕ) :
    (rowsFrom n is).Pairwise fun r r' ↦ r.t ≤ r'.t := by
  induction is generalizing n with
  | nil => exact List.Pairwise.nil
  | cons i is ih =>
      obtain ⟨hi, his⟩ := List.pairwise_cons.mp h
      refine List.pairwise_cons.mpr ⟨fun r hr ↦ ?_, ih his (n + 1)⟩
      obtain ⟨i', hi', ht⟩ := exists_round_of_mem hr
      rw [ht]
      exact roundTo_mono 1 (hi i' hi')

theorem zero_le_t {is : List PdRound} (h : ∀ i ∈ is, 0 ≤ i.elapsed) {n : ℕ} {r : PdSample}
    (hr : r ∈ rowsFrom n is) : 0 ≤ r.t := by
  obtain ⟨i, hi, ht⟩ := exists_round_of_mem hr
  have hzero : roundTo 1 0 = 0 := by decide +kernel
  rw [ht, ← hzero]
  exact roundTo_mono 1 (h i hi)

/-! ## The phases -/

/-- The samples of a window are those of consecutive rounds. -/
theorem exists_stretch {is : List PdRound}
    (h : is.Pairwise fun i i' ↦ i.elapsed ≤ i'.elapsed) (a b : ℚ) :
    ∃ n is', (rowsFrom 0 is).filter (PdSample.within a b) = rowsFrom n is' := by
  obtain ⟨n, m, hrows⟩ := filter_between (pairwise_rowsFrom h 0) a b
  refine ⟨0 + n, (is.drop n).take m, ?_⟩
  rw [← rowsFrom_take, ← rowsFrom_drop]
  exact hrows

theorem counted_phaseSummary {is : List PdRound}
    (h : is.Pairwise fun i i' ↦ i.elapsed ≤ i'.elapsed) (a b : ℚ) :
    (phaseSummary (rowsFrom 0 is) a b).Counted := by
  obtain ⟨n, is', hstretch⟩ := exists_stretch h a b
  constructor <;>
    simp only [phaseSummary, Dict.sum_values_histogram, List.length_map, hstretch,
      length_rowsFrom, length_reads, length_writes]
  · omega
  · omega

theorem within_iff_t {a b : ℚ} {r : PdSample} : r.within a b = true ↔ a ≤ r.t ∧ r.t < b := by
  rw [PdSample.within, Bool.and_eq_true, decide_eq_true_iff, decide_eq_true_iff]

theorem countP_within_add {a b c : ℚ} (hab : a ≤ b) (hbc : b ≤ c) (rows : List PdSample) :
    rows.countP (PdSample.within a b) + rows.countP (PdSample.within b c) =
      rows.countP (PdSample.within a c) := by
  rw [← countP_or_of_disjoint]
  · refine List.countP_congr fun r _ ↦ ?_
    rw [Bool.or_eq_true, within_iff_t, within_iff_t, within_iff_t]
    constructor
    · rintro (⟨ha, hb⟩ | ⟨hb, hc⟩)
      · exact ⟨ha, hb.trans_le hbc⟩
      · exact ⟨hab.trans hb, hc⟩
    · rintro ⟨ha, hc⟩
      rcases lt_or_ge r.t b with hb | hb
      · exact .inl ⟨ha, hb⟩
      · exact .inr ⟨hb, hc⟩
  · intro r hr
    rw [← Bool.not_eq_true, within_iff_t]
    exact fun h ↦ absurd (within_iff_t.mp hr).2 (not_lt.mpr h.1)

theorem samples_phaseSummary (rows : List PdSample) (a b : ℚ) :
    (phaseSummary rows a b).samples = rows.countP (PdSample.within a b) :=
  List.countP_eq_length_filter.symm

theorem countP_within_add_behind {rows : List PdSample} (h : ∀ r ∈ rows, 0 ≤ r.t) (b : ℚ) :
    rows.countP (PdSample.within 0 b) + rows.countP (fun r ↦ decide (b ≤ r.t)) = rows.length := by
  rw [← countP_or_of_disjoint, List.countP_eq_length]
  · intro r hr
    rw [Bool.or_eq_true, within_iff_t, decide_eq_true_iff]
    rcases lt_or_ge r.t b with hb | hb
    · exact .inl ⟨h r hr, hb⟩
    · exact .inr hb
  · intro r hr
    exact decide_eq_false (not_le.mpr (within_iff_t.mp hr).2)

/-- The phases of the summary: the histograms of each agree with one another, and a sample
is in one phase only, or else within two seconds of the fill or of the freeing, or behind
the last phase. -/
theorem pd_disk_full_phases (is : List PdRound) (last : PdSample) (tFill tFree tEnd tStop : ℚ)
    (hclock : is.Pairwise fun i i' ↦ i.elapsed ≤ i'.elapsed)
    (hstart : ∀ i ∈ is, 0 ≤ i.elapsed) (hbase : 0 ≤ tFill) (hfill : tFill + 2 ≤ tFree)
    (hfree : tFree + 2 ≤ tEnd) (hstop : tEnd ≤ tStop) :
    (∀ p ∈ (pdDiskFull (rowsFrom 0 is) last tFill tFree tEnd tStop).phases, p.Counted) ∧
      ((pdDiskFull (rowsFrom 0 is) last tFill tFree tEnd tStop).phases.map
            PdPhase.samples).sum +
          (rowsFrom 0 is).countP (PdSample.within tFill (tFill + 2)) +
          (rowsFrom 0 is).countP (PdSample.within tFree (tFree + 2)) +
          (rowsFrom 0 is).countP
            (fun r ↦ decide ((if last.pdReadyHttp ≠ 200 then tStop else tEnd) ≤ r.t)) =
        is.length := by
  have hgap : ∀ t : ℚ, t ≤ t + 2 := fun t ↦ by linarith
  have hfirst := countP_within_add hbase (hgap tFill) (rowsFrom 0 is)
  have hfull := countP_within_add (hbase.trans (hgap tFill)) hfill (rowsFrom 0 is)
  have hzero : 0 ≤ tFree := (hbase.trans (hgap tFill)).trans hfill
  have hsecond := countP_within_add hzero (hgap tFree) (rowsFrom 0 is)
  have hfreed := countP_within_add (hzero.trans (hgap tFree)) hfree (rowsFrom 0 is)
  have hlast := countP_within_add ((hzero.trans (hgap tFree)).trans hfree) hstop (rowsFrom 0 is)
  have hall : ∀ b : ℚ, (rowsFrom 0 is).countP (PdSample.within 0 b) +
      (rowsFrom 0 is).countP (fun r ↦ decide (b ≤ r.t)) = (rowsFrom 0 is).length :=
    countP_within_add_behind fun r hr ↦ zero_le_t hstart hr
  rw [length_rowsFrom] at hall
  by_cases hready : last.pdReadyHttp ≠ 200
  · have hend := hall tStop
    simp only [pdDiskFull, PdDiskFull.phases, if_pos hready, Option.toList_some,
      List.cons_append, List.nil_append, List.forall_mem_cons, List.map_cons, List.map_nil,
      List.sum_cons, List.sum_nil, samples_phaseSummary]
    refine ⟨⟨counted_phaseSummary hclock _ _, counted_phaseSummary hclock _ _,
      counted_phaseSummary hclock _ _, counted_phaseSummary hclock _ _, by simp⟩, by omega⟩
  · have hend := hall tEnd
    simp only [pdDiskFull, PdDiskFull.phases, if_neg hready, Option.toList_none,
      List.append_nil, List.forall_mem_cons, List.map_cons, List.map_nil,
      List.sum_cons, List.sum_nil, samples_phaseSummary]
    refine ⟨⟨counted_phaseSummary hclock _ _, counted_phaseSummary hclock _ _,
      counted_phaseSummary hclock _ _, by simp⟩, by omega⟩

/-- A round `k` seconds after the start, with a healthy PD and Server. -/
def quietRound (k : ℕ) : PdRound where
  elapsed := k
  pdReady := some (200, "")
  pdHealth := some 200
  pdPod := "true 0"
  server := some (200, .json none (some true))
  write := 202
  read := 200
  disk := ["/dev/loop0", "487634", "24381", "463253", "5%", "/hugegraph-pd/pd_data"]

theorem pd_disk_full_phases_twelve_rounds :
    (∀ p ∈ (pdDiskFull (rowsFrom 0 ((List.range 12).map quietRound))
          ((quietRound 10).row 11) 3 7 11 12).phases, p.Counted) ∧
      ((pdDiskFull (rowsFrom 0 ((List.range 12).map quietRound))
          ((quietRound 10).row 11) 3 7 11 12).phases.map PdPhase.samples).sum + 2 + 2 + 1 =
        12 := by
  have hclock : ((List.range 12).map quietRound).Pairwise
      fun i i' ↦ i.elapsed ≤ i'.elapsed := by decide +kernel
  have hstart : ∀ i ∈ (List.range 12).map quietRound, 0 ≤ i.elapsed := by decide +kernel
  obtain ⟨hcounted, hsum⟩ := pd_disk_full_phases ((List.range 12).map quietRound)
    ((quietRound 10).row 11) 3 7 11 12 hclock hstart (by decide +kernel) (by decide +kernel)
    (by decide +kernel) (by decide +kernel)
  have hfill : (rowsFrom 0 ((List.range 12).map quietRound)).countP
      (PdSample.within 3 (3 + 2)) = 2 := by decide +kernel
  have hfree : (rowsFrom 0 ((List.range 12).map quietRound)).countP
      (PdSample.within 7 (7 + 2)) = 2 := by decide +kernel
  have hbehind : (rowsFrom 0 ((List.range 12).map quietRound)).countP (fun r ↦
      decide ((if ((quietRound 10).row 11).pdReadyHttp ≠ 200 then 12 else 11) ≤ r.t)) = 1 := by
    decide +kernel
  rw [hfill, hfree, hbehind] at hsum
  exact ⟨hcounted, hsum⟩

/-! ## The use of the disk -/

/-- How `df` writes the use of a disk. -/
def percent (n : ℕ) : String := toString n ++ "%"

theorem percent_injective : Function.Injective percent :=
  fun _ _ h ↦ Nat.repr_inj.mp ((String.append_left_inj "%").mp h)

theorem percent_ne_empty (n : ℕ) : percent n ≠ "" := by
  intro h
  have hchars := congrArg String.toList h
  simp [percent] at hchars

/-- As a text a full disk stands before most others. -/
theorem full_lt_percent_iff :
    ∀ n ≤ 100, percent 100 < percent n ↔ 2 ≤ n ∧ n ≤ 99 ∧ n ≠ 10 := by
  decide +kernel

theorem mem_sortedSet {texts : List String} {s : String} : s ∈ sortedSet texts ↔ s ∈ texts := by
  rw [sortedSet, List.mem_insertionSort, List.mem_dedup]

theorem pairwise_sortedSet (texts : List String) : (sortedSet texts).Pairwise (· < ·) := by
  have hnodup : (sortedSet texts).Nodup :=
    (List.perm_insertionSort _ _).nodup_iff.mpr (List.nodup_dedup texts)
  have hle : (sortedSet texts).Pairwise (· ≤ ·) := List.pairwise_insertionSort _ _
  exact (hle.and hnodup).imp fun h ↦ lt_of_le_of_ne h.1 h.2

/-- The samples of a window show the use `u`. -/
def ShowsUse (rows : List PdSample) (a b : ℚ) (u : String) : Prop :=
  ∃ r ∈ rows, r.within a b = true ∧ r.pdDiskUsedPct = some u

instance (rows : List PdSample) (a b : ℚ) (u : String) : Decidable (ShowsUse rows a b u) :=
  inferInstanceAs (Decidable (∃ r ∈ rows, r.within a b = true ∧ r.pdDiskUsedPct = some u))

theorem mem_usesOf {rows : List PdSample} {a b : ℚ} {u : String} :
    u ∈ ((rows.filter (PdSample.within a b)).filterMap PdSample.pdDiskUsedPct).filter
        (· ≠ "") ↔ u ≠ "" ∧ ShowsUse rows a b u := by
  rw [List.mem_filter, List.mem_filterMap, decide_eq_true_iff, and_comm]
  refine and_congr_right fun _ ↦ exists_congr fun r ↦ ?_
  rw [List.mem_filter, and_assoc]

theorem mem_diskUsedPct {rows : List PdSample} {a b : ℚ} {u : String} :
    u ∈ (phaseSummary rows a b).diskUsedPct ↔ (u ≠ "" ∧ ShowsUse rows a b u) ∧
      (sortedSet (((rows.filter (PdSample.within a b)).filterMap PdSample.pdDiskUsedPct).filter
        (· ≠ ""))).countP (u < ·) < 3 := by
  rw [phaseSummary, lastItems, mem_drop_iff_of_sorted (pairwise_sortedSet _), mem_sortedSet,
    mem_usesOf]

/-- Which disk use a phase shows: the last three are the last ones as texts, and a full
disk is among them only where fewer than three uses other than 0, 1 and 10 percent are. -/
theorem full_disk_shown_iff (rows : List PdSample) (a b : ℚ)
    (hdf : ∀ r ∈ rows, ∀ u, r.pdDiskUsedPct = some u → ∃ n ≤ 100, u = percent n) :
    percent 100 ∈ (phaseSummary rows a b).diskUsedPct ↔
      ShowsUse rows a b (percent 100) ∧
        ((Finset.Icc 2 99).filter fun n ↦ n ≠ 10 ∧ ShowsUse rows a b (percent n)).card < 3 := by
  rw [mem_diskUsedPct, and_iff_right (percent_ne_empty 100), List.countP_eq_length_filter]
  set shown := sortedSet (((rows.filter (PdSample.within a b)).filterMap
    PdSample.pdDiskUsedPct).filter (· ≠ "")) with hshown
  have hmem : ∀ u, u ∈ shown ↔ u ≠ "" ∧ ShowsUse rows a b u := fun u ↦ by
    rw [hshown, mem_sortedSet, mem_usesOf]
  have hnodup : (shown.filter (percent 100 < ·)).Nodup :=
    ((pairwise_sortedSet _).imp ne_of_lt).filter _
  -- the uses that stand behind a full disk are those of the numbers counted
  have himage : (shown.filter (percent 100 < ·)).toFinset =
      ((Finset.Icc 2 99).filter fun n ↦ n ≠ 10 ∧ ShowsUse rows a b (percent n)).image
        percent := by
    ext u
    rw [List.mem_toFinset, List.mem_filter, hmem, decide_eq_true_iff, Finset.mem_image]
    constructor
    · rintro ⟨⟨-, hu⟩, hlt⟩
      obtain ⟨r, hr, -, hpct⟩ := id hu
      obtain ⟨n, hn, rfl⟩ := hdf r hr u hpct
      obtain ⟨h2, h99, h10⟩ := (full_lt_percent_iff n hn).mp hlt
      exact ⟨n, Finset.mem_filter.mpr ⟨Finset.mem_Icc.mpr ⟨h2, h99⟩, h10, hu⟩, rfl⟩
    · rintro ⟨n, hn, rfl⟩
      obtain ⟨hrange, h10, hu⟩ := Finset.mem_filter.mp hn
      obtain ⟨h2, h99⟩ := Finset.mem_Icc.mp hrange
      have hn : n ≤ 100 := h99.trans (by decide)
      exact ⟨⟨percent_ne_empty n, hu⟩, (full_lt_percent_iff n hn).mpr ⟨h2, h99, h10⟩⟩
  rw [← List.toFinset_card_of_nodup hnodup, himage,
    Finset.card_image_of_injective _ percent_injective]

/-- The row of a round while the disk fills, with `n` percent of it in use. -/
def fillingRow (n : ℕ) : PdSample :=
  PdRound.row 1 { quietRound 62 with disk := ["/dev/loop0", "487634", "0", "0", percent n, "/"] }

theorem full_disk_not_shown :
    percent 100 ∉ (phaseSummary ([5, 37, 62, 100].map fillingRow) 60 70).diskUsedPct := by
  rw [full_disk_shown_iff]
  · decide +kernel
  · intro r hr u hu
    obtain ⟨n, hn, rfl⟩ := List.mem_map.mp hr
    have hle : ∀ n ∈ [5, 37, 62, 100], n ≤ 100 := by decide
    exact ⟨n, hle n hn, (Option.some.inj hu).symm⟩

end HugeGraphValidation.Faults
