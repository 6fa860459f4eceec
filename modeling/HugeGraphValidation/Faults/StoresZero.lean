import HugeGraphValidation.Faults.Readiness

/-!
# All Stores down

The scenario scales the Stores to zero and back, and judges for each Server pod
when it was out and when it was back.  Its searches are bounded on one side only.
-/

namespace HugeGraphValidation.Faults

open Lib

def Row.endpoints (r : Row) : Option ℕ := r.probe.map Probe.endpoints

def Row.reason (r : Row) : Option String := r.probe.bind fun p ↦ p.body.reason

/-- `t_fault <= r["t"] < t_back and r.get("readiness") == 503` -/
def Row.outDuring (tFault tBack : ℚ) (r : Row) : Bool :=
  (tFault ≤ r.t && r.t < tBack) && r.readiness = some 503

/-- `sorted({...})` on reasons: `None` and a text do not compare. -/
def sortedReasons (reasons : List (Option String)) : Except Raised (List (Option String)) :=
  if none ∈ reasons ∧ reasons.any Option.isSome then .error .other
  else .ok (reasons.dedup.insertionSort fun c c' ↦ c.getD "" ≤ c'.getD "")

structure StoresZeroPod where
  readiness503AfterFaultS : Option ℚ
  notReadyAfterFaultS : Option ℚ
  outOfServiceAfterFaultS : Option ℚ
  readiness200AfterBackS : Option ℚ
  readyAfterBackS : Option ℚ
  reasonsDuringFault : List (Option String)

/-- `None if x is None else round(x - t, 1)`, with the first time after `t`. -/
def secondsAfter (rs : List Row) (pred : Row → Bool) (t : ℚ) : Option ℚ :=
  (firstTime rs pred t).map fun x ↦ roundTo 1 (x - t)

/-- `per_pod[name]` -/
def storesZeroPod (rows : List Row) (tFault tBack : ℚ) (name : String) :
    Except Raised StoresZeroPod :=
  let rs := rows.filter fun r ↦ r.pod = name
  match sortedReasons ((rs.filter fun r ↦ r.outDuring tFault tBack).map Row.reason) with
  | .error e => .error e
  | .ok reasons =>
      .ok ⟨secondsAfter rs (fun r ↦ r.readiness = some 503) tFault,
        secondsAfter rs (fun r ↦ r.readyCond = false) tFault,
        secondsAfter rs (fun r ↦ r.inService = some false) tFault,
        secondsAfter rs (fun r ↦ r.readiness = some 200) tBack,
        secondsAfter rs (fun r ↦ r.readyCond = true) tBack,
        reasons.take 3⟩

def StoresZeroPod.ok (v : StoresZeroPod) : Bool :=
  v.readiness503AfterFaultS.isSome && v.notReadyAfterFaultS.isSome &&
    v.readiness200AfterBackS.isSome && v.readyAfterBackS.isSome

/-- `min_eps`; a row of a pod without an address has no endpoints. -/
def minEndpoints (rows : List Row) (tFault tBack : ℚ) : Except Raised (Option ℕ) :=
  let window := rows.filter fun r ↦ tFault + 40 ≤ r.t && r.t < tBack
  if window.any fun r ↦ r.probe.isNone then .error .other
  else .ok (window.filterMap Row.endpoints).min?

/-- `stores_zero`, with the Server pods that it lists at its end. -/
def storesZero (rows : List Row) (servers : List String) (tFault tBack : ℚ) :
    Except Raised Verdict :=
  match servers.mapM (storesZeroPod rows tFault tBack) with
  | .error e => .error e
  | .ok perPod =>
      match minEndpoints rows tFault tBack with
      | .error e => .error e
      | .ok minEps => .ok (passIf (perPod.all StoresZeroPod.ok && minEps = some 0))

/-! ## What the scenario checks -/

/-- The checks on the rows of one pod. -/
structure PodChecks (rs : List Row) (tFault tBack : ℚ) : Prop where
  out : ∃ r ∈ rs, tFault ≤ r.t ∧ r.readiness = some 503
  notReady : ∃ r ∈ rs, tFault ≤ r.t ∧ r.readyCond = false
  back : ∃ r ∈ rs, tBack ≤ r.t ∧ r.readiness = some 200
  ready : ∃ r ∈ rs, tBack ≤ r.t ∧ r.readyCond = true
  reasons : ∀ r ∈ rs, r.outDuring tFault tBack → r.reason = none →
    ∀ r' ∈ rs, r'.outDuring tFault tBack → r'.reason = none

/-- The checks on the endpoints, from 40 s after the fault. -/
structure EndpointChecks (rows : List Row) (tFault tBack : ℚ) : Prop where
  known : ∀ r ∈ rows, tFault + 40 ≤ r.t → r.t < tBack → r.probe.isSome
  zero : ∃ r ∈ rows, tFault + 40 ≤ r.t ∧ r.t < tBack ∧ r.endpoints = some 0

theorem isSome_secondsAfter_iff {rs : List Row} {pred : Row → Bool} {t : ℚ} :
    (secondsAfter rs pred t).isSome = true ↔ ∃ r ∈ rs, t ≤ r.t ∧ pred r = true := by
  simp [secondsAfter, firstTime]

theorem sortedReasons_cases (reasons : List (Option String)) :
    (∃ sorted, sortedReasons reasons = .ok sorted) ↔
      (none ∈ reasons → ∀ c ∈ reasons, c = none) := by
  unfold sortedReasons
  split
  · rename_i hmixed
    obtain ⟨hnone, hsome⟩ := hmixed
    obtain ⟨c, hc, hc'⟩ := List.any_eq_true.mp hsome
    refine iff_of_false (by simp) fun h ↦ ?_
    simp [h hnone c hc] at hc'
  · rename_i hmixed
    refine iff_of_true ⟨_, rfl⟩ fun hnone c hc ↦ ?_
    by_contra hsome
    exact hmixed ⟨hnone, List.any_eq_true.mpr ⟨c, hc, Option.isSome_iff_ne_none.mpr hsome⟩⟩

theorem storesZeroPod_ok_iff {rows : List Row} {tFault tBack : ℚ} {name : String} :
    (∃ v, storesZeroPod rows tFault tBack name = .ok v ∧ v.ok = true) ↔
      PodChecks (rows.filter fun r ↦ r.pod = name) tFault tBack := by
  unfold storesZeroPod
  generalize rows.filter (fun r ↦ r.pod = name) = rs
  have hreasons := sortedReasons_cases
    ((rs.filter fun r ↦ r.outDuring tFault tBack).map Row.reason)
  constructor
  · rintro ⟨v, hv, hok⟩
    dsimp only at hv
    split at hv
    · cases hv
    · rename_i sorted hsorted
      obtain rfl := Except.ok.inj hv
      simp only [StoresZeroPod.ok, Bool.and_eq_true, isSome_secondsAfter_iff,
        decide_eq_true_iff] at hok
      obtain ⟨⟨⟨hout, hnotReady⟩, hback⟩, hready⟩ := hok
      refine ⟨hout, hnotReady, hback, hready, ?_⟩
      intro r hr hrout hnone r' hr' hrout'
      refine hreasons.mp ⟨sorted, hsorted⟩ ?_ _ (List.mem_map_of_mem ?_)
      · exact hnone ▸ List.mem_map_of_mem (List.mem_filter.mpr ⟨hr, hrout⟩)
      · exact List.mem_filter.mpr ⟨hr', hrout'⟩
  · intro h
    obtain ⟨sorted, hsorted⟩ := hreasons.mpr (by
      intro hnone c hc
      obtain ⟨r, hr, hnone⟩ := List.mem_map.mp hnone
      obtain ⟨r', hr', rfl⟩ := List.mem_map.mp hc
      obtain ⟨hr, hout⟩ := List.mem_filter.mp hr
      obtain ⟨hr', hout'⟩ := List.mem_filter.mp hr'
      exact h.reasons r hr hout hnone r' hr' hout')
    simp only [hsorted]
    refine ⟨_, rfl, ?_⟩
    simp only [StoresZeroPod.ok, Bool.and_eq_true, isSome_secondsAfter_iff, decide_eq_true_iff]
    exact ⟨⟨⟨h.out, h.notReady⟩, h.back⟩, h.ready⟩

theorem minEndpoints_eq_zero_iff {rows : List Row} {tFault tBack : ℚ} :
    minEndpoints rows tFault tBack = .ok (some 0) ↔ EndpointChecks rows tFault tBack := by
  unfold minEndpoints
  dsimp only
  split
  · rename_i hunknown
    simp only [List.any_eq_true, List.mem_filter, Bool.and_eq_true, decide_eq_true_iff] at hunknown
    obtain ⟨r, ⟨hr, hfrom, hto⟩, hnone⟩ := hunknown
    refine iff_of_false (by simp) fun h ↦ ?_
    have hsome := h.known r hr hfrom hto
    rw [Option.isNone_iff_eq_none.mp hnone] at hsome
    cases hsome
  · rename_i hknown
    simp only [List.any_eq_true, List.mem_filter, Bool.and_eq_true, decide_eq_true_iff, not_exists,
      not_and, and_imp, Bool.not_eq_true, Option.isNone_eq_false_iff] at hknown
    rw [Except.ok.injEq, List.min?_eq_some_iff]
    constructor
    · rintro ⟨hzero, -⟩
      obtain ⟨r, hr, hzero⟩ := List.mem_filterMap.mp hzero
      simp only [List.mem_filter, Bool.and_eq_true, decide_eq_true_iff] at hr
      exact ⟨hknown, r, hr.1, hr.2.1, hr.2.2, hzero⟩
    · rintro ⟨-, r, hr, hfrom, hto, hzero⟩
      refine ⟨List.mem_filterMap.mpr ⟨r, ?_, hzero⟩, fun n _ ↦ Nat.zero_le n⟩
      simp only [List.mem_filter, Bool.and_eq_true, decide_eq_true_iff]
      exact ⟨hr, hfrom, hto⟩

theorem storesZero_pass_iff {rows : List Row} {servers : List String} {tFault tBack : ℚ} :
    storesZero rows servers tFault tBack = .ok .pass ↔
      (∀ n ∈ servers, PodChecks (rows.filter fun r ↦ r.pod = n) tFault tBack) ∧
        EndpointChecks rows tFault tBack := by
  have hpods : (∃ perPod, servers.mapM (storesZeroPod rows tFault tBack) = .ok perPod ∧
      perPod.all StoresZeroPod.ok = true) ↔
      ∀ n ∈ servers, PodChecks (rows.filter fun r ↦ r.pod = n) tFault tBack := by
    rw [exists_mapM_all_iff]
    exact forall₂_congr fun n _ ↦ storesZeroPod_ok_iff
  rw [← hpods, ← minEndpoints_eq_zero_iff]
  unfold storesZero
  cases servers.mapM (storesZeroPod rows tFault tBack) with
  | error e => simp
  | ok perPod =>
      cases minEndpoints rows tFault tBack with
      | error e => simp
      | ok minEps => simp [passIf_eq_pass]

/-! ## What a PASS shows -/

/-- The rows of a pod show that it was out while the Stores were down, and that it
is back. -/
structure ShowsOutage (rs : List Row) (tFault tBack : ℚ) : Prop where
  out : ∃ r ∈ rs, tFault ≤ r.t ∧ r.t < tBack ∧ r.readiness = some 503
  notReady : ∃ r ∈ rs, tFault ≤ r.t ∧ r.t < tBack ∧ r.readyCond = false
  last : ∃ r, rs.getLast? = some r ∧ r.readiness = some 200 ∧ r.readyCond = true

/-- What the checks leave out: that the first rows found since the fault come before
the Stores are back, and that the pod is still up at its last row. -/
structure InPhase (rs : List Row) (tFault tBack : ℚ) : Prop where
  out : ∀ t, firstTime rs (fun r ↦ r.readiness = some 503) tFault = some t → t < tBack
  notReady : ∀ t, firstTime rs (fun r ↦ r.readyCond = false) tFault = some t → t < tBack
  last : ∀ r ∈ rs.getLast?, r.readiness = some 200 ∧ r.readyCond = true

theorem exists_firstTime {rs : List Row} {pred : Row → Bool} {t : ℚ}
    (h : ∃ r ∈ rs, t ≤ r.t ∧ pred r = true) : ∃ x, firstTime rs pred t = some x := by
  rw [← Option.isSome_iff_exists]
  simpa [firstTime] using h

/-- In the order of time, the first row found is before a time when any is. -/
theorem firstTime_lt_iff {rs : List Row} (horder : rs.Pairwise fun r r' ↦ r.t ≤ r'.t)
    {pred : Row → Bool} {t t' x : ℚ} (hx : firstTime rs pred t = some x) :
    x < t' ↔ ∃ r ∈ rs, t ≤ r.t ∧ r.t < t' ∧ pred r = true := by
  obtain ⟨first, hfirst, rfl⟩ := Option.map_eq_some_iff.mp hx
  obtain ⟨hpred, before, behind, rfl, hbefore⟩ := List.find?_eq_some_iff_append.mp hfirst
  rw [Bool.and_eq_true, decide_eq_true_iff] at hpred
  constructor
  · intro hlt
    exact ⟨first, by simp, hpred.1, hlt, hpred.2⟩
  · rintro ⟨r, hr, hfrom, hto, hrpred⟩
    rcases List.mem_append.mp hr with hr | hr
    · have hnot := hbefore r hr
      simp [hfrom, hrpred] at hnot
    · rcases List.mem_cons.mp hr with rfl | hr
      · exact hto
      · exact ((List.pairwise_cons.mp (List.pairwise_append.mp horder).2.1).1 r hr).trans_lt hto

theorem showsOutage_iff_inPhase {rs : List Row} {tFault tBack : ℚ}
    (horder : rs.Pairwise fun r r' ↦ r.t ≤ r'.t) (h : PodChecks rs tFault tBack) :
    ShowsOutage rs tFault tBack ↔ InPhase rs tFault tBack := by
  obtain ⟨out, hout⟩ : ∃ t, firstTime rs (fun r ↦ r.readiness = some 503) tFault = some t :=
    exists_firstTime (by simpa using h.out)
  obtain ⟨notReady, hnotReady⟩ : ∃ t, firstTime rs (fun r ↦ r.readyCond = false) tFault = some t :=
    exists_firstTime (by simpa using h.notReady)
  have houtIff : out < tBack ↔ ∃ r ∈ rs, tFault ≤ r.t ∧ r.t < tBack ∧ r.readiness = some 503 := by
    simpa using firstTime_lt_iff horder hout
  have hnotReadyIff :
      notReady < tBack ↔ ∃ r ∈ rs, tFault ≤ r.t ∧ r.t < tBack ∧ r.readyCond = false := by
    simpa using firstTime_lt_iff horder hnotReady
  constructor
  · intro hshows
    refine ⟨?_, ?_, ?_⟩
    · intro t ht
      rw [← Option.some.inj (hout.symm.trans ht)]
      exact houtIff.mpr hshows.out
    · intro t ht
      rw [← Option.some.inj (hnotReady.symm.trans ht)]
      exact hnotReadyIff.mpr hshows.notReady
    · intro r hr
      obtain ⟨last, hlast, hup⟩ := hshows.last
      rw [← Option.some.inj (hlast.symm.trans hr)]
      exact hup
  · intro hphase
    refine ⟨houtIff.mp (hphase.out out hout), hnotReadyIff.mp (hphase.notReady notReady hnotReady),
      ?_⟩
    obtain ⟨r, hr, -⟩ := h.out
    have hne : rs ≠ [] := List.ne_nil_of_mem hr
    exact ⟨rs.getLast hne, List.getLast?_eq_some_getLast hne,
      hphase.last _ (List.getLast?_eq_some_getLast hne)⟩

/-- A PASS shows the outage of every pod exactly when one of the checks fails, or
the first rows found and the last ones lie in their phases. -/
theorem stores_zero_pass_iff (rows : List Row) (servers : List String) (tFault tBack : ℚ)
    (horder : rows.Pairwise fun r r' ↦ r.t ≤ r'.t) :
    (storesZero rows servers tFault tBack = .ok .pass →
      ∀ n ∈ servers, ShowsOutage (rows.filter fun r ↦ r.pod = n) tFault tBack) ↔
    (∃ n ∈ servers, ¬ PodChecks (rows.filter fun r ↦ r.pod = n) tFault tBack) ∨
      ¬ EndpointChecks rows tFault tBack ∨
      ∀ n ∈ servers, InPhase (rows.filter fun r ↦ r.pod = n) tFault tBack := by
  have hphase : ∀ n, PodChecks (rows.filter fun r ↦ r.pod = n) tFault tBack →
      (ShowsOutage (rows.filter fun r ↦ r.pod = n) tFault tBack ↔
        InPhase (rows.filter fun r ↦ r.pod = n) tFault tBack) :=
    fun n h ↦ showsOutage_iff_inPhase (horder.sublist List.filter_sublist) h
  rw [storesZero_pass_iff]
  by_cases hpods : ∀ n ∈ servers, PodChecks (rows.filter fun r ↦ r.pod = n) tFault tBack
  · have hnone : ¬ ∃ n ∈ servers,
        ¬ PodChecks (rows.filter fun r ↦ r.pod = n) tFault tBack := by
      rintro ⟨n, hn, hfails⟩
      exact hfails (hpods n hn)
    have hall := forall₂_congr fun n hn ↦ hphase n (hpods n hn)
    rw [or_iff_right hnone, ← hall]
    tauto
  · refine iff_of_true (fun h ↦ absurd h.1 hpods) (Or.inl ?_)
    push Not at hpods
    exact hpods

def phaseRow (t : ℚ) (up : Bool) (endpoints : ℕ) : Row :=
  ⟨t, "hugegraph-server-0", up, some ⟨"10.42.0.7", if up then 200 else 503, 5, 200,
    0 < endpoints, endpoints, sampleBody true⟩⟩

theorem stores_zero_pass_iff_outage :
    let rows := [phaseRow 19 true 1, phaseRow 70 false 0, phaseRow 150 true 1]
    storesZero rows ["hugegraph-server-0"] 20 140 = .ok .pass ∧
      ShowsOutage (rows.filter fun r ↦ r.pod = "hugegraph-server-0") 20 140 := by
  intro rows
  have hpass : storesZero rows ["hugegraph-server-0"] 20 140 = .ok .pass := by decide +kernel
  have hphase : InPhase (rows.filter fun r ↦ r.pod = "hugegraph-server-0") 20 140 := by
    refine ⟨?_, ?_, by decide +kernel⟩
    · intro t ht
      rw [show firstTime _ _ _ = some 70 by decide +kernel] at ht
      rw [← Option.some.inj ht]
      norm_num
    · intro t ht
      rw [show firstTime _ _ _ = some 70 by decide +kernel] at ht
      rw [← Option.some.inj ht]
      norm_num
  refine ⟨hpass, (stores_zero_pass_iff rows ["hugegraph-server-0"] 20 140
    (by decide +kernel)).mpr (Or.inr (Or.inr ?_)) hpass _ List.mem_cons_self⟩
  intro n hn
  rw [List.mem_singleton.mp hn]
  exact hphase

/-- The pod answers and is Ready while the Stores are down, one list of endpoints
comes back empty; it is out only when they are back, and at the end. -/
theorem stores_zero_passes_without_outage :
    ¬ ∀ (rows : List Row) (servers : List String) (tFault tBack : ℚ),
      rows.Pairwise (fun r r' ↦ r.t ≤ r'.t) → servers ≠ [] → tFault < tBack →
      storesZero rows servers tFault tBack = .ok .pass →
      ∀ n ∈ servers, ShowsOutage (rows.filter fun r ↦ r.pod = n) tFault tBack := by
  intro h
  obtain ⟨hout, -, -⟩ := h
    [phaseRow 70 true 0, phaseRow 141 false 1, phaseRow 150 true 1, phaseRow 160 false 1]
    ["hugegraph-server-0"] 20 140 (by decide +kernel) (by simp) (by norm_num) (by decide +kernel)
    "hugegraph-server-0" List.mem_cons_self
  revert hout
  decide +kernel

end HugeGraphValidation.Faults
