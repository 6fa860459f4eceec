import HugeGraphValidation.Faults.Battery
import HugeGraphValidation.Lib.Rounds

/-!
# The readiness battery

A sampler thread asks every Server pod for its readiness once a second, until it
is stopped or a call raises; the scenarios of `k3s_readiness.py` judge the rows
it has by then.
-/

namespace HugeGraphValidation.Faults

open Lib

/-- What `/readiness` says in its body, where that is JSON. -/
structure ReadinessBody where
  reason : Option String
  cached : Option Bool
  activeStores : Option ℕ
  answeredStore : Option String
  pdReachable : Option Bool
  graphReadMs : Option ℕ
  deriving DecidableEq

/-- The fields of a row of a pod with an address; a body that is not JSON gives
a reason only. -/
structure Probe where
  ip : String
  readiness : ℕ
  ms : ℚ
  versions : ℕ
  inService : Bool
  endpoints : ℕ
  body : ReadinessBody
  deriving DecidableEq

structure Row where
  t : ℚ
  pod : String
  readyCond : Bool
  probe : Option Probe
  deriving DecidableEq

namespace Row

def readiness (r : Row) : Option ℕ := r.probe.map Probe.readiness

def inService (r : Row) : Option Bool := r.probe.map Probe.inService

def cached (r : Row) : Option Bool := r.probe.bind fun p ↦ p.body.cached

def pdReachable (r : Row) : Option Bool := r.probe.bind fun p ↦ p.body.pdReachable

end Row

/-! ## The sampler -/

/-- What the calls of one round return; `servers` is `none` where a call of
kubectl raises. -/
structure SampleRound where
  t : ℚ
  endpoints : List String
  servers : Option PodMap
  readiness : String → ℕ × Option ReadinessBody × String × ℚ
  versions : String → ℕ

def SampleRound.row (i : SampleRound) (p : String × Pod) : Row :=
  match p.2.ip.filter (· ≠ "") with
  | none => ⟨roundTo 1 i.t, p.1, p.2.ready, none⟩
  | some ip =>
      let (st, json, body, dt) := i.readiness ip
      ⟨roundTo 1 i.t, p.1, p.2.ready, some ⟨ip, st, roundTo 0 (dt * 1000), i.versions ip,
        ip ∈ i.endpoints, i.endpoints.length,
        json.getD ⟨some (clip 80 body), none, none, none, none, none⟩⟩⟩

def Sampler.round (i : SampleRound) (rows : List Row) : Round (List Row) Raised :=
  match i.servers with
  | none => .leave rows .other
  | some servers => .again (rows ++ servers.map i.row)

/-- The rows of `Sampler.run` over the rounds until it is stopped or a call
raises. -/
def Sampler.run (rounds : List SampleRound) : List Row :=
  (forRounds Sampler.round rounds []).state

/-- The rows of the rounds before the first one that raises. -/
theorem sampler_run_eq (rounds : List SampleRound) :
    Sampler.run rounds = (rounds.takeWhile fun i ↦ i.servers.isSome).flatMap
      fun i ↦ (i.servers.getD []).map i.row := by
  suffices h : ∀ rows, (forRounds Sampler.round rounds rows).state =
      rows ++ (rounds.takeWhile fun i ↦ i.servers.isSome).flatMap
        fun i ↦ (i.servers.getD []).map i.row from h []
  induction rounds with
  | nil =>
      intro rows
      exact (List.append_nil rows).symm
  | cons i rounds ih =>
      intro rows
      cases hservers : i.servers with
      | none =>
          rw [forRounds_cons_leave (by rw [Sampler.round, hservers])]
          simp [Round.state, hservers]
      | some servers =>
          rw [forRounds_cons_again (by rw [Sampler.round, hservers]), ih]
          simp [hservers]

/-! ## The summary -/

section Transitions

variable {κ : Type} [DecidableEq κ]

/-- The loop of `transitions`, from what `last` has. -/
def transitionsFrom (key : Row → κ) :
    List (String × κ) → List Row → List (ℚ × String × κ × κ)
  | _, [] => []
  | last, r :: rows =>
      let changed :=
        match last.lookup r.pod with
        | none => []
        | some old => if old ≠ key r then [(r.t, r.pod, old, key r)] else []
      changed ++ transitionsFrom key (Dict.set r.pod (key r) last) rows

def transitions (key : Row → κ) (rows : List Row) : List (ℚ × String × κ × κ) :=
  transitionsFrom key [] rows

def Steady (key : Row → κ) (rows : List Row) : Prop :=
  ∀ r ∈ rows, ∀ r' ∈ rows, r.pod = r'.pod → key r = key r'

omit [DecidableEq κ] in
theorem steady_cons_iff {key : Row → κ} {r : Row} {rows : List Row} :
    Steady key (r :: rows) ↔ (∀ r' ∈ rows, r'.pod = r.pod → key r' = key r) ∧ Steady key rows := by
  constructor
  · intro h
    refine ⟨?_, ?_⟩
    · intro r' hr' hpod
      exact h r' (List.mem_cons_of_mem r hr') r List.mem_cons_self hpod
    · intro r₁ hr₁ r₂ hr₂
      exact h r₁ (List.mem_cons_of_mem r hr₁) r₂ (List.mem_cons_of_mem r hr₂)
  · rintro ⟨hfirst, hrest⟩ r₁ hr₁ r₂ hr₂ hpod
    rcases List.mem_cons.mp hr₁ with heq₁ | hmem₁
    · rcases List.mem_cons.mp hr₂ with heq₂ | hmem₂
      · rw [heq₁, heq₂]
      · rw [heq₁] at hpod ⊢
        exact (hfirst r₂ hmem₂ hpod.symm).symm
    · rcases List.mem_cons.mp hr₂ with heq₂ | hmem₂
      · rw [heq₂] at hpod ⊢
        exact hfirst r₁ hmem₁ hpod
      · exact hrest r₁ hmem₁ r₂ hmem₂ hpod

variable {key : Row → κ}

/-- What a row adds, with the last value of its pod. -/
def change (key : Row → κ) : Option κ → Row → List (ℚ × String × κ × κ)
  | none, _ => []
  | some old, r => if old ≠ key r then [(r.t, r.pod, old, key r)] else []

@[simp] theorem change_none (r : Row) : change key none r = [] := rfl

@[simp] theorem change_same (r : Row) : change key (some (key r)) r = [] :=
  if_neg fun h ↦ h rfl

theorem change_of_ne {old : κ} {r : Row} (h : old ≠ key r) :
    change key (some old) r = [(r.t, r.pod, old, key r)] := if_pos h

theorem transitionsFrom_cons (last : List (String × κ)) (r : Row) (rows : List Row) :
    transitionsFrom key last (r :: rows) =
      change key (last.lookup r.pod) r ++
        transitionsFrom key (Dict.set r.pod (key r) last) rows := by
  rw [transitionsFrom]
  cases last.lookup r.pod with
  | none => rfl
  | some old => rfl

theorem change_eq_nil_iff {old : Option κ} {r : Row} :
    change key old r = [] ↔ ∀ v, old = some v → key r = v := by
  cases old with
  | none => simp
  | some old =>
      by_cases hold : old = key r
      · simp [hold]
      · simp [change_of_ne hold, Ne.symm hold]

theorem transitionsFrom_cons_eq_nil_iff {last : List (String × κ)} {r : Row}
    {rows : List Row} :
    transitionsFrom key last (r :: rows) = [] ↔
      (∀ v, last.lookup r.pod = some v → key r = v) ∧
        transitionsFrom key (Dict.set r.pod (key r) last) rows = [] := by
  rw [transitionsFrom_cons, List.append_eq_nil_iff, change_eq_nil_iff]

theorem transitionsFrom_eq_nil_iff {key : Row → κ} {last : List (String × κ)} {rows : List Row} :
    transitionsFrom key last rows = [] ↔
      (∀ r ∈ rows, ∀ v, last.lookup r.pod = some v → key r = v) ∧ Steady key rows := by
  induction rows generalizing last with
  | nil => simp [transitionsFrom, Steady]
  | cons r rows ih =>
      rw [transitionsFrom_cons_eq_nil_iff, ih, steady_cons_iff, List.forall_mem_cons]
      constructor
      · rintro ⟨hr, hrows, hsteady⟩
        have hpod : ∀ r' ∈ rows, r'.pod = r.pod → key r' = key r := by
          intro r' hr' hpod
          exact hrows r' hr' _ (by rw [hpod, Dict.lookup_set_self])
        refine ⟨⟨hr, ?_⟩, hpod, hsteady⟩
        intro r' hr' v hv
        by_cases hsame : r'.pod = r.pod
        · rw [hpod r' hr' hsame]
          exact hr v (hsame ▸ hv)
        · exact hrows r' hr' v (by rw [Dict.lookup_set_of_ne hsame, hv])
      · rintro ⟨⟨hr, hrows⟩, hpod, hsteady⟩
        refine ⟨hr, ?_, hsteady⟩
        intro r' hr' v hv
        by_cases hsame : r'.pod = r.pod
        · rw [hsame, Dict.lookup_set_self] at hv
          rw [hpod r' hr' hsame, Option.some.inj hv]
        · rw [Dict.lookup_set_of_ne hsame] at hv
          exact hrows r' hr' v hv

theorem transitions_eq_nil_iff {key : Row → κ} {rows : List Row} :
    transitions key rows = [] ↔ Steady key rows := by
  rw [transitions, transitionsFrom_eq_nil_iff]
  simp

end Transitions

def firstTime (rows : List Row) (pred : Row → Bool) (after : ℚ) : Option ℚ :=
  (rows.find? fun r ↦ after ≤ r.t && pred r).map Row.t

structure Summary where
  samples : ℕ
  codes : List (Option ℕ × ℕ)
  p50Ms : Option ℚ
  p99Ms : Option ℚ
  maxMs : Option ℚ
  cachedRatio : Option ℚ
  readinessTransitions : List (ℚ × String × Option ℕ × Option ℕ)
  readyCondTransitions : List (ℚ × String × Bool × Bool)
  inServiceTransitions : List (ℚ × String × Option Bool × Option Bool)

def summarize (rows : List Row) : Summary :=
  let probes := rows.filterMap Row.probe
  let lat := ((probes.filter fun p ↦ p.readiness = 200 || p.readiness = 503).map
    Probe.ms).insertionSort (· ≤ ·)
  let cached := rows.countP fun r ↦ r.cached = some true
  { samples := rows.length
    codes := rows.foldl (fun codes r ↦ Dict.count r.readiness codes) []
    p50Ms := lat[lat.length / 2]?
    p99Ms := lat[lat.length * 99 / 100]?
    maxMs := lat.getLast?
    cachedRatio := if rows = [] then none else some (roundTo 2 (cached / rows.length))
    readinessTransitions := transitions Row.readiness rows
    readyCondTransitions := transitions Row.readyCond rows
    inServiceTransitions := transitions Row.inService rows }

namespace Summary

/-- `sm["codes"].get(200, 0) == sm["samples"]` -/
def allReady (sm : Summary) : Bool := (sm.codes.lookup (some 200)).getD 0 = sm.samples

end Summary

theorem getD_lookup_codes (code : Option ℕ) (rows : List Row) :
    ((rows.foldl (fun codes r ↦ Dict.count r.readiness codes) []).lookup code).getD 0 =
      rows.countP fun r ↦ r.readiness = code := by
  induction rows using List.reverseRecOn with
  | nil => rfl
  | append_singleton rows r ih =>
      rw [List.foldl_append, List.foldl_cons, List.foldl_nil, Dict.lookup_count, ih,
        List.countP_append, List.countP_singleton]
      by_cases hcode : r.readiness = code
      · simp [hcode]
      · simp [hcode, Ne.symm hcode]

/-- The count of 200 is the number of samples when every row has it, also when
there is none. -/
theorem allReady_iff {rows : List Row} :
    (summarize rows).allReady = true ↔ ∀ r ∈ rows, r.readiness = some 200 := by
  rw [Summary.allReady, summarize, decide_eq_true_iff, getD_lookup_codes,
    List.countP_eq_length]
  simp only [decide_eq_true_eq]

/-! ## The scenarios -/

/-- `"PASS" if ok else "FAIL"` -/
def passIf (ok : Bool) : Verdict := if ok then .pass else .fail

theorem passIf_eq_pass {ok : Bool} : passIf ok = .pass ↔ ok = true := by
  cases ok with
  | true => exact iff_of_true rfl rfl
  | false => exact iff_of_false (by rintro ⟨⟩) (by simp)

def baseline (rows : List Row) : Verdict :=
  let sm := summarize rows
  passIf (sm.allReady && sm.readinessTransitions.isEmpty)

def storeOneDown (rows : List Row) : Verdict :=
  let sm := summarize rows
  passIf ((sm.readinessTransitions.isEmpty && sm.readyCondTransitions.isEmpty) && sm.allReady)

def storeRoll (rows : List Row) : Verdict :=
  let sm := summarize rows
  passIf ((sm.readinessTransitions.isEmpty && sm.readyCondTransitions.isEmpty &&
    sm.inServiceTransitions.isEmpty) && sm.allReady)

def pdRoll (rows : List Row) : Verdict :=
  let sm := summarize rows
  passIf sm.readyCondTransitions.isEmpty

def storeFreeze (rows : List Row) : Verdict :=
  let sm := summarize rows
  passIf sm.readyCondTransitions.isEmpty

/-- `sorted({...})` on codes: `None` and a number do not compare. -/
def sortedCodes (codes : List (Option ℕ)) : Except Raised (List (Option ℕ)) :=
  let set := codes.dedup
  if none ∈ set ∧ 1 < set.length then .error .other
  else .ok (set.insertionSort fun c c' ↦ c.getD 0 ≤ c'.getD 0)

structure PdZeroPod where
  codesDuringFault : List (Option ℕ)
  pdUnreachableSeenAfterS : Option ℚ
  pdReachableAgainAfterS : Option ℚ
  readyCondTransitions : List (ℚ × String × Bool × Bool)

/-- `per_pod[name]` -/
def pdZeroPod (rows : List Row) (tFault tBack : ℚ) (name : String) : Except Raised PdZeroPod :=
  let rs := rows.filter fun r ↦ r.pod = name
  let during := rs.filter fun r ↦ tFault + 5 ≤ r.t && r.t < tBack
  match sortedCodes (during.map Row.readiness) with
  | .error e => .error e
  | .ok codes =>
      .ok ⟨codes,
        (firstTime rs (fun r ↦ r.pdReachable = some false) tFault).map
          fun x ↦ roundTo 1 (x - tFault),
        (firstTime rs (fun r ↦ r.pdReachable = some true) tBack).map
          fun x ↦ roundTo 1 (x - tBack),
        (summarize rows).readyCondTransitions.filter fun t ↦ t.2.1 = name⟩

def PdZeroPod.ok (v : PdZeroPod) : Bool :=
  v.codesDuringFault = [some 200] && v.pdUnreachableSeenAfterS.isSome &&
    v.pdReachableAgainAfterS.isSome && v.readyCondTransitions.isEmpty

/-- `pd_zero`, with the Server pods that it lists at its end. -/
def pdZero (rows : List Row) (servers : List String) (tFault tBack : ℚ) :
    Except Raised Verdict :=
  match servers.mapM (pdZeroPod rows tFault tBack) with
  | .error e => .error e
  | .ok perPod => .ok (passIf (perPod.all PdZeroPod.ok))

/-! ## What a PASS rests on -/

theorem steady_of_ready {rows : List Row} (h : ∀ r ∈ rows, r.readiness = some 200) :
    Steady Row.readiness rows := by
  intro r hr r' hr' _
  rw [h r hr, h r' hr']

theorem baseline_pass_iff {rows : List Row} :
    baseline rows = .pass ↔ ∀ r ∈ rows, r.readiness = some 200 := by
  rw [baseline, passIf_eq_pass, Bool.and_eq_true, allReady_iff, List.isEmpty_iff]
  exact and_iff_left_of_imp fun h ↦ transitions_eq_nil_iff.mpr (steady_of_ready h)

theorem storeOneDown_pass_iff {rows : List Row} :
    storeOneDown rows = .pass ↔
      (∀ r ∈ rows, r.readiness = some 200) ∧ Steady Row.readyCond rows := by
  rw [storeOneDown, passIf_eq_pass, Bool.and_eq_true, Bool.and_eq_true, allReady_iff,
    List.isEmpty_iff, List.isEmpty_iff]
  simp only [summarize, transitions_eq_nil_iff]
  constructor
  · rintro ⟨⟨-, hcond⟩, hready⟩
    exact ⟨hready, hcond⟩
  · rintro ⟨hready, hcond⟩
    exact ⟨⟨steady_of_ready hready, hcond⟩, hready⟩

theorem storeRoll_pass_iff {rows : List Row} :
    storeRoll rows = .pass ↔ (∀ r ∈ rows, r.readiness = some 200) ∧
      Steady Row.readyCond rows ∧ Steady Row.inService rows := by
  rw [storeRoll, passIf_eq_pass, Bool.and_eq_true, Bool.and_eq_true, Bool.and_eq_true,
    allReady_iff, List.isEmpty_iff, List.isEmpty_iff, List.isEmpty_iff]
  simp only [summarize, transitions_eq_nil_iff]
  constructor
  · rintro ⟨⟨⟨-, hcond⟩, hservice⟩, hready⟩
    exact ⟨hready, hcond, hservice⟩
  · rintro ⟨hready, hcond, hservice⟩
    exact ⟨⟨⟨steady_of_ready hready, hcond⟩, hservice⟩, hready⟩

theorem pdRoll_pass_iff {rows : List Row} :
    pdRoll rows = .pass ↔ Steady Row.readyCond rows := by
  rw [pdRoll, passIf_eq_pass, List.isEmpty_iff, summarize, transitions_eq_nil_iff]

theorem storeFreeze_pass_iff {rows : List Row} :
    storeFreeze rows = .pass ↔ Steady Row.readyCond rows := by
  rw [storeFreeze, passIf_eq_pass, List.isEmpty_iff, summarize, transitions_eq_nil_iff]

/-- A traversal that may raise ends well when it does so at each item. -/
theorem exists_mapM_all_iff {ι β : Type} {f : ι → Except Raised β} {p : β → Bool}
    {is : List ι} :
    (∃ bs, is.mapM f = .ok bs ∧ bs.all p = true) ↔ ∀ i ∈ is, ∃ b, f i = .ok b ∧ p b = true := by
  induction is with
  | nil => simp [pure, Except.pure]
  | cons i is ih =>
      rw [List.forall_mem_cons, ← ih, List.mapM_cons]
      constructor
      · rintro ⟨bs, hbs, hall⟩
        cases hf : f i with
        | error e =>
            rw [hf] at hbs
            cases hbs
        | ok b =>
            cases hrest : is.mapM f with
            | error e =>
                rw [hf, hrest] at hbs
                cases hbs
            | ok bs' =>
                rw [hf, hrest] at hbs
                obtain rfl := Except.ok.inj hbs
                rw [List.all_cons, Bool.and_eq_true] at hall
                exact ⟨⟨b, rfl, hall.1⟩, bs', rfl, hall.2⟩
      · rintro ⟨⟨b, hb, hp⟩, bs, hbs, hall⟩
        refine ⟨b :: bs, by rw [hb, hbs]; rfl, ?_⟩
        rw [List.all_cons, hp, hall]
        rfl

theorem mem_of_sortedCodes_eq {codes : List (Option ℕ)} {c : Option ℕ}
    (h : sortedCodes codes = .ok [c]) : c ∈ codes := by
  unfold sortedCodes at h
  simp only at h
  split at h
  · cases h
  · have hsorted := Except.ok.inj h
    have hmem : c ∈ codes.dedup := by
      rw [← List.mem_insertionSort fun c c' : Option ℕ ↦ c.getD 0 ≤ c'.getD 0, hsorted]
      exact List.mem_singleton_self c
    exact List.mem_dedup.mp hmem

/-- The scenario that looks at each pod rests on a sample of each. -/
theorem pdZero_pass {rows : List Row} {servers : List String} {tFault tBack : ℚ}
    (h : pdZero rows servers tFault tBack = .ok .pass) :
    ∀ n ∈ servers, ∃ r ∈ rows, r.pod = n ∧ r.readiness = some 200 ∧ tFault + 5 ≤ r.t ∧
      r.t < tBack := by
  intro n hn
  unfold pdZero at h
  split at h
  · cases h
  · rename_i perPod hperPod
    have hok := passIf_eq_pass.mp (Except.ok.inj h)
    obtain ⟨v, hpod, hcodes⟩ := exists_mapM_all_iff.mp ⟨perPod, hperPod, hok⟩ n hn
    rw [PdZeroPod.ok, Bool.and_eq_true, Bool.and_eq_true, Bool.and_eq_true,
      decide_eq_true_iff] at hcodes
    simp only [pdZeroPod] at hpod
    split at hpod
    · cases hpod
    · rename_i codes hsorted
      obtain rfl := Except.ok.inj hpod
      obtain rfl : codes = [some 200] := hcodes.1.1.1
      obtain ⟨r, hr, hready⟩ := List.mem_map.mp (mem_of_sortedCodes_eq hsorted)
      obtain ⟨hr, htime⟩ := List.mem_filter.mp hr
      obtain ⟨hr, hname⟩ := List.mem_filter.mp hr
      rw [Bool.and_eq_true, decide_eq_true_iff, decide_eq_true_iff] at htime
      exact ⟨r, hr, of_decide_eq_true hname, hready, htime.1, htime.2⟩

/-- The pod has a row, from time `t` on. -/
def SampledSince (rows : List Row) (t : ℚ) (n : String) : Prop :=
  ∃ r ∈ rows, r.pod = n ∧ t ≤ r.t

/-- A PASS rests on samples of every pod exactly when there are such samples or
the rows fail the check of the scenario; only `pd_zero` looks at each pod. -/
theorem readiness_pass_iff (rows : List Row) (servers : List String) (tFault tBack : ℚ) :
    ((baseline rows = .pass → ∀ n ∈ servers, ∃ r ∈ rows, r.pod = n) ↔
      (∀ n ∈ servers, ∃ r ∈ rows, r.pod = n) ∨ ∃ r ∈ rows, r.readiness ≠ some 200) ∧
    ((storeOneDown rows = .pass → ∀ n ∈ servers, SampledSince rows tFault n) ↔
      (∀ n ∈ servers, SampledSince rows tFault n) ∨ (∃ r ∈ rows, r.readiness ≠ some 200) ∨
        ¬ Steady Row.readyCond rows) ∧
    ((storeRoll rows = .pass → ∀ n ∈ servers, SampledSince rows tFault n) ↔
      (∀ n ∈ servers, SampledSince rows tFault n) ∨ (∃ r ∈ rows, r.readiness ≠ some 200) ∨
        ¬ Steady Row.readyCond rows ∨ ¬ Steady Row.inService rows) ∧
    ((pdRoll rows = .pass → ∀ n ∈ servers, SampledSince rows tFault n) ↔
      (∀ n ∈ servers, SampledSince rows tFault n) ∨ ¬ Steady Row.readyCond rows) ∧
    ((storeFreeze rows = .pass → ∀ n ∈ servers, SampledSince rows tFault n) ↔
      (∀ n ∈ servers, SampledSince rows tFault n) ∨ ¬ Steady Row.readyCond rows) ∧
    (pdZero rows servers tFault tBack = .ok .pass →
      ∀ n ∈ servers, ∃ r ∈ rows, r.pod = n ∧ r.readiness = some 200 ∧ tFault + 5 ≤ r.t ∧
        r.t < tBack) := by
  have hready : (∃ r ∈ rows, r.readiness ≠ some 200) ↔
      ¬ ∀ r ∈ rows, r.readiness = some 200 := by
    simp
  refine ⟨?_, ?_, ?_, ?_, ?_, pdZero_pass⟩
  · rw [baseline_pass_iff, imp_iff_or_not, hready]
  · rw [storeOneDown_pass_iff, imp_iff_or_not, not_and_or, hready]
  · rw [storeRoll_pass_iff, imp_iff_or_not, not_and_or, not_and_or, hready]
  · rw [pdRoll_pass_iff, imp_iff_or_not]
  · rw [storeFreeze_pass_iff, imp_iff_or_not]

def sampleBody (pdReachable : Bool) : ReadinessBody :=
  ⟨none, some false, some 3, some "hugegraph-store-0", some pdReachable, some 4⟩

def sampleRow (t : ℚ) (pdReachable : Bool) : Row :=
  ⟨t, "hugegraph-server-0", true, some ⟨"10.42.0.7", 200, 5, 200, true, 1, sampleBody pdReachable⟩⟩

theorem readiness_pass_iff_pd_zero :
    let rows := [sampleRow 19 true, sampleRow 40 false, sampleRow 120 true]
    pdZero rows ["hugegraph-server-0"] 20 110 = .ok .pass ∧
      ∃ r ∈ rows, r.pod = "hugegraph-server-0" ∧ r.readiness = some 200 ∧ 20 + 5 ≤ r.t ∧
        r.t < 110 := by
  intro rows
  have hpass : pdZero rows ["hugegraph-server-0"] 20 110 = .ok .pass := by decide +kernel
  exact ⟨hpass, (readiness_pass_iff rows ["hugegraph-server-0"] 20 110).2.2.2.2.2 hpass
    "hugegraph-server-0" List.mem_cons_self⟩

def kubectlFails : SampleRound where
  t := 0
  endpoints := []
  servers := none
  readiness _ := (0, none, "", 0)
  versions _ := 0

/-- A sampler that dies in its first round lets five scenarios pass. -/
theorem readiness_passes_without_samples :
    Sampler.run [kubectlFails] = [] ∧
      baseline (Sampler.run [kubectlFails]) = .pass ∧
      storeOneDown (Sampler.run [kubectlFails]) = .pass ∧
      storeRoll (Sampler.run [kubectlFails]) = .pass ∧
      pdRoll (Sampler.run [kubectlFails]) = .pass ∧
      storeFreeze (Sampler.run [kubectlFails]) = .pass ∧
      ¬ (∀ n ∈ ["hugegraph-server-0"], ∃ r ∈ Sampler.run [kubectlFails], r.pod = n) ∧
      ¬ ∀ n ∈ ["hugegraph-server-0"], SampledSince (Sampler.run [kubectlFails]) 20 n := by
  have hrows : Sampler.run [kubectlFails] = [] := by
    rw [sampler_run_eq]
    rfl
  rw [hrows, baseline_pass_iff, storeOneDown_pass_iff, storeRoll_pass_iff, pdRoll_pass_iff,
    storeFreeze_pass_iff]
  simp [Steady, SampledSince]

end HugeGraphValidation.Faults
