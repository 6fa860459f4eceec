import HugeGraphValidation.Faults.Verify
import HugeGraphValidation.Lib.Dict
import HugeGraphValidation.Lib.Numerals
import HugeGraphValidation.Lib.Text

/-!
# The fault battery

Each scenario of `k3s_faults.py` brings a fault about, observes the cluster and
judges what it has observed.  A scenario is a function of what its calls return;
`verify` gives the lists `bad` and `lost`.
-/

namespace HugeGraphValidation.Faults

open Lib

/-- An entry of what `pods()` returns. -/
structure Pod where
  uid : String
  ip : Option String
  node : Option String
  phase : Option String
  ready : Bool
  restarts : ℕ
  deriving DecidableEq

abbrev PodMap := List (String × Pod)

inductive Verdict where
  | pass
  | fail
  | inconclusive
  deriving DecidableEq

inductive Blame where
  | chart
  | image
  | harness
  deriving DecidableEq

/-- What `result` is called with and writes. -/
structure Report (ε : Type) where
  scenario : String
  verdict : Verdict
  blame : Blame
  evidence : ε

def inconclusive {ε : Type} (scenario : String) (evidence : ε) : Report ε :=
  ⟨scenario, .inconclusive, .harness, evidence⟩

/-- PASS on the chart, or FAIL on the image. -/
def judged {ε : Type} (scenario : String) (ok : Bool) (evidence : ε) : Report ε :=
  ⟨scenario, if ok then .pass else .fail, if ok then .chart else .image, evidence⟩

/-- `busiest_store()`: the first store that leads most partitions. -/
def busiestStore (leaders : List (String × ℕ)) : String :=
  match leaders.argmax Prod.snd with
  | none => "hugegraph-store-1"
  | some busiest => busiest.1

structure Verified where
  bad : List Bad
  lost : List (String × ℕ)

def Verified.clean (v : Verified) : Bool := v.bad.isEmpty && v.lost.isEmpty

/-! ## The stores -/

structure StoreCrashObs extends Verified where
  leadersBefore : List (String × ℕ)
  podsBefore : PodMap
  pdLeader : Option String
  back : Option ℚ
  podsAfter : PodMap
  leadersAfter : List (String × ℕ)

structure StoreCrashEvidence where
  victim : String
  leadersBefore : List (String × ℕ)
  leadersAfter : List (String × ℕ)
  uidBefore : String
  uidAfter : String
  nodeAfter : Option String
  storeReadyAgainS : Option ℚ
  pdLeader : Option String
  verifyMismatches : ℕ
  ackedLost : ℕ

def storeCrash (o : StoreCrashObs) : Except Raised (Report StoreCrashEvidence) :=
  let victim := busiestStore o.leadersBefore
  match o.podsBefore.lookup victim, o.podsAfter.lookup victim with
  | some before, some after =>
      let landed := after.uid ≠ before.uid
      let ev : StoreCrashEvidence := ⟨victim, o.leadersBefore, o.leadersAfter, before.uid,
        after.uid, after.node, o.back.map (roundTo 0), o.pdLeader, o.bad.length, o.lost.length⟩
      if ¬ landed then .ok (inconclusive "store-crash" ev)
      else .ok (judged "store-crash" (o.back.isSome && o.clean) ev)
  | _, _ => .error .other

structure StoreStallObs extends Verified where
  leadersBefore : List (String × ℕ)
  podsBefore : PodMap
  pid : String
  state : String
  podsAfter : PodMap
  leadersAfter : List (String × ℕ)

structure StoreStallEvidence where
  victim : String
  leadersBefore : List (String × ℕ)
  leadersAfter : List (String × ℕ)
  javaPid : String
  procStateAfterStop : String
  stallS : ℕ
  restartsBefore : ℕ
  restartsAfter : ℕ
  uidChanged : Bool
  verifyMismatches : ℕ
  ackedLost : ℕ

def storeStall (o : StoreStallObs) : Except Raised (Report StoreStallEvidence) :=
  let victim := busiestStore o.leadersBefore
  match o.podsBefore.lookup victim, o.podsAfter.lookup victim with
  | some before, some after =>
      let ev : StoreStallEvidence := ⟨victim, o.leadersBefore, o.leadersAfter, o.pid, o.state, 120,
        before.restarts, after.restarts, after.uid ≠ before.uid, o.bad.length, o.lost.length⟩
      if strip o.state ≠ "T" then .ok (inconclusive "store-stall" ev)
      else .ok (judged "store-stall" o.clean ev)
  | _, _ => .error .other

/-! ## PD -/

/-- `l2 and l2 != leader` -/
def isNewLeader (leader : String) : Option String → Bool
  | none => false
  | some l => l ≠ "" && l ≠ leader

/-- `if not leader` -/
def knownLeader (leader : Option String) : Option String := leader.filter (· ≠ "")

/-- The samples are the times with the leaders of the rounds; `seen ip k` is the
status of round `k` of the loop for that server. -/
structure PdRestartObs extends Verified where
  leader : Option String
  podsBefore : PodMap
  servers : PodMap
  samples : ℕ → ℚ × Option String
  back : Option ℚ
  create : ℕ
  seen : Option String → ℕ → ℕ
  podsAfter : PodMap

structure PdRestartEvidence where
  leaderBefore : String
  uidBefore : String
  uidAfter : String
  newLeaderAfterS : Option ℚ
  pdReadyAgainS : Option ℚ
  schemaCreateHttp : ℕ
  schemaSeenOnOtherServers : List (Option String × ℕ)
  verifyMismatches : ℕ
  ackedLost : ℕ

def PdRestartObs.newLeaderAt (o : PdRestartObs) (leader : String) : Option ℚ :=
  ((List.range 120).find? fun k ↦ isNewLeader leader (o.samples k).2).map fun k ↦ (o.samples k).1

/-- The status the loop of a server ends with: 200 from one of its 30 rounds, or
that of the last one. -/
def PdRestartObs.lastSeen (o : PdRestartObs) (ip : Option String) : ℕ :=
  if (List.range 30).any fun k ↦ o.seen ip k = 200 then 200 else o.seen ip 29

/-- The evidence is `none` where there is no leader to restart. -/
def pdRestart (o : PdRestartObs) : Except Raised (Report (Option PdRestartEvidence)) :=
  match knownLeader o.leader with
  | none => .ok (inconclusive "pd-restart" none)
  | some leader =>
      match o.podsBefore.lookup leader, o.podsAfter.lookup leader, o.servers with
      | some before, some after, _ :: others =>
          let tNew := o.newLeaderAt leader
          let seen := Dict.update [] (others.map fun p ↦ (p.2.ip, o.lastSeen p.2.ip))
          let ev : PdRestartEvidence := ⟨leader, before.uid, after.uid, tNew.map (roundTo 1),
            o.back, o.create, seen, o.bad.length, o.lost.length⟩
          if after.uid = before.uid then .ok (inconclusive "pd-restart" (some ev))
          else
            let ok := (o.create = 201 || o.create = 202) && seen.all (fun v ↦ v.2 = 200) &&
              o.clean && tNew.isSome
            .ok (judged "pd-restart" ok (some ev))
      | _, _, _ => .error .other

/-- The samples are those of the loop, with their times. -/
structure PdFreezeObs extends Verified where
  leader : Option String
  podsBefore : PodMap
  pid : String
  state : String
  samples : List (ℚ × Option String)
  podsAfter : PodMap

structure PdFreezeEvidence where
  leaderBefore : String
  javaPid : String
  procStateAfterStop : String
  freezeS : ℕ
  newLeaderAfterS : Option ℚ
  leaderlessSamples : ℕ
  leaderlessFirstS : Option ℚ
  leaderlessLastS : Option ℚ
  restartsAfter : ℕ
  uidChanged : Bool
  verifyMismatches : ℕ
  ackedLost : ℕ

def pdFreeze (o : PdFreezeObs) : Except Raised (Report (Option PdFreezeEvidence)) :=
  match knownLeader o.leader with
  | none => .ok (inconclusive "pd-freeze" none)
  | some leader =>
      match o.podsBefore.lookup leader, o.podsAfter.lookup leader with
      | some before, some after =>
          let tNew := (o.samples.find? fun p ↦ isNewLeader leader p.2).map Prod.fst
          let leaderless := (o.samples.filter fun p ↦ p.2.isNone).map fun p ↦ roundTo 1 p.1
          let ev : PdFreezeEvidence := ⟨leader, o.pid, o.state, 90, tNew.map (roundTo 1),
            leaderless.length, leaderless.head?, leaderless.getLast?, after.restarts,
            after.uid ≠ before.uid, o.bad.length, o.lost.length⟩
          if strip o.state ≠ "T" then .ok (inconclusive "pd-freeze" (some ev))
          else .ok (judged "pd-freeze" (tNew.isSome && o.clean) (some ev))
      | _, _ => .error .other

/-! ## The cold start -/

/-- `storePods k` is what round `k` of the loop over the Store pods returns. -/
structure ColdStartObs extends Verified where
  servers0 : PodMap
  storePods : ℕ → PodMap
  mid : PodMap
  back : Option ℚ
  srv : Option ℚ
  podsAfter : PodMap
  startupTimeoutEnv : String

structure ColdStartEvidence where
  storesScaledDown : Bool
  serversWithoutStores : List (String × Option String × Bool × ℕ)
  storesReadyAgainS : Option ℚ
  serversReadyS : Option ℚ
  newServerRestarts : List (String × ℕ)
  startupTimeoutEnv : String
  verifyMismatches : ℕ
  ackedLost : ℕ

/-- `n not in servers0` -/
def newServers (servers0 pods : PodMap) : PodMap :=
  pods.filter fun p ↦ p.1 ∉ Dict.keys servers0

/-- The loop over the Store pods ends after 120 rounds at the latest, and nothing
of it is kept. -/
def coldStart (o : ColdStartObs) : Report ColdStartEvidence :=
  let newPods := newServers o.servers0 o.podsAfter
  let ev : ColdStartEvidence := ⟨true, o.mid.map fun p ↦ (p.1, p.2.phase, p.2.ready, p.2.restarts),
    o.back, o.srv, newPods.map fun p ↦ (p.1, p.2.restarts), o.startupTimeoutEnv, o.bad.length,
    o.lost.length⟩
  judged "cold-start" (o.srv.isSome && newPods.all (fun p ↦ p.2.restarts = 0) && o.clean) ev

/-! ## What a PASS shows -/

/-- Some round of the loop has found no Store pod, and a Server pod has been
started while they were gone. -/
def ColdStartObs.Landed (o : ColdStartObs) : Prop :=
  (∃ k < 120, o.storePods k = []) ∧ newServers o.servers0 o.mid ≠ []

theorem verdict_judged {ε : Type} {scenario : String} {ok : Bool} {ev : ε} :
    (judged scenario ok ev).verdict = .pass ↔ ok = true := by
  cases ok with
  | true => exact iff_of_true rfl rfl
  | false => exact iff_of_false (by rintro ⟨⟩) (by simp)

theorem clean_iff {v : Verified} : v.clean = true ↔ v.bad = [] ∧ v.lost = [] := by
  rw [Verified.clean, Bool.and_eq_true, List.isEmpty_iff, List.isEmpty_iff]

theorem not_pass_inconclusive {ε : Type} {scenario : String} {ev : ε} :
    (inconclusive scenario ev).verdict ≠ .pass := by
  rintro ⟨⟩

theorem storeCrash_pass {o : StoreCrashObs} {r : Report StoreCrashEvidence}
    (h : storeCrash o = .ok r) (hpass : r.verdict = .pass) :
    (o.bad = [] ∧ o.lost = []) ∧ r.evidence.uidAfter ≠ r.evidence.uidBefore := by
  simp only [storeCrash] at h
  split at h
  · split at h
    · obtain rfl := Except.ok.inj h
      exact absurd hpass not_pass_inconclusive
    · rename_i hlanded
      obtain rfl := Except.ok.inj h
      have hok := verdict_judged.mp hpass
      rw [Bool.and_eq_true, clean_iff] at hok
      exact ⟨hok.2, not_not.mp hlanded⟩
  · cases h

theorem storeStall_pass {o : StoreStallObs} {r : Report StoreStallEvidence}
    (h : storeStall o = .ok r) (hpass : r.verdict = .pass) :
    (o.bad = [] ∧ o.lost = []) ∧ strip r.evidence.procStateAfterStop = "T" := by
  simp only [storeStall] at h
  split at h
  · split at h
    · obtain rfl := Except.ok.inj h
      exact absurd hpass not_pass_inconclusive
    · rename_i hstate
      obtain rfl := Except.ok.inj h
      exact ⟨clean_iff.mp (verdict_judged.mp hpass), not_not.mp hstate⟩
  · cases h

theorem pdRestart_pass {o : PdRestartObs} {r : Report (Option PdRestartEvidence)}
    (h : pdRestart o = .ok r) (hpass : r.verdict = .pass) :
    (o.bad = [] ∧ o.lost = []) ∧ ∃ ev, r.evidence = some ev ∧ ev.uidAfter ≠ ev.uidBefore := by
  simp only [pdRestart] at h
  split at h
  · obtain rfl := Except.ok.inj h
    exact absurd hpass not_pass_inconclusive
  · split at h
    · split at h
      · obtain rfl := Except.ok.inj h
        exact absurd hpass not_pass_inconclusive
      · rename_i huid
        obtain rfl := Except.ok.inj h
        have hok := verdict_judged.mp hpass
        rw [Bool.and_eq_true, Bool.and_eq_true, clean_iff] at hok
        exact ⟨hok.1.2, _, rfl, huid⟩
    · cases h

theorem pdFreeze_pass {o : PdFreezeObs} {r : Report (Option PdFreezeEvidence)}
    (h : pdFreeze o = .ok r) (hpass : r.verdict = .pass) :
    (o.bad = [] ∧ o.lost = []) ∧
      ∃ ev, r.evidence = some ev ∧ strip ev.procStateAfterStop = "T" := by
  simp only [pdFreeze] at h
  split at h
  · obtain rfl := Except.ok.inj h
    exact absurd hpass not_pass_inconclusive
  · split at h
    · split at h
      · obtain rfl := Except.ok.inj h
        exact absurd hpass not_pass_inconclusive
      · rename_i hstate
        obtain rfl := Except.ok.inj h
        have hok := verdict_judged.mp hpass
        rw [Bool.and_eq_true, clean_iff] at hok
        exact ⟨hok.2, _, rfl, not_not.mp hstate⟩
    · cases h

theorem coldStart_pass_iff {o : ColdStartObs} :
    (coldStart o).verdict = .pass ↔
      o.srv ≠ none ∧ (∀ p ∈ newServers o.servers0 o.podsAfter, p.2.restarts = 0) ∧
        o.bad = [] ∧ o.lost = [] := by
  rw [coldStart, verdict_judged, Bool.and_eq_true, Bool.and_eq_true, clean_iff,
    Option.isSome_iff_ne_none, List.all_eq_true, and_assoc]
  simp only [decide_eq_true_eq]

/-- A PASS of the first four scenarios shows the fault and clean lists.  A PASS
of the cold start does exactly when the fault has landed or a check fails. -/
theorem battery_pass_iff (crash : StoreCrashObs) (stall : StoreStallObs) (restart : PdRestartObs)
    (freeze : PdFreezeObs) (cold : ColdStartObs) :
    (∀ r, storeCrash crash = .ok r → r.verdict = .pass →
      (crash.bad = [] ∧ crash.lost = []) ∧ r.evidence.uidAfter ≠ r.evidence.uidBefore) ∧
    (∀ r, storeStall stall = .ok r → r.verdict = .pass →
      (stall.bad = [] ∧ stall.lost = []) ∧ strip r.evidence.procStateAfterStop = "T") ∧
    (∀ r, pdRestart restart = .ok r → r.verdict = .pass →
      (restart.bad = [] ∧ restart.lost = []) ∧
        ∃ ev, r.evidence = some ev ∧ ev.uidAfter ≠ ev.uidBefore) ∧
    (∀ r, pdFreeze freeze = .ok r → r.verdict = .pass →
      (freeze.bad = [] ∧ freeze.lost = []) ∧
        ∃ ev, r.evidence = some ev ∧ strip ev.procStateAfterStop = "T") ∧
    (((coldStart cold).verdict = .pass →
        (cold.bad = [] ∧ cold.lost = []) ∧ cold.Landed) ↔
      cold.Landed ∨ cold.srv = none ∨
        (∃ p ∈ newServers cold.servers0 cold.podsAfter, p.2.restarts ≠ 0) ∨ cold.bad ≠ [] ∨
        cold.lost ≠ []) := by
  refine ⟨fun _ ↦ storeCrash_pass, fun _ ↦ storeStall_pass, fun _ ↦ pdRestart_pass,
    fun _ ↦ pdFreeze_pass, ?_⟩
  rw [coldStart_pass_iff]
  constructor
  · intro h
    by_contra hnot
    simp only [not_or, not_exists, not_and, not_not] at hnot
    obtain ⟨hlanded, hsrv, hrestarts, hbad, hlost⟩ := hnot
    exact hlanded (h ⟨hsrv, hrestarts, hbad, hlost⟩).2
  · rintro h ⟨hsrv, hrestarts, hbad, hlost⟩
    refine ⟨⟨hbad, hlost⟩, ?_⟩
    rcases h with hlanded | hnone | ⟨p, hp, hne⟩ | hne | hne
    · exact hlanded
    · exact absurd hnone hsrv
    · exact absurd (hrestarts p hp) hne
    · exact absurd hbad hne
    · exact absurd hlost hne

def samplePod (uid : String) : Pod := ⟨uid, some "10.42.0.7", some "n1", some "Running", true, 0⟩

def threeServers : PodMap :=
  [("hugegraph-server-0", samplePod "u5"), ("hugegraph-server-1", samplePod "u6"),
    ("hugegraph-server-2", samplePod "u7")]

def crashLands : StoreCrashObs where
  bad := []
  lost := []
  leadersBefore := [("hugegraph-store-0", 4), ("hugegraph-store-2", 5)]
  podsBefore := [("hugegraph-store-2", samplePod "u2")]
  pdLeader := some "hugegraph-pd-0"
  back := some 41
  podsAfter := [("hugegraph-store-2", samplePod "u9")]
  leadersAfter := [("hugegraph-store-0", 9)]

def stallLands : StoreStallObs where
  bad := []
  lost := []
  leadersBefore := []
  podsBefore := [("hugegraph-store-1", samplePod "u1")]
  pid := "7"
  state := "T\n"
  podsAfter := [("hugegraph-store-1", samplePod "u1")]
  leadersAfter := []

def restartLands : PdRestartObs where
  bad := []
  lost := []
  leader := some "hugegraph-pd-0"
  podsBefore := [("hugegraph-pd-0", samplePod "u3")]
  servers := threeServers
  samples k := (k, some "hugegraph-pd-1")
  back := some 30
  create := 202
  seen _ _ := 200
  podsAfter := [("hugegraph-pd-0", samplePod "u8")]

def freezeLands : PdFreezeObs where
  bad := []
  lost := []
  leader := some "hugegraph-pd-0"
  podsBefore := [("hugegraph-pd-0", samplePod "u3")]
  pid := "7"
  state := "T"
  samples := [(2, none), (4, some "hugegraph-pd-1")]
  podsAfter := [("hugegraph-pd-0", samplePod "u3")]

/-- Stores that do not go away, and a rollout that starts no server. -/
def nothingHappens : ColdStartObs where
  bad := []
  lost := []
  servers0 := threeServers
  storePods _ := [("hugegraph-store-0", samplePod "u2"), ("hugegraph-store-1", samplePod "u3"),
    ("hugegraph-store-2", samplePod "u4")]
  mid := threeServers
  back := some 3
  srv := some 0
  podsAfter := threeServers
  startupTimeoutEnv := "300"

theorem battery_pass_iff_landed :
    (∃ r, storeCrash crashLands = .ok r ∧ r.verdict = .pass ∧
      r.evidence.uidAfter ≠ r.evidence.uidBefore) ∧
    (∃ r, storeStall stallLands = .ok r ∧ r.verdict = .pass ∧
      strip r.evidence.procStateAfterStop = "T") ∧
    (∃ r, pdRestart restartLands = .ok r ∧ r.verdict = .pass ∧
      ∃ ev, r.evidence = some ev ∧ ev.uidAfter ≠ ev.uidBefore) ∧
    ∃ r, pdFreeze freezeLands = .ok r ∧ r.verdict = .pass ∧
      ∃ ev, r.evidence = some ev ∧ strip ev.procStateAfterStop = "T" := by
  obtain ⟨hcrash, hstall, hrestart, hfreeze, -⟩ := battery_pass_iff crashLands stallLands
    restartLands freezeLands nothingHappens
  obtain ⟨r₁, h₁, hpass₁⟩ : ∃ r, storeCrash crashLands = .ok r ∧ r.verdict = .pass :=
    ⟨_, rfl, by decide⟩
  obtain ⟨r₂, h₂, hpass₂⟩ : ∃ r, storeStall stallLands = .ok r ∧ r.verdict = .pass :=
    ⟨_, rfl, by decide⟩
  obtain ⟨r₃, h₃, hpass₃⟩ : ∃ r, pdRestart restartLands = .ok r ∧ r.verdict = .pass :=
    ⟨_, rfl, by decide⟩
  obtain ⟨r₄, h₄, hpass₄⟩ : ∃ r, pdFreeze freezeLands = .ok r ∧ r.verdict = .pass :=
    ⟨_, rfl, by decide⟩
  exact ⟨⟨r₁, h₁, hpass₁, (hcrash r₁ h₁ hpass₁).2⟩, ⟨r₂, h₂, hpass₂, (hstall r₂ h₂ hpass₂).2⟩,
    ⟨r₃, h₃, hpass₃, (hrestart r₃ h₃ hpass₃).2⟩, r₄, h₄, hpass₄, (hfreeze r₄ h₄ hpass₄).2⟩

/-- The cold start passes although no Store was down and no Server started. -/
theorem coldStart_passes_without_fault :
    (coldStart nothingHappens).verdict = .pass ∧
      (coldStart nothingHappens).evidence.storesScaledDown = true ∧
      (∀ k < 120, nothingHappens.storePods k ≠ []) ∧
      newServers nothingHappens.servers0 nothingHappens.mid = [] ∧
      ¬ nothingHappens.Landed := by
  have hmid : newServers nothingHappens.servers0 nothingHappens.mid = [] := by decide
  refine ⟨coldStart_pass_iff.mpr ⟨by decide, by decide, rfl, rfl⟩, rfl, ?_, hmid,
    fun h ↦ h.2 hmid⟩
  intro k _ h
  cases h

end HugeGraphValidation.Faults
