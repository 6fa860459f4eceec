import HugeGraphValidation.StoreClient.Commit

/-!
# The calls of a parallel commit

`commitSessions` reaches the sessions in parallel, so the order of the commits
is an argument of the model; the rollbacks follow the collection, and a rollback
that throws ends their stream.
-/

namespace HugeGraphValidation.StoreClient

open Lib

variable {ρ : Type*}

inductive SessionCall where
  | commit (i : ℕ)
  | rollback (i : ℕ)
  deriving DecidableEq

structure CommitRun (ρ : Type*) where
  calls : List SessionCall
  thrown : Option (Thrown (Option ρ))

/-- `if (e.isTx()) e.commit()`, in the order in which the sessions are reached. -/
def commitCalls (sessions : List (Session ρ)) (order : List ℕ) : List SessionCall :=
  (order.filter fun i ↦ (sessions[i]?.map Session.isTx).getD false).map .commit

/-- `sessions.stream().forEach(HgStoreSession::rollback)` from place `i` on. -/
def rollbackCalls : ℕ → List (Session ρ) → List SessionCall
  | _, [] => []
  | i, s :: sessions =>
      .rollback i ::
        match s.rollback with
        | none => rollbackCalls (i + 1) sessions
        | some _ => []

/-- `commitSessions(sessions)`: what it calls, and what it throws. -/
def commitSessionsRun [DecidableEq ρ] (ofMessage : ρ → Option String) (isTx : Bool) (h : Heap ρ)
    (sessions : List (Session ρ)) (order : List ℕ) (failures : List ρ) : CommitRun ρ where
  calls :=
    commitCalls sessions order ++
      if ¬ failures.isEmpty ∧ isTx then rollbackCalls 0 sessions else []
  thrown := commitSessions ofMessage isTx h sessions failures

/-! ## The calls -/

theorem count_commitCalls {sessions : List (Session ρ)} {order : List ℕ}
    (horder : order.Perm (List.range sessions.length)) (i : ℕ) :
    (commitCalls sessions order).count (.commit i) =
      if sessions[i]?.map Session.isTx = some true then 1 else 0 := by
  have hinj : Function.Injective SessionCall.commit := fun _ _ h ↦ SessionCall.commit.inj h
  rw [commitCalls, List.count_map_of_injective _ _ hinj, (horder.filter _).count_eq]
  by_cases htx : sessions[i]?.map Session.isTx = some true
  · have hlt : i < sessions.length := by
      by_contra hle
      rw [List.getElem?_eq_none (by omega)] at htx
      cases htx
    rw [if_pos htx, List.count_filter (by rw [htx]; rfl)]
    exact List.count_eq_one_of_mem List.nodup_range (List.mem_range.mpr hlt)
  · rw [if_neg htx, List.count_eq_zero, List.mem_filter]
    rintro ⟨-, hget⟩
    cases hsession : sessions[i]?.map Session.isTx with
    | none => simp [hsession] at hget
    | some b =>
        obtain rfl : b = true := by simpa [hsession] using hget
        exact htx hsession

theorem commit_not_mem_rollbackCalls {sessions : List (Session ρ)} {i j : ℕ} :
    SessionCall.commit j ∉ rollbackCalls i sessions := by
  induction sessions generalizing i with
  | nil => exact List.not_mem_nil
  | cons s sessions ih =>
      unfold rollbackCalls
      cases s.rollback with
      | none => simpa using ih
      | some t => simp

/-- A session is rolled back when no session before it throws. -/
theorem rollback_mem_rollbackCalls_iff {sessions : List (Session ρ)} {i j : ℕ} :
    .rollback (i + j) ∈ rollbackCalls i sessions ↔
      j < sessions.length ∧ ∀ s ∈ sessions.take j, s.rollback = none := by
  induction sessions generalizing i j with
  | nil => simp [rollbackCalls]
  | cons s sessions ih =>
      unfold rollbackCalls
      cases j with
      | zero => simp
      | succ j =>
          cases hrollback : s.rollback with
          | none =>
              have hrest := ih (i := i + 1) (j := j)
              rw [show i + 1 + j = i + (j + 1) by omega] at hrest
              simp [hrest, hrollback]
          | some t => simp [hrollback]

/-- No session but the last throws on rollback. -/
def OnlyLastRollbackThrows (sessions : List (Session ρ)) : Prop :=
  ∀ s ∈ sessions.dropLast, s.rollback = none

theorem all_rolled_back_iff {sessions : List (Session ρ)} (hne : sessions ≠ []) :
    (∀ i < sessions.length, .rollback i ∈ rollbackCalls 0 sessions) ↔
      OnlyLastRollbackThrows sessions := by
  have hlength : 0 < sessions.length := List.length_pos_iff.mpr hne
  rw [OnlyLastRollbackThrows, List.dropLast_eq_take]
  constructor
  · intro hall
    have hlast := hall (sessions.length - 1) (by omega)
    rw [← Nat.zero_add (sessions.length - 1), rollback_mem_rollbackCalls_iff] at hlast
    exact hlast.2
  · intro hnone i hi
    rw [← Nat.zero_add i, rollback_mem_rollbackCalls_iff]
    refine ⟨hi, ?_⟩
    intro s hs
    exact hnone s ((List.take_sublist_take_left (by omega)).subset hs)

/-! ## The exception -/

theorem kind_of_aggregate [DecidableEq ρ] {ofMessage : ρ → Option String} {h : Heap ρ}
    {failures : List ρ} {e : Thrown (Option ρ)} (he : aggregate ofMessage h failures = some e) :
    (e.heap e.ref).kind = .hgStoreClientException := by
  cases failures with
  | nil => cases he
  | cons first others =>
      obtain rfl := Option.some.inj he
      dsimp only
      rw [foldl_addSuppressed (aggregateResult h (aggregateCause h first))
        (fun other ↦ some other ≠ aggregateResult h (aggregateCause h first) ∧
          other ≠ aggregateCause h first) some]
      rw [Function.update_self]
      unfold aggregateResult
      split
      · rename_i hkind
        exact hkind
      · rfl

/-- The first rollback that throws does not throw an `Error`, if any throws. -/
def NoErrorOnRollback (h : Heap ρ) (sessions : List (Session ρ)) : Prop :=
  ∀ t, rollbackFailure sessions = some t → (h t).kind ≠ .error

theorem commitSessions_eq_aggregate_iff [DecidableEq ρ] (ofMessage : ρ → Option String)
    (h : Heap ρ) (sessions : List (Session ρ)) {failures : List ρ} (hne : failures ≠ []) :
    commitSessions ofMessage true h sessions failures = aggregate ofMessage h failures ↔
      NoErrorOnRollback h sessions := by
  have hempty : failures.isEmpty = false := List.isEmpty_eq_false_iff.mpr hne
  rw [commitSessions, hempty, NoErrorOnRollback]
  cases hrollback : rollbackFailure sessions with
  | none => simp
  | some t =>
      by_cases herror : (h t).kind = .error
      · simp only [herror, Bool.false_eq_true, if_false, if_true]
        constructor
        · intro heq
          have hkind := kind_of_aggregate heq.symm
          have hold : (h t).kind = .hgStoreClientException := hkind
          rw [herror] at hold
          cases hold
        · intro hno
          exact absurd herror (hno t rfl)
      · simp [herror]

/-! ## The contract -/

/-- Every tx session is committed once and no other; without a failure nothing
is rolled back or thrown; after a failure in tx mode every session is rolled back
and the failures are thrown together. -/
structure CommitContract [DecidableEq ρ] (ofMessage : ρ → Option String) (isTx : Bool)
    (h : Heap ρ) (sessions : List (Session ρ)) (failures : List ρ) (run : CommitRun ρ) :
    Prop where
  commits : ∀ i, run.calls.count (.commit i) =
    if sessions[i]?.map Session.isTx = some true then 1 else 0
  quiet : commitFailures sessions = [] → run.thrown = none ∧ ∀ i, .rollback i ∉ run.calls
  rollbacks : commitFailures sessions ≠ [] → isTx = true →
    (∀ i < sessions.length, .rollback i ∈ run.calls) ∧
      ∃ e, aggregate ofMessage h failures = some e ∧ run.thrown = some e

section Run

variable [DecidableEq ρ] {ofMessage : ρ → Option String} {isTx : Bool} {h : Heap ρ}
  {sessions : List (Session ρ)} {order : List ℕ} {failures : List ρ}

theorem count_commit_run (horder : order.Perm (List.range sessions.length)) (i : ℕ) :
    (commitSessionsRun ofMessage isTx h sessions order failures).calls.count (.commit i) =
      if sessions[i]?.map Session.isTx = some true then 1 else 0 := by
  have hrollbacks : (if ¬ failures.isEmpty ∧ isTx then rollbackCalls 0 sessions
      else []).count (.commit i) = 0 := by
    rw [List.count_eq_zero]
    split
    · exact commit_not_mem_rollbackCalls
    · exact List.not_mem_nil
  simp only [commitSessionsRun]
  rw [List.count_append, hrollbacks, count_commitCalls horder, Nat.add_zero]

theorem rollback_mem_run_iff {i : ℕ} :
    .rollback i ∈ (commitSessionsRun ofMessage isTx h sessions order failures).calls ↔
      (failures ≠ [] ∧ isTx = true) ∧ .rollback i ∈ rollbackCalls 0 sessions := by
  have hnotCommit : SessionCall.rollback i ∉ commitCalls sessions order := by
    simp [commitCalls]
  simp only [commitSessionsRun]
  simp only [List.mem_append, or_iff_right hnotCommit, List.isEmpty_iff]
  split
  · rename_i hrun
    rw [and_iff_right hrun]
  · rename_i hrun
    exact iff_of_false List.not_mem_nil fun hmem ↦ hrun hmem.1

theorem exists_aggregate (ofMessage : ρ → Option String) (h : Heap ρ) (hne : failures ≠ []) :
    ∃ e, aggregate ofMessage h failures = some e := by
  cases failures with
  | nil => exact absurd rfl hne
  | cons first others => exact ⟨_, rfl⟩

end Run

/-- The contract holds exactly when no commit fails, or outside tx mode, or when
no session but the last throws on rollback, and not an `Error`. -/
theorem commitSessions_contract_iff [DecidableEq ρ] (ofMessage : ρ → Option String)
    (isTx : Bool) (h : Heap ρ) (sessions : List (Session ρ)) (order : List ℕ)
    (failures : List ρ) (horder : order.Perm (List.range sessions.length))
    (hfailures : failures.Perm (commitFailures sessions)) :
    CommitContract ofMessage isTx h sessions failures
        (commitSessionsRun ofMessage isTx h sessions order failures) ↔
      commitFailures sessions = [] ∨ isTx = false ∨
        OnlyLastRollbackThrows sessions ∧ NoErrorOnRollback h sessions := by
  have hquiet : commitFailures sessions = [] →
      (commitSessionsRun ofMessage isTx h sessions order failures).thrown = none ∧
        ∀ i, .rollback i ∉ (commitSessionsRun ofMessage isTx h sessions order failures).calls := by
    intro hnil
    obtain rfl : failures = [] := (hnil ▸ hfailures).eq_nil
    exact ⟨rfl, fun i hmem ↦ (rollback_mem_run_iff.mp hmem).1.1 rfl⟩
  by_cases hnil : commitFailures sessions = []
  · exact iff_of_true ⟨count_commit_run horder, hquiet, fun hne ↦ absurd hnil hne⟩ (Or.inl hnil)
  have hne : failures ≠ [] := by
    rintro rfl
    exact hnil (hfailures.nil_eq).symm
  cases isTx with
  | false =>
      exact iff_of_true ⟨count_commit_run horder, hquiet, fun _ htx ↦ by cases htx⟩
        (Or.inr (Or.inl rfl))
  | true =>
      have hsessions : sessions ≠ [] := by
        rintro rfl
        exact hnil rfl
      have hcalls : ∀ i, SessionCall.rollback i ∈
          (commitSessionsRun ofMessage true h sessions order failures).calls ↔
            .rollback i ∈ rollbackCalls 0 sessions :=
        fun i ↦ rollback_mem_run_iff.trans (and_iff_right ⟨hne, rfl⟩)
      obtain ⟨e, he⟩ := exists_aggregate ofMessage h hne
      have hthrown := commitSessions_eq_aggregate_iff ofMessage h sessions hne
      rw [he] at hthrown
      rw [← all_rolled_back_iff hsessions, ← hthrown]
      constructor
      · intro hcontract
        obtain ⟨hall, e', he', hrun⟩ := hcontract.rollbacks hnil rfl
        refine Or.inr (Or.inr ⟨fun i hi ↦ (hcalls i).mp (hall i hi), ?_⟩)
        rw [he] at he'
        rw [he']
        exact hrun
      · rintro (hnil' | htx | ⟨hall, hrun⟩)
        · exact absurd hnil' hnil
        · cases htx
        · exact ⟨count_commit_run horder, hquiet, fun _ _ ↦
            ⟨fun i hi ↦ (hcalls i).mpr (hall i hi), e, he, hrun⟩⟩

/-- An unavailable store, and what a rollback on it throws. -/
def unavailableStore : Heap Bool
  | false => ⟨.statusRuntimeException .unavailable, some "UNAVAILABLE", none, []⟩
  | true => ⟨.exception, some "rollback failed", none, []⟩

def threeSessions : List (Session Bool) :=
  [⟨false, none, none⟩, ⟨true, some false, none⟩, ⟨true, none, some true⟩]

theorem commitSessions_contract_iff_last_throws :
    CommitContract (fun _ ↦ none) true unavailableStore threeSessions [false]
      (commitSessionsRun (fun _ ↦ none) true unavailableStore threeSessions [2, 0, 1] [false]) := by
  refine (commitSessions_contract_iff (fun _ ↦ none) true unavailableStore threeSessions
    [2, 0, 1] [false] (by decide) (by decide)).mpr (Or.inr (Or.inr ⟨?_, ?_⟩))
  · unfold OnlyLastRollbackThrows
    decide
  · rintro t ht
    obtain rfl : true = t := Option.some.inj ht
    decide

/-- The rollback of the first session throws, and the second is not rolled back. -/
theorem commitSessions_leaves_session :
    ¬ CommitContract (fun _ ↦ none) true unavailableStore
      [⟨true, some false, some true⟩, ⟨true, none, none⟩] [false]
      (commitSessionsRun (fun _ ↦ none) true unavailableStore
        [⟨true, some false, some true⟩, ⟨true, none, none⟩] [0, 1] [false]) := by
  intro hcontract
  have hall := (hcontract.rollbacks (by decide) rfl).1 1 (by decide)
  revert hall
  decide

end HugeGraphValidation.StoreClient
