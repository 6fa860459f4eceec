import HugeGraphValidation.StoreClient.Commit
import HugeGraphValidation.StoreClient.RetryPolicy

/-!
# Arrival order and the retry decision

`aggregate` attaches the failures whole except the first, of which it keeps the
cause only.  The class of the result is that of all failures in every arrival
order exactly when nothing more severe is lost by unwrapping any of them.
-/

namespace HugeGraphValidation.StoreClient

open Lib

variable {ρ : Type*} [DecidableEq ρ]

/-- When `f` is unwrapped to its cause, everything it reached is matched in
severity by something its cause or another failure of the list reaches. -/
def Covered (h : Heap ρ) (l : List ρ) (f : ρ) : Prop :=
  ∀ c, (h f).cause = some c → ∀ x, Reaches h.refs f x →
    ∃ y, (Reaches h.refs c y ∨ ∃ g ∈ l.erase f, Reaches h.refs g y) ∧
      h.severity x ≤ h.severity y

theorem Covered.perm {h : Heap ρ} {l l' : List ρ} {f : ρ} (hcovered : Covered h l f)
    (hperm : l.Perm l') : Covered h l' f := by
  intro c hc x hx
  obtain ⟨y, hy, hle⟩ := hcovered c hc x hx
  refine ⟨y, ?_, hle⟩
  rcases hy with hy | ⟨g, hg, hy⟩
  · exact Or.inl hy
  · exact Or.inr ⟨g, (hperm.erase f).subset hg, hy⟩

/-- A retryable failure that suppresses nothing loses nothing when it is unwrapped. -/
theorem covered_of_wrapper {h : Heap ρ} {l : List ρ} {f : ρ} (hseverity : h.severity f = ⊥)
    (hsuppressed : (h f).suppressed = []) : Covered h l f := by
  intro c hc x hx
  rcases Relation.ReflTransGen.cases_head hx with rfl | ⟨y, hy, hyx⟩
  · exact ⟨c, Or.inl Relation.ReflTransGen.refl, hseverity ▸ bot_le⟩
  · have hrefs : y ∈ [c] := by
      rw [Heap.refs, hsuppressed, hc] at hy
      exact hy
    obtain rfl := List.mem_singleton.mp hrefs
    exact ⟨x, Or.inl hyx, le_rfl⟩

variable [Fintype ρ]

theorem exists_le_classify_of_le_maxClass {h : Heap ρ} {ts : List ρ} {f : Failure}
    (hle : f ≤ maxClass h ts) (hbot : f ≠ ⊥) : ∃ t ∈ ts, f ≤ classify h t := by
  induction ts with
  | nil => exact absurd (le_bot_iff.mp hle) hbot
  | cons t ts ih =>
      rw [maxClass_cons, le_max_iff] at hle
      rcases hle with hle | hle
      · exact ⟨t, List.mem_cons_self, hle⟩
      · obtain ⟨u, hu, hle⟩ := ih hle
        exact ⟨u, List.mem_cons_of_mem t hu, hle⟩

theorem classify_le_max_iff_covered (h : Heap ρ) (first : ρ) (others : List ρ) :
    classify h first ≤ max (classify h (aggregateCause h first)) (maxClass h others) ↔
      Covered h (first :: others) first := by
  rw [Covered, List.erase_cons_head]
  cases hcause : (h first).cause with
  | none => simp [aggregateCause, hcause]
  | some c =>
      have hunwrap : aggregateCause h first = c := by
        rw [aggregateCause, hcause, Option.getD_some]
      rw [hunwrap]
      constructor
      · rintro hle c' hc' x hx
        obtain rfl : c = c' := Option.some.inj hc'
        rcases le_max_iff.mp hle with hle | hle
        · obtain ⟨y, hy, heq⟩ := exists_classify_eq h c
          exact ⟨y, Or.inl hy, heq ▸ (severity_le_classify hx).trans hle⟩
        · by_cases hbot : h.severity x = ⊥
          · exact ⟨c, Or.inl Relation.ReflTransGen.refl, hbot ▸ bot_le⟩
          · obtain ⟨g, hg, hle'⟩ := exists_le_classify_of_le_maxClass
              ((severity_le_classify hx).trans hle) hbot
            obtain ⟨y, hy, heq⟩ := exists_classify_eq h g
            exact ⟨y, Or.inr ⟨g, hg, hy⟩, heq ▸ hle'⟩
      · intro hcovered
        obtain ⟨x, hx, heq⟩ := exists_classify_eq h first
        obtain ⟨y, hy, hle⟩ := hcovered c rfl x hx
        rw [heq]
        apply hle.trans
        rcases hy with hy | ⟨g, hg, hy⟩
        · exact (severity_le_classify hy).trans (le_max_left _ _)
        · exact ((severity_le_classify hy).trans (classify_le_maxClass h hg)).trans
            (le_max_right _ _)

theorem aggregate_cons_eq_maxClass_iff (ofMessage : ρ → Option String) (h : Heap ρ) (first : ρ)
    (others : List ρ) :
    (∃ e, aggregate ofMessage h (first :: others) = some e ∧
        classify e.heap e.ref = maxClass h (first :: others)) ↔
      Covered h (first :: others) first := by
  obtain ⟨e, haggregate, hagg⟩ := aggregate_cons ofMessage h first others
  rw [← classify_le_max_iff_covered, haggregate]
  constructor
  · rintro ⟨e', heq, hclass⟩
    obtain rfl := Option.some.inj heq
    rw [hagg.classify_eq] at hclass
    exact hclass ▸ classify_le_maxClass h List.mem_cons_self
  · intro hle
    refine ⟨e, rfl, ?_⟩
    rw [hagg.classify_eq, maxClass_cons]
    apply le_antisymm
    · exact max_le_max_right _ (classify_aggregateCause_le h first)
    · exact max_le hle (le_max_right _ _)

/-- In every arrival order the class is the largest one exactly when every
failure of the list is covered. -/
theorem aggregate_perm_iff (ofMessage : ρ → Option String) (h : Heap ρ) {l : List ρ}
    (hl : l ≠ []) :
    (∀ l', l'.Perm l → ∃ e, aggregate ofMessage h l' = some e ∧
        classify e.heap e.ref = maxClass h l) ↔
      ∀ f ∈ l, Covered h l f := by
  constructor
  · intro hclass f hf
    have hperm : (f :: l.erase f).Perm l := (List.perm_cons_erase hf).symm
    have hfirst := hclass _ hperm
    rw [← maxClass_perm h hperm] at hfirst
    exact ((aggregate_cons_eq_maxClass_iff ofMessage h f _).mp hfirst).perm hperm
  · intro hcovered l' hperm
    cases l' with
    | nil => exact absurd (List.Perm.nil_eq hperm).symm hl
    | cons f l' =>
        have hfirst := (hcovered f (hperm.subset List.mem_cons_self)).perm hperm.symm
        rw [← maxClass_perm h hperm]
        exact (aggregate_cons_eq_maxClass_iff ofMessage h f l').mpr hfirst

/-! ## The retried commit -/

/-- What the loop reads of a thrown exception. -/
def throwableOps : Supplied (Thrown ρ) where
  classify e := classify e.heap e.ref
  getMessage e := (e.heap e.ref).message
  getCause e := (e.heap e.ref).cause.map fun c ↦ ⟨e.heap, c⟩

/-- What one attempt meets: the throwables there are, and what the sessions do. -/
structure CommitAttempt (ρ : Type*) where
  heap : Heap ρ
  sessions : List (Session ρ)

/-- The supplier of the commit, `commitSessions(...); return true`, when the
failures arrive in the given order. -/
def CommitAttempt.outcome (ofMessage : ρ → Option String) (isTx : Bool)
    (attempt : CommitAttempt ρ) (arrival : List ρ) : Outcome Bool (Thrown (Option ρ)) :=
  match commitSessions ofMessage isTx attempt.heap attempt.sessions arrival with
  | none => .value true
  | some e => .failure e

theorem CommitAttempt.failureClass_outcome_perm (ofMessage : ρ → Option String) (isTx : Bool)
    (attempt : CommitAttempt ρ) {arrival arrival' : List ρ} (hperm : arrival'.Perm arrival)
    (hcovered : ∀ f ∈ arrival, Covered attempt.heap arrival f) :
    (attempt.outcome ofMessage isTx arrival').failureClass throwableOps =
      (attempt.outcome ofMessage isTx arrival).failureClass throwableOps := by
  cases arrival with
  | nil => rw [List.Perm.eq_nil hperm]
  | cons f fs =>
      have hall := (aggregate_perm_iff ofMessage attempt.heap (List.cons_ne_nil f fs)).mpr hcovered
      obtain ⟨e, haggregate, hclass⟩ := hall (f :: fs) (List.Perm.refl _)
      obtain ⟨e', haggregate', hclass'⟩ := hall arrival' hperm
      have hne : arrival'.isEmpty = false := by
        rw [List.isEmpty_eq_false_iff]
        rintro rfl
        exact List.cons_ne_nil f fs (List.Perm.nil_eq hperm).symm
      unfold outcome commitSessions
      rw [hne, List.isEmpty_cons, haggregate, haggregate']
      cases (if isTx then rollbackFailure attempt.sessions else none) with
      | none => simp [Outcome.failureClass, throwableOps, hclass, hclass']
      | some t =>
          by_cases herror : (attempt.heap t).kind = .error
          · simp [herror]
          · simp [herror, Outcome.failureClass, throwableOps, hclass, hclass']

/-- The class of the aggregated failure is the largest class of the failures in
every arrival order if and only if each failure is covered; a commit that is
retried over attempts with covered failures then makes the same attempts
whatever the arrival orders. -/
theorem commit_retry_order_independent (ofMessage : ρ → Option String) :
    (∀ (h : Heap ρ) (l : List ρ), l ≠ [] →
      ((∀ l', l'.Perm l → ∃ e, aggregate ofMessage h l' = some e ∧
          classify e.heap e.ref = maxClass h l) ↔ ∀ f ∈ l, Covered h l f)) ∧
    ∀ (isTx : Bool) (maxRetryingTimes : ℕ) (interrupts : Moment → Bool)
      (attempts : ℕ → CommitAttempt ρ) (arrival arrival' : ℕ → List ρ),
      (∀ i, (arrival i).Perm (commitFailures (attempts i).sessions)) →
      (∀ i, (arrival' i).Perm (commitFailures (attempts i).sessions)) →
      (∀ i, ∀ f ∈ commitFailures (attempts i).sessions,
        Covered (attempts i).heap (commitFailures (attempts i).sessions) f) →
      (retryingInvoke throwableOps maxRetryingTimes
          (fun i ↦ (attempts i).outcome ofMessage isTx (arrival i)) interrupts).1.attempts =
        (retryingInvoke throwableOps maxRetryingTimes
          (fun i ↦ (attempts i).outcome ofMessage isTx (arrival' i)) interrupts).1.attempts := by
  refine ⟨fun h l hl ↦ aggregate_perm_iff ofMessage h hl, ?_⟩
  intro isTx maxRetryingTimes interrupts attempts arrival arrival' harrival harrival' hcovered
  rw [retryingInvoke_congr]
  intro i
  rw [(attempts i).failureClass_outcome_perm ofMessage isTx (harrival i) (hcovered i),
    (attempts i).failureClass_outcome_perm ofMessage isTx (harrival' i) (hcovered i)]

/-- Two statuses, each wrapped in an exception of the client. -/
def wrappedFailures : Heap (Fin 4)
  | 0 => ⟨.hgStoreClientException, some "commit failed", some 2, []⟩
  | 1 => ⟨.hgStoreClientException, some "commit failed", some 3, []⟩
  | 2 => ⟨.statusRuntimeException .unavailable, some "UNAVAILABLE", none, []⟩
  | 3 => ⟨.statusRuntimeException .deadlineExceeded, some "DEADLINE_EXCEEDED", none, []⟩

/-- The wrappers are covered: whichever of them is unwrapped, both arrival orders make
two attempts. -/
theorem commit_retry_order_independent_wrapped :
    (∃ e, aggregate (fun _ ↦ none) wrappedFailures [1, 0] = some e ∧
        classify e.heap e.ref = .deadline) ∧
      (retryingInvoke throwableOps 10
          (fun _ ↦ CommitAttempt.outcome (fun _ ↦ none) true
            ⟨wrappedFailures, [⟨true, some 0, none⟩, ⟨true, some 1, none⟩]⟩ [1, 0])
          never).1.attempts =
        (retryingInvoke throwableOps 10
          (fun _ ↦ CommitAttempt.outcome (fun _ ↦ none) true
            ⟨wrappedFailures, [⟨true, some 0, none⟩, ⟨true, some 1, none⟩]⟩ [0, 1])
          never).1.attempts := by
  have hcovered : ∀ f ∈ ([0, 1] : List (Fin 4)), Covered wrappedFailures [0, 1] f := by
    intro f hf
    have hcases : f = 0 ∨ f = 1 := by simpa using hf
    rcases hcases with rfl | rfl
    · exact covered_of_wrapper rfl rfl
    · exact covered_of_wrapper rfl rfl
  obtain ⟨hclass, hretry⟩ := commit_retry_order_independent (ρ := Fin 4) fun _ ↦ none
  refine ⟨?_, ?_⟩
  · exact (hclass wrappedFailures [0, 1] (by decide)).mpr hcovered [1, 0] (by decide)
  · exact hretry true 10 never
      (fun _ ↦ ⟨wrappedFailures, [⟨true, some 0, none⟩, ⟨true, some 1, none⟩]⟩)
      (fun _ ↦ [1, 0]) (fun _ ↦ [0, 1]) (fun _ ↦ by decide) (fun _ ↦ by decide)
      fun _ ↦ hcovered

/-- A deadline whose status has a cause of its own, beside an unavailable store. -/
def deadlineWithCause : Heap (Fin 3)
  | 0 => ⟨.statusRuntimeException .deadlineExceeded, some "DEADLINE_EXCEEDED", some 2, []⟩
  | 1 => ⟨.statusRuntimeException .unavailable, some "UNAVAILABLE", none, []⟩
  | 2 => ⟨.exception, some "context timed out", none, []⟩

/-- When the deadline arrives first its status is lost and the commit is tried
eleven times; when it arrives second the commit is tried twice. -/
theorem commit_retry_order_dependent :
    maxClass deadlineWithCause [0, 1] = .deadline ∧
      (aggregate (fun _ ↦ none) deadlineWithCause [0, 1]).map
          (fun e ↦ classify e.heap e.ref) = some .retryable ∧
      (aggregate (fun _ ↦ none) deadlineWithCause [1, 0]).map
          (fun e ↦ classify e.heap e.ref) = some .deadline ∧
      (retryingInvoke throwableOps 10
          (fun _ ↦ CommitAttempt.outcome (fun _ ↦ none) true
            ⟨deadlineWithCause, [⟨true, some 0, none⟩, ⟨true, some 1, none⟩]⟩ [0, 1])
          never).1.attempts.length = 11 ∧
      (retryingInvoke throwableOps 10
          (fun _ ↦ CommitAttempt.outcome (fun _ ↦ none) true
            ⟨deadlineWithCause, [⟨true, some 0, none⟩, ⟨true, some 1, none⟩]⟩ [1, 0])
          never).1.attempts.length = 2 := by
  refine ⟨by decide, by decide, by decide, by decide, by decide⟩

end HugeGraphValidation.StoreClient
