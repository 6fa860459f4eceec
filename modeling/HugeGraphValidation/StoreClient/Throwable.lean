import HugeGraphValidation.Lib.Worst

/-!
# Throwables and their classification

Throwables are a finite heap of objects, each with at most one cause and a list
of suppressed throwables; shared objects and cycles are allowed.  `classify`
walks it depth first and decides how the retry loop treats a failed attempt.
-/

namespace HugeGraphValidation.StoreClient

open Lib

inductive Code where
  | ok | cancelled | unknown | invalidArgument | deadlineExceeded | notFound
  | alreadyExists | permissionDenied | resourceExhausted | failedPrecondition
  | aborted | outOfRange | unimplemented | internal | unavailable | dataLoss
  | unauthenticated
  deriving DecidableEq

/-- The classes the code tells apart with `instanceof` and `catch`. -/
inductive Kind where
  | interruptedException
  | statusRuntimeException (code : Code)
  | hgStoreClientException
  | exception
  | error
  deriving DecidableEq

structure Node (ρ : Type*) where
  kind : Kind
  message : Option String
  cause : Option ρ
  suppressed : List ρ

abbrev Heap (ρ : Type*) := ρ → Node ρ

/-- The throwables a throwable refers to. -/
def Heap.refs {ρ : Type*} (h : Heap ρ) (t : ρ) : List ρ :=
  (h t).suppressed ++ (h t).cause.toList

/-- How a failed attempt is treated, in the order of severity. -/
inductive Failure where
  | retryable
  | deadline
  | fatal
  deriving DecidableEq

namespace Failure

def ordinal : Failure → ℕ
  | retryable => 0
  | deadline => 1
  | fatal => 2

theorem ordinal_injective : Function.Injective ordinal := by
  intro a b h
  cases a <;> cases b <;> simp_all [ordinal]

instance : LinearOrder Failure := LinearOrder.lift' ordinal ordinal_injective

instance : BoundedOrder Failure where
  bot := retryable
  bot_le := by
    intro a
    cases a <;> decide
  top := fatal
  le_top := by
    intro a
    cases a <;> decide

end Failure

def Kind.severity : Kind → Failure
  | .interruptedException => .fatal
  | .statusRuntimeException .cancelled => .fatal
  | .statusRuntimeException .deadlineExceeded => .deadline
  | _ => .retryable

def Heap.severity {ρ : Type*} (h : Heap ρ) (t : ρ) : Failure := (h t).kind.severity

variable {ρ : Type*} [DecidableEq ρ]

/-- The loop over `c.getSuppressed()`; `classify` is the recursive call. -/
def classifySuppressed (classify : ρ → Finset ρ → Option (Failure × Finset ρ)) :
    List ρ → Failure → Finset ρ → Option (Failure × Finset ρ)
  | [], worst, seen => some (worst, seen)
  | suppressed :: rest, worst, seen =>
      match classify suppressed seen with
      | none => none
      | some (f, seen) =>
          if f = .fatal then some (f, seen)
          else classifySuppressed classify rest (if worst < f then f else worst) seen

/-- `classify(t, seen)`: the loop along the causes from `c` on.  The visited
set is threaded through; fuel bounds the nested calls and `none` means that it
ran out. -/
def classifyFrom (h : Heap ρ) :
    ℕ → Option ρ → Failure → Finset ρ → Option (Failure × Finset ρ)
  | 0, _, _, _ => none
  | _ + 1, none, worst, seen => some (worst, seen)
  | fuel + 1, some c, worst, seen =>
      if c ∈ seen then some (worst, seen)
      else
        let seen := insert c seen
        match (h c).kind with
        | .interruptedException => some (.fatal, seen)
        | .statusRuntimeException .cancelled => some (.fatal, seen)
        | kind =>
            let worst :=
              if kind = .statusRuntimeException .deadlineExceeded then .deadline else worst
            match classifySuppressed
                (fun t seen ↦ classifyFrom h fuel (some t) .retryable seen)
                (h c).suppressed worst seen with
            | none => none
            | some (.fatal, seen) => some (.fatal, seen)
            | some (worst, seen) => classifyFrom h fuel (h c).cause worst seen

theorem classifyFrom_of_fatal {h : Heap ρ} {c : ρ} {seen : Finset ρ} (hseen : c ∉ seen)
    (hfatal : h.severity c = .fatal) (fuel : ℕ) (worst : Failure) :
    classifyFrom h (fuel + 1) (some c) worst seen = some (.fatal, insert c seen) := by
  have hkind : (h c).kind = .interruptedException ∨
      (h c).kind = .statusRuntimeException .cancelled := by
    unfold Heap.severity Kind.severity at hfatal
    split at hfatal <;> simp_all
  rcases hkind with hkind | hkind
  · simp [classifyFrom, hseen, hkind]
  · simp [classifyFrom, hseen, hkind]

theorem classifyFrom_of_not_fatal {h : Heap ρ} {c : ρ} {seen : Finset ρ}
    (hseen : c ∉ seen) (hfatal : h.severity c ≠ .fatal) (fuel : ℕ) {worst : Failure}
    (hworst : worst ≠ ⊤) :
    classifyFrom h (fuel + 1) (some c) worst seen =
      match classifySuppressed (fun t seen ↦ classifyFrom h fuel (some t) .retryable seen)
          (h c).suppressed (max worst (h.severity c)) (insert c seen) with
      | none => none
      | some (.fatal, seen) => some (.fatal, seen)
      | some (worst, seen) => classifyFrom h fuel (h c).cause worst seen := by
  have hkind : (h c).kind ≠ .interruptedException := by
    intro hkind
    simp [Heap.severity, hkind, Kind.severity] at hfatal
  have hcode : (h c).kind ≠ .statusRuntimeException .cancelled := by
    intro hkind
    simp [Heap.severity, hkind, Kind.severity] at hfatal
  have hmax : (if (h c).kind = .statusRuntimeException .deadlineExceeded
      then Failure.deadline else worst) = max worst (h.severity c) := by
    by_cases hdeadline : (h c).kind = .statusRuntimeException .deadlineExceeded
    · rw [if_pos hdeadline, Heap.severity, hdeadline]
      cases worst with
      | retryable => decide
      | deadline => decide
      | fatal => exact absurd rfl hworst
    · have hretryable : h.severity c = ⊥ := by
        unfold Heap.severity Kind.severity
        split <;> first | rfl | simp_all
      rw [if_neg hdeadline, hretryable, max_eq_left bot_le]
  rw [classifyFrom]
  simp only [hseen, if_false, hmax]

variable [Fintype ρ]

/-- `classify(t)`: every nested call marks another throwable, so the number of
throwables bounds the depth (`classifyFrom_eq_some`). -/
def classify (h : Heap ρ) (t : ρ) : Failure :=
  ((classifyFrom h (Fintype.card ρ + 1) (some t) .retryable ∅).map Prod.fst).getD .retryable

/-! ## The walk computes the worst class reachable -/

theorem card_unseen_lt {seen seen' : Finset ρ} {n : ℕ} (hsubset : seen ⊆ seen')
    (hcard : (Finset.univ \ seen).card < n) : (Finset.univ \ seen').card < n := by
  apply lt_of_le_of_lt _ hcard
  apply Finset.card_le_card
  exact Finset.sdiff_subset_sdiff subset_rfl hsubset

theorem classifySuppressed_eq_some {h : Heap ρ} {n : ℕ}
    {rec : ρ → Finset ρ → Option (Failure × Finset ρ)}
    (hrec : ∀ t seen, (Finset.univ \ seen).card < n → ∃ f seen',
      rec t seen = some (f, seen') ∧
        Explored h.refs h.severity [t] ⊥ seen f seen') :
    ∀ (ts : List ρ) (worst : Failure) (seen : Finset ρ),
      (Finset.univ \ seen).card < n → worst ≠ ⊤ →
      ∃ f seen', classifySuppressed rec ts worst seen = some (f, seen') ∧
        Explored h.refs h.severity ts worst seen f seen' := by
  intro ts
  induction ts with
  | nil =>
      intro worst seen _ _
      exact ⟨worst, seen, rfl, Explored.skip (by simp)⟩
  | cons t ts ih =>
      intro worst seen hcard hworst
      obtain ⟨f, seen₁, hcall, hwalk⟩ := hrec t seen hcard
      have hjoin := hwalk.join worst
      by_cases hfatal : f = .fatal
      · subst hfatal
        refine ⟨.fatal, seen₁, by simp [classifySuppressed, hcall], ?_⟩
        have htop : max worst Failure.fatal = ⊤ := max_eq_right le_top
        rw [htop] at hjoin
        exact hjoin.stop ts
      · have hmax : (if worst < f then f else worst) = max worst f := by
          rw [max_def_lt]
        have hne : max worst f ≠ ⊤ := by
          rw [Ne, max_eq_top]
          exact not_or.mpr ⟨hworst, hfatal⟩
        have hcard' : (Finset.univ \ seen₁).card < n := card_unseen_lt hwalk.subset hcard
        obtain ⟨f', seen₂, hrest, hwalk'⟩ := ih _ seen₁ hcard' hne
        refine ⟨f', seen₂, ?_, hjoin.trans hwalk'⟩
        simp [classifySuppressed, hcall, hfatal, hmax, hrest]

theorem classifyFrom_eq_some (h : Heap ρ) (fuel : ℕ) :
    ∀ (c : Option ρ) (worst : Failure) (seen : Finset ρ),
      (Finset.univ \ seen).card < fuel → worst ≠ ⊤ →
      ∃ f seen', classifyFrom h fuel c worst seen = some (f, seen') ∧
        Explored h.refs h.severity c.toList worst seen f seen' := by
  induction fuel with
  | zero =>
      intro c worst seen hcard _
      omega
  | succ fuel ih =>
      intro c worst seen hcard hworst
      cases c with
      | none => exact ⟨worst, seen, rfl, Explored.skip (by simp)⟩
      | some c =>
          by_cases hseen : c ∈ seen
          · exact ⟨worst, seen, by simp [classifyFrom, hseen], Explored.skip (by simpa)⟩
          · have hcard' : (Finset.univ \ insert c seen).card < fuel := by
              have hlt : (Finset.univ \ insert c seen).card < (Finset.univ \ seen).card := by
                apply Finset.card_lt_card
                rw [Finset.ssubset_iff_of_subset
                  (Finset.sdiff_subset_sdiff subset_rfl (Finset.subset_insert c seen))]
                exact ⟨c, by simp [hseen], by simp⟩
              omega
            by_cases hfatal : h.severity c = .fatal
            · exact ⟨.fatal, insert c seen, classifyFrom_of_fatal hseen hfatal fuel worst,
                Explored.top hseen hfatal⟩
            · have hmax : max worst (h.severity c) ≠ ⊤ := by
                rw [Ne, max_eq_top]
                exact not_or.mpr ⟨hworst, hfatal⟩
              obtain ⟨f, seen₁, hloop, hwalk⟩ :=
                classifySuppressed_eq_some (fun t seen hcard ↦ ih (some t) .retryable seen hcard
                  (by decide)) (h c).suppressed _ _ hcard' hmax
              rw [classifyFrom_of_not_fatal hseen hfatal fuel hworst, hloop]
              by_cases hf : f = .fatal
              · subst hf
                exact ⟨.fatal, seen₁, rfl, Explored.visit hseen (hwalk.stop _)⟩
              · have hcard₁ : (Finset.univ \ seen₁).card < fuel :=
                  card_unseen_lt hwalk.subset hcard'
                obtain ⟨f', seen₂, hrest, hwalk'⟩ := ih (h c).cause f seen₁ hcard₁ hf
                refine ⟨f', seen₂, ?_, Explored.visit hseen (hwalk.trans hwalk')⟩
                cases f with
                | retryable => exact hrest
                | deadline => exact hrest
                | fatal => exact absurd rfl hf

theorem classify_eq_worst (h : Heap ρ) (t : ρ) :
    classify h t = worst h.refs h.severity t := by
  have hcard : (Finset.univ \ (∅ : Finset ρ)).card < Fintype.card ρ + 1 := by
    rw [Finset.sdiff_empty, Finset.card_univ]
    omega
  obtain ⟨f, seen, hrun, hwalk⟩ :=
    classifyFrom_eq_some h (Fintype.card ρ + 1) (some t) .retryable ∅ hcard (by decide)
  have hworst : f = worst h.refs h.severity t := Explored.eq_worst hwalk
  simp [classify, hrun, hworst]

theorem exists_classify_eq (h : Heap ρ) (t : ρ) :
    ∃ y, Reaches h.refs t y ∧ classify h t = h.severity y := by
  obtain ⟨y, hy, heq⟩ := exists_eq_worst h.refs h.severity t
  exact ⟨y, hy, by rw [classify_eq_worst, heq]⟩

theorem severity_le_classify {h : Heap ρ} {t x : ρ} (hreach : Reaches h.refs t x) :
    h.severity x ≤ classify h t := by
  rw [classify_eq_worst]
  exact le_worst hreach

/-- The graphs differ in the order of the suppressed lists only. -/
structure SameUpToOrder (h h' : Heap ρ) : Prop where
  kind : ∀ x, (h' x).kind = (h x).kind
  cause : ∀ x, (h' x).cause = (h x).cause
  suppressed : ∀ x, (h' x).suppressed.Perm (h x).suppressed

theorem SameUpToOrder.classify_eq {h h' : Heap ρ} (hsame : SameUpToOrder h h') (t : ρ) :
    classify h' t = classify h t := by
  rw [classify_eq_worst, classify_eq_worst]
  apply worst_congr
  · intro x
    rw [Heap.refs, Heap.refs, hsame.cause]
    exact (hsame.suppressed x).append_right _
  · intro x
    rw [Heap.severity, Heap.severity, hsame.kind]

/-- On every finite graph of throwables `classify` ends, with the largest
severity of a reachable throwable, whatever the order of the suppressed lists. -/
theorem classify_isGreatest (h : Heap ρ) (t : ρ) :
    (∀ fuel, Fintype.card ρ < fuel → ∃ seen,
      classifyFrom h fuel (some t) .retryable ∅ = some (classify h t, seen)) ∧
    IsGreatest {f | ∃ x, Reaches h.refs t x ∧ h.severity x = f} (classify h t) ∧
    ∀ h', SameUpToOrder h h' → classify h' t = classify h t := by
  refine ⟨?_, ⟨?_, ?_⟩, fun h' hsame ↦ hsame.classify_eq t⟩
  · intro fuel hfuel
    have hcard : (Finset.univ \ (∅ : Finset ρ)).card < fuel := by
      rwa [Finset.sdiff_empty, Finset.card_univ]
    obtain ⟨f, seen, hrun, hwalk⟩ :=
      classifyFrom_eq_some h fuel (some t) .retryable ∅ hcard (by decide)
    have hclass : f = classify h t := by
      rw [classify_eq_worst]
      exact Explored.eq_worst hwalk
    exact ⟨seen, hclass ▸ hrun⟩
  · obtain ⟨x, hx, heq⟩ := exists_classify_eq h t
    exact ⟨x, hx, heq.symm⟩
  · rintro f ⟨x, hx, rfl⟩
    exact severity_le_classify hx

/-- A cycle of causes in which one exception suppresses a deadline and itself. -/
inductive CyclicRef
  | outer
  | cause
  | deadline
  deriving DecidableEq

instance : Fintype CyclicRef where
  elems := {.outer, .cause, .deadline}
  complete := fun t ↦ by cases t <;> decide

def cyclicHeap : Heap CyclicRef
  | .outer => ⟨.exception, none, some .cause, [.deadline, .outer]⟩
  | .cause => ⟨.hgStoreClientException, none, some .outer, []⟩
  | .deadline => ⟨.statusRuntimeException .deadlineExceeded, none, none, []⟩

theorem classify_isGreatest_cyclic :
    (∃ seen, classifyFrom cyclicHeap 4 (some .outer) .retryable ∅ = some (.deadline, seen)) ∧
      classify
          (Function.update cyclicHeap .outer
            ⟨.exception, none, some .cause, [.outer, .deadline]⟩) .outer =
        classify cyclicHeap .outer := by
  obtain ⟨hends, -, hsame⟩ := classify_isGreatest cyclicHeap .outer
  refine ⟨hends 4 (by decide), hsame _ ⟨?_, ?_, ?_⟩⟩
  · decide
  · decide
  · decide

end HugeGraphValidation.StoreClient
