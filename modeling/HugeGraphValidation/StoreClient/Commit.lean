import HugeGraphValidation.StoreClient.Throwable

/-!
# The parallel commit and its aggregated failure

`commitSessions` commits every tx session, rolls back when a commit failed and
throws one exception made of all failures.  The order in which the failures of
the parallel commits arrive is an argument of the model.
-/

namespace HugeGraphValidation.StoreClient

open Lib

variable {ρ : Type*}

/-- The heap with one more object, `none`, beside the old ones. -/
def Heap.alloc (h : Heap ρ) (node : Node (Option ρ)) : Heap (Option ρ)
  | none => node
  | some t =>
      { kind := (h t).kind
        message := (h t).message
        cause := (h t).cause.map some
        suppressed := (h t).suppressed.map some }

/-- `t.addSuppressed(other)` -/
def Heap.addSuppressed [DecidableEq ρ] (h : Heap ρ) (t other : ρ) : Heap ρ :=
  Function.update h t { h t with suppressed := (h t).suppressed ++ [other] }

structure Thrown (ρ : Type*) where
  heap : Heap ρ
  ref : ρ

/-- `first.getCause() != null ? first.getCause() : first` -/
def aggregateCause (h : Heap ρ) (first : ρ) : ρ := (h first).cause.getD first

/-- The exception that is thrown: the cause itself where it is an
`HgStoreClientException`, else a new one, `none`. -/
def aggregateResult (h : Heap ρ) (cause : ρ) : Option ρ :=
  if (h cause).kind = .hgStoreClientException then some cause else none

/-- `aggregate(failures)`; `ofMessage` is the message that
`HgStoreClientException.of(cause)` gives the new exception. -/
def aggregate [DecidableEq ρ] (ofMessage : ρ → Option String) (h : Heap ρ) :
    List ρ → Option (Thrown (Option ρ))
  | [] => none
  | first :: others =>
      let cause := aggregateCause h first
      let result := aggregateResult h cause
      let allocated := h.alloc ⟨.hgStoreClientException, ofMessage cause, some (some cause), []⟩
      some
        { heap := others.foldl (fun heap other ↦
            if some other ≠ result ∧ other ≠ cause then
              heap.addSuppressed result (some other)
            else heap) allocated
          ref := result }

/-- A session as one call of `commitSessions` meets it: what its `commit()`
and its `rollback()` throw, if anything. -/
structure Session (ρ : Type*) where
  isTx : Bool
  commit : Option ρ
  rollback : Option ρ

def commitFailures (sessions : List (Session ρ)) : List ρ :=
  sessions.filterMap fun s ↦ if s.isTx then s.commit else none

/-- `sessions.stream().forEach(HgStoreSession::rollback)`: what it throws, if
anything; the sessions behind a throwing one are not reached. -/
def rollbackFailure (sessions : List (Session ρ)) : Option ρ :=
  sessions.findSome? Session.rollback

/-- `commitSessions(sessions)`, given the order in which the failures arrived:
the exception it throws, if any. -/
def commitSessions [DecidableEq ρ] (ofMessage : ρ → Option String) (isTx : Bool) (h : Heap ρ)
    (sessions : List (Session ρ)) (failures : List ρ) : Option (Thrown (Option ρ)) :=
  if failures.isEmpty then none
  else
    match (if isTx then rollbackFailure sessions else none) with
    | none => aggregate ofMessage h failures
    | some t =>
        -- `catch (Exception e)` keeps the commit failure, but lets an Error out
        if (h t).kind = .error then
          some ⟨h.alloc ⟨.exception, none, none, []⟩, some t⟩
        else aggregate ofMessage h failures

/-! ## What is reachable from the aggregated exception -/

theorem Heap.severity_alloc_some (h : Heap ρ) (node : Node (Option ρ)) (t : ρ) :
    (h.alloc node).severity (some t) = h.severity t := rfl

theorem Heap.refs_alloc_some (h : Heap ρ) (node : Node (Option ρ)) (t : ρ) :
    (h.alloc node).refs (some t) = (h.refs t).map some := by
  cases hcause : (h t).cause <;> simp [Heap.refs, Heap.alloc, hcause]

theorem foldl_addSuppressed {α : Type*} [DecidableEq α] (t : α) (keep : ρ → Prop)
    [DecidablePred keep] (toRef : ρ → α) (others : List ρ) (h : Heap α) :
    others.foldl (fun heap other ↦
        if keep other then heap.addSuppressed t (toRef other) else heap) h =
      Function.update h t { h t with
        suppressed := (h t).suppressed ++ (others.filter fun o ↦ keep o).map toRef } := by
  induction others generalizing h with
  | nil => simp
  | cons other others ih =>
      rw [List.foldl_cons, ih]
      by_cases hkeep : keep other
      · simp [hkeep, Heap.addSuppressed]
      · simp [hkeep]

theorem Heap.severity_update [DecidableEq ρ] (h : Heap ρ) (t : ρ) (suppressed : List ρ) (x : ρ) :
    Heap.severity (Function.update h t { h t with suppressed := suppressed }) x =
      h.severity x := by
  by_cases hx : x = t
  · subst hx
    simp [Heap.severity]
  · simp [Heap.severity, hx]

theorem Heap.mem_refs_update [DecidableEq ρ] {h : Heap ρ} {t x y : ρ} {more : List ρ} :
    y ∈ Heap.refs (Function.update h t
        { h t with suppressed := (h t).suppressed ++ more }) x ↔
      y ∈ h.refs x ∨ (x = t ∧ y ∈ more) := by
  by_cases hx : x = t
  · subst hx
    simp only [Heap.refs, Function.update_self, List.mem_append]
    tauto
  · simp [Heap.refs, hx]

/-- What is known of an aggregated exception: its heap holds the old objects
with all their references, and it reaches the cause of the first failure and
every other failure, and nothing else anew. -/
structure Aggregated (h : Heap ρ) (first : ρ) (others : List ρ) (e : Thrown (Option ρ)) :
    Prop where
  severity_some : ∀ t, e.heap.severity (some t) = h.severity t
  severity_none : e.heap.severity none = ⊥
  refs_some : ∀ t, ∀ u ∈ h.refs t, some u ∈ e.heap.refs (some t)
  refs_origin : ∀ x, ∀ y ∈ e.heap.refs x,
    y = some (aggregateCause h first) ∨ (∃ t ∈ others, y = some t) ∨
      ∃ t u, x = some t ∧ y = some u ∧ u ∈ h.refs t
  ref_origin : e.ref = none ∨ e.ref = some (aggregateCause h first)
  reaches_cause : Reaches e.heap.refs e.ref (some (aggregateCause h first))
  reaches_other : ∀ t ∈ others, Reaches e.heap.refs e.ref (some t)

theorem aggregate_cons [DecidableEq ρ] (ofMessage : ρ → Option String) (h : Heap ρ) (first : ρ)
    (others : List ρ) :
    ∃ e, aggregate ofMessage h (first :: others) = some e ∧ Aggregated h first others e := by
  refine ⟨_, rfl, ?_⟩
  rw [foldl_addSuppressed (aggregateResult h (aggregateCause h first))
    (fun other ↦ some other ≠ aggregateResult h (aggregateCause h first) ∧
      other ≠ aggregateCause h first) some]
  set cause := aggregateCause h first
  set result := aggregateResult h cause with hresult
  set allocated := h.alloc ⟨.hgStoreClientException, ofMessage cause, some (some cause), []⟩
    with hallocated
  have hnone : allocated.refs none = [some cause] := rfl
  have hcause : Reaches (Heap.refs (Function.update allocated result { allocated result with
      suppressed := (allocated result).suppressed ++
        (others.filter fun o ↦ some o ≠ result ∧ o ≠ cause).map some })) result
      (some cause) := by
    by_cases hkind : (h cause).kind = .hgStoreClientException
    · rw [hresult, aggregateResult, if_pos hkind]
      exact Relation.ReflTransGen.refl
    · apply Reaches.step
      rw [Heap.mem_refs_update]
      left
      rw [hresult, aggregateResult, if_neg hkind, hnone]
      exact List.mem_singleton_self _
  exact
    { severity_some := fun t ↦ by rw [Heap.severity_update, Heap.severity_alloc_some]
      severity_none := by rw [Heap.severity_update]; rfl
      refs_some := by
        intro t u hu
        rw [Heap.mem_refs_update, Heap.refs_alloc_some]
        exact Or.inl (List.mem_map_of_mem hu)
      refs_origin := by
        intro x y hy
        rw [Heap.mem_refs_update] at hy
        rcases hy with hy | ⟨-, hy⟩
        · cases x with
          | none =>
              rw [hnone] at hy
              exact Or.inl (List.mem_singleton.mp hy)
          | some t =>
              rw [Heap.refs_alloc_some] at hy
              obtain ⟨u, hu, rfl⟩ := List.mem_map.mp hy
              exact Or.inr (Or.inr ⟨t, u, rfl, rfl, hu⟩)
        · obtain ⟨t, ht, rfl⟩ := List.mem_map.mp hy
          exact Or.inr (Or.inl ⟨t, (List.mem_filter.mp ht).1, rfl⟩)
      ref_origin := by
        rw [hresult, aggregateResult]
        split
        · exact Or.inr rfl
        · exact Or.inl rfl
      reaches_cause := hcause
      reaches_other := by
        intro t ht
        by_cases htcause : t = cause
        · rwa [htcause]
        · by_cases htresult : some t = result
          · rw [htresult]
            exact Relation.ReflTransGen.refl
          · apply Reaches.step
            rw [Heap.mem_refs_update]
            refine Or.inr ⟨rfl, List.mem_map_of_mem ?_⟩
            rw [List.mem_filter]
            exact ⟨ht, by simp [htresult, htcause]⟩ }

theorem Aggregated.reaches_some {h : Heap ρ} {first : ρ} {others : List ρ}
    {e : Thrown (Option ρ)} (hagg : Aggregated h first others e) {t u : ρ}
    (hreach : Reaches h.refs t u) : Reaches e.heap.refs (some t) (some u) := by
  induction hreach with
  | refl => exact Relation.ReflTransGen.refl
  | tail _ hstep ih => exact ih.tail (hagg.refs_some _ _ hstep)

theorem Aggregated.reaches_origin {h : Heap ρ} {first : ρ} {others : List ρ}
    {e : Thrown (Option ρ)} (hagg : Aggregated h first others e) {u : ρ}
    (hreach : Reaches e.heap.refs e.ref (some u)) :
    ∃ t, (t = aggregateCause h first ∨ t ∈ others) ∧ Reaches h.refs t u := by
  have hmem : some u ∈ {x : Option ρ | ∀ u, x = some u →
      ∃ t, (t = aggregateCause h first ∨ t ∈ others) ∧ Reaches h.refs t u} := by
    refine Reaches.mem_of_closed ?_ hreach ?_
    · intro x hx y hy v hv
      subst hv
      rcases hagg.refs_origin x _ hy with heq | ⟨t, ht, heq⟩ | ⟨t, w, rfl, heq, hw⟩
      · exact ⟨v, Or.inl (Option.some.inj heq), Relation.ReflTransGen.refl⟩
      · rw [Option.some.inj heq]
        exact ⟨t, Or.inr ht, Relation.ReflTransGen.refl⟩
      · obtain ⟨s, hs, hst⟩ := hx t rfl
        rw [Option.some.inj heq]
        exact ⟨s, hs, hst.tail hw⟩
    · intro v hv
      rcases hagg.ref_origin with hnone | hsome
      · rw [hnone] at hv
        cases hv
      · rw [hsome] at hv
        exact ⟨v, Or.inl (Option.some.inj hv).symm, Relation.ReflTransGen.refl⟩
  exact hmem u rfl

variable [DecidableEq ρ] [Fintype ρ]

def maxClass (h : Heap ρ) (ts : List ρ) : Failure :=
  ((ts.map (classify h) : List Failure) : Multiset Failure).sup

theorem maxClass_le_iff {h : Heap ρ} {ts : List ρ} {f : Failure} :
    maxClass h ts ≤ f ↔ ∀ t ∈ ts, classify h t ≤ f := by
  rw [maxClass, Multiset.sup_le]
  simp

theorem classify_le_maxClass (h : Heap ρ) {t : ρ} {ts : List ρ} (ht : t ∈ ts) :
    classify h t ≤ maxClass h ts :=
  maxClass_le_iff.mp le_rfl t ht

theorem maxClass_perm (h : Heap ρ) {ts us : List ρ} (hperm : ts.Perm us) :
    maxClass h ts = maxClass h us := by
  rw [maxClass, maxClass, Multiset.coe_eq_coe.mpr (hperm.map (classify h))]

theorem maxClass_cons (h : Heap ρ) (t : ρ) (ts : List ρ) :
    maxClass h (t :: ts) = max (classify h t) (maxClass h ts) := by
  simp [maxClass, ← Multiset.cons_coe]

/-- The class of an aggregated exception: the first failure counts only from
its cause on, the others whole. -/
theorem Aggregated.classify_eq {h : Heap ρ} {first : ρ} {others : List ρ}
    {e : Thrown (Option ρ)} (hagg : Aggregated h first others e) :
    classify e.heap e.ref =
      max (classify h (aggregateCause h first)) (maxClass h others) := by
  rw [classify_eq_worst]
  apply le_antisymm
  · apply worst_le_iff.mpr
    intro x hx
    cases x with
    | none => exact hagg.severity_none ▸ bot_le
    | some u =>
        obtain ⟨t, ht, hreach⟩ := hagg.reaches_origin hx
        have hle : h.severity u ≤ classify h t := by
          rw [classify_eq_worst]
          exact le_worst hreach
        rw [hagg.severity_some]
        rcases ht with rfl | ht
        · exact hle.trans (le_max_left _ _)
        · exact (hle.trans (classify_le_maxClass h ht)).trans (le_max_right _ _)
  · have hbelow : ∀ t, Reaches e.heap.refs e.ref (some t) →
        classify h t ≤ worst e.heap.refs e.heap.severity e.ref := by
      intro t ht
      rw [classify_eq_worst, worst_le_iff]
      intro u hu
      rw [← hagg.severity_some]
      exact le_worst (ht.trans (hagg.reaches_some hu))
    refine max_le (hbelow _ hagg.reaches_cause) (maxClass_le_iff.mpr fun t ht ↦ ?_)
    exact hbelow t (hagg.reaches_other t ht)

theorem classify_aggregateCause_le (h : Heap ρ) (t : ρ) :
    classify h (aggregateCause h t) ≤ classify h t := by
  rw [classify_eq_worst, classify_eq_worst]
  apply worst_mono
  unfold aggregateCause
  cases hcause : (h t).cause with
  | none => exact Relation.ReflTransGen.refl
  | some c => exact Reaches.step (by simp [Heap.refs, hcause])

end HugeGraphValidation.StoreClient
