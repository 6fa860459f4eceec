import HugeGraphValidation.Faults.Readiness
import HugeGraphValidation.Lib.Runs

/-!
# The transitions of the pods

One loop over the rows of all pods keeps a last value for each.  The scenarios
take the rows of a pod and then its transitions, or the transitions of all and
then those of the pod; both are the changes between the runs of the values that
the pod has in its own rows.
-/

namespace HugeGraphValidation.Faults

open Lib

variable {κ : Type} [DecidableEq κ] {key : Row → κ}

/-! ## One row -/

theorem pod_of_mem_change {old : Option κ} {r : Row} {x : ℚ × String × κ × κ}
    (h : x ∈ change key old r) : x.2.1 = r.pod := by
  cases old with
  | none => simp at h
  | some old =>
      by_cases hold : old = key r
      · simp [hold] at h
      · rw [change_of_ne hold, List.mem_singleton] at h
        rw [h]

/-- The change without its old value is the row, or nothing. -/
theorem change_sublist (old : Option κ) (r : Row) :
    ((change key old r).map fun x ↦ (x.1, x.2.1, x.2.2.2)).Sublist [(r.t, r.pod, key r)] := by
  cases old with
  | none => exact List.nil_sublist _
  | some old =>
      by_cases hold : old = key r
      · simp [hold]
      · rw [change_of_ne hold]
        exact List.Sublist.refl _

/-! ## One pod among others -/

/-- What the loop lists for a pod depends on the last value of this pod and on
its own rows. -/
theorem filter_transitionsFrom {last last' : List (String × κ)} {p : String}
    (h : last.lookup p = last'.lookup p) (rows : List Row) :
    (transitionsFrom key last rows).filter (fun x ↦ x.2.1 = p) =
      transitionsFrom key last' (rows.filter fun r ↦ r.pod = p) := by
  induction rows generalizing last last' with
  | nil => rfl
  | cons r rows ih =>
      rw [transitionsFrom_cons, List.filter_append]
      by_cases hpod : r.pod = p
      · subst hpod
        have hchange : (change key (last.lookup r.pod) r).filter (fun x ↦ x.2.1 = r.pod) =
            change key (last.lookup r.pod) r := by
          rw [List.filter_eq_self]
          intro x hx
          exact decide_eq_true (pod_of_mem_change hx)
        rw [List.filter_cons_of_pos (by simp), transitionsFrom_cons, hchange, h]
        congr 1
        apply ih
        rw [Dict.lookup_set_self, Dict.lookup_set_self]
      · have hchange : (change key (last.lookup r.pod) r).filter (fun x ↦ x.2.1 = p) = [] := by
          rw [List.filter_eq_nil_iff]
          intro x hx
          rw [pod_of_mem_change hx]
          simpa using hpod
        rw [List.filter_cons_of_neg (by simpa using hpod), hchange, List.nil_append]
        apply ih
        rw [Dict.lookup_set_of_ne (Ne.symm hpod), h]

theorem transitionsFrom_eq_adjacent {last : List (String × κ)} {r : Row} {rows : List Row}
    (hlast : last.lookup r.pod = some (key r)) (hpod : ∀ r' ∈ rows, r'.pod = r.pod) :
    transitionsFrom key last rows =
      (adjacent (rows.destutter' (fun r r' ↦ key r ≠ key r') r)).map
        fun c ↦ (c.2.t, r.pod, key c.1, key c.2) := by
  induction rows generalizing last r with
  | nil => rfl
  | cons r' rows ih =>
      obtain ⟨hr', hrows⟩ := List.forall_mem_cons.mp hpod
      rw [transitionsFrom_cons, hr', hlast]
      by_cases hkey : key r = key r'
      · rw [List.destutter'_cons_neg rows (not_not.mpr hkey), ← ih _ hrows]
        · rw [hkey, change_same, List.nil_append]
        · rw [Dict.lookup_set_self, hkey]
      · rw [adjacent_destutter'_cons_pos hkey, List.map_cons, change_of_ne hkey, hr',
          ih (r := r') (by rw [hr', Dict.lookup_set_self]) (by rwa [hr']), hr']
        rfl

theorem transitions_eq_adjacent {p : String} {rows : List Row} (h : ∀ r ∈ rows, r.pod = p) :
    transitions key rows = (adjacent (rows.destutter fun r r' ↦ key r ≠ key r')).map
      fun c ↦ (c.2.t, p, key c.1, key c.2) := by
  cases rows with
  | nil => rfl
  | cons r rows =>
      obtain ⟨rfl, hrows⟩ := List.forall_mem_cons.mp h
      rw [transitions, transitionsFrom_cons, List.lookup_nil, change_none, List.nil_append,
        List.destutter_cons']
      exact transitionsFrom_eq_adjacent (Dict.lookup_set_self _ _ _) hrows

/-! ## The order of the rows -/

theorem transitionsFrom_sublist (last : List (String × κ)) (rows : List Row) :
    ((transitionsFrom key last rows).map fun x ↦ (x.1, x.2.1, x.2.2.2)).Sublist
      (rows.map fun r ↦ (r.t, r.pod, key r)) := by
  induction rows generalizing last with
  | nil => exact List.Sublist.refl []
  | cons r rows ih =>
      rw [transitionsFrom_cons, List.map_append, List.map_cons]
      exact (change_sublist _ r).append (ih _)

/-- Whatever pods the rows mix and whatever value is read from them: the
transitions of a pod are those of its own rows, and these are the changes between
the rows that `destutter` keeps, the first ones of their values; the transitions
of a pod form a chain, all of them stand in the order of the rows, and there are
none where every pod keeps its value. -/
theorem transitions_of_pods (key : Row → κ) (rows : List Row) :
    (∀ p, let own := rows.filter fun r ↦ r.pod = p
      let kept := own.destutter fun r r' ↦ key r ≠ key r'
      (transitions key rows).filter (fun x ↦ x.2.1 = p) = transitions key own ∧
      transitions key own = (adjacent kept).map (fun c ↦ (c.2.t, p, key c.1, key c.2)) ∧
      kept.map key = (own.map key).destutter (· ≠ ·) ∧
      (∀ c ∈ adjacent kept, ∃ pre run post, own = pre ++ c.1 :: run ++ c.2 :: post ∧
        (∀ r ∈ run, key r = key c.1) ∧ key c.2 ≠ key c.1) ∧
      (transitions key own).IsChain fun x y ↦ y.2.2.1 = x.2.2.2) ∧
    ((transitions key rows).map fun x ↦ (x.1, x.2.1, x.2.2.2)).Sublist
      (rows.map fun r ↦ (r.t, r.pod, key r)) ∧
    (transitions key rows = [] ↔
      ∀ r ∈ rows, ∀ r' ∈ rows, r.pod = r'.pod → key r = key r') := by
  refine ⟨?_, transitionsFrom_sublist [] rows, transitions_eq_nil_iff⟩
  intro p own kept
  have hown : transitions key own =
      (adjacent kept).map fun c ↦ (c.2.t, p, key c.1, key c.2) :=
    transitions_eq_adjacent fun r hr ↦ of_decide_eq_true (List.mem_filter.mp hr).2
  refine ⟨filter_transitionsFrom rfl rows, hown, List.map_destutter fun _ _ _ _ ↦ Iff.rfl,
    ?_, ?_⟩
  · intro c hc
    obtain ⟨pre, run, post, hsplit, hrun, hc⟩ := of_mem_adjacent_destutter hc
    exact ⟨pre, run, post, hsplit, fun r hr ↦ (not_not.mp (hrun r hr)).symm, Ne.symm hc⟩
  · rw [hown, List.isChain_map]
    refine (isChain_adjacent kept).imp ?_
    intro c c' hcc'
    rw [hcc']

end HugeGraphValidation.Faults
