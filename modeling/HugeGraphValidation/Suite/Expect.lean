import HugeGraphValidation.Suite.Compare

/-!
# A run against an expected report

`run --expect` classifies each case when it is recorded and exits with status 1
when it has seen a class other than `OK`.  It never looks at the cases of the
oracle that the run does not record.
-/

namespace HugeGraphValidation.Suite

open Lib

/-- The exit status of `main` after a run. -/
def exitStatus (rep : Report) : ℕ :=
  if rep.expect.isSome ∧ rep.tally.any (fun k ↦ k.1 ≠ .ok) then 1 else 0

namespace Report

theorem mem_count_keys {c cls : Cls} {tally : List (Cls × ℕ)} :
    c ∈ (count cls tally).map Prod.fst ↔ c = cls ∨ c ∈ tally.map Prod.fst := by
  induction tally with
  | nil => simp [count]
  | cons kn tally ih =>
      obtain ⟨k, n⟩ := kn
      unfold count
      split
      · rename_i hk
        subst hk
        simp
      · simp only [List.map_cons, List.mem_cons, ih]
        tauto

/-- What the inline classification has done: it has printed the verdict of
every case, and its tally has the classes seen. -/
structure Inline (expected : List Record) (rep : Report) : Prop where
  expect : rep.expect = some expected
  verdicts : rep.printed.filterMap Printed.verdict = rep.cases.map (inlineVerdict expected)
  tallied : ∀ c, c ∈ rep.tally.map Prod.fst ↔
    ∃ record ∈ rep.cases, (inlineVerdict expected record).1 = c

theorem Inline.add {expected : List Record} {rep : Report} (hinline : Inline expected rep)
    (name : String) (body : Body) : Inline expected (rep.add name body) := by
  have hemit : ∀ record line, emit { rep with keys := rep.freshKey name :: rep.keys } record line =
      { rep with
        keys := rep.freshKey name :: rep.keys
        tally := count (inlineVerdict expected record).1 rep.tally
        cases := rep.cases ++ [record]
        printed := rep.printed ++ [.case line (some (inlineVerdict expected record))] } := by
    intro record line
    simp only [emit, hinline.expect]
  unfold Report.add
  rw [hemit]
  exact
    { expect := hinline.expect
      verdicts := by
        simp only [List.filterMap_append, List.map_append, hinline.verdicts]
        rfl
      tallied := by
        intro c
        simp only [mem_count_keys, hinline.tallied, List.mem_append, List.mem_singleton]
        constructor
        · rintro (rfl | ⟨record, hrecord, rfl⟩)
          · exact ⟨_, Or.inr rfl, rfl⟩
          · exact ⟨record, Or.inl hrecord, rfl⟩
        · rintro ⟨record, hrecord | rfl, rfl⟩
          · exact Or.inr ⟨record, hrecord, rfl⟩
          · exact Or.inl rfl }

theorem run_inline (md5 : Md5) (expected : List Record) (keepIds : Bool) (calls : List Call) :
    Inline expected (run md5 (some expected) keepIds calls) := by
  apply run_induction
  · exact ⟨rfl, rfl, by simp [init]⟩
  · intro rep code title hinline
    exact
      { expect := hinline.expect
        verdicts := by
          simp only [sectionStart, List.filterMap_append, hinline.verdicts]
          exact List.append_nil _
        tallied := hinline.tallied }
  · exact fun _ name body hinline ↦ hinline.add name body

theorem Inline.exitStatus_eq_one_iff {expected : List Record} {rep : Report}
    (hinline : Inline expected rep) :
    exitStatus rep = 1 ↔
      ∃ record ∈ rep.cases, (inlineVerdict expected record).1 ≠ .ok := by
  have hany : rep.tally.any (fun k ↦ k.1 ≠ .ok) = true ↔
      ∃ c, c ∈ rep.tally.map Prod.fst ∧ c ≠ .ok := by
    simp only [List.any_eq_true, decide_eq_true_eq, List.mem_map]
    constructor
    · rintro ⟨k, hk, hne⟩
      exact ⟨k.1, ⟨k, hk, rfl⟩, hne⟩
    · rintro ⟨_, ⟨k, hk, rfl⟩, hne⟩
      exact ⟨k, hk, hne⟩
  have hstatus : exitStatus rep = 1 ↔ rep.tally.any (fun k ↦ k.1 ≠ .ok) = true := by
    simp [exitStatus, hinline.expect]
  rw [hstatus, hany]
  constructor
  · rintro ⟨c, hc, hne⟩
    obtain ⟨record, hrecord, rfl⟩ := (hinline.tallied c).mp hc
    exact ⟨record, hrecord, hne⟩
  · rintro ⟨record, hrecord, hne⟩
    exact ⟨_, (hinline.tallied _).mpr ⟨record, hrecord, rfl⟩, hne⟩

end Report

section Agree

variable {O T : List Record}

theorem inlineVerdict_eq_classAt (hT : (T.map Record.key).Nodup) {t : Record} (ht : t ∈ T) :
    (Report.inlineVerdict O t).1 = classAt O T t.key := by
  rw [Report.inlineVerdict, classAt, (lookup_eq_some_iff hT).mpr ⟨ht, rfl⟩]

/-- The comparison finds what the inline classification finds, and the cases of
the oracle that are missing. -/
theorem compare_ne_zero_iff (hO : (O.map Record.key).Nodup) (hT : (T.map Record.key).Nodup) :
    compare O T ≠ 0 ↔
      (∃ k ∈ O.map Record.key, k ∉ T.map Record.key) ∨
        ∃ t ∈ T, (Report.inlineVerdict O t).1 ≠ .ok := by
  have hsome : compare O T ≠ 0 ↔
      ∃ k, (k ∈ O.map Record.key ∨ k ∈ T.map Record.key) ∧ classAt O T k ≠ .ok := by
    rw [compare_eq_countP_keys hO hT, ← Nat.pos_iff_ne_zero, List.countP_pos_iff]
    simp only [mem_rows_keys, decide_eq_true_eq]
  rw [hsome]
  constructor
  · rintro ⟨k, hk, hne⟩
    by_cases hkT : k ∈ T.map Record.key
    · obtain ⟨t, ht, rfl⟩ := List.mem_map.mp hkT
      rw [← inlineVerdict_eq_classAt hT ht] at hne
      exact Or.inr ⟨t, ht, hne⟩
    · exact Or.inl ⟨k, hk.resolve_right hkT, hkT⟩
  · rintro (⟨k, hkO, hkT⟩ | ⟨t, ht, hne⟩)
    · refine ⟨k, Or.inl hkO, ?_⟩
      obtain ⟨o, ho, rfl⟩ := List.mem_map.mp hkO
      rw [classAt, lookup_eq_none_iff.mpr hkT, (lookup_eq_some_iff hO).mpr ⟨ho, rfl⟩]
      simp
    · rw [inlineVerdict_eq_classAt hT ht] at hne
      exact ⟨t.key, Or.inr (List.mem_map_of_mem ht), hne⟩

end Agree

/-- A run against the report of any oracle calls: it prints for each case the
class that the comparison gives to its key, and its exit status agrees with the
comparison if and only if the run records every key of the oracle or has a case
that is not `OK`. -/
theorem expect_agrees_iff (md5 : Md5) (expectO : Option (List Record)) (keepO keepT : Bool)
    (callsO callsT : List Call) :
    let O := (Report.run md5 expectO keepO callsO).cases
    let T := Report.run md5 (some O) keepT callsT
    T.printed.filterMap Printed.verdict = T.cases.map (Report.inlineVerdict O) ∧
      (∀ t ∈ T.cases, (∃ r ∈ rows O T.cases, r.key = t.key) ∧
        ∀ r ∈ rows O T.cases, r.key = t.key → r.cls = (Report.inlineVerdict O t).1) ∧
      ((exitStatus T = 1 ↔ compare O T.cases ≠ 0) ↔
        (∀ k ∈ O.map Record.key, k ∈ T.cases.map Record.key) ∨
          ∃ t ∈ T.cases, (classify (lookup Record.key O t.key) t).1 ≠ .ok) := by
  intro O T
  have hO : (O.map Record.key).Nodup := (Report.run_keyed md5 expectO keepO callsO).nodup
  have hT : (T.cases.map Record.key).Nodup :=
    (Report.run_keyed md5 (some O) keepT callsT).nodup
  have hinline : Report.Inline O T := Report.run_inline md5 O keepT callsT
  refine ⟨hinline.verdicts, ?_, ?_⟩
  · intro t ht
    refine ⟨?_, ?_⟩
    · exact List.mem_map.mp (mem_rows_keys.mpr (Or.inr (List.mem_map_of_mem ht)))
    · intro r hr hkey
      rw [cls_of_mem_rows hO hT hr, inlineVerdict_eq_classAt hT ht, hkey]
  · rw [hinline.exitStatus_eq_one_iff, compare_ne_zero_iff hO hT]
    by_cases hbad : ∃ t ∈ T.cases, (Report.inlineVerdict O t).1 ≠ .ok
    · exact ⟨fun _ ↦ Or.inr hbad, fun _ ↦ ⟨fun h ↦ Or.inr h, fun _ ↦ hbad⟩⟩
    · constructor
      · intro hiff
        left
        by_contra hmissing
        push Not at hmissing
        exact hbad (hiff.mpr (Or.inl hmissing))
      · rintro (hall | hbad')
        · refine ⟨Or.inr, ?_⟩
          rintro (⟨k, hkO, hkT⟩ | h)
          · exact absurd (hall k hkO) hkT
          · exact h
        · exact absurd hbad' hbad

/-- The run records section S only, and the oracle has a case of section L: the
run exits with status 0 and the comparison counts a missing case. -/
theorem expect_misses_absent_case :
    let O := (Report.run sampleMd5 none true
      [.sec "S" "sort keys", .case "all" (some []) none, .sec "L" "range index",
        .case "full" (some []) none]).cases
    let T := Report.run sampleMd5 (some O) true
      [.sec "S" "sort keys", .case "all" (some []) none]
    exitStatus T = 0 ∧ compare O T.cases = 1 := by
  decide

end HugeGraphValidation.Suite
