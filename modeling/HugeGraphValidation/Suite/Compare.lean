import HugeGraphValidation.Suite.Report

/-!
# Comparing two reports

`compare` walks over the cases of the oracle, then over those of the target
that the oracle lacks.  Its rows are the keys of both reports, each once, with
a class that depends on what the two reports hold under the key.
-/

namespace HugeGraphValidation.Suite

open Lib

structure Row where
  cls : Cls
  sec : String
  name : String
  note : String
  o : Option Record
  t : Option Record

def Row.key (r : Row) : String × String := (r.sec, r.name)

def oracleRow (T : List Record) (o : Record) : Row :=
  match lookup Record.key T o.key with
  | none => ⟨.missing, o.sec, o.name, "absent on target", none, none⟩
  | some t =>
      let verdict := classify (some o) t
      ⟨verdict.1, o.sec, o.name, verdict.2, some o, some t⟩

def rows (O T : List Record) : List Row :=
  O.map (oracleRow T) ++
    (T.filter fun t ↦ t.key ∉ O.map Record.key).map fun t ↦
      ⟨.new, t.sec, t.name, "absent on oracle", none, some t⟩

def total (rows : List Row) (c : Cls) : ℕ := rows.countP fun r ↦ r.cls = c

def sections (rows : List Row) : List String :=
  (rows.map Row.sec).dedup.insertionSort (· ≤ ·)

def sectionRows (rows : List Row) (s : String) : List Row := rows.filter fun r ↦ r.sec = s

/-- `compare(oracle, target)`: the sum of the totals of all classes but `OK`. -/
def compare (O T : List Record) : ℕ :=
  ((classes.filter fun c ↦ c ≠ .ok).map (total (rows O T))).sum

/-! ## The class of a key -/

/-- The class that two reports give a key; a key of neither counts as `OK`. -/
def classAt (O T : List Record) (k : String × String) : Cls :=
  match lookup Record.key T k with
  | some t => (classify (lookup Record.key O k) t).1
  | none => if (lookup Record.key O k).isSome then .missing else .ok

/-- What becomes of a class when oracle and target change places. -/
def Swapped : Cls → Cls → Prop
  | .ok, c => c = .ok
  | .dup, c => c = .dup ∨ c = .mismatch
  | .mismatch, c => c = .dup ∨ c = .mismatch
  | .targetErr, c => c = .oracleErr
  | .oracleErr, c => c = .targetErr
  | .bothErr, c => c = .bothErr
  | .new, c => c = .missing
  | .missing, c => c = .new

theorem Swapped.ok_iff {c c' : Cls} (h : Swapped c c') : c = .ok ↔ c' = .ok := by
  cases c with
  | ok => simpa [Swapped] using h
  | dup =>
      rcases h with rfl | rfl <;> simp
  | mismatch =>
      rcases h with rfl | rfl <;> simp
  | _ =>
      obtain rfl := h
      simp

theorem classifyResults_swapped (o t : Result) :
    Swapped (classifyResults o t).1 (classifyResults t o).1 := by
  have hok : (classifyResults o t).1 = .ok ↔ (classifyResults t o).1 = .ok := by
    rw [classifyResults_eq_ok_iff, classifyResults_eq_ok_iff]
    tauto
  rcases classifyResults_cases t o with ht | ht | ht
  · rw [ht, hok.mpr ht]
    rfl
  · rcases classifyResults_cases o t with ho | ho | ho
    · rw [hok.mp ho] at ht
      cases ht
    · rw [ho, ht]
      exact Or.inl rfl
    · rw [ho, ht]
      exact Or.inl rfl
  · rcases classifyResults_cases o t with ho | ho | ho
    · rw [hok.mp ho] at ht
      cases ht
    · rw [ho, ht]
      exact Or.inr rfl
    · rw [ho, ht]
      exact Or.inr rfl

theorem classifyBodies_swapped (o t : Body) :
    Swapped (classifyBodies o t).1 (classifyBodies t o).1 := by
  cases o with
  | err _ =>
      cases t with
      | err _ => rfl
      | result t => rfl
  | result o =>
      cases t with
      | err _ => rfl
      | result t => exact classifyResults_swapped o t

theorem classAt_swapped (O T : List Record) (k : String × String) :
    Swapped (classAt O T k) (classAt T O k) := by
  unfold classAt
  cases lookup Record.key O k with
  | none =>
      cases lookup Record.key T k with
      | none => rfl
      | some t => rfl
  | some o =>
      cases lookup Record.key T k with
      | none => rfl
      | some t => exact classifyBodies_swapped o.body t.body

/-! ## The rows -/

theorem oracleRow_key (T : List Record) (o : Record) : (oracleRow T o).key = o.key := by
  unfold oracleRow
  split <;> rfl

theorem rows_keys (O T : List Record) :
    (rows O T).map Row.key =
      O.map Record.key ++ (T.map Record.key).filter fun k ↦ k ∉ O.map Record.key := by
  rw [rows, List.map_append, List.map_map, List.map_map, List.filter_map]
  congr 1
  exact List.map_congr_left fun o _ ↦ oracleRow_key T o

theorem mem_rows_keys {O T : List Record} {k : String × String} :
    k ∈ (rows O T).map Row.key ↔ k ∈ O.map Record.key ∨ k ∈ T.map Record.key := by
  rw [rows_keys, List.mem_append, List.mem_filter]
  by_cases hk : k ∈ O.map Record.key <;> simp [hk]

variable {O T : List Record}

theorem rows_nodup (hO : (O.map Record.key).Nodup) (hT : (T.map Record.key).Nodup) :
    ((rows O T).map Row.key).Nodup := by
  rw [rows_keys, List.nodup_append]
  refine ⟨hO, hT.filter _, ?_⟩
  rintro k hk _ hk' rfl
  simpa [hk] using (List.mem_filter.mp hk').2

theorem cls_of_mem_rows (hO : (O.map Record.key).Nodup) (hT : (T.map Record.key).Nodup)
    {r : Row} (hr : r ∈ rows O T) : r.cls = classAt O T r.key := by
  rw [rows, List.mem_append, List.mem_map, List.mem_map] at hr
  rcases hr with ⟨o, ho, rfl⟩ | ⟨t, ht, rfl⟩
  · have hlookup : lookup Record.key O o.key = some o :=
      (lookup_eq_some_iff hO).mpr ⟨ho, rfl⟩
    rw [oracleRow_key, classAt, hlookup]
    unfold oracleRow
    cases lookup Record.key T o.key with
    | none => rfl
    | some t => rfl
  · obtain ⟨ht, hnew⟩ := List.mem_filter.mp ht
    have hlookup : lookup Record.key T t.key = some t :=
      (lookup_eq_some_iff hT).mpr ⟨ht, rfl⟩
    have habsent : lookup Record.key O t.key = none :=
      lookup_eq_none_iff.mpr (by simpa using hnew)
    have hclass : classAt O T t.key = .new := by
      rw [classAt, hlookup, habsent]
      rfl
    exact hclass.symm

theorem rows_keys_perm (hO : (O.map Record.key).Nodup) (hT : (T.map Record.key).Nodup) :
    ((rows T O).map Row.key).Perm ((rows O T).map Row.key) := by
  rw [List.perm_ext_iff_of_nodup (rows_nodup hT hO) (rows_nodup hO hT)]
  intro k
  rw [mem_rows_keys, mem_rows_keys, or_comm]

theorem rows_classes (hO : (O.map Record.key).Nodup) (hT : (T.map Record.key).Nodup) :
    (rows O T).map (fun r ↦ (r.key, r.cls)) =
      ((rows O T).map Row.key).map fun k ↦ (k, classAt O T k) := by
  rw [List.map_map]
  apply List.map_congr_left
  intro r hr
  rw [cls_of_mem_rows hO hT hr]
  rfl

theorem rows_cls_of_same_keys (hT : (T.map Record.key).Nodup)
    (hkeys : O.map Record.key = T.map Record.key) :
    (rows O T).map Row.cls =
      List.zipWith (fun o t ↦ (classifyBodies o t).1) (O.map Record.body) (T.map Record.body) := by
  have hnew : (T.filter fun t ↦ t.key ∉ O.map Record.key) = [] := by
    rw [List.filter_eq_nil_iff, hkeys]
    intro t ht
    simpa using ⟨t, ht, rfl⟩
  have hlength : O.length = T.length := by simpa using congrArg List.length hkeys
  rw [rows, hnew, List.map_nil, List.append_nil, List.map_map, List.zipWith_map]
  refine List.ext_getElem (by simp [hlength]) fun i hi hi' ↦ ?_
  have hiO : i < O.length := by simpa using hi
  have hiT : i < T.length := hlength ▸ hiO
  have hkey : T[i].key = O[i].key := by
    have hget := List.getElem_of_eq hkeys (i := i) (by simpa using hiO)
    simpa using hget.symm
  have hlookup : lookup Record.key T O[i].key = some T[i] :=
    (lookup_eq_some_iff hT).mpr ⟨List.getElem_mem hiT, hkey⟩
  rw [List.getElem_map, List.getElem_zipWith, Function.comp_apply, oracleRow, hlookup]
  rfl

/-! ## The totals -/

def distinctKeys (O T : List Record) : Finset (String × String) :=
  (O.map Record.key ++ T.map Record.key).toFinset

theorem length_rows (hO : (O.map Record.key).Nodup) (hT : (T.map Record.key).Nodup) :
    (rows O T).length = (distinctKeys O T).card := by
  have hkeys : distinctKeys O T = ((rows O T).map Row.key).toFinset := by
    ext k
    rw [List.mem_toFinset, mem_rows_keys, distinctKeys, List.mem_toFinset, List.mem_append]
  rw [hkeys, List.toFinset_card_of_nodup (rows_nodup hO hT), List.length_map]

theorem sum_total_classes (rs : List Row) : (classes.map (total rs)).sum = rs.length :=
  sum_countP_eq_length (by decide) fun r _ ↦ mem_classes r.cls

theorem sum_total_sections (rs : List Row) :
    ((sections rs).map fun s ↦ (classes.map (total (sectionRows rs s))).sum).sum =
      rs.length := by
  have hperm := List.perm_insertionSort (· ≤ ·) (rs.map Row.sec).dedup
  have hnodup : (sections rs).Nodup := hperm.nodup_iff.mpr (List.nodup_dedup _)
  have hcover : ∀ r ∈ rs, r.sec ∈ sections rs := by
    intro r hr
    exact hperm.mem_iff.mpr (List.mem_dedup.mpr (List.mem_map_of_mem hr))
  rw [← sum_countP_eq_length hnodup hcover]
  congr 1
  apply List.map_congr_left
  intro s _
  rw [sum_total_classes, sectionRows, List.countP_eq_length_filter]

theorem compare_eq_countP (O T : List Record) :
    compare O T = (rows O T).countP fun r ↦ r.cls ≠ .ok := by
  have hcover : ∀ r ∈ (rows O T).filter (fun r ↦ r.cls ≠ .ok),
      r.cls ∈ classes.filter fun c ↦ c ≠ .ok := by
    intro r hr
    exact List.mem_filter.mpr ⟨mem_classes r.cls, (List.mem_filter.mp hr).2⟩
  have hsum := sum_countP_eq_length (by decide) hcover
  rw [compare, List.countP_eq_length_filter, ← hsum]
  congr 1
  apply List.map_congr_left
  intro c hc
  have hne : c ≠ .ok := by simpa using (List.mem_filter.mp hc).2
  rw [total, List.countP_filter]
  apply List.countP_congr
  intro r _
  simp only [decide_eq_true_eq, Bool.and_eq_true]
  exact ⟨fun hr ↦ ⟨hr, hr ▸ hne⟩, And.left⟩

theorem compare_eq_countP_keys (hO : (O.map Record.key).Nodup)
    (hT : (T.map Record.key).Nodup) :
    compare O T = ((rows O T).map Row.key).countP fun k ↦ classAt O T k ≠ .ok := by
  rw [compare_eq_countP, List.countP_map]
  apply List.countP_congr
  intro r hr
  rw [cls_of_mem_rows hO hT hr]
  rfl

theorem compare_swap (hO : (O.map Record.key).Nodup) (hT : (T.map Record.key).Nodup) :
    compare T O = compare O T := by
  rw [compare_eq_countP_keys hT hO, compare_eq_countP_keys hO hT,
    (rows_keys_perm hO hT).countP_eq]
  apply List.countP_congr
  intro k _
  simpa using not_congr (classAt_swapped T O k).ok_iff

theorem classAt_of_mem (hO : (O.map Record.key).Nodup) (hT : (T.map Record.key).Nodup)
    {o t : Record} (ho : o ∈ O) (ht : t ∈ T) (hkey : o.key = t.key) :
    classAt O T o.key = (classify (some o) t).1 := by
  have hlookup : lookup Record.key O o.key = some o := (lookup_eq_some_iff hO).mpr ⟨ho, rfl⟩
  have hlookup' : lookup Record.key T o.key = some t :=
    (lookup_eq_some_iff hT).mpr ⟨ht, hkey.symm⟩
  rw [classAt, hlookup, hlookup']

theorem compare_eq_zero_iff (hO : (O.map Record.key).Nodup) (hT : (T.map Record.key).Nodup) :
    compare O T = 0 ↔
      (∀ k, k ∈ O.map Record.key ↔ k ∈ T.map Record.key) ∧
        ∀ o ∈ O, ∀ t ∈ T, o.key = t.key → (classify (some o) t).1 = .ok := by
  have hall : compare O T = 0 ↔
      ∀ k, k ∈ O.map Record.key ∨ k ∈ T.map Record.key → classAt O T k = .ok := by
    rw [compare_eq_countP_keys hO hT, List.countP_eq_zero]
    simp [mem_rows_keys]
  rw [hall]
  constructor
  · intro hok
    have hsame : ∀ k, k ∈ O.map Record.key ↔ k ∈ T.map Record.key := by
      intro k
      constructor
      · intro hk
        have hclass := hok k (Or.inl hk)
        by_contra hmissing
        obtain ⟨o, ho, rfl⟩ := List.mem_map.mp hk
        rw [classAt, lookup_eq_none_iff.mpr hmissing,
          (lookup_eq_some_iff hO).mpr ⟨ho, rfl⟩] at hclass
        cases hclass
      · intro hk
        have hclass := hok k (Or.inr hk)
        by_contra hnew
        obtain ⟨t, ht, rfl⟩ := List.mem_map.mp hk
        rw [classAt, lookup_eq_none_iff.mpr hnew,
          (lookup_eq_some_iff hT).mpr ⟨ht, rfl⟩] at hclass
        cases hclass
    refine ⟨hsame, ?_⟩
    intro o ho t ht hkey
    rw [← classAt_of_mem hO hT ho ht hkey]
    exact hok _ (Or.inl (List.mem_map_of_mem ho))
  · rintro ⟨hsame, hpairs⟩ k hk
    have hkO : k ∈ O.map Record.key := hk.elim id (hsame k).mpr
    obtain ⟨o, ho, rfl⟩ := List.mem_map.mp hkO
    obtain ⟨t, ht, hkey⟩ := List.mem_map.mp ((hsame _).mp hkO)
    rw [classAt_of_mem hO hT ho ht hkey.symm]
    exact hpairs o ho t ht hkey.symm

/-! ## Reports without the stored ids -/

def Body.dropIds : Body → Body
  | .err message => .err message
  | .result r => .result { r with ids := none }

def Record.dropIds (r : Record) : Record := { r with body := r.body.dropIds }

theorem Record.key_dropIds (r : Record) : r.dropIds.key = r.key := rfl

theorem map_key_dropIds (O : List Record) :
    (O.map Record.dropIds).map Record.key = O.map Record.key := by
  rw [List.map_map]
  rfl

theorem classifyBodies_dropIds (o t : Body) :
    (classifyBodies o.dropIds t).1 = (classifyBodies o t).1 ∧
      (classifyBodies o t.dropIds).1 = (classifyBodies o t).1 := by
  cases o with
  | err _ =>
      cases t with
      | err _ => exact ⟨rfl, rfl⟩
      | result t => exact ⟨rfl, rfl⟩
  | result o =>
      cases t with
      | err _ => exact ⟨rfl, rfl⟩
      | result t => exact ⟨classifyResults_congr rfl rfl, classifyResults_congr rfl rfl⟩

theorem classAt_dropIds (O T : List Record) (k : String × String) :
    classAt (O.map Record.dropIds) T k = classAt O T k ∧
      classAt O (T.map Record.dropIds) k = classAt O T k := by
  unfold classAt
  rw [lookup_map Record.key_dropIds, lookup_map Record.key_dropIds]
  cases lookup Record.key O k with
  | none =>
      cases lookup Record.key T k with
      | none => exact ⟨rfl, rfl⟩
      | some t => exact ⟨rfl, rfl⟩
  | some o =>
      cases lookup Record.key T k with
      | none => exact ⟨rfl, rfl⟩
      | some t => exact classifyBodies_dropIds o.body t.body

/-! ## Every case is accounted for -/

structure Accounted (O T : List Record) : Prop where
  once : ((rows O T).map Row.key).Nodup
  covers : ∀ k, k ∈ (rows O T).map Row.key ↔ k ∈ O.map Record.key ∨ k ∈ T.map Record.key
  totals : (classes.map (total (rows O T))).sum = (distinctKeys O T).card
  sectionTotals : ((sections (rows O T)).map fun s ↦
    (classes.map (total (sectionRows (rows O T) s))).sum).sum = (distinctKeys O T).card
  notOk : compare O T = (rows O T).countP fun r ↦ r.cls ≠ .ok
  zero : compare O T = 0 ↔
    (∀ k, k ∈ O.map Record.key ↔ k ∈ T.map Record.key) ∧
      ∀ o ∈ O, ∀ t ∈ T, o.key = t.key → (classify (some o) t).1 = .ok
  swapRows : ∀ r ∈ rows O T, ∃ r' ∈ rows T O, r'.key = r.key ∧ Swapped r.cls r'.cls
  swapNumber : compare T O = compare O T
  dropOracleIds : (rows (O.map Record.dropIds) T).map (fun r ↦ (r.key, r.cls)) =
    (rows O T).map fun r ↦ (r.key, r.cls)
  dropTargetIds : (rows O (T.map Record.dropIds)).map (fun r ↦ (r.key, r.cls)) =
    (rows O T).map fun r ↦ (r.key, r.cls)

theorem accounted (hO : (O.map Record.key).Nodup) (hT : (T.map Record.key).Nodup) :
    Accounted O T where
  once := rows_nodup hO hT
  covers := fun _ ↦ mem_rows_keys
  totals := by rw [sum_total_classes, length_rows hO hT]
  sectionTotals := by rw [sum_total_sections, length_rows hO hT]
  notOk := compare_eq_countP O T
  zero := compare_eq_zero_iff hO hT
  swapRows := by
    intro r hr
    have hkey : r.key ∈ (rows T O).map Row.key :=
      (rows_keys_perm hO hT).mem_iff.mpr (List.mem_map_of_mem hr)
    obtain ⟨r', hr', heq⟩ := List.mem_map.mp hkey
    refine ⟨r', hr', heq, ?_⟩
    rw [cls_of_mem_rows hO hT hr, cls_of_mem_rows hT hO hr', heq]
    exact classAt_swapped O T r.key
  swapNumber := compare_swap hO hT
  dropOracleIds := by
    rw [rows_classes (by rwa [map_key_dropIds]) hT, rows_classes hO hT, rows_keys, rows_keys,
      map_key_dropIds]
    exact List.map_congr_left fun k _ ↦ by rw [(classAt_dropIds O T k).1]
  dropTargetIds := by
    rw [rows_classes hO (by rwa [map_key_dropIds]), rows_classes hO hT, rows_keys, rows_keys,
      map_key_dropIds]
    exact List.map_congr_left fun k _ ↦ by rw [(classAt_dropIds O T k).2]

/-- Two reports of any calls: the keys in each are distinct, and `compare`
accounts for every case of both exactly once. -/
theorem compare_accounts_runs (md5 : Md5) (expectO expectT : Option (List Record))
    (keepO keepT : Bool) (callsO callsT : List Call) :
    ((Report.run md5 expectO keepO callsO).cases.map Record.key).Nodup ∧
      ((Report.run md5 expectT keepT callsT).cases.map Record.key).Nodup ∧
      Accounted (Report.run md5 expectO keepO callsO).cases
        (Report.run md5 expectT keepT callsT).cases := by
  have hO := (Report.run_keyed md5 expectO keepO callsO).nodup
  have hT := (Report.run_keyed md5 expectT keepT callsT).nodup
  exact ⟨hO, hT, accounted hO hT⟩

end HugeGraphValidation.Suite
