import HugeGraphValidation.Suite.Compare
import HugeGraphValidation.Suite.Verdict

/-!
# Cases derived from several queries

Three cases of the suite fold the answers of several queries into one record:
the union of the range tiles, the sum of two ranges, and the number of distinct
digests of a repeated query.
-/

namespace HugeGraphValidation.Suite

open Lib

/-- What a query returns: its ids, or no ids and an error. -/
structure Answer where
  ids : Option (List Id)
  err : Option String
  deriving DecidableEq

def tileStarts : List ℕ := List.range' 0 7 400

/-- One more tile; once a tile has failed there is no union any more. -/
def addTile (tiles : Option (List Id)) (t : Answer) : Option (List Id) :=
  match t.ids with
  | none => none
  | some ids => tiles.map (· ++ ids)

/-- `tiles` after all queries; `tile a` is the answer for `range(a, a + 400)`. -/
def unionTiles (tile : ℕ → Answer) : Option (List Id) :=
  (tileStarts.map tile).foldl addTile (some [])

def unionCall (tile : ℕ → Answer) : Call :=
  .case "union of range tiles" (unionTiles tile)
    (if unionTiles tile = none then some "some tile failed" else none)

/-- `(first or []) + (second or [])` -/
def rangePairIds (first second : Answer) : List Id :=
  first.ids.getD [] ++ second.ids.getD []

def rangePairCall (first second : Answer) : Call :=
  .case "range(0,10) + range(10,20) (disjoint?)" (some (rangePairIds first second)) none

def runL3 (tile : ℕ → Answer) (first second : Answer) : List Call :=
  (tileStarts.map fun a ↦ .case s!"range({a},{a + 400})" (tile a).ids (tile a).err) ++
    [unionCall tile, rangePairCall first second]

/-- `H(r) if r is not None else "ERR"` -/
def answerDigest (md5 : Md5) (r : Answer) : String :=
  match r.ids with
  | some ids => H md5 ids
  | none => "ERR"

def comboDigests (md5 : Md5) (combo : ℕ → Answer) : Finset String :=
  (List.range 10).foldl (fun hs i ↦ insert (answerDigest md5 (combo i)) hs) ∅

def comboCall (md5 : Md5) (combo : ℕ → Answer) : Call :=
  .scalar "combo x10 distinct-hashes (1 = stable)" (comboDigests md5 combo).card

/-- The class of a case that the oracle run and the target run both record. -/
def Call.classAgainst (md5 : Md5) (keepO keepT : Bool) (o t : Call) : Option Cls :=
  match o.body md5 keepO, t.body md5 keepT with
  | some o, some t => some (classifyBodies o t).1
  | _, _ => none

/-! ## The folds -/

theorem foldl_addTile_none (ts : List Answer) : ts.foldl addTile none = none := by
  induction ts with
  | nil => rfl
  | cons t ts ih =>
      rw [List.foldl_cons]
      cases hids : t.ids <;> simpa [addTile, hids] using ih

theorem isSome_foldl_addTile (ids : List Id) (ts : List Answer) :
    (ts.foldl addTile (some ids)).isSome ↔ ∀ t ∈ ts, t.ids.isSome := by
  induction ts generalizing ids with
  | nil => simp
  | cons t ts ih =>
      rw [List.foldl_cons, List.forall_mem_cons]
      cases hids : t.ids with
      | none => simp [addTile, hids, foldl_addTile_none]
      | some more => simp [addTile, hids, ih]

theorem isSome_unionTiles (tile : ℕ → Answer) :
    (unionTiles tile).isSome ↔ ∀ a ∈ tileStarts, (tile a).ids.isSome := by
  rw [unionTiles, isSome_foldl_addTile]
  simp

theorem foldl_insert_eq_image {α β : Type*} [DecidableEq β] (f : α → β) (xs : List α)
    (s : Finset β) :
    xs.foldl (fun s x ↦ insert (f x) s) s = s ∪ (xs.map f).toFinset := by
  induction xs generalizing s with
  | nil => simp
  | cons x xs ih =>
      rw [List.foldl_cons, ih]
      ext y
      simp

/-! ## The classes -/

theorem classAgainst_case {md5 : Md5} {keepO keepT : Bool} {name name' : String}
    {o t : List Id} {err err' : Option String} :
    (Call.case name (some o) err).classAgainst md5 keepO keepT (.case name' (some t) err') =
        some .ok ↔
      o.length = t.length ∧ o.toFinset.card = t.toFinset.card ∧ H md5 o = H md5 t := by
  simp [Call.classAgainst, Call.body, caseBody, classifyBodies, classifyResults_eq_ok_iff,
    caseResult]

theorem classAgainst_scalar {md5 : Md5} {keepO keepT : Bool} {name name' : String} {o t : ℤ} :
    (Call.scalar name o).classAgainst md5 keepO keepT (.scalar name' t) = some .ok ↔ o = t := by
  simp only [Call.classAgainst, Call.body, scalarBody, classifyBodies, Option.some.injEq,
    classifyResults_eq_ok_iff]
  constructor
  · exact And.left
  · rintro rfl
    exact ⟨rfl, rfl, rfl⟩

section Union

variable (md5 : Md5) (keepO keepT : Bool) {tileO tileT : ℕ → Answer}

theorem unionCall_class (hO : ∀ a ∈ tileStarts, (tileO a).ids.isSome)
    (hT : ∃ a ∈ tileStarts, (tileT a).ids = none) :
    (unionCall tileO).classAgainst md5 keepO keepT (unionCall tileT) = some .targetErr := by
  obtain ⟨ids, hids⟩ := Option.isSome_iff_exists.mp ((isSome_unionTiles tileO).mpr hO)
  have hnone : unionTiles tileT = none := by
    rw [← Option.not_isSome_iff_eq_none, isSome_unionTiles]
    obtain ⟨a, ha, hfailed⟩ := hT
    intro hall
    simpa [hfailed] using hall a ha
  simp [unionCall, hids, hnone, Call.classAgainst, Call.body, caseBody, classifyBodies]

end Union

section RangePair

variable (md5 : Md5) (keepO keepT : Bool) {firstO secondO firstT secondT : Answer}
  {o₁ o₂ t : List Id}

theorem rangePairCall_ok_iff :
    (rangePairCall firstO secondO).classAgainst md5 keepO keepT (rangePairCall firstT secondT) =
        some .ok ↔
      (rangePairIds firstO secondO).length = (rangePairIds firstT secondT).length ∧
        (rangePairIds firstO secondO).toFinset.card =
          (rangePairIds firstT secondT).toFinset.card ∧
        H md5 (rangePairIds firstO secondO) = H md5 (rangePairIds firstT secondT) := by
  rw [rangePairCall, rangePairCall, classAgainst_case]

theorem rangePairIds_of_some (h₁ : firstO.ids = some o₁) (h₂ : secondO.ids = some o₂) :
    rangePairIds firstO secondO = o₁ ++ o₂ := by
  rw [rangePairIds, h₁, h₂]
  rfl

/-- A query that has failed counts as one without ids. -/
theorem rangePairIds_of_failed
    (h : firstT.ids = some t ∧ secondT.ids = none ∨ firstT.ids = none ∧ secondT.ids = some t) :
    rangePairIds firstT secondT = t := by
  rcases h with ⟨hfirst, hsecond⟩ | ⟨hfirst, hsecond⟩
  · rw [rangePairIds, hfirst, hsecond]
    exact List.append_nil t
  · rw [rangePairIds, hfirst, hsecond]
    rfl

theorem rangePairCall_ok_iff_of_both_failed (h₁ : firstO.ids = some o₁)
    (h₂ : secondO.ids = some o₂) (hfirst : firstT.ids = none) (hsecond : secondT.ids = none) :
    (rangePairCall firstO secondO).classAgainst md5 keepO keepT (rangePairCall firstT secondT) =
      some .ok ↔ o₁ = [] ∧ o₂ = [] := by
  have hnone : rangePairIds firstT secondT = [] := by
    rw [rangePairIds, hfirst, hsecond]
    rfl
  rw [rangePairCall_ok_iff md5 keepO keepT, rangePairIds_of_some h₁ h₂, hnone,
    ← List.append_eq_nil_iff]
  constructor
  · exact fun h ↦ List.length_eq_zero_iff.mp h.1
  · intro h
    rw [h]
    exact ⟨rfl, rfl, rfl⟩

/-- The ids of the query that is left are taken for those of both ranges. -/
theorem rangePairCall_ok_iff_of_one_failed (h₁ : firstO.ids = some o₁)
    (h₂ : secondO.ids = some o₂)
    (h : firstT.ids = some t ∧ secondT.ids = none ∨ firstT.ids = none ∧ secondT.ids = some t)
    (hinj : Set.InjOn md5.digits {text (o₁ ++ o₂), text t}) :
    (rangePairCall firstO secondO).classAgainst md5 keepO keepT (rangePairCall firstT secondT) =
        some .ok ↔
      o₁.length + o₂.length = t.length ∧ (o₁.toFinset ∪ o₂.toFinset).card = t.toFinset.card ∧
        joinSorted (o₁.map Id.toStr ++ o₂.map Id.toStr) = joinSorted (t.map Id.toStr) := by
  have hdigits : md5.digits (text (o₁ ++ o₂)) = md5.digits (text t) ↔
      text (o₁ ++ o₂) = text t :=
    hinj.eq_iff (Set.mem_insert _ _) (Set.mem_insert_of_mem _ rfl)
  rw [rangePairCall_ok_iff md5 keepO keepT, rangePairIds_of_some h₁ h₂,
    rangePairIds_of_failed h, H, H, hdigits, List.length_append, List.toFinset_append, text, text,
    List.map_append]

end RangePair

section Combo

variable (md5 : Md5) {combo : ℕ → Answer}

theorem comboDigests_eq : comboDigests md5 combo =
    ((List.range 10).map fun i ↦ answerDigest md5 (combo i)).toFinset := by
  rw [comboDigests, foldl_insert_eq_image, Finset.empty_union]

def successDigests (md5 : Md5) (combo : ℕ → Answer) : Finset String :=
  ((List.range 10).filterMap fun i ↦ (combo i).ids.map (H md5)).toFinset

theorem H_ne_err (ids : List Id) : H md5 ids ≠ "ERR" := by
  intro h
  have hlength := md5.length_digits (text ids)
  rw [← H, h] at hlength
  exact absurd hlength (by decide)

theorem comboDigests_of_success (hall : ∀ i < 10, (combo i).ids.isSome) :
    comboDigests md5 combo = successDigests md5 combo := by
  rw [comboDigests_eq]
  ext digest
  simp only [successDigests, List.mem_toFinset, List.mem_map, List.mem_filterMap,
    List.mem_range]
  constructor
  · rintro ⟨i, hi, rfl⟩
    obtain ⟨ids, hids⟩ := Option.isSome_iff_exists.mp (hall i hi)
    exact ⟨i, hi, by simp [answerDigest, hids]⟩
  · rintro ⟨i, hi, h⟩
    obtain ⟨ids, hids, rfl⟩ := Option.map_eq_some_iff.mp h
    exact ⟨i, hi, by simp [answerDigest, hids]⟩

theorem comboDigests_of_failure (hfailed : ∃ i < 10, (combo i).ids = none) :
    comboDigests md5 combo = insert "ERR" (successDigests md5 combo) := by
  rw [comboDigests_eq]
  ext digest
  simp only [successDigests, List.mem_toFinset, List.mem_map, List.mem_filterMap,
    List.mem_range, Finset.mem_insert]
  constructor
  · rintro ⟨i, hi, rfl⟩
    cases hids : (combo i).ids with
    | none => exact Or.inl (by simp [answerDigest, hids])
    | some ids => exact Or.inr ⟨i, hi, by simp [answerDigest, hids]⟩
  · rintro (rfl | ⟨i, hi, h⟩)
    · obtain ⟨i, hi, hids⟩ := hfailed
      exact ⟨i, hi, by simp [answerDigest, hids]⟩
    · obtain ⟨ids, hids, rfl⟩ := Option.map_eq_some_iff.mp h
      exact ⟨i, hi, by simp [answerDigest, hids]⟩

theorem card_comboDigests_of_failure (hfailed : ∃ i < 10, (combo i).ids = none) :
    (comboDigests md5 combo).card = (successDigests md5 combo).card + 1 := by
  rw [comboDigests_of_failure md5 hfailed]
  apply Finset.card_insert_of_notMem
  simp only [successDigests, List.mem_toFinset, List.mem_filterMap]
  rintro ⟨i, -, h⟩
  obtain ⟨ids, -, herr⟩ := Option.map_eq_some_iff.mp h
  exact H_ne_err md5 ids herr

end Combo

/-! ## The derived cases in a comparison -/

theorem body_isSome_congr (md5 : Md5) (keepO keepT : Bool) {o t : Call}
    (hheading : o.heading = t.heading) :
    (o.body md5 keepO).isSome = (t.body md5 keepT).isSome := by
  cases o <;> cases t <;> first | rfl | cases hheading

theorem zipWith_bodies (md5 : Md5) (keepO keepT : Bool) {callsO callsT : List Call}
    (hheadings : List.Forall₂ (fun o t ↦ o.heading = t.heading) callsO callsT) :
    List.zipWith (fun o t ↦ (classifyBodies o t).1)
        (callsO.filterMap (Call.body md5 keepO)) (callsT.filterMap (Call.body md5 keepT)) =
      (callsO.zip callsT).filterMap fun p ↦ p.1.classAgainst md5 keepO keepT p.2 := by
  induction hheadings with
  | nil => rfl
  | @cons o t callsO callsT hheading _ ih =>
      have hsome := body_isSome_congr md5 keepO keepT hheading
      rw [List.filterMap_cons, List.filterMap_cons, List.zip_cons_cons, List.filterMap_cons,
        Call.classAgainst, ← ih]
      cases hO : o.body md5 keepO with
      | none =>
          cases hT : t.body md5 keepT with
          | none => rfl
          | some bodyT => simp [hO, hT] at hsome
      | some bodyO =>
          cases hT : t.body md5 keepT with
          | none => simp [hO, hT] at hsome
          | some bodyT => rfl

/-- `compare` of two runs with the same headings: the classes of its rows are
those of the calls. -/
theorem rows_cls_of_runs (md5 : Md5) (expectO expectT : Option (List Record))
    (keepO keepT : Bool) {callsO callsT : List Call}
    (hheadings : List.Forall₂ (fun o t ↦ o.heading = t.heading) callsO callsT) :
    (rows (Report.run md5 expectO keepO callsO).cases
        (Report.run md5 expectT keepT callsT).cases).map Row.cls =
      (callsO.zip callsT).filterMap fun p ↦ p.1.classAgainst md5 keepO keepT p.2 := by
  have hkeys := (Report.run_sameKeys md5 expectO expectT keepO keepT hheadings).cases
  have hT := (Report.run_keyed md5 expectT keepT callsT).nodup
  rw [rows_cls_of_same_keys hT hkeys, (Report.run_bodies md5 expectO keepO callsO).2,
    (Report.run_bodies md5 expectT keepT callsT).2, zipWith_bodies md5 keepO keepT hheadings]

theorem runL3_headings (tileO tileT : ℕ → Answer) (firstO secondO firstT secondT : Answer) :
    List.Forall₂ (fun o t ↦ o.heading = t.heading) (runL3 tileO firstO secondO)
      (runL3 tileT firstT secondT) := by
  refine List.rel_append ?_ (.cons rfl (.cons rfl .nil))
  rw [List.forall₂_map_left_iff, List.forall₂_map_right_iff, List.forall₂_same]
  exact fun a _ ↦ rfl

theorem targetErr_mem_rows (md5 : Md5) (expectO expectT : Option (List Record))
    (keepO keepT : Bool) {beforeO beforeT afterO afterT : List Call}
    {tileO tileT : ℕ → Answer} (firstO secondO firstT secondT : Answer)
    (hbefore : List.Forall₂ (fun o t ↦ o.heading = t.heading) beforeO beforeT)
    (hafter : List.Forall₂ (fun o t ↦ o.heading = t.heading) afterO afterT)
    (hO : ∀ a ∈ tileStarts, (tileO a).ids.isSome)
    (hT : ∃ a ∈ tileStarts, (tileT a).ids = none) :
    .targetErr ∈ (rows
        (Report.run md5 expectO keepO
          (beforeO ++ (runL3 tileO firstO secondO ++ afterO))).cases
        (Report.run md5 expectT keepT
          (beforeT ++ (runL3 tileT firstT secondT ++ afterT))).cases).map Row.cls := by
  have hL3 := runL3_headings tileO tileT firstO secondO firstT secondT
  rw [rows_cls_of_runs md5 expectO expectT keepO keepT
      (List.rel_append hbefore (List.rel_append hL3 hafter)),
    List.mem_filterMap]
  refine ⟨(unionCall tileO, unionCall tileT), ?_, unionCall_class md5 keepO keepT hO hT⟩
  rw [List.zip_append hbefore.length_eq, List.zip_append hL3.length_eq, runL3, runL3,
    List.zip_append (by simp)]
  simp

/-! ## A failed query -/

/-- A query that failed on the target alone.  The union of the tiles is then never `OK`:
a comparison of two runs has a row of class `TARGET-ERR` for it.  The sum of two ranges
is not `OK` exactly when the oracle has an id in one of them, if both have failed on the
target; if one has, exactly when the ids of the other one are not as many as the oracle has
in both ranges, with as many distinct ones and the same joined string forms, which without
line breaks on one side are the same string forms.  The number of distinct digests is not
`OK` exactly when the oracle has not one digest more than the target has without its
failures. -/
theorem failed_query_not_ok_iff (md5 : Md5) (keepO keepT : Bool) :
    (∀ tileO tileT : ℕ → Answer, (∀ a ∈ tileStarts, (tileO a).ids.isSome) →
      (∃ a ∈ tileStarts, (tileT a).ids = none) →
      (unionCall tileO).classAgainst md5 keepO keepT (unionCall tileT) ≠ some .ok ∧
      ∀ (expectO expectT : Option (List Record)) (beforeO beforeT afterO afterT : List Call)
        (firstO secondO firstT secondT : Answer),
        List.Forall₂ (fun o t ↦ o.heading = t.heading) beforeO beforeT →
        List.Forall₂ (fun o t ↦ o.heading = t.heading) afterO afterT →
        .targetErr ∈ (rows
          (Report.run md5 expectO keepO (beforeO ++ (runL3 tileO firstO secondO ++ afterO))).cases
          (Report.run md5 expectT keepT
            (beforeT ++ (runL3 tileT firstT secondT ++ afterT))).cases).map Row.cls) ∧
    (∀ (firstO secondO firstT secondT : Answer) (o₁ o₂ : List Id), firstO.ids = some o₁ →
      secondO.ids = some o₂ →
      (firstT.ids = none → secondT.ids = none →
        ((rangePairCall firstO secondO).classAgainst md5 keepO keepT
            (rangePairCall firstT secondT) ≠ some .ok ↔ o₁ ≠ [] ∨ o₂ ≠ [])) ∧
      ∀ t : List Id, firstT.ids = some t ∧ secondT.ids = none ∨
          firstT.ids = none ∧ secondT.ids = some t →
        Set.InjOn md5.digits {text (o₁ ++ o₂), text t} →
        ((rangePairCall firstO secondO).classAgainst md5 keepO keepT
            (rangePairCall firstT secondT) ≠ some .ok ↔
          ¬ (o₁.length + o₂.length = t.length ∧
            (o₁.toFinset ∪ o₂.toFinset).card = t.toFinset.card ∧
            joinSorted (o₁.map Id.toStr ++ o₂.map Id.toStr) = joinSorted (t.map Id.toStr))) ∧
        ((∀ x ∈ o₁ ++ o₂, OneLine x.toStr) ∨ (∀ x ∈ t, OneLine x.toStr) →
          ((rangePairCall firstO secondO).classAgainst md5 keepO keepT
              (rangePairCall firstT secondT) ≠ some .ok ↔
            ¬ ((o₁.map Id.toStr ++ o₂.map Id.toStr).Perm (t.map Id.toStr) ∧
              (o₁.toFinset ∪ o₂.toFinset).card = t.toFinset.card)))) ∧
    (∀ comboO comboT : ℕ → Answer, (∀ i < 10, (comboO i).ids.isSome) →
      (∃ i < 10, (comboT i).ids = none) →
      ((comboCall md5 comboO).classAgainst md5 keepO keepT (comboCall md5 comboT) ≠
          some .ok ↔
        (successDigests md5 comboO).card ≠ (successDigests md5 comboT).card + 1)) := by
  refine ⟨?_, ?_, ?_⟩
  · intro tileO tileT hO hT
    refine ⟨?_, fun expectO expectT _ _ _ _ firstO secondO firstT secondT hbefore hafter ↦
      targetErr_mem_rows md5 expectO expectT keepO keepT firstO secondO firstT secondT hbefore
        hafter hO hT⟩
    rw [unionCall_class md5 keepO keepT hO hT]
    decide
  · intro firstO secondO firstT secondT o₁ o₂ h₁ h₂
    constructor
    · intro hfirst hsecond
      rw [Ne, rangePairCall_ok_iff_of_both_failed md5 keepO keepT h₁ h₂ hfirst hsecond,
        not_and_or]
    · intro t hone hinj
      have hok := rangePairCall_ok_iff_of_one_failed md5 keepO keepT h₁ h₂ hone hinj
      refine ⟨not_congr hok, fun hline ↦ not_congr (hok.trans ?_)⟩
      constructor
      · rintro ⟨hlength, hcard, htext⟩
        have hperm := forms_perm_of_text hline (by rw [List.length_append, hlength])
          (by rw [text, List.map_append, htext, text])
        rw [List.map_append] at hperm
        exact ⟨hperm, hcard⟩
      · rintro ⟨hperm, hcard⟩
        exact ⟨by simpa using hperm.length_eq, hcard, joinSorted_perm hperm⟩
  · intro comboO comboT hO hT
    rw [comboCall, comboCall, Ne, classAgainst_scalar, comboDigests_of_success md5 hO,
      card_comboDigests_of_failure md5 hT]
    exact not_congr (by exact_mod_cast Iff.rfl)

/-- The tile at 400 fails, the first range or both fail, and one combo query of ten fails. -/
theorem failed_query_not_ok_samples :
    (unionCall fun _ ↦ ⟨some [], none⟩).classAgainst sampleMd5 true true
        (unionCall fun a ↦ if a = 400 then ⟨none, some "timeout"⟩ else ⟨some [], none⟩) ≠
          some .ok ∧
      (rangePairCall ⟨some [.int 1], none⟩ ⟨some [], none⟩).classAgainst sampleMd5 true true
        (rangePairCall ⟨none, some "timeout"⟩ ⟨none, some "timeout"⟩) ≠ some .ok ∧
      (rangePairCall ⟨some [.str "a"], none⟩ ⟨some [.str "b"], none⟩).classAgainst sampleMd5
        true true (rangePairCall ⟨none, some "timeout"⟩ ⟨some [.str "a", .str "a"], none⟩) ≠
          some .ok ∧
      (comboCall sampleMd5 fun _ ↦ ⟨some [.int 1], none⟩).classAgainst sampleMd5 true true
        (comboCall sampleMd5 fun i ↦
          if i = 0 then ⟨none, some "timeout"⟩ else ⟨some [.int 1], none⟩) ≠ some .ok := by
  obtain ⟨hunion, hpair, hcombo⟩ := failed_query_not_ok_iff sampleMd5 true true
  refine ⟨?_, ?_, ?_, ?_⟩
  · exact (hunion _ _ (fun _ _ ↦ rfl) ⟨400, by decide, rfl⟩).1
  · exact ((hpair _ _ _ _ _ _ rfl rfl).1 rfl rfl).mpr (Or.inl (by decide))
  · have hinj : Set.InjOn sampleMd5.digits
        {text ([.str "a"] ++ [.str "b"]), text [.str "a", .str "a"]} := by
      rw [Set.injOn_pair]
      intro hdigits
      exact absurd hdigits (by decide)
    refine (((hpair _ _ _ _ _ _ rfl rfl).2 _ (Or.inr ⟨rfl, rfl⟩) hinj).2 ?_).mpr ?_
    · exact Or.inl (by unfold OneLine; decide)
    · decide
  · refine (hcombo _ _ (fun _ _ ↦ rfl) ⟨0, by decide, rfl⟩).mpr ?_
    decide

/-- The second range fails and the oracle has no more than ten ids; all ten
combo queries fail and the oracle is stable: both cases are `OK`. -/
theorem failed_query_ok :
    (rangePairCall ⟨some [.int 1], none⟩ ⟨some [], none⟩).classAgainst sampleMd5 true true
        (rangePairCall ⟨some [.int 1], none⟩ ⟨none, some "timeout"⟩) = some .ok ∧
      (comboCall sampleMd5 fun _ ↦ ⟨some [.int 1], none⟩).classAgainst sampleMd5 true true
        (comboCall sampleMd5 fun _ ↦ ⟨none, some "timeout"⟩) = some .ok := by
  decide

end HugeGraphValidation.Suite
