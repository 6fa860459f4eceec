import HugeGraphValidation.Suite.Record

/-!
# What the classes say about the ids

The record of a case stands for its ids up to order, up to the string form of
each id, and up to collisions of the digest.
-/

namespace HugeGraphValidation.Suite

open Lib

def caseRecord (md5 : Md5) (keepIds : Bool) (key : String × String) (ids : Option (List Id))
    (err : Option String) : Record :=
  ⟨key.1, key.2, caseBody md5 keepIds ids err⟩

def caseClass (md5 : Md5) (keepO keepT : Bool) (key : String × String) (o t : List Id) : Cls :=
  (classify (some (caseRecord md5 keepO key (some o) none))
    (caseRecord md5 keepT key (some t) none)).1

/-- An oracle and a target id with one string form are the same id. -/
def SameForms (o t : List Id) : Prop := ∀ x ∈ o, ∀ y ∈ t, x.toStr = y.toStr → x = y

theorem text_perm {o t : List Id} (hperm : o.Perm t) : text o = text t :=
  joinSorted_perm (hperm.map Id.toStr)

theorem perm_of_map_perm {α β : Type*} {f : α → β} {xs ys : List α}
    (hsame : ∀ x ∈ xs, ∀ y ∈ ys, f x = f y → x = y) (hperm : (xs.map f).Perm (ys.map f)) :
    xs.Perm ys := by
  induction ys generalizing xs with
  | nil => simpa using hperm
  | cons y ys ih =>
      have hy : f y ∈ xs.map f := hperm.mem_iff.mpr List.mem_cons_self
      obtain ⟨x, hx, hxy⟩ := List.mem_map.mp hy
      obtain rfl : x = y := hsame x hx y List.mem_cons_self hxy
      obtain ⟨before, after, rfl⟩ := List.append_of_mem hx
      have hrest : ((before ++ after).map f).Perm (ys.map f) := by
        rw [← List.perm_cons (f x), ← List.map_cons, ← List.map_cons]
        exact (List.perm_middle.map f).symm.trans hperm
      refine List.perm_middle.trans (List.Perm.cons x (ih ?_ hrest))
      intro a ha b hb
      refine hsame a ?_ b (List.mem_cons_of_mem x hb)
      simp only [List.mem_append, List.mem_cons] at ha ⊢
      tauto

section Ok

variable (md5 : Md5) (keepO keepT : Bool) (key : String × String) {o o' t t' : List Id}

theorem caseClass_eq_ok_iff :
    caseClass md5 keepO keepT key o t = .ok ↔
      o.length = t.length ∧ o.toFinset.card = t.toFinset.card ∧
        md5.digits (text o) = md5.digits (text t) := by
  unfold caseClass classify classifyBodies
  simp [caseRecord, caseBody, classifyResults_eq_ok_iff, caseResult, H]

theorem caseClass_perm (ho : o.Perm o') (ht : t.Perm t') :
    caseClass md5 keepO keepT key o t = caseClass md5 keepO keepT key o' t' := by
  apply classifyResults_congr
  · simp [caseResult, H, text_perm ho, ho.length_eq, List.toFinset_eq_of_perm _ _ ho]
  · simp [caseResult, H, text_perm ht, ht.length_eq, List.toFinset_eq_of_perm _ _ ht]

theorem caseClass_of_perm (hperm : o.Perm t) : caseClass md5 keepO keepT key o t = .ok := by
  rw [caseClass_eq_ok_iff, text_perm hperm, List.toFinset_eq_of_perm _ _ hperm]
  exact ⟨hperm.length_eq, rfl, rfl⟩

/-- Where the digest is faithful, `OK` compares the joined texts, beside the numbers. -/
theorem caseClass_eq_ok_iff_text (hinj : Set.InjOn md5.digits {text o, text t}) :
    caseClass md5 keepO keepT key o t = .ok ↔
      o.length = t.length ∧ o.toFinset.card = t.toFinset.card ∧ text o = text t := by
  have hdigits : md5.digits (text o) = md5.digits (text t) ↔ text o = text t :=
    hinj.eq_iff (Set.mem_insert _ _) (Set.mem_insert_of_mem _ rfl)
  rw [caseClass_eq_ok_iff, hdigits]

/-- Equal texts of as many ids are those of the same string forms, where the ids of one
side contain no line break. -/
theorem forms_perm_of_text (hline : (∀ x ∈ o, OneLine x.toStr) ∨ ∀ x ∈ t, OneLine x.toStr)
    (hlength : o.length = t.length) (htext : text o = text t) :
    (o.map Id.toStr).Perm (t.map Id.toStr) := by
  rcases hline with hline | hline
  · exact joinSorted_inj (by simpa using hline) (by simpa using hlength) htext
  · exact (joinSorted_inj (by simpa using hline) (by simpa using hlength.symm) htext.symm).symm

/-- Without line breaks in the ids of one side, `OK` compares the string forms. -/
theorem caseClass_eq_ok_iff_forms
    (hline : (∀ x ∈ o, OneLine x.toStr) ∨ ∀ x ∈ t, OneLine x.toStr)
    (hinj : Set.InjOn md5.digits {text o, text t}) :
    caseClass md5 keepO keepT key o t = .ok ↔
      (o.map Id.toStr).Perm (t.map Id.toStr) ∧ o.toFinset.card = t.toFinset.card := by
  rw [caseClass_eq_ok_iff_text md5 keepO keepT key hinj]
  constructor
  · rintro ⟨hlength, hcard, htext⟩
    exact ⟨forms_perm_of_text hline hlength htext, hcard⟩
  · rintro ⟨hperm, hcard⟩
    exact ⟨by simpa using hperm.length_eq, hcard, joinSorted_perm hperm⟩

end Ok

/-- What `OK` means: results equal up to order are `OK`, and the order does not matter.
Results that differ in the number of ids, or of distinct ids, are never `OK`, whatever the
ids contain; nor are those whose joined texts differ, where the digest is faithful.  For
ids without line breaks on one side `OK` compares the string forms, which for ids that are
told apart by their string forms is equality up to order. -/
theorem caseClass_ok (md5 : Md5) (keepO keepT : Bool) (key : String × String) :
    (∀ o t : List Id, o.Perm t → caseClass md5 keepO keepT key o t = .ok) ∧
    (∀ o o' t t' : List Id, o.Perm o' → t.Perm t' →
      caseClass md5 keepO keepT key o t = caseClass md5 keepO keepT key o' t') ∧
    (∀ o t : List Id, caseClass md5 keepO keepT key o t = .ok →
      o.length = t.length ∧ o.toFinset.card = t.toFinset.card) ∧
    (∀ o t : List Id, Set.InjOn md5.digits {text o, text t} →
      (caseClass md5 keepO keepT key o t = .ok ↔
        o.length = t.length ∧ o.toFinset.card = t.toFinset.card ∧ text o = text t)) ∧
    (∀ o t : List Id, (∀ x ∈ o, OneLine x.toStr) ∨ (∀ x ∈ t, OneLine x.toStr) →
      Set.InjOn md5.digits {text o, text t} →
      (caseClass md5 keepO keepT key o t = .ok ↔
        (o.map Id.toStr).Perm (t.map Id.toStr) ∧ o.toFinset.card = t.toFinset.card)) ∧
    (∀ o t : List Id, (∀ x ∈ o, OneLine x.toStr) ∨ (∀ x ∈ t, OneLine x.toStr) →
      SameForms o t → Set.InjOn md5.digits {text o, text t} →
      (caseClass md5 keepO keepT key o t = .ok ↔ o.Perm t)) := by
  refine ⟨fun o t ↦ caseClass_of_perm md5 keepO keepT key,
    fun o o' t t' ↦ caseClass_perm md5 keepO keepT key, ?_,
    fun o t ↦ caseClass_eq_ok_iff_text md5 keepO keepT key,
    fun o t ↦ caseClass_eq_ok_iff_forms md5 keepO keepT key, ?_⟩
  · intro o t hok
    obtain ⟨hlength, hcard, -⟩ := (caseClass_eq_ok_iff md5 keepO keepT key).mp hok
    exact ⟨hlength, hcard⟩
  · intro o t hline hsame hinj
    rw [caseClass_eq_ok_iff_forms md5 keepO keepT key hline hinj]
    constructor
    · rintro ⟨hperm, -⟩
      exact perm_of_map_perm hsame hperm
    · intro hperm
      exact ⟨hperm.map _, by rw [List.toFinset_eq_of_perm _ _ hperm]⟩

/-- Two ids in another order, one of them lost and the other repeated, and one of them
with a line break. -/
theorem caseClass_ok_changed :
    caseClass sampleMd5 true true ("S", "x") [.str "b", .str "a"] [.str "a", .str "b"] = .ok ∧
      caseClass sampleMd5 true true ("S", "x") [.str "b", .str "a"] [.str "a", .str "a"] ≠ .ok ∧
      caseClass sampleMd5 true true ("S", "x") [.str "a\nb", .str "c"] [.str "a\nb\nc"] ≠ .ok := by
  obtain ⟨hperm, -, hnumber, -, -, hok⟩ := caseClass_ok sampleMd5 true true ("S", "x")
  refine ⟨hperm _ _ (by decide), ?_, ?_⟩
  · have hinj : Set.InjOn sampleMd5.digits
        {text [.str "b", .str "a"], text [.str "a", .str "a"]} := by
      rw [Set.injOn_pair]
      intro hdigits
      exact absurd hdigits (by decide)
    rw [Ne, hok [.str "b", .str "a"] [.str "a", .str "a"] (Or.inl (by unfold OneLine; decide))
      (by unfold SameForms; decide) hinj]
    decide
  · intro h
    exact absurd (hnumber _ _ h).1 (by decide)

/-- A number and its decimal string are one id to the digest, and so are ids
that differ in where a line break falls. -/
theorem caseClass_ok_of_different_ids :
    caseClass sampleMd5 true true ("S", "x") [.int 1] [.str "1"] = .ok ∧
      ¬ [Id.int 1].Perm [.str "1"] ∧
      caseClass sampleMd5 true true ("S", "x") [.str "a\nb", .str "c"]
        [.str "a", .str "b\nc"] = .ok ∧
      ¬ [Id.str "a\nb", .str "c"].Perm [.str "a", .str "b\nc"] ∧
      text [.int 1] = "1" ∧ text [.str "1"] = "1" ∧
      text [.str "a\nb", .str "c"] = "a\nb\nc" ∧ text [.str "a", .str "b\nc"] = "a\nb\nc" := by
  refine ⟨by decide, by decide, by decide, by decide, by decide, by decide, by decide, by decide⟩

/-! ## `DUP` and `MISMATCH` -/

theorem card_toFinset_eq_length_iff {α : Type*} [DecidableEq α] {xs : List α} :
    xs.toFinset.card = xs.length ↔ xs.Nodup := by
  simpa using Multiset.toFinset_card_eq_card_iff_nodup (m := (xs : Multiset α))

theorem card_toFinset_map_str (xs : List String) :
    (xs.map Id.str).toFinset.card = xs.toFinset.card := by
  have himage : (xs.map Id.str).toFinset = xs.toFinset.image Id.str := by
    ext x
    simp
  rw [himage]
  exact Finset.card_image_of_injective _ fun _ _ h ↦ Id.str.inj h

section Strings

variable (md5 : Md5) (keepO keepT : Bool) (key : String × String) (o t : List String)

def SameRecord : Prop :=
  o.length = t.length ∧ o.toFinset.card = t.toFinset.card ∧ joinSorted o = joinSorted t

theorem caseClass_str_eq_ok_iff
    (hinj : Set.InjOn md5.digits {joinSorted o, joinSorted t}) :
    caseClass md5 keepO keepT key (o.map .str) (t.map .str) = .ok ↔ SameRecord o t := by
  have htext : ∀ xs : List String, text (xs.map .str) = joinSorted xs := by
    intro xs
    simp [text, Id.toStr, Function.comp_def]
  have hdigits : md5.digits (joinSorted o) = md5.digits (joinSorted t) ↔
      joinSorted o = joinSorted t :=
    hinj.eq_iff (Set.mem_insert _ _) (Set.mem_insert_of_mem _ rfl)
  rw [caseClass_eq_ok_iff, htext, htext, hdigits, card_toFinset_map_str,
    card_toFinset_map_str, List.length_map, List.length_map]
  rfl

/-- The `DUP` test looks at the repeats alone. -/
theorem caseClass_str_eq_dup_iff :
    caseClass md5 keepO keepT key (o.map .str) (t.map .str) = .dup ↔
      ¬ t.Nodup ∧ o.Nodup := by
  have hdup : caseClass md5 keepO keepT key (o.map .str) (t.map .str) = .dup ↔
      (caseResult md5 keepT (t.map .str)).n ≠ (caseResult md5 keepT (t.map .str)).uniq ∧
        (caseResult md5 keepO (o.map .str)).n = (caseResult md5 keepO (o.map .str)).uniq :=
    classifyResults_eq_dup_iff
  rw [hdup]
  simp only [caseResult, List.length_map, card_toFinset_map_str, ne_eq, Nat.cast_inj]
  rw [eq_comm, card_toFinset_eq_length_iff, eq_comm, card_toFinset_eq_length_iff]

theorem caseClass_str_cases :
    caseClass md5 keepO keepT key (o.map .str) (t.map .str) = .ok ∨
      caseClass md5 keepO keepT key (o.map .str) (t.map .str) = .dup ∨
      caseClass md5 keepO keepT key (o.map .str) (t.map .str) = .mismatch :=
  classifyResults_cases _ _

end Strings

/-- `DUP` means an equal set and `MISMATCH` a different one, exactly when: the
oracle repeats no id, and the target repeats none either or has the same set;
or the oracle repeats one, and the sets differ or the whole records agree. -/
theorem dup_mismatch_sound_iff (md5 : Md5) (keepO keepT : Bool) (key : String × String)
    (o t : List String) (hinj : Set.InjOn md5.digits {joinSorted o, joinSorted t}) :
    ((caseClass md5 keepO keepT key (o.map .str) (t.map .str) = .dup →
          t.toFinset = o.toFinset) ∧
        (caseClass md5 keepO keepT key (o.map .str) (t.map .str) = .mismatch →
          t.toFinset ≠ o.toFinset)) ↔
      if o.Nodup then t.Nodup ∨ t.toFinset = o.toFinset
      else t.toFinset ≠ o.toFinset ∨ o.length = t.length ∧ joinSorted o = joinSorted t := by
  have hok := caseClass_str_eq_ok_iff md5 keepO keepT key o t hinj
  have hdup := caseClass_str_eq_dup_iff md5 keepO keepT key o t
  have hcases := caseClass_str_cases md5 keepO keepT key o t
  have hclass : caseClass md5 keepO keepT key (o.map .str) (t.map .str) = .mismatch ↔
      ¬ SameRecord o t ∧ ¬ (¬ t.Nodup ∧ o.Nodup) := by
    rw [← hok, ← hdup]
    rcases hcases with h | h | h <;> simp [h]
  rw [hdup, hclass]
  by_cases ho : o.Nodup
  · rw [if_pos ho]
    by_cases ht : t.Nodup
    · -- two lists without repeats and with one set are permutations of each other
      have hsame : t.toFinset = o.toFinset → SameRecord o t := by
        intro hset
        have hperm : o.Perm t := List.perm_of_nodup_nodup_toFinset_eq ho ht hset.symm
        exact ⟨hperm.length_eq, by rw [hset], joinSorted_perm hperm⟩
      simp only [ho, ht]
      tauto
    · simp [ho, ht]
  · rw [if_neg ho]
    have hsame : t.toFinset = o.toFinset →
        (SameRecord o t ↔ o.length = t.length ∧ joinSorted o = joinSorted t) := by
      intro hset
      simp [SameRecord, hset]
    constructor
    · rintro ⟨-, hmismatch⟩
      by_cases hset : t.toFinset = o.toFinset
      · right
        by_contra hdiffer
        exact hmismatch ⟨fun h ↦ hdiffer ((hsame hset).mp h), fun h ↦ ho h.2⟩ hset
      · exact Or.inl hset
    · intro hcond
      refine ⟨fun h ↦ absurd h.2 ho, ?_⟩
      rintro ⟨hrecord, -⟩ hset
      exact hrecord ((hsame hset).mpr (hcond.resolve_left (not_not.mpr hset)))

theorem dup_mismatch_sound_iff_repeated :
    caseClass sampleMd5 true true ("S", "x") [.str "a", .str "b"] [.str "a", .str "a"] =
        .dup ∧
      ¬ ((caseClass sampleMd5 true true ("S", "x") [.str "a", .str "b"]
            [.str "a", .str "a"] = .dup → ["a", "a"].toFinset = ["a", "b"].toFinset) ∧
          (caseClass sampleMd5 true true ("S", "x") [.str "a", .str "b"]
            [.str "a", .str "a"] = .mismatch → ["a", "a"].toFinset ≠ ["a", "b"].toFinset)) := by
  have hinj : Set.InjOn sampleMd5.digits {joinSorted ["a", "b"], joinSorted ["a", "a"]} := by
    rw [Set.injOn_pair]
    intro hdigits
    exact absurd hdigits (by decide)
  have hiff := dup_mismatch_sound_iff sampleMd5 true true ("S", "x") ["a", "b"] ["a", "a"] hinj
  refine ⟨by decide, ?_⟩
  intro hsound
  exact absurd (hiff.mp hsound) (by decide)

/-- A target that loses an id and repeats another is filed under `DUP`, and a
repeat on the oracle only is filed under `MISMATCH` though the sets agree. -/
theorem dup_mismatch_unsound :
    caseClass sampleMd5 true true ("S", "x") [.str "a", .str "b"] [.str "a", .str "a"] = .dup ∧
      ["a", "a"].toFinset ≠ ["a", "b"].toFinset ∧
      caseClass sampleMd5 true true ("S", "x") [.str "a", .str "a"] [.str "a"] = .mismatch ∧
      ["a"].toFinset = ["a", "a"].toFinset := by
  refine ⟨by decide, by decide, by decide, by decide⟩

end HugeGraphValidation.Suite
