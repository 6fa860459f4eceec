import HugeGraphValidation.Lib.Dict
import HugeGraphValidation.Lib.Numerals
import HugeGraphValidation.Lib.Slices

/-!
# Duplicated accounts in one request

In the mode `samechunk` of `decimal_sum_bench.py` the extra entry of an account
is inserted behind its first one, and the lengthened list is cut into chunks.
The two entries of an account are neighbours, and a chunk may end between them.
-/

namespace HugeGraphValidation.Bench

open Lib

/-- `f"acct{i:06d}"` -/
def acct (i : ℕ) : String := "acct" ++ zeroPadded 6 i

theorem acct_injective : Function.Injective acct := by
  intro i j h
  exact zeroPadded_injective 6 ((String.append_right_inj "acct").mp h)

variable {δ : Type}

def positions (work : List (String × δ)) : List (String × ℕ) :=
  Dict.update [] (work.zipIdx.map fun p ↦ (p.1.1, p.2))

/-- `pos[n]`; every name that is looked up has an entry. -/
def posOf (work : List (String × δ)) (n : String) : ℕ := ((positions work).lookup n).getD 0

/-- The extra entries from the last position to the first, each inserted behind
the position its account had before all insertions. -/
def insertExtras (work extra : List (String × δ)) : List (String × δ) :=
  (extra.insertionSort fun x y ↦ posOf work y.1 ≤ posOf work x.1).foldl
    (fun acc x ↦ acc.insertIdx (posOf work x.1 + 1) x) work

/-! ## Insertions from the back -/

section Insertions

variable {α : Type*}

/-- Each item is inserted behind the position that comes with it. -/
def insertBehind (items : List (ℕ × α)) (xs : List α) : List α :=
  items.foldl (fun acc p ↦ acc.insertIdx (p.1 + 1) p.2) xs

theorem insertIdx_append_of_le {i : ℕ} {xs : List α} (hi : i ≤ xs.length) (ys : List α) (a : α) :
    (xs ++ ys).insertIdx i a = xs.insertIdx i a ++ ys := by
  induction xs generalizing i with
  | nil =>
      obtain rfl : i = 0 := Nat.le_zero.mp hi
      simp
  | cons x xs ih =>
      cases i with
      | zero => simp
      | succ i =>
          rw [List.cons_append, List.insertIdx_succ_cons, List.insertIdx_succ_cons,
            ih (Nat.le_of_succ_le_succ hi), List.cons_append]

theorem insertBehind_append {items : List (ℕ × α)} {xs : List α}
    (h : ∀ p ∈ items, p.1 < xs.length) (ys : List α) :
    insertBehind items (xs ++ ys) = insertBehind items xs ++ ys := by
  induction items generalizing xs with
  | nil => rfl
  | cons p items ih =>
      have hp : p.1 + 1 ≤ xs.length := h p List.mem_cons_self
      have hrest : ∀ q ∈ items, q.1 < (xs.insertIdx (p.1 + 1) p.2).length := by
        intro q hq
        exact (h q (List.mem_cons_of_mem p hq)).trans_le List.length_le_length_insertIdx
      rw [insertBehind, List.foldl_cons, insertIdx_append_of_le hp, ← insertBehind, ih hrest]
      rfl

theorem insertBehind_perm {items : List (ℕ × α)} {xs : List α}
    (h : ∀ p ∈ items, p.1 < xs.length) :
    (insertBehind items xs).Perm (xs ++ items.map Prod.snd) := by
  induction items generalizing xs with
  | nil => simp [insertBehind]
  | cons p items ih =>
      have hp : p.1 + 1 ≤ xs.length := h p List.mem_cons_self
      have hrest : ∀ q ∈ items, q.1 < (xs.insertIdx (p.1 + 1) p.2).length := by
        intro q hq
        exact (h q (List.mem_cons_of_mem p hq)).trans_le List.length_le_length_insertIdx
      have hinsert : (xs.insertIdx (p.1 + 1) p.2 ++ items.map Prod.snd).Perm
          (p.2 :: xs ++ items.map Prod.snd) := (List.perm_insertIdx p.2 xs hp).append_right _
      rw [insertBehind, List.foldl_cons, ← insertBehind, List.map_cons]
      exact (ih hrest).trans (hinsert.trans List.perm_middle.symm)

def itemsAt (items : List (ℕ × α)) (i : ℕ) : List α :=
  (items.filter fun p ↦ p.1 = i).map Prod.snd

theorem itemsAt_eq_nil {items : List (ℕ × α)} {i : ℕ} (h : ∀ p ∈ items, p.1 ≠ i) :
    itemsAt items i = [] := by
  have hfilter : (items.filter fun p ↦ p.1 = i) = [] := by
    rw [List.filter_eq_nil_iff]
    intro p hp
    simpa using h p hp
  rw [itemsAt, hfilter, List.map_nil]

theorem itemsAt_cons_of_ne {p : ℕ × α} {i : ℕ} (h : p.1 ≠ i) (items : List (ℕ × α)) :
    itemsAt (p :: items) i = itemsAt items i := by
  rw [itemsAt, List.filter_cons_of_neg (by simpa using h), itemsAt]

theorem itemsAt_cons_self (p : ℕ × α) (items : List (ℕ × α)) :
    itemsAt (p :: items) p.1 = p.2 :: itemsAt items p.1 := by
  rw [itemsAt, List.filter_cons_of_pos (by simp), List.map_cons, itemsAt]

theorem lt_of_mem_zipIdx {xs : List α} {x : α × ℕ} (hx : x ∈ xs.zipIdx) : x.2 < xs.length := by
  have hget := List.mem_zipIdx_iff_getElem?.mp hx
  exact (List.getElem?_eq_some_iff.mp hget).1

/-- From the last position to the first, no insertion moves the position of a
later one: every item ends up behind its own. -/
theorem insertBehind_eq {items : List (ℕ × α)} {xs : List α}
    (hsorted : items.Pairwise fun p q ↦ q.1 < p.1) (h : ∀ p ∈ items, p.1 < xs.length) :
    insertBehind items xs = xs.zipIdx.flatMap fun x ↦ x.1 :: itemsAt items x.2 := by
  induction xs using List.reverseRecOn generalizing items with
  | nil =>
      cases items with
      | nil => rfl
      | cons p items => exact absurd (h p List.mem_cons_self) (Nat.not_lt_zero _)
  | append_singleton xs x ih =>
      have hzip : (xs ++ [x]).zipIdx = xs.zipIdx ++ [(x, xs.length)] := by
        simp [List.zipIdx_append]
      rw [hzip, List.flatMap_append, List.flatMap_singleton]
      by_cases hbefore : ∀ p ∈ items, p.1 < xs.length
      · have hnone : itemsAt items xs.length = [] :=
          itemsAt_eq_nil fun p hp ↦ (hbefore p hp).ne
        rw [insertBehind_append hbefore, ih hsorted hbefore, hnone]
      · cases items with
        | nil => exact absurd (by simp) hbefore
        | cons p items =>
            obtain ⟨hfirst, hsorted'⟩ := List.pairwise_cons.mp hsorted
            have hp : p.1 = xs.length := by
              have hle : p.1 < xs.length + 1 := by simpa using h p List.mem_cons_self
              by_contra hne
              apply hbefore
              intro q hq
              rcases List.mem_cons.mp hq with rfl | hq
              · omega
              · have hlt := hfirst q hq
                omega
            have hrest : ∀ q ∈ items, q.1 < xs.length := fun q hq ↦ hp ▸ hfirst q hq
            have hinsert : (xs ++ [x]).insertIdx (p.1 + 1) p.2 = xs ++ [x, p.2] := by
              have hlength : p.1 + 1 = (xs ++ [x]).length := by simp [hp]
              rw [hlength, List.insertIdx_length_self]
              simp
            have hlast : itemsAt (p :: items) xs.length = [p.2] := by
              rw [← hp, itemsAt_cons_self, itemsAt_eq_nil fun q hq ↦ (hfirst q hq).ne]
            have hearlier : ∀ y ∈ xs.zipIdx,
                y.1 :: itemsAt (p :: items) y.2 = y.1 :: itemsAt items y.2 := by
              intro y hy
              have hlt := lt_of_mem_zipIdx hy
              rw [itemsAt_cons_of_ne (by omega)]
            rw [insertBehind, List.foldl_cons, ← insertBehind, hinsert,
              insertBehind_append hrest, ih hsorted' hrest, hlast, List.flatMap_congr hearlier]

end Insertions

/-! ## The lengthened list -/

section Positions

variable {work : List (String × δ)} (hwork : (work.map Prod.fst).Nodup)

include hwork

theorem posOf_eq {x : (String × δ) × ℕ} (hx : x ∈ work.zipIdx) : posOf work x.1.1 = x.2 := by
  have hkeys : (Dict.keys (work.zipIdx.map fun p ↦ (p.1.1, p.2))).Nodup := by
    have hfst : (work.zipIdx.map Prod.fst).map Prod.fst = work.map Prod.fst := by
      rw [List.zipIdx_map_fst]
    rw [← hfst, List.map_map] at hwork
    rw [Dict.keys, List.map_map]
    exact hwork
  have hlookup := Dict.lookup_update_of_mem (d := []) hkeys (List.mem_map_of_mem hx)
  rw [posOf, positions, hlookup, Option.getD_some]

theorem exists_mem_zipIdx {n : String} (hn : n ∈ work.map Prod.fst) :
    ∃ x ∈ work.zipIdx, x.1.1 = n ∧ posOf work n = x.2 := by
  obtain ⟨e, he, rfl⟩ := List.mem_map.mp hn
  obtain ⟨i, hi⟩ := List.getElem?_of_mem he
  have hx : (e, i) ∈ work.zipIdx := List.mem_zipIdx_iff_getElem?.mpr hi
  exact ⟨(e, i), hx, rfl, posOf_eq hwork hx⟩

theorem posOf_lt {n : String} (hn : n ∈ work.map Prod.fst) : posOf work n < work.length := by
  obtain ⟨x, hx, -, hpos⟩ := exists_mem_zipIdx hwork hn
  rw [hpos]
  exact lt_of_mem_zipIdx hx

theorem posOf_inj {n n' : String} (hn : n ∈ work.map Prod.fst) (hn' : n' ∈ work.map Prod.fst)
    (h : posOf work n = posOf work n') : n = n' := by
  obtain ⟨⟨e, i⟩, hx, rfl, hpos⟩ := exists_mem_zipIdx hwork hn
  obtain ⟨⟨e', i'⟩, hx', rfl, hpos'⟩ := exists_mem_zipIdx hwork hn'
  obtain rfl : i = i' := hpos.symm.trans (h.trans hpos')
  have hget := List.mem_zipIdx_iff_getElem?.mp hx
  rw [List.mem_zipIdx_iff_getElem?.mp hx'] at hget
  rw [Option.some.inj hget]

end Positions

def extrasOf (extra : List (String × δ)) (n : String) : List (String × δ) :=
  extra.filter fun x ↦ x.1 = n

theorem length_extrasOf (extra : List (String × δ)) (n : String) :
    (extrasOf extra n).length = (extra.map Prod.fst).count n := by
  rw [extrasOf, ← List.countP_eq_length_filter, List.count, List.countP_map]
  rfl

theorem eq_of_perm_of_length_le_one {α : Type*} {xs ys : List α} (hperm : xs.Perm ys)
    (h : xs.length ≤ 1) : xs = ys := by
  rcases Nat.le_one_iff_eq_zero_or_eq_one.mp h with hzero | hone
  · rw [List.length_eq_zero_iff.mp hzero] at hperm ⊢
    exact hperm.nil_eq
  · obtain ⟨x, rfl⟩ := List.length_eq_one_iff.mp hone
    exact (List.singleton_perm.mp hperm)

theorem extrasOf_congr {extra extra' : List (String × δ)} (hextra : (extra.map Prod.fst).Nodup)
    (hperm : extra.Perm extra') (n : String) : extrasOf extra n = extrasOf extra' n := by
  apply eq_of_perm_of_length_le_one (hperm.filter _)
  rw [← extrasOf, length_extrasOf]
  exact List.nodup_iff_count_le_one.mp hextra n

section Lengthened

variable {work extra : List (String × δ)}

/-- The extra entries in the order of the insertions, each with its position. -/
def insertions (work extra : List (String × δ)) : List (ℕ × (String × δ)) :=
  (extra.insertionSort fun x y ↦ posOf work y.1 ≤ posOf work x.1).map
    fun x ↦ (posOf work x.1, x)

theorem insertExtras_eq_insertBehind :
    insertExtras work extra = insertBehind (insertions work extra) work := by
  rw [insertBehind, insertions, List.foldl_map]
  rfl

theorem insertions_perm (work extra : List (String × δ)) :
    ((insertions work extra).map Prod.snd).Perm extra := by
  rw [insertions, List.map_map]
  simpa [Function.comp_def] using List.perm_insertionSort _ extra

variable (hwork : (work.map Prod.fst).Nodup) (hmem : ∀ x ∈ extra, x.1 ∈ work.map Prod.fst)

include hwork hmem

theorem insertions_lt : ∀ p ∈ insertions work extra, p.1 < work.length := by
  intro p hp
  obtain ⟨x, hx, rfl⟩ := List.mem_map.mp hp
  exact posOf_lt hwork (hmem x ((List.mem_insertionSort _).mp hx))

theorem insertExtras_perm : (insertExtras work extra).Perm (work ++ extra) := by
  rw [insertExtras_eq_insertBehind]
  exact (insertBehind_perm (insertions_lt hwork hmem)).trans
    ((insertions_perm work extra).append_left work)

variable (hextra : (extra.map Prod.fst).Nodup)

include hextra

theorem insertions_sorted : (insertions work extra).Pairwise fun p q ↦ q.1 < p.1 := by
  let r : String × δ → String × δ → Prop := fun x y ↦ posOf work y.1 ≤ posOf work x.1
  have : Std.Total r := ⟨fun x y ↦ Nat.le_total _ _⟩
  have : IsTrans (String × δ) r := ⟨fun x y z hxy hyz ↦ hyz.trans hxy⟩
  have hsorted := List.pairwise_insertionSort r extra
  have hnames : ((extra.insertionSort r).map Prod.fst).Nodup :=
    ((List.perm_insertionSort r extra).map Prod.fst).nodup_iff.mpr hextra
  rw [insertions, List.pairwise_map]
  refine (hsorted.and (List.pairwise_map.mp hnames)).imp_of_mem ?_
  rintro x y hx hy ⟨hle, hne⟩
  apply lt_of_le_of_ne hle
  intro heq
  exact hne (posOf_inj hwork (hmem x ((List.mem_insertionSort _).mp hx))
    (hmem y ((List.mem_insertionSort _).mp hy)) heq.symm)

theorem insertExtras_eq :
    insertExtras work extra = work.flatMap fun e ↦ e :: extrasOf extra e.1 := by
  have hitems : ∀ x ∈ work.zipIdx,
      x.1 :: itemsAt (insertions work extra) x.2 = x.1 :: extrasOf extra x.1.1 := by
    intro x hx
    have hperm := List.perm_insertionSort
      (fun x y : String × δ ↦ posOf work y.1 ≤ posOf work x.1) extra
    have hname : x.1.1 ∈ work.map Prod.fst := by
      apply List.mem_map_of_mem
      exact List.mem_of_getElem? (List.mem_zipIdx_iff_getElem?.mp hx)
    have hfilter : ∀ y ∈ extra.insertionSort fun x y ↦ posOf work y.1 ≤ posOf work x.1,
        decide (posOf work y.1 = x.2) = decide (y.1 = x.1.1) := by
      intro y hy
      rw [decide_eq_decide, ← posOf_eq hwork hx]
      refine ⟨fun hpos ↦ ?_, fun hpos ↦ by rw [hpos]⟩
      exact posOf_inj hwork (hmem y ((List.mem_insertionSort _).mp hy)) hname hpos
    rw [extrasOf_congr hextra hperm.symm, itemsAt, insertions, List.filter_map, List.map_map,
      extrasOf, ← List.filter_congr hfilter]
    simp [Function.comp_def]
  rw [insertExtras_eq_insertBehind, insertBehind_eq (insertions_sorted hwork hmem hextra)
    (insertions_lt hwork hmem), List.flatMap_congr hitems]
  conv_rhs => rw [← List.zipIdx_map_fst 0 work, List.flatMap_map]

end Lengthened

/-! ## The chunks -/

/-- Both entries of the account are in one chunk. -/
def Together (B : ℕ) (entries : List (String × δ)) (n : String) : Prop :=
  ∃ chunk ∈ slices B entries, (chunk.map Prod.fst).count n = 2

def entriesBefore (work : List (String × δ)) (n : String) : List (String × δ) :=
  work.takeWhile fun e ↦ e.1 ≠ n

/-- Where the first entry of the account stands in the lengthened list: behind
the shuffled entries before it, and the extra entries of their accounts. -/
def firstIndex (work extra : List (String × δ)) (n : String) : ℕ :=
  (entriesBefore work n).length +
    extra.countP fun x ↦ x.1 ∈ (entriesBefore work n).map Prod.fst

/-- What the mode is for: the extra entry of each account stands right behind its
first one, the other entries keep their order, and a chunk has both. -/
structure SameRequest (B : ℕ) (work extra : List (String × δ)) : Prop where
  adjacent : ∀ x ∈ extra, ∃ pre e post, insertExtras work extra = pre ++ e :: x :: post ∧
    e ∈ work ∧ e.1 = x.1 ∧ x.1 ∉ pre.map Prod.fst
  order : work.Sublist (insertExtras work extra)
  together : ∀ x ∈ extra, Together B (insertExtras work extra) x.1

theorem count_take_pair {names rest : List String} {n : String} (hn : n ∉ names)
    (hrest : n ∉ rest) (t : ℕ) :
    ((names ++ n :: n :: rest).take t).count n = min 2 (t - names.length) := by
  have hnames : (names.take t).count n = 0 :=
    List.count_eq_zero.mpr fun hmem ↦ hn (List.mem_of_mem_take hmem)
  have htail : ∀ m, ((n :: n :: rest).take m).count n = min 2 m := by
    intro m
    match m with
    | 0 => rfl
    | 1 => simp
    | m + 2 =>
        have hzero : (rest.take m).count n = 0 :=
          List.count_eq_zero.mpr fun hmem ↦ hrest (List.mem_of_mem_take hmem)
        simp [hzero]
  rw [List.take_append, List.count_append, hnames, htail, Nat.zero_add]

/-- Neighbours are in one chunk unless the first of them is the last of its
chunk. -/
theorem together_iff {B : ℕ} (hB : 1 ≤ B) {pre post : List (String × δ)} {e x : String × δ}
    (hname : e.1 = x.1) (hpre : x.1 ∉ pre.map Prod.fst) (hpost : x.1 ∉ post.map Prod.fst) :
    Together B (pre ++ e :: x :: post) x.1 ↔ pre.length % B ≠ B - 1 := by
  have hcount : ∀ k, (((((pre ++ e :: x :: post).drop (k * B)).take B).map Prod.fst).count x.1 = 2 ↔
      k * B ≤ pre.length ∧ pre.length + 2 ≤ k * B + B) := by
    intro k
    have hnames : (pre ++ e :: x :: post).map Prod.fst =
        pre.map Prod.fst ++ x.1 :: x.1 :: post.map Prod.fst := by
      rw [List.map_append, List.map_cons, List.map_cons, hname]
    have hsplit := congrArg (List.count x.1)
      (List.take_add (l := pre.map Prod.fst ++ x.1 :: x.1 :: post.map Prod.fst) (i := k * B)
        (j := B))
    rw [List.count_append, count_take_pair hpre hpost, count_take_pair hpre hpost,
      List.length_map] at hsplit
    rw [List.map_take, List.map_drop, hnames]
    omega
  constructor
  · rintro ⟨chunk, hchunk, htwo⟩
    obtain ⟨k, -, rfl⟩ := List.mem_map.mp hchunk
    obtain ⟨hle, hlt⟩ := (hcount k).mp htwo
    obtain ⟨r, hr⟩ := Nat.exists_eq_add_of_le hle
    have hmod : pre.length % B = r := by
      rw [hr, Nat.mul_add_mod', Nat.mod_eq_of_lt (by omega)]
    omega
  · intro hmod
    have hdiv := Nat.div_add_mod' pre.length B
    have hlt := Nat.mod_lt pre.length hB
    have hk : pre.length / B < sliceCount B (pre ++ e :: x :: post).length := by
      rw [lt_sliceCount_iff hB, List.length_append, List.length_cons]
      omega
    refine ⟨_, List.mem_map_of_mem (List.mem_range.mpr hk), ?_⟩
    rw [hcount]
    omega

section Main

variable {work extra : List (String × δ)}

theorem countP_mem_cons {n : String} {names : List String} (hn : n ∉ names)
    (extra : List (String × δ)) :
    (extra.countP fun x ↦ x.1 ∈ n :: names) =
      (extrasOf extra n).length + extra.countP fun x ↦ x.1 ∈ names := by
  rw [extrasOf, ← List.countP_eq_length_filter]
  induction extra with
  | nil => rfl
  | cons x extra ih =>
      rw [List.countP_cons, List.countP_cons, List.countP_cons, ih]
      by_cases hx : x.1 = n
      · have hnot : x.1 ∉ names := hx ▸ hn
        simp [hx, hn]
        omega
      · by_cases hmem : x.1 ∈ names
        · simp [hx, hmem]
          omega
        · simp [hx, hmem]

theorem length_flatMap_extrasOf {es : List (String × δ)} (hes : (es.map Prod.fst).Nodup)
    (extra : List (String × δ)) :
    (es.flatMap fun e ↦ e :: extrasOf extra e.1).length =
      es.length + extra.countP fun x ↦ x.1 ∈ es.map Prod.fst := by
  induction es with
  | nil => simp
  | cons e es ih =>
      rw [List.map_cons, List.nodup_cons] at hes
      rw [List.flatMap_cons, List.length_append, List.length_cons, ih hes.2, List.map_cons,
        countP_mem_cons hes.1, List.length_cons]
      omega

theorem not_mem_flatMap_extrasOf {es : List (String × δ)} {n : String}
    (hn : n ∉ es.map Prod.fst) (extra : List (String × δ)) :
    n ∉ (es.flatMap fun e ↦ e :: extrasOf extra e.1).map Prod.fst := by
  rw [List.mem_map]
  rintro ⟨x, hx, rfl⟩
  obtain ⟨e, he, hx⟩ := List.mem_flatMap.mp hx
  apply hn
  rcases List.mem_cons.mp hx with rfl | hx
  · exact List.mem_map_of_mem he
  · have hname : x.1 = e.1 := by simpa using (List.mem_filter.mp hx).2
    rw [hname]
    exact List.mem_map_of_mem he

variable (hwork : (work.map Prod.fst).Nodup) (hextra : (extra.map Prod.fst).Nodup)
  (hmem : ∀ x ∈ extra, x.1 ∈ work.map Prod.fst)

include hwork hextra hmem

omit hwork hmem in
theorem extrasOf_eq_singleton {x : String × δ} (hx : x ∈ extra) : extrasOf extra x.1 = [x] := by
  have hlength : (extrasOf extra x.1).length ≤ 1 := by
    rw [length_extrasOf]
    exact List.nodup_iff_count_le_one.mp hextra x.1
  have hsub : [x].Subperm (extrasOf extra x.1) :=
    List.singleton_subperm_iff.mpr (List.mem_filter.mpr ⟨hx, by simp⟩)
  exact (List.singleton_perm.mp (hsub.perm_of_length_le hlength)).symm

omit hextra hwork in
theorem work_split {x : String × δ} (hx : x ∈ extra) :
    ∃ e rest, work = entriesBefore work x.1 ++ e :: rest ∧ e.1 = x.1 := by
  have happend : entriesBefore work x.1 ++ work.dropWhile (fun e ↦ e.1 ≠ x.1) = work :=
    List.takeWhile_append_dropWhile
  cases hdrop : work.dropWhile fun e ↦ e.1 ≠ x.1 with
  | nil =>
      obtain ⟨e, he, hname⟩ := List.mem_map.mp (hmem x hx)
      rw [hdrop, List.append_nil] at happend
      rw [← happend] at he
      have hne := List.mem_takeWhile_imp he
      simp [hname] at hne
  | cons e rest =>
      refine ⟨e, rest, ?_, ?_⟩
      · rw [← hdrop, happend]
      · have hhead := List.head?_dropWhile_not (fun e ↦ decide (e.1 ≠ x.1)) work
        rw [hdrop] at hhead
        simpa using hhead

theorem insertExtras_split {x : String × δ} (hx : x ∈ extra) :
    ∃ pre e post, insertExtras work extra = pre ++ e :: x :: post ∧ e ∈ work ∧ e.1 = x.1 ∧
      x.1 ∉ pre.map Prod.fst ∧ x.1 ∉ post.map Prod.fst ∧
      pre.length = firstIndex work extra x.1 := by
  obtain ⟨e, rest, hsplit, hname⟩ := work_split hmem hx
  have hnames := hwork
  rw [hsplit, List.map_append, List.map_cons, hname, List.nodup_append] at hnames
  obtain ⟨hbefore, hrest, hdisjoint⟩ := hnames
  have hpre : x.1 ∉ (entriesBefore work x.1).map Prod.fst :=
    fun h ↦ hdisjoint x.1 h x.1 List.mem_cons_self rfl
  refine ⟨(entriesBefore work x.1).flatMap fun e ↦ e :: extrasOf extra e.1, e,
    rest.flatMap fun e ↦ e :: extrasOf extra e.1, ?_, ?_, hname, ?_, ?_, ?_⟩
  · rw [insertExtras_eq hwork hmem hextra]
    conv_lhs => rw [hsplit]
    rw [List.flatMap_append, List.flatMap_cons, hname, extrasOf_eq_singleton hextra hx]
    simp
  · rw [hsplit]
    simp
  · exact not_mem_flatMap_extrasOf hpre extra
  · exact not_mem_flatMap_extrasOf (List.nodup_cons.mp hrest).1 extra
  · exact length_flatMap_extrasOf hbefore extra

theorem together_insertExtras_iff {B : ℕ} (hB : 1 ≤ B) {x : String × δ} (hx : x ∈ extra) :
    Together B (insertExtras work extra) x.1 ↔ firstIndex work extra x.1 % B ≠ B - 1 := by
  obtain ⟨pre, e, post, heq, -, hname, hpre, hpost, hlength⟩ :=
    insertExtras_split hwork hextra hmem hx
  rw [heq, together_iff hB hname hpre hpost, hlength]

theorem sublist_insertExtras : work.Sublist (insertExtras work extra) := by
  rw [insertExtras_eq hwork hmem hextra]
  clear hwork hmem
  induction work with
  | nil => exact List.nil_sublist _
  | cons e work ih =>
      rw [List.flatMap_cons, List.cons_append]
      exact (ih.trans (List.sublist_append_right _ _)).cons_cons e

/-- The mode does what it is for exactly when no duplicated account has its first
entry last in a chunk of the lengthened list. -/
theorem same_request_iff {B : ℕ} (hB : 2 ≤ B) :
    SameRequest B work extra ↔ ∀ x ∈ extra, firstIndex work extra x.1 % B ≠ B - 1 := by
  constructor
  · intro h x hx
    exact (together_insertExtras_iff hwork hextra hmem (by omega) hx).mp (h.together x hx)
  · intro h
    refine ⟨?_, sublist_insertExtras hwork hextra hmem, ?_⟩
    · intro x hx
      obtain ⟨pre, e, post, heq, he, hname, hpre, -, -⟩ :=
        insertExtras_split hwork hextra hmem hx
      exact ⟨pre, e, post, heq, he, hname, hpre⟩
    · intro x hx
      exact (together_insertExtras_iff hwork hextra hmem (by omega) hx).mpr (h x hx)

end Main

theorem same_request_iff_two_accounts :
    let work := [("acct000000", 1), ("acct000001", 2)]
    SameRequest 3 work [("acct000001", 5)] ∧ ¬ SameRequest 2 work [("acct000001", 5)] := by
  intro work
  refine ⟨?_, ?_⟩
  · rw [same_request_iff (by decide) (by decide) (by decide) (by decide)]
    decide
  · rw [same_request_iff (by decide) (by decide) (by decide) (by decide)]
    decide

def accounts51 : List (String × ℕ) := (List.range 51).map fun i ↦ (acct i, 1)

def duplicates50 : List (String × ℕ) := (List.range' 1 50).map fun i ↦ (acct i, 2)

/-- In chunks of two, the two entries of the second account are in two requests. -/
theorem same_request_split :
    accounts51.length = 51 ∧ (accounts51.map Prod.fst).Nodup ∧ duplicates50.length = 50 ∧
      (duplicates50.map Prod.fst).Nodup ∧ (∀ x ∈ duplicates50, x.1 ∈ accounts51.map Prod.fst) ∧
      ¬ Together 2 (insertExtras accounts51 duplicates50) (acct 1) ∧
      ¬ SameRequest 2 accounts51 duplicates50 := by
  have hwork : (accounts51.map Prod.fst).Nodup := by
    rw [accounts51, List.map_map]
    exact List.nodup_range.map acct_injective
  have hextra : (duplicates50.map Prod.fst).Nodup := by
    rw [duplicates50, List.map_map]
    exact (List.nodup_range' (h := by decide)).map acct_injective
  have hmem : ∀ x ∈ duplicates50, x.1 ∈ accounts51.map Prod.fst := by
    intro x hx
    obtain ⟨i, hi, rfl⟩ := List.mem_map.mp hx
    rw [accounts51, List.map_map]
    exact List.mem_map_of_mem (f := Prod.fst ∘ fun i ↦ (acct i, 1))
      (List.mem_range.mpr (by rw [List.mem_range'_1] at hi; omega))
  have hsecond : (acct 1, 2) ∈ duplicates50 :=
    List.mem_map_of_mem (List.mem_range'_1.mpr ⟨le_rfl, by omega⟩)
  have hbefore : entriesBefore accounts51 (acct 1) = [(acct 0, 1)] := by
    have hne : acct 0 ≠ acct 1 := fun h ↦ absurd (acct_injective h) (by decide)
    simp [entriesBefore, accounts51, List.range_succ_eq_map, hne]
  have hfirst : firstIndex accounts51 duplicates50 (acct 1) = 1 := by
    have hcount : duplicates50.countP (fun x ↦ x.1 ∈ [(acct 0, 1)].map Prod.fst) = 0 := by
      rw [List.countP_eq_zero]
      intro x hx
      obtain ⟨i, hi, rfl⟩ := List.mem_map.mp hx
      have hne : acct i ≠ acct 0 := by
        intro h
        rw [acct_injective h] at hi
        simp at hi
      simp [hne]
    rw [firstIndex, hbefore, hcount]
    rfl
  have hsplit : ¬ Together 2 (insertExtras accounts51 duplicates50) (acct 1) := by
    rw [together_insertExtras_iff hwork hextra hmem (by decide) hsecond, hfirst]
    decide
  exact ⟨rfl, hwork, rfl, hextra, hmem, hsplit, fun h ↦ hsplit (h.together _ hsecond)⟩

end HugeGraphValidation.Bench
