import Mathlib

/-!
# Runs of a list

The items of a list fall into runs.  Where the runs are those of equal values,
`destutter` keeps the first item of each, and the changes are its adjacent pairs.
Where they are those of a predicate, a run is known by its first item and by the
item that ends it.
-/

namespace HugeGraphValidation.Lib

/-! ## Adjacent pairs -/

section Adjacent

variable {α : Type*}

def adjacent (xs : List α) : List (α × α) := xs.zip xs.tail

@[simp] theorem adjacent_nil : adjacent ([] : List α) = [] := rfl

@[simp] theorem adjacent_singleton (a : α) : adjacent [a] = [] := rfl

@[simp] theorem adjacent_cons_cons (a b : α) (xs : List α) :
    adjacent (a :: b :: xs) = (a, b) :: adjacent (b :: xs) := rfl

theorem head?_adjacent {a : α} {xs : List α} {p : α × α} (h : (adjacent (a :: xs)).head? = some p) :
    p.1 = a := by
  cases xs with
  | nil => simp at h
  | cons b xs => simp [← Option.some.inj h]

/-- Each pair begins with what the pair before it ends with. -/
theorem isChain_adjacent (xs : List α) : (adjacent xs).IsChain fun p q ↦ p.2 = q.1 := by
  induction xs with
  | nil => exact List.isChain_nil
  | cons a xs ih =>
      cases xs with
      | nil => exact List.isChain_nil
      | cons b xs =>
          rw [adjacent_cons_cons, List.isChain_cons]
          refine ⟨?_, ih⟩
          intro q hq
          exact (head?_adjacent hq).symm

variable {R : α → α → Prop} [DecidableRel R]

theorem destutter'_eq_cons (a : α) (xs : List α) : ∃ ys, xs.destutter' R a = a :: ys := by
  induction xs with
  | nil => exact ⟨[], rfl⟩
  | cons b xs ih =>
      by_cases hab : R a b
      · exact ⟨_, List.destutter'_cons_pos xs hab⟩
      · rw [List.destutter'_cons_neg xs hab]
        exact ih

theorem adjacent_destutter'_cons_pos {a b : α} (h : R a b) (xs : List α) :
    adjacent ((b :: xs).destutter' R a) = (a, b) :: adjacent (xs.destutter' R b) := by
  obtain ⟨ys, hys⟩ := destutter'_eq_cons (R := R) b xs
  rw [List.destutter'_cons_pos xs h, hys, adjacent_cons_cons]

/-- A pair of the kept items is a run of items that are left out, and the item
that ends it. -/
theorem of_mem_adjacent_destutter' {a : α} {xs : List α} {c : α × α}
    (h : c ∈ adjacent (xs.destutter' R a)) :
    ∃ pre run post, a :: xs = pre ++ c.1 :: run ++ c.2 :: post ∧ (∀ x ∈ run, ¬ R c.1 x) ∧
      R c.1 c.2 := by
  induction xs generalizing a with
  | nil => simp at h
  | cons b xs ih =>
      by_cases hab : R a b
      · rw [adjacent_destutter'_cons_pos hab, List.mem_cons] at h
        rcases h with rfl | h
        · exact ⟨[], [], xs, rfl, by simp, hab⟩
        · obtain ⟨pre, run, post, hxs, hrun, hc⟩ := ih h
          exact ⟨a :: pre, run, post, by rw [hxs]; rfl, hrun, hc⟩
      · rw [List.destutter'_cons_neg xs hab] at h
        obtain ⟨pre, run, post, hxs, hrun, hc⟩ := ih h
        cases pre with
        | nil =>
            -- `b` joins the run of `a`
            obtain ⟨ha, hxs⟩ := List.cons.inj hxs
            refine ⟨[], b :: run, post, ?_, ?_, hc⟩
            · rw [ha, hxs]
              rfl
            · exact List.forall_mem_cons.mpr ⟨ha ▸ hab, hrun⟩
        | cons a' pre =>
            obtain ⟨ha, hxs⟩ := List.cons.inj hxs
            refine ⟨a :: b :: pre, run, post, ?_, hrun, hc⟩
            rw [hxs]
            rfl

theorem of_mem_adjacent_destutter {xs : List α} {c : α × α}
    (h : c ∈ adjacent (xs.destutter R)) :
    ∃ pre run post, xs = pre ++ c.1 :: run ++ c.2 :: post ∧ (∀ x ∈ run, ¬ R c.1 x) ∧
      R c.1 c.2 := by
  cases xs with
  | nil => simp at h
  | cons a xs => exact of_mem_adjacent_destutter' h

end Adjacent

/-! ## The runs of a predicate -/

section Runs

variable {α : Type*} {p : α → Bool}

/-- The first item of each run with the item that ends it; `prev` says whether a
run is open before the list. -/
def runsAfter (p : α → Bool) : Bool → List α → List (α × Option α)
  | _, [] => []
  | prev, x :: xs =>
      let rest := runsAfter p (p x) xs
      if p x && !prev then (x, xs.find? fun y ↦ !p y) :: rest else rest

def runs (p : α → Bool) (xs : List α) : List (α × Option α) := runsAfter p false xs

/-- `run` is a run of `xs` that cannot be made longer. -/
structure MaximalRun (p : α → Bool) (xs pre run post : List α) : Prop where
  split : xs = pre ++ run ++ post
  ne_nil : run ≠ []
  all : ∀ x ∈ run, p x = true
  before : ∀ x ∈ pre.getLast?, p x = false
  after : ∀ x ∈ post.head?, p x = false

theorem runsAfter_cons_start {x : α} (h : p x = true) (xs : List α) :
    runsAfter p false (x :: xs) = (x, xs.find? fun y ↦ !p y) :: runsAfter p true xs := by
  simp [runsAfter, h]

theorem runsAfter_cons_inside {x : α} (h : p x = true) (xs : List α) :
    runsAfter p true (x :: xs) = runsAfter p true xs := by
  simp [runsAfter, h]

theorem runsAfter_cons_outside {x : α} (h : p x = false) (prev : Bool) (xs : List α) :
    runsAfter p prev (x :: xs) = runsAfter p false xs := by
  simp [runsAfter, h]

theorem mem_runsAfter_cons_iff {prev : Bool} {x : α} {xs : List α} {r : α × Option α} :
    r ∈ runsAfter p prev (x :: xs) ↔
      (p x = true ∧ prev = false ∧ r = (x, xs.find? fun y ↦ !p y)) ∨
        r ∈ runsAfter p (p x) xs := by
  cases hx : p x with
  | false => simp [runsAfter_cons_outside hx]
  | true =>
      cases prev with
      | false => simp [runsAfter_cons_start hx]
      | true => simp [runsAfter_cons_inside hx]

theorem getD_getLast?_cons (prev : Bool) (x : α) (pre : List α) :
    ((x :: pre).getLast?.map p).getD prev = (pre.getLast?.map p).getD (p x) := by
  rw [List.getLast?_cons]
  cases pre.getLast? with
  | none => rfl
  | some y => rfl

/-- A run begins at an item of `p` behind one that is not of `p`. -/
theorem mem_runsAfter_iff {prev : Bool} {xs : List α} {r : α × Option α} :
    r ∈ runsAfter p prev xs ↔ ∃ pre post, xs = pre ++ r.1 :: post ∧ p r.1 = true ∧
      (pre.getLast?.map p).getD prev = false ∧ r.2 = post.find? fun y ↦ !p y := by
  induction xs generalizing prev with
  | nil => simp [runsAfter]
  | cons x xs ih =>
      rw [mem_runsAfter_cons_iff, ih]
      constructor
      · rintro (⟨hx, hprev, rfl⟩ | ⟨pre, post, rfl, hr, hlast, hend⟩)
        · exact ⟨[], xs, rfl, hx, hprev, rfl⟩
        · exact ⟨x :: pre, post, rfl, hr, getD_getLast?_cons prev x pre ▸ hlast, hend⟩
      · rintro ⟨pre, post, hxs, hr, hlast, hend⟩
        cases pre with
        | nil =>
            obtain ⟨rfl, rfl⟩ := List.cons.inj hxs
            exact Or.inl ⟨hr, hlast, Prod.ext rfl hend⟩
        | cons y pre =>
            obtain ⟨rfl, rfl⟩ := List.cons.inj hxs
            rw [getD_getLast?_cons] at hlast
            exact Or.inr ⟨pre, post, rfl, hr, hlast, hend⟩

theorem find?_not_eq_head?_dropWhile (xs : List α) :
    xs.find? (fun y ↦ !p y) = (xs.dropWhile p).head? := by
  induction xs with
  | nil => rfl
  | cons x xs ih =>
      cases hx : p x with
      | true => simp [hx, ih]
      | false => simp [hx]

theorem mem_runs_iff {xs : List α} {r : α × Option α} :
    r ∈ runs p xs ↔ ∃ pre run post, MaximalRun p xs pre run post ∧ run.head? = some r.1 ∧
      post.head? = r.2 := by
  rw [runs, mem_runsAfter_iff]
  constructor
  · rintro ⟨pre, post, rfl, hr, hlast, hend⟩
    refine ⟨pre, r.1 :: post.takeWhile p, post.dropWhile p, ⟨?_, ?_, ?_, ?_, ?_⟩, rfl, ?_⟩
    · simp
    · simp
    · intro x hx
      rcases List.mem_cons.mp hx with rfl | hx
      · exact hr
      · exact List.mem_takeWhile_imp hx
    · intro x hx
      simpa [Option.mem_def.mp hx] using hlast
    · intro x hx
      have hhead := List.head?_dropWhile_not p post
      rw [Option.mem_def.mp hx] at hhead
      exact hhead
    · rw [hend, find?_not_eq_head?_dropWhile]
  · rintro ⟨pre, run, post, h, hrun, hend⟩
    obtain ⟨run, rfl⟩ := List.head?_eq_some_iff.mp hrun
    obtain ⟨hr, hall⟩ := List.forall_mem_cons.mp h.all
    refine ⟨pre, run ++ post, by simpa using h.split, hr, ?_, ?_⟩
    · cases hpre : pre.getLast? with
      | none => rfl
      | some x => exact h.before x hpre
    · rw [find?_not_eq_head?_dropWhile, List.dropWhile_append_of_pos hall, ← hend]
      cases post with
      | nil => rfl
      | cons y post =>
          rw [List.dropWhile_cons_of_neg (by simpa using h.after y rfl)]

end Runs

theorem takeWhile_append_of_head? {α : Type*} {q : α → Bool} {xs ys : List α}
    (hxs : ∀ x ∈ xs, q x = true) (hys : ∀ y ∈ ys.head?, q y = false) :
    (xs ++ ys).takeWhile q = xs := by
  rw [List.takeWhile_append_of_pos hxs]
  cases ys with
  | nil => simp
  | cons y ys => simp [hys y rfl]

theorem dropWhile_append_of_head? {α : Type*} {q : α → Bool} {xs ys : List α}
    (hxs : ∀ x ∈ xs, q x = true) (hys : ∀ y ∈ ys.head?, q y = false) :
    (xs ++ ys).dropWhile q = ys := by
  have hsplit := List.takeWhile_append_dropWhile (p := q) (l := xs ++ ys)
  rw [takeWhile_append_of_head? hxs hys] at hsplit
  exact List.append_cancel_left hsplit

/-- The last items of a list that ends with a run of at least so many. -/
theorem exists_suffix_of_le_takeWhile {α : Type*} {q : α → Bool} {xs : List α} {n : ℕ}
    (h : n ≤ (xs.reverse.takeWhile q).length) :
    ∃ before last, xs = before ++ last ∧ last.length = n ∧ ∀ x ∈ last, q x = true := by
  refine ⟨(xs.reverse.drop n).reverse, (xs.reverse.take n).reverse, ?_, ?_, ?_⟩
  · rw [← List.reverse_append, List.take_append_drop, List.reverse_reverse]
  · have hle : n ≤ xs.reverse.length := h.trans (List.takeWhile_prefix q).length_le
    rw [List.length_reverse, List.length_take, Nat.min_eq_left hle]
  · intro x hx
    have htake : xs.reverse.take n <+: xs.reverse.takeWhile q :=
      List.prefix_of_prefix_length_le (List.take_prefix n _) (List.takeWhile_prefix q)
        ((List.length_take_le n _).trans h)
    exact List.mem_takeWhile_imp (htake.subset (List.mem_reverse.mp hx))

/-! ## The runs as windows of time -/

section Windows

variable {α τ : Type*} [LinearOrder τ] {p : α → Bool} {time : α → τ} {tEnd : τ}

/-- The time that ends a run, `tEnd` where no item does. -/
def endTime (time : α → τ) (tEnd : τ) (e : Option α) : τ := (e.map time).getD tEnd

def windows (p : α → Bool) (time : α → τ) (tEnd : τ) (xs : List α) : List (τ × τ) :=
  (runs p xs).map fun r ↦ (time r.1, endTime time tEnd r.2)

omit [LinearOrder τ] in
/-- The windows are those of the maximal runs. -/
theorem mem_windows_iff {xs : List α} {w : τ × τ} :
    w ∈ windows p time tEnd xs ↔ ∃ pre run post, MaximalRun p xs pre run post ∧
      run.head?.map time = some w.1 ∧ endTime time tEnd post.head? = w.2 := by
  rw [windows, List.mem_map]
  constructor
  · rintro ⟨r, hr, rfl⟩
    obtain ⟨pre, run, post, hrun, hhead, hend⟩ := mem_runs_iff.mp hr
    exact ⟨pre, run, post, hrun, by rw [hhead]; rfl, by rw [hend]⟩
  · rintro ⟨pre, run, post, hrun, hhead, hend⟩
    obtain ⟨r, hr, hw⟩ := Option.map_eq_some_iff.mp hhead
    exact ⟨(r, post.head?), mem_runs_iff.mpr ⟨pre, run, post, hrun, hr, rfl⟩, Prod.ext hw hend⟩

theorem endTime_find? {q : α → Bool} {xs : List α} (hxs : xs.Pairwise fun x y ↦ time x < time y)
    {x : α} (hx : x ∈ xs) (hq : q x = true) : endTime time tEnd (xs.find? q) ≤ time x := by
  induction xs with
  | nil => simp at hx
  | cons y xs ih =>
      obtain ⟨hy, hxs⟩ := List.pairwise_cons.mp hxs
      cases hqy : q y with
      | true =>
          rw [List.find?_cons_of_pos hqy]
          rcases List.mem_cons.mp hx with rfl | hx
          · exact le_rfl
          · exact (hy x hx).le
      | false =>
          rw [List.find?_cons_of_neg (by simp [hqy])]
          rcases List.mem_cons.mp hx with rfl | hx
          · simp [hq] at hqy
          · exact ih hxs hx

theorem lt_endTime_find? {q : α → Bool} {xs : List α} {x : α} (hxs : ∀ y ∈ xs, time x < time y)
    (hEnd : time x < tEnd) : time x < endTime time tEnd (xs.find? q) := by
  cases hfind : xs.find? q with
  | none => exact hEnd
  | some y => exact hxs y (List.mem_of_find?_eq_some hfind)

theorem runsAfter_pairwise {xs : List α} (hxs : xs.Pairwise fun x y ↦ time x < time y)
    (prev : Bool) :
    (runsAfter p prev xs).Pairwise fun r r' ↦ endTime time tEnd r.2 < time r'.1 := by
  induction xs generalizing prev with
  | nil => exact List.Pairwise.nil
  | cons x xs ih =>
      have hrest := (List.pairwise_cons.mp hxs).2
      cases hx : p x with
      | false => simpa only [runsAfter_cons_outside hx] using ih hrest false
      | true =>
          cases prev with
          | true => simpa only [runsAfter_cons_inside hx] using ih hrest true
          | false =>
              rw [runsAfter_cons_start hx, List.pairwise_cons]
              refine ⟨?_, ih hrest true⟩
              -- an item behind the run ends it before the next one begins
              intro r hr
              obtain ⟨pre, post, rfl, -, hlast, -⟩ := mem_runsAfter_iff.mp hr
              obtain ⟨y, hy⟩ : ∃ y, pre.getLast? = some y := by
                cases hpre : pre.getLast? with
                | none => simp [hpre] at hlast
                | some y => exact ⟨y, rfl⟩
              have hyp : p y = false := by simpa [hy] using hlast
              have hmem : y ∈ pre := List.mem_of_getLast? hy
              have hle : endTime time tEnd ((pre ++ r.1 :: post).find? fun z ↦ !p z) ≤ time y :=
                endTime_find? hrest (List.mem_append_left _ hmem) (by simp [hyp])
              exact hle.trans_lt ((List.pairwise_append.mp hrest).2.2 y hmem r.1
                List.mem_cons_self)

section

variable {xs : List α} (hxs : xs.Pairwise fun x y ↦ time x < time y)
  (hEnd : ∀ x ∈ xs, time x < tEnd)

include hxs

theorem windows_pairwise : (windows p time tEnd xs).Pairwise fun w w' ↦ w.2 < w'.1 :=
  List.pairwise_map.mpr (runsAfter_pairwise hxs false)

/-- Two maximal runs that begin at one time are the same. -/
theorem MaximalRun.eq_of_start {pre run post pre' run' post' : List α}
    (h : MaximalRun p xs pre run post) (h' : MaximalRun p xs pre' run' post')
    (hstart : run.head?.map time = run'.head?.map time) :
    pre = pre' ∧ run = run' ∧ post = post' := by
  have hbefore : ∀ {pre run post : List α}, MaximalRun p xs pre run post →
      ∀ t, run.head?.map time = some t → xs.takeWhile (fun x ↦ time x < t) = pre := by
    intro pre run post h t ht
    obtain ⟨a, ha, rfl⟩ := Option.map_eq_some_iff.mp ht
    obtain ⟨run, rfl⟩ := List.head?_eq_some_iff.mp ha
    have hsplit : xs = pre ++ (a :: run ++ post) := by simpa using h.split
    rw [hsplit]
    refine takeWhile_append_of_head? ?_ ?_
    · intro x hx
      exact decide_eq_true ((List.pairwise_append.mp (hsplit ▸ hxs)).2.2 x hx a (by simp))
    · rintro _ ⟨⟩
      simp
  obtain ⟨a, ha⟩ : ∃ a, run.head? = some a :=
    Option.isSome_iff_exists.mp (List.isSome_head?.mpr h.ne_nil)
  have ht : run.head?.map time = some (time a) := by rw [ha]; rfl
  obtain rfl : pre = pre' := (hbefore h _ ht).symm.trans (hbefore h' _ (hstart ▸ ht))
  have hrest : run ++ post = run' ++ post' := by
    have hsplit := h.split.symm.trans h'.split
    simpa using hsplit
  obtain rfl : run = run' := by
    rw [← takeWhile_append_of_head? h.all h.after, hrest,
      takeWhile_append_of_head? h'.all h'.after]
  exact ⟨rfl, rfl, List.append_cancel_left hrest⟩

theorem windows_disjoint {w w' : τ × τ} (hw : w ∈ windows p time tEnd xs)
    (hw' : w' ∈ windows p time tEnd xs) (hne : w ≠ w') :
    Disjoint (Set.Ico w.1 w.2) (Set.Ico w'.1 w'.2) := by
  have hsymm : Std.Symm fun w w' : τ × τ ↦ Disjoint (Set.Ico w.1 w.2) (Set.Ico w'.1 w'.2) :=
    ⟨fun _ _ h ↦ h.symm⟩
  have hapart : (windows p time tEnd xs).Pairwise fun w w' ↦
      Disjoint (Set.Ico w.1 w.2) (Set.Ico w'.1 w'.2) := by
    refine (windows_pairwise hxs).imp ?_
    intro w w' hlt
    exact Set.disjoint_left.mpr fun t ht ht' ↦ (ht.2.trans hlt).not_ge ht'.1
  exact hapart.forall hw hw' hne

theorem not_mem_window {x : α} (hx : x ∈ xs) (hp : p x = false) {w : τ × τ}
    (hw : w ∈ windows p time tEnd xs) : time x ∉ Set.Ico w.1 w.2 := by
  obtain ⟨r, hr, rfl⟩ := List.mem_map.mp hw
  obtain ⟨pre, post, rfl, hr, -, hend⟩ := mem_runsAfter_iff.mp hr
  obtain ⟨-, hpost, hpre⟩ := List.pairwise_append.mp hxs
  rintro ⟨hstart, hlt⟩
  rcases List.mem_append.mp hx with hx | hx
  · exact absurd (hpre x hx r.1 List.mem_cons_self) hstart.not_gt
  · rcases List.mem_cons.mp hx with rfl | hx
    · simp [hr] at hp
    · refine absurd hlt (not_lt.mpr ?_)
      rw [hend]
      exact endTime_find? (List.pairwise_cons.mp hpost).2 hx (by simp [hp])

include hEnd

theorem window_lt {w : τ × τ} (hw : w ∈ windows p time tEnd xs) : w.1 < w.2 := by
  obtain ⟨r, hr, rfl⟩ := List.mem_map.mp hw
  obtain ⟨pre, post, rfl, -, -, hend⟩ := mem_runsAfter_iff.mp hr
  rw [hend]
  refine lt_endTime_find? ?_ (hEnd r.1 (by simp))
  exact (List.pairwise_cons.mp (List.pairwise_append.mp hxs).2.1).1

end

/-- An item of `p` is in one of the runs of the list, or in the run that is open
before it. -/
theorem exists_run {xs : List α} (hxs : xs.Pairwise fun x y ↦ time x < time y)
    (hEnd : ∀ x ∈ xs, time x < tEnd) {x : α} (hx : x ∈ xs) (hp : p x = true) (prev : Bool) :
    (∃ r ∈ runsAfter p prev xs, time x ∈ Set.Ico (time r.1) (endTime time tEnd r.2)) ∨
      (prev = true ∧ time x < endTime time tEnd (xs.find? fun y ↦ !p y)) := by
  induction xs generalizing prev with
  | nil => simp at hx
  | cons y xs ih =>
      obtain ⟨hy, hrest⟩ := List.pairwise_cons.mp hxs
      obtain ⟨hyEnd, hrestEnd⟩ := List.forall_mem_cons.mp hEnd
      cases hpy : p y with
      | false =>
          have hx : x ∈ xs := by
            rcases List.mem_cons.mp hx with rfl | hx
            · simp [hp] at hpy
            · exact hx
          rw [runsAfter_cons_outside hpy]
          rcases ih hrest hrestEnd hx false with hrun | ⟨hprev, -⟩
          · exact Or.inl hrun
          · simp at hprev
      | true =>
          rw [List.find?_cons_of_neg (by simp [hpy])]
          -- `x` is in a later run, or in the one that `y` is in
          have hcases : (∃ r ∈ runsAfter p true xs,
              time x ∈ Set.Ico (time r.1) (endTime time tEnd r.2)) ∨
              (time y ≤ time x ∧ time x < endTime time tEnd (xs.find? fun y ↦ !p y)) := by
            rcases List.mem_cons.mp hx with rfl | hx
            · exact Or.inr ⟨le_rfl, lt_endTime_find? hy hyEnd⟩
            · exact (ih hrest hrestEnd hx true).imp_right fun h ↦ ⟨(hy x hx).le, h.2⟩
          cases prev with
          | true =>
              rw [runsAfter_cons_inside hpy]
              exact hcases.imp_right fun h ↦ ⟨rfl, h.2⟩
          | false =>
              rw [runsAfter_cons_start hpy]
              rcases hcases with ⟨r, hr, hx⟩ | hx
              · exact Or.inl ⟨r, List.mem_cons_of_mem _ hr, hx⟩
              · exact Or.inl ⟨_, List.mem_cons_self, hx⟩

/-- An item of `p` is in exactly one window. -/
theorem existsUnique_window {xs : List α} (hxs : xs.Pairwise fun x y ↦ time x < time y)
    (hEnd : ∀ x ∈ xs, time x < tEnd) {x : α} (hx : x ∈ xs) (hp : p x = true) :
    ∃! w, w ∈ windows p time tEnd xs ∧ time x ∈ Set.Ico w.1 w.2 := by
  obtain ⟨r, hr, hrx⟩ := (exists_run hxs hEnd hx hp false).resolve_right (by simp)
  refine ⟨_, ⟨List.mem_map_of_mem hr, hrx⟩, ?_⟩
  rintro w ⟨hw, hwx⟩
  by_contra hne
  exact Set.disjoint_left.mp (windows_disjoint hxs hw (List.mem_map_of_mem hr) hne) hwx hrx

end Windows

end HugeGraphValidation.Lib
