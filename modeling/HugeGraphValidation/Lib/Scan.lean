import Mathlib

/-!
# Scanning a text for a pattern

The matches that a scan from left to right finds.  A pattern is asked at each item
and answers with a value and with the number of items behind it that belong to the
match; the scan goes on behind them.  Where it does not match, the item is kept.
-/

namespace HugeGraphValidation.Lib

variable {α β : Type*}

section Scan

variable (pattern : α → List α → Option (β × ℕ))

/-- The scan that has yet to leave out `skip` items of a match. -/
def scanFrom : ℕ → List α → List (α ⊕ β)
  | _, [] => []
  | skip + 1, _ :: xs => scanFrom skip xs
  | 0, x :: xs =>
      match pattern x xs with
      | none => .inl x :: scanFrom 0 xs
      | some (b, n) => .inr b :: scanFrom n xs

def scan (xs : List α) : List (α ⊕ β) := scanFrom pattern 0 xs

/-- `re.sub(pattern, "", xs)` -/
def erased (xs : List α) : List α := (scan pattern xs).filterMap Sum.getLeft?

/-- `re.findall(pattern, xs)` -/
def findall (xs : List α) : List β := (scan pattern xs).filterMap Sum.getRight?

/-- The pattern matches at no item of `xs` where `ys` follows. -/
def Quiet (xs ys : List α) : Prop :=
  ∀ before x behind, xs = before ++ x :: behind → pattern x (behind ++ ys) = none

variable {pattern}

theorem scanFrom_eq (skip : ℕ) (xs : List α) :
    scanFrom pattern skip xs = scan pattern (xs.drop skip) := by
  induction skip generalizing xs with
  | zero => rfl
  | succ skip ih =>
      cases xs with
      | nil => simp [scan, scanFrom]
      | cons x xs => rw [scanFrom, ih, List.drop_succ_cons]

@[simp]
theorem scan_nil : scan pattern [] = [] := rfl

theorem scan_cons_of_none {x : α} {xs : List α} (h : pattern x xs = none) :
    scan pattern (x :: xs) = .inl x :: scan pattern xs := by
  rw [scan, scanFrom, h, scan]

theorem scan_cons_of_some {x : α} {xs : List α} {b : β} {n : ℕ} (h : pattern x xs = some (b, n)) :
    scan pattern (x :: xs) = .inr b :: scan pattern (xs.drop n) := by
  rw [scan, scanFrom, h, ← scanFrom_eq]

theorem Quiet.tail {x : α} {xs ys : List α} (h : Quiet pattern (x :: xs) ys) :
    Quiet pattern xs ys :=
  fun before y behind hxs ↦ h (x :: before) y behind (by rw [hxs, List.cons_append])

theorem Quiet.append {xs ys zs : List α} (hxs : Quiet pattern xs (ys ++ zs))
    (hys : Quiet pattern ys zs) : Quiet pattern (xs ++ ys) zs := by
  intro before x behind h
  rcases List.append_eq_append_iff.mp h with ⟨as, rfl, has⟩ | ⟨cs, rfl, hcs⟩
  · exact hys as x behind has
  · cases cs with
    | nil => exact hys [] x behind (by rw [List.nil_append] at hcs ⊢; exact hcs.symm)
    | cons c cs =>
        rw [List.cons_append, List.cons.injEq] at hcs
        obtain ⟨rfl, rfl⟩ := hcs
        rw [List.append_assoc]
        exact hxs before x cs rfl

theorem quiet_of_forall {xs ys : List α} (h : ∀ x ∈ xs, ∀ zs, pattern x zs = none) :
    Quiet pattern xs ys := by
  rintro before x behind rfl
  exact h x (by simp) (behind ++ ys)

theorem scan_append_of_quiet {xs ys : List α} (h : Quiet pattern xs ys) :
    scan pattern (xs ++ ys) = xs.map .inl ++ scan pattern ys := by
  induction xs with
  | nil => rfl
  | cons x xs ih =>
      rw [List.cons_append, scan_cons_of_none (h [] x xs rfl), ih h.tail]
      rfl

variable (pattern) in
/-- The cases of a scan: the item is kept, or a match begins with it. -/
theorem scan_induction {motive : List α → Prop} (nil : motive [])
    (keep : ∀ x xs, pattern x xs = none → motive xs → motive (x :: xs))
    (found : ∀ x xs b n, pattern x xs = some (b, n) → motive (xs.drop n) → motive (x :: xs))
    (xs : List α) : motive xs := by
  induction hn : xs.length using Nat.strong_induction_on generalizing xs with
  | _ n ih =>
      cases xs with
      | nil => exact nil
      | cons x xs =>
          rw [List.length_cons] at hn
          cases hmatch : pattern x xs with
          | none => exact keep x xs hmatch (ih xs.length (by omega) xs rfl)
          | some p =>
              refine found x xs p.1 p.2 hmatch (ih (xs.drop p.2).length ?_ _ rfl)
              rw [List.length_drop]
              omega

/-! ## What is left out and what is found -/

@[simp]
theorem erased_nil : erased pattern [] = [] := rfl

theorem erased_cons_of_none {x : α} {xs : List α} (h : pattern x xs = none) :
    erased pattern (x :: xs) = x :: erased pattern xs := by
  rw [erased, scan_cons_of_none h]
  rfl

theorem erased_cons_of_some {x : α} {xs : List α} {b : β} {n : ℕ}
    (h : pattern x xs = some (b, n)) :
    erased pattern (x :: xs) = erased pattern (xs.drop n) := by
  rw [erased, scan_cons_of_some h]
  rfl

theorem erased_append_of_quiet {xs ys : List α} (h : Quiet pattern xs ys) :
    erased pattern (xs ++ ys) = xs ++ erased pattern ys := by
  rw [erased, scan_append_of_quiet h, List.filterMap_append, List.filterMap_map]
  congr 1
  exact List.filterMap_some

/-- A text in which the pattern matches nowhere is kept as it is. -/
theorem erased_of_quiet {xs : List α} (h : Quiet pattern xs []) : erased pattern xs = xs := by
  have herased := erased_append_of_quiet h
  rwa [List.append_nil, erased_nil, List.append_nil] at herased

theorem findall_append_of_quiet {xs ys : List α} (h : Quiet pattern xs ys) :
    findall pattern (xs ++ ys) = findall pattern ys := by
  rw [findall, scan_append_of_quiet h, List.filterMap_append, List.filterMap_map]
  simp [findall, Function.comp_def]

theorem findall_of_quiet {xs : List α} (h : Quiet pattern xs []) : findall pattern xs = [] := by
  have hfound := findall_append_of_quiet h
  rwa [List.append_nil] at hfound

theorem findall_cons_of_none {x : α} {xs : List α} (h : pattern x xs = none) :
    findall pattern (x :: xs) = findall pattern xs := by
  rw [findall, scan_cons_of_none h]
  rfl

theorem findall_cons_of_some {x : α} {xs : List α} {b : β} {n : ℕ}
    (h : pattern x xs = some (b, n)) :
    findall pattern (x :: xs) = b :: findall pattern (xs.drop n) := by
  rw [findall, scan_cons_of_some h]
  rfl

end Scan

/-! ## Texts that are spelled out -/

section Spelling

variable {p : α → Bool} {q : β → Bool} {g : α → List β}

/-- What holds of an item holds of the one item that spells it, and what does not
hold of it of none that does. -/
def Keeps (p : α → Bool) (q : β → Bool) (g : α → List β) : Prop :=
  ∀ x, if p x then ∃ y, g x = [y] ∧ q y = true else g x ≠ [] ∧ ∀ y ∈ g x, q y = false

theorem Keeps.flatMap_dropWhile (h : Keeps p q g) (xs : List α) :
    (xs.dropWhile p).flatMap g = (xs.flatMap g).dropWhile q := by
  induction xs with
  | nil => rfl
  | cons x xs ih =>
      have hx := h x
      rw [List.flatMap_cons, List.dropWhile_cons]
      split_ifs at hx ⊢ with hp
      · obtain ⟨y, hy, hq⟩ := hx
        rw [hy, List.singleton_append, List.dropWhile_cons_of_pos hq, ih]
      · obtain ⟨hne, hall⟩ := hx
        obtain ⟨y, ys, hy⟩ := List.exists_cons_of_ne_nil hne
        have hq : ¬q y = true := by simp [hall y (by simp [hy])]
        rw [List.flatMap_cons, hy, List.cons_append, List.dropWhile_cons_of_neg hq]

theorem Keeps.reverse (h : Keeps p q g) : Keeps p q fun x ↦ (g x).reverse := by
  intro x
  have hx := h x
  split_ifs at hx ⊢
  · obtain ⟨y, hy, hq⟩ := hx
    exact ⟨y, by simp [hy], hq⟩
  · exact ⟨by simpa using hx.1, fun y hy ↦ hx.2 y (List.mem_reverse.mp hy)⟩

theorem Keeps.flatMap_rdropWhile (h : Keeps p q g) (xs : List α) :
    (xs.rdropWhile p).flatMap g = (xs.flatMap g).rdropWhile q := by
  rw [List.rdropWhile, List.rdropWhile, List.reverse_flatMap, Function.comp_def,
    ← h.reverse.flatMap_dropWhile, List.flatMap_reverse, Function.comp_def]

theorem splitOnP_append {ys : List β} (hys : ∀ y ∈ ys, q y = false) (zs : List β) :
    (ys ++ zs).splitOnP q = (zs.splitOnP q).modifyHead (ys ++ ·) := by
  induction ys with
  | nil =>
      obtain ⟨line, lines, hlines⟩ := List.exists_cons_of_ne_nil (List.splitOnP_ne_nil q zs)
      rw [List.nil_append, hlines]
      rfl
  | cons y ys ih =>
      rw [List.forall_mem_cons] at hys
      rw [List.cons_append, List.splitOnP_cons_eq_if_modifyHead, hys.1, if_neg (by decide),
        ih hys.2, List.modifyHead_modifyHead]
      rfl

theorem Keeps.map_splitOnP (h : Keeps p q g) (xs : List α) :
    (xs.splitOnP p).map (List.flatMap g) = (xs.flatMap g).splitOnP q := by
  induction xs with
  | nil => rfl
  | cons x xs ih =>
      have hx := h x
      rw [List.flatMap_cons, List.splitOnP_cons_eq_if_modifyHead]
      split_ifs at hx ⊢ with hp
      · obtain ⟨y, hy, hq⟩ := hx
        rw [hy, List.singleton_append, List.splitOnP_cons_eq_if_modifyHead, if_pos hq, ← ih]
        rfl
      · obtain ⟨line, lines, hlines⟩ := List.exists_cons_of_ne_nil (List.splitOnP_ne_nil p xs)
        rw [splitOnP_append hx.2, ← ih, hlines]
        rfl

theorem prefix_infix_of_splitOnP {xs line : List α} {lines : List (List α)}
    (h : xs.splitOnP p = line :: lines) : line <+: xs ∧ ∀ l ∈ lines, l <:+: xs := by
  induction xs generalizing line lines with
  | nil =>
      obtain ⟨rfl, rfl⟩ : [] = line ∧ [] = lines := by simpa using h
      simp
  | cons x xs ih =>
      obtain ⟨l, ls, hls⟩ := List.exists_cons_of_ne_nil (List.splitOnP_ne_nil p xs)
      have hxs : xs <:+: x :: xs := (List.suffix_cons x xs).isInfix
      obtain ⟨hl, hall⟩ := ih hls
      rw [List.splitOnP_cons_eq_if_modifyHead, hls] at h
      split_ifs at h
      · obtain ⟨rfl, rfl⟩ := List.cons.inj h
        refine ⟨List.nil_prefix, ?_⟩
        rw [List.forall_mem_cons]
        exact ⟨hl.isInfix.trans hxs, fun l hl ↦ (hall l hl).trans hxs⟩
      · obtain ⟨rfl, rfl⟩ := List.cons.inj h
        exact ⟨List.cons_prefix_cons.mpr ⟨rfl, hl⟩, fun l hl ↦ (hall l hl).trans hxs⟩

/-- The lines of a text are parts of it. -/
theorem infix_of_mem_splitOnP {xs line : List α} (h : line ∈ xs.splitOnP p) : line <:+: xs := by
  obtain ⟨l, ls, hls⟩ := List.exists_cons_of_ne_nil (List.splitOnP_ne_nil p xs)
  obtain ⟨hl, hall⟩ := prefix_infix_of_splitOnP hls
  rw [hls, List.mem_cons] at h
  rcases h with rfl | h
  · exact hl.isInfix
  · exact hall line h


end Spelling

end HugeGraphValidation.Lib
