import Mathlib

/-!
# Text as Python has it

Slices from the front, blanks, and whether a text occurs in another one.
-/

namespace HugeGraphValidation.Lib

/-- `b[:n]` -/
def clip (n : ℕ) (b : String) : String := String.ofList (b.toList.take n)

def isSpace (c : Char) : Bool :=
  let n := c.toNat
  (9 ≤ n && n ≤ 13) || (28 ≤ n && n ≤ 32) || n = 0x85 || n = 0xa0 || n = 0x1680 ||
    (0x2000 ≤ n && n ≤ 0x200a) || n = 0x2028 || n = 0x2029 || n = 0x202f || n = 0x205f || n = 0x3000

/-- `s.strip()` -/
def strip (s : String) : String :=
  String.ofList ((s.toList.dropWhile isSpace).reverse.dropWhile isSpace).reverse

/-- `needle in s` -/
def mentions (needle s : String) : Bool := needle.toList <:+: s.toList

theorem isSpace_of_isDigit {c : Char} (hc : c.isDigit = true) : isSpace c = false := by
  have hrange : 48 ≤ c.toNat ∧ c.toNat ≤ 57 := by
    simp only [Char.isDigit, Bool.and_eq_true, decide_eq_true_eq, UInt32.le_iff_toNat_le] at hc
    exact hc
  simp only [isSpace, Bool.or_eq_false_iff, Bool.and_eq_false_imp, decide_eq_true_eq,
    decide_eq_false_iff_not]
  omega

theorem dropWhile_isSpace {cs : List Char} (h : ∀ c ∈ cs, isSpace c = false) :
    cs.dropWhile isSpace = cs := by
  cases cs with
  | nil => rfl
  | cons c cs => exact List.dropWhile_cons_of_neg (by simp [h c List.mem_cons_self])

theorem strip_of_no_space {s : String} (h : ∀ c ∈ s.toList, isSpace c = false) : strip s = s := by
  rw [strip, dropWhile_isSpace h, dropWhile_isSpace (by simpa using h), List.reverse_reverse,
    String.ofList_toList]

end HugeGraphValidation.Lib
