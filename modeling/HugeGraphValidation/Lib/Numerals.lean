import Mathlib

/-!
# Decimal numerals

Numerals in names are filled up with zeros to a width; a name built from parts
with a separator that no numeral contains gives back its parts.
-/

namespace HugeGraphValidation.Lib

/-- `round(q, digits)`: to the nearest, a tie to the even digit. -/
def roundTo (digits : ℕ) (q : ℚ) : ℚ :=
  let x := q * 10 ^ digits
  let below := x.floor
  let nearest :=
    if x - below < 1 / 2 then below
    else if 1 / 2 < x - below then below + 1
    else if below % 2 = 0 then below
    else below + 1
  nearest / 10 ^ digits

/-- What `round` goes to in one unit. -/
def nearestOf (x : ℚ) : ℤ :=
  if x - x.floor < 1 / 2 then x.floor
  else if 1 / 2 < x - x.floor then x.floor + 1
  else if x.floor % 2 = 0 then x.floor
  else x.floor + 1

theorem roundTo_eq (digits : ℕ) (q : ℚ) :
    roundTo digits q = nearestOf (q * 10 ^ digits) / 10 ^ digits := by
  simp only [roundTo, nearestOf]

theorem floor_le_nearestOf (x : ℚ) : x.floor ≤ nearestOf x ∧ nearestOf x ≤ x.floor + 1 := by
  unfold nearestOf
  split
  · omega
  · split
    · omega
    · split <;> omega

theorem nearestOf_mono {x y : ℚ} (h : x ≤ y) : nearestOf x ≤ nearestOf y := by
  have hfloor : x.floor ≤ y.floor := Rat.floor_monotone h
  rcases hfloor.lt_or_eq with hlt | heq
  · have hx := (floor_le_nearestOf x).2
    have hy := (floor_le_nearestOf y).1
    omega
  · -- in one unit, where the fraction of `x` is rounded up so is that of `y`
    have hfrac : x - x.floor ≤ y - y.floor := by rw [heq]; linarith
    unfold nearestOf
    rw [heq] at hfrac ⊢
    split
    · split
      · exact le_rfl
      · split
        · omega
        · split <;> omega
    · rename_i hx
      have hy : ¬ y - y.floor < 1 / 2 := fun hlt ↦ hx (hfrac.trans_lt hlt)
      rw [if_neg hy]
      by_cases hx' : 1 / 2 < x - y.floor
      · rw [if_pos hx', if_pos (hx'.trans_le hfrac)]
      · rw [if_neg hx']
        split
        · split <;> omega
        · split <;> omega

theorem roundTo_mono (digits : ℕ) {q q' : ℚ} (h : q ≤ q') :
    roundTo digits q ≤ roundTo digits q' := by
  rw [roundTo_eq, roundTo_eq]
  have hscale : q * 10 ^ digits ≤ q' * 10 ^ digits :=
    mul_le_mul_of_nonneg_right h (by positivity)
  have hnearest : (nearestOf (q * 10 ^ digits) : ℚ) ≤ nearestOf (q' * 10 ^ digits) :=
    Int.cast_le.mpr (nearestOf_mono hscale)
  exact div_le_div_of_nonneg_right hnearest (by positivity)

theorem roundTo_max (digits : ℕ) (q q' : ℚ) :
    roundTo digits (max q q') = max (roundTo digits q) (roundTo digits q') := by
  rcases le_total q q' with h | h
  · rw [max_eq_right h, max_eq_right (roundTo_mono digits h)]
  · rw [max_eq_left h, max_eq_left (roundTo_mono digits h)]

theorem nearestOf_intCast (k : ℤ) : nearestOf k = k := by
  simp [nearestOf]

/-- The result of an operation of `decimal`, with `prec` significant digits. -/
def roundSig (prec : ℕ) (q : ℚ) : ℚ :=
  let unit : ℚ := 10 ^ (Int.log 10 |q| - prec + 1)
  nearestOf (q / unit) * unit

/-- A number with few enough digits is not rounded. -/
theorem roundSig_eq_self {prec s : ℕ} {q : ℚ} {k : ℤ} (hq : q * 10 ^ s = k)
    (hlt : |q| * 10 ^ s < 10 ^ prec) : roundSig prec q = q := by
  by_cases hzero : q = 0
  · have hnearest : nearestOf 0 = 0 := by exact_mod_cast nearestOf_intCast 0
    simp [hzero, roundSig, hnearest]
  have hbound : |q| < ((10 : ℕ) : ℚ) ^ ((prec : ℤ) - s) := by
    rw [zpow_sub₀ (by norm_num), zpow_natCast, zpow_natCast, lt_div_iff₀ (by positivity)]
    exact_mod_cast hlt
  have hlog := (Int.lt_zpow_iff_log_lt (by norm_num) (abs_pos.mpr hzero)).mp hbound
  -- the unit of the last digit divides the unit of `k`
  obtain ⟨m, hm⟩ := Int.eq_ofNat_of_zero_le (show 0 ≤ (prec : ℤ) - s - 1 - Int.log 10 |q| by omega)
  have hunit : (10 : ℚ) ^ (Int.log 10 |q| - prec + 1) = (10 ^ s * 10 ^ m)⁻¹ := by
    rw [← zpow_natCast, ← zpow_natCast, ← zpow_add₀ (by norm_num), ← zpow_neg]
    congr 1
    omega
  have hquotient : q / (10 : ℚ) ^ (Int.log 10 |q| - prec + 1) = ((k * 10 ^ m : ℤ) : ℚ) := by
    rw [hunit, div_inv_eq_mul, ← mul_assoc, hq]
    push_cast
    rfl
  unfold roundSig
  dsimp only
  rw [hquotient, nearestOf_intCast, ← hquotient, div_mul_cancel₀ _ (by positivity)]

/-- `f"{n:0{width}d}"` -/
def zeroPadded (width n : ℕ) : String :=
  String.ofList (List.replicate (width - (toString n).length) '0') ++ toString n

theorem toList_toString (n : ℕ) : (toString n).toList = Nat.toDigits 10 n := by
  simp

theorem toList_zeroPadded (width n : ℕ) :
    (zeroPadded width n).toList =
      List.replicate (width - (toString n).length) '0' ++ Nat.toDigits 10 n := by
  simp [zeroPadded]

theorem zeroPadded_injective (width : ℕ) : Function.Injective (zeroPadded width) := by
  intro i j h
  have hvalue : ∀ k, Nat.ofDigitChars 10 (zeroPadded width k).toList 0 = k := by
    intro k
    rw [toList_zeroPadded, Nat.ofDigitChars_append, Nat.ofDigitChars_replicate_zero, Nat.mul_zero,
      Nat.ofDigitChars_ten_toDigits]
  rw [← hvalue i, h, hvalue j]

theorem not_mem_toString {c : Char} (hc : c.isDigit = false) (n : ℕ) :
    c ∉ (toString n).toList := by
  rw [toList_toString]
  intro hmem
  rw [Nat.isDigit_of_mem_toDigits (by norm_num) (by norm_num) hmem] at hc
  cases hc

theorem not_mem_zeroPadded {c : Char} (hc : c.isDigit = false) (width n : ℕ) :
    c ∉ (zeroPadded width n).toList := by
  rw [zeroPadded, String.toList_append, List.mem_append, String.toList_ofList, List.mem_replicate]
  rintro (⟨-, rfl⟩ | hmem)
  · exact absurd hc (by decide)
  · exact not_mem_toString hc n hmem

/-- The last separator splits a list in one way. -/
theorem append_cons_inj {α : Type*} {c : α} {xs xs' ys ys' : List α} (hys : c ∉ ys)
    (hys' : c ∉ ys') (h : xs ++ c :: ys = xs' ++ c :: ys') : xs = xs' ∧ ys = ys' := by
  rcases List.append_eq_append_iff.mp h with ⟨zs, rfl, hzs⟩ | ⟨zs, rfl, hzs⟩
  · cases zs with
    | nil => exact ⟨(List.append_nil xs).symm, (List.cons.inj hzs).2⟩
    | cons z zs =>
        refine absurd ?_ hys
        rw [(List.cons.inj hzs).2]
        simp
  · cases zs with
    | nil => exact ⟨List.append_nil xs', (List.cons.inj hzs).2.symm⟩
    | cons z zs =>
        refine absurd ?_ hys'
        rw [(List.cons.inj hzs).2]
        simp

end HugeGraphValidation.Lib
