import HugeGraphValidation.Bench.ReadBack
import HugeGraphValidation.Lib.Runs

/-!
# Decimals as text

The scripts send a decimal as `format(d, "f")` and read it back with `Decimal`, and
one of them compares the texts themselves.  The text is that of an integer with a
point so many digits from its end.
-/

namespace HugeGraphValidation.Bench

open Lib

/-- A finite `Decimal`. -/
structure PyDecimal where
  sign : Bool
  coefficient : ℕ
  exponent : ℤ
  deriving DecidableEq

namespace PyDecimal

def value (d : PyDecimal) : ℚ :=
  (if d.sign then -1 else 1) * (d.coefficient * 10 ^ d.exponent)

/-- The digits before and after the point. -/
def fixedParts (digits : List Char) (dotplace : ℤ) : List Char × List Char :=
  if dotplace < 0 then (['0'], List.replicate (-dotplace).toNat '0' ++ digits)
  else if digits.length < dotplace then
    (digits ++ List.replicate (dotplace - digits.length).toNat '0', [])
  else
    let int := digits.take dotplace.toNat
    (if int = [] then ['0'] else int, digits.drop dotplace.toNat)

def withPoint (parts : List Char × List Char) : List Char :=
  parts.1 ++ if parts.2 = [] then [] else '.' :: parts.2

def signChars (sign : Bool) : List Char := if sign then ['-'] else []

/-- `dstr(d)`, which is `format(d, "f")`; a zero loses a positive exponent. -/
def dstr (d : PyDecimal) : String :=
  let exponent := if d.coefficient = 0 ∧ 0 < d.exponent then 0 else d.exponent
  let digits := Nat.toDigits 10 d.coefficient
  String.ofList (signChars d.sign ++ withPoint (fixedParts digits (exponent + digits.length)))

/-- How many digits follow the point. -/
def fraction (d : PyDecimal) : ℕ := (-d.exponent).toNat

/-- The integer that the digits make up without the point. -/
def shifted (d : PyDecimal) : ℕ := d.coefficient * 10 ^ d.exponent.toNat

/-- The digits of `n`, filled up with zeros so that one is left before the point. -/
def filled (fraction n : ℕ) : List Char :=
  List.replicate (fraction + 1 - (Nat.toDigits 10 n).length) '0' ++ Nat.toDigits 10 n

/-- A point so many digits from the end. -/
def splitAtFraction (fraction : ℕ) (digits : List Char) : List Char × List Char :=
  (digits.take (digits.length - fraction), digits.drop (digits.length - fraction))

/-! ## The digits -/

theorem toDigits_mul_pow {c : ℕ} (hc : 0 < c) (e : ℕ) :
    Nat.toDigits 10 (c * 10 ^ e) = Nat.toDigits 10 c ++ List.replicate e '0' := by
  induction e with
  | zero => simp
  | succ e ih =>
      have hpos : 0 < c * 10 ^ e := Nat.mul_pos hc (Nat.pow_pos (by norm_num))
      have hstep := Nat.toDigits_append_toDigits (b := 10) (d := 0) (by norm_num) hpos (by norm_num)
      rw [ih] at hstep
      rw [pow_succ, ← Nat.mul_assoc, List.replicate_succ', ← List.append_assoc, Nat.mul_comm _ 10]
      simpa using hstep.symm

theorem length_filled (fraction n : ℕ) :
    (filled fraction n).length = max (fraction + 1) (Nat.toDigits 10 n).length := by
  simp [filled]
  omega

theorem isDigit_of_mem_filled {fraction n : ℕ} {c : Char} (hc : c ∈ filled fraction n) :
    c.isDigit = true := by
  rcases List.mem_append.mp hc with hc | hc
  · rw [(List.mem_replicate.mp hc).2]
    decide
  · exact Nat.isDigit_of_mem_toDigits (by norm_num) (by norm_num) hc

theorem ofDigitChars_filled (fraction n : ℕ) : Nat.ofDigitChars 10 (filled fraction n) 0 = n := by
  rw [filled, Nat.ofDigitChars_append, Nat.ofDigitChars_replicate_zero, Nat.mul_zero,
    Nat.ofDigitChars_ten_toDigits]

theorem fixedParts_of_nonneg {c e : ℕ} (hc : 0 < c) :
    fixedParts (Nat.toDigits 10 c) (e + (Nat.toDigits 10 c).length) =
      splitAtFraction 0 (filled 0 (c * 10 ^ e)) := by
  have hlength : 0 < (Nat.toDigits 10 c).length := Nat.length_toDigits_pos
  have hfilled : filled 0 (c * 10 ^ e) = Nat.toDigits 10 c ++ List.replicate e '0' := by
    have hnone : 0 + 1 - (Nat.toDigits 10 (c * 10 ^ e)).length = 0 := by
      have := Nat.length_toDigits_pos (b := 10) (n := c * 10 ^ e)
      omega
    rw [filled, hnone, List.replicate_zero, List.nil_append, toDigits_mul_pow hc]
  rw [hfilled, splitAtFraction, Nat.sub_zero, List.take_length, List.drop_length]
  have hdot : ¬ ((e : ℤ) + (Nat.toDigits 10 c).length < 0) := by omega
  rw [fixedParts, if_neg hdot]
  split
  · congr 3
    omega
  · -- nothing is appended
    have he : e = 0 := by omega
    subst he
    have htake : ((0 : ℕ) + ((Nat.toDigits 10 c).length : ℤ)).toNat =
        (Nat.toDigits 10 c).length := by omega
    simp only [htake, List.take_length, List.drop_length]
    rw [if_neg Nat.toDigits_ne_nil]
    simp

theorem fixedParts_of_neg (c : ℕ) {f : ℕ} (hf : 0 < f) :
    fixedParts (Nat.toDigits 10 c) (-f + (Nat.toDigits 10 c).length) =
      splitAtFraction f (filled f c) := by
  have hne : Nat.toDigits 10 c ≠ [] := Nat.toDigits_ne_nil
  generalize hdigits : Nat.toDigits 10 c = digits at hne
  have hpos : 0 < digits.length := List.length_pos_iff.mpr hne
  rw [splitAtFraction, length_filled, filled, hdigits]
  rcases lt_trichotomy digits.length f with hlt | heq | hgt
  · -- zeros between the point and the digits
    have hdot : -(f : ℤ) + digits.length < 0 := by omega
    have hzeros : (-(-(f : ℤ) + digits.length)).toNat = f - digits.length := by omega
    have hfill : f + 1 - digits.length = (f - digits.length) + 1 := by omega
    have hsplit : max (f + 1) digits.length - f = 1 := by omega
    rw [fixedParts, if_pos hdot, hzeros, hfill, hsplit, List.replicate_succ]
    rfl
  · -- the point stands before all the digits
    have hdot : ¬ (-(f : ℤ) + digits.length < 0) := by omega
    have hlong : ¬ ((digits.length : ℤ) < -(f : ℤ) + digits.length) := by omega
    have htake : (-(f : ℤ) + digits.length).toNat = 0 := by omega
    have hfill : f + 1 - digits.length = 1 := by omega
    have hsplit : max (f + 1) digits.length - f = 1 := by omega
    rw [fixedParts, if_neg hdot, if_neg hlong, htake, hfill, hsplit]
    rfl
  · have hdot : ¬ (-(f : ℤ) + digits.length < 0) := by omega
    have hlong : ¬ ((digits.length : ℤ) < -(f : ℤ) + digits.length) := by omega
    have htake : (-(f : ℤ) + digits.length).toNat = digits.length - f := by omega
    have hfill : f + 1 - digits.length = 0 := by omega
    have hsplit : max (f + 1) digits.length - f = digits.length - f := by omega
    have hint : digits.take (digits.length - f) ≠ [] := by
      rw [← List.length_pos_iff, List.length_take]
      omega
    rw [fixedParts, if_neg hdot, if_neg hlong, htake, hfill, hsplit, List.replicate_zero,
      List.nil_append]
    dsimp only
    rw [if_neg hint]

/-- The text of a decimal is that of its digits with a point in them. -/
def plainText (sign : Bool) (fraction n : ℕ) : String :=
  String.ofList (signChars sign ++ withPoint (splitAtFraction fraction (filled fraction n)))

theorem dstr_eq (d : PyDecimal) : d.dstr = plainText d.sign d.fraction d.shifted := by
  obtain ⟨sign, c, e⟩ := d
  unfold dstr plainText fraction shifted
  dsimp only
  rcases le_or_gt 0 e with he | he
  · obtain ⟨e, rfl⟩ := Int.eq_ofNat_of_zero_le he
    have hfraction : (-(e : ℤ)).toNat = 0 := by omega
    rw [hfraction, Int.toNat_natCast]
    rcases Nat.eq_zero_or_pos c with rfl | hc
    · -- a zero is written as the integer it is
      have hexponent : (if (0 : ℕ) = 0 ∧ 0 < (e : ℤ) then 0 else (e : ℤ)) = 0 := by
        split
        · rfl
        · omega
      rw [hexponent, Nat.zero_mul]
      rfl
    · rw [if_neg (by omega), fixedParts_of_nonneg hc]
  · obtain ⟨f, hf⟩ := Int.eq_ofNat_of_zero_le (neg_nonneg.mpr he.le)
    obtain rfl : e = -(f : ℤ) := by omega
    have hpos : 0 < f := by omega
    have hnat : (-(f : ℤ)).toNat = 0 := by omega
    rw [if_neg (by omega), neg_neg, Int.toNat_natCast, hnat, pow_zero, Nat.mul_one,
      fixedParts_of_neg c hpos]

theorem value_eq (d : PyDecimal) :
    d.value = (if d.sign then -1 else 1) * (d.shifted / 10 ^ d.fraction) := by
  obtain ⟨sign, c, e⟩ := d
  unfold value shifted fraction
  dsimp only
  congr 1
  rcases le_or_gt 0 e with he | he
  · obtain ⟨e, rfl⟩ := Int.eq_ofNat_of_zero_le he
    have hfraction : (-(e : ℤ)).toNat = 0 := by omega
    rw [hfraction, Int.toNat_natCast]
    simp
  · obtain ⟨f, hf⟩ := Int.eq_ofNat_of_zero_le (neg_nonneg.mpr he.le)
    obtain rfl : e = -(f : ℤ) := by omega
    have hnat : (-(f : ℤ)).toNat = 0 := by omega
    rw [hnat, neg_neg, Int.toNat_natCast, zpow_neg, zpow_natCast, pow_zero, Nat.mul_one,
      div_eq_mul_inv]

/-! ## Reading the text -/

theorem splitAtFraction_append (fraction : ℕ) (digits : List Char) :
    (splitAtFraction fraction digits).1 ++ (splitAtFraction fraction digits).2 = digits :=
  List.take_append_drop _ _

theorem length_splitAtFraction (fraction n : ℕ) :
    (splitAtFraction fraction (filled fraction n)).1.length ≠ 0 ∧
      (splitAtFraction fraction (filled fraction n)).2.length = fraction := by
  have hlength := length_filled fraction n
  simp only [splitAtFraction, List.length_take, List.length_drop]
  omega

theorem isDigit_of_mem_parts {fraction n : ℕ} {c : Char}
    (hc : c ∈ (splitAtFraction fraction (filled fraction n)).1 ∨
      c ∈ (splitAtFraction fraction (filled fraction n)).2) : c.isDigit = true := by
  have hmem : c ∈ filled fraction n := by
    rw [← splitAtFraction_append fraction (filled fraction n), List.mem_append]
    exact hc
  exact isDigit_of_mem_filled hmem

theorem ne_point_of_isDigit {c : Char} (hc : c.isDigit = true) : decide (c ≠ '.') = true := by
  rw [decide_eq_true_iff]
  rintro rfl
  exact absurd hc (by decide)

/-- Where the digits before the point end. -/
theorem head?_fractionText (frac : List Char) :
    ∀ c ∈ (if frac = [] then [] else '.' :: frac).head?, decide (c ≠ '.') = false := by
  intro c hc
  split at hc
  · cases hc
  · obtain rfl : '.' = c := Option.some.inj hc
    rfl

theorem dropWhile_point {int : List Char} (hint : ∀ c ∈ int, c.isDigit = true)
    (frac : List Char) :
    (withPoint (int, frac)).dropWhile (· ≠ '.') = if frac = [] then [] else '.' :: frac :=
  dropWhile_append_of_head? (fun c hc ↦ ne_point_of_isDigit (hint c hc))
    (head?_fractionText frac)

theorem takeWhile_point {int : List Char} (hint : ∀ c ∈ int, c.isDigit = true)
    (frac : List Char) : (withPoint (int, frac)).takeWhile (· ≠ '.') = int :=
  takeWhile_append_of_head? (fun c hc ↦ ne_point_of_isDigit (hint c hc))
    (head?_fractionText frac)

theorem digitsOf_of_digits {cs : List Char} (hne : cs ≠ []) (hcs : ∀ c ∈ cs, c.isDigit = true) :
    digitsOf cs = some (Nat.ofDigitChars 10 cs 0) :=
  if_pos ⟨hne, List.all_eq_true.mpr hcs⟩

theorem decimalPart_withPoint {int frac : List Char} (hne : int ≠ [])
    (hint : ∀ c ∈ int, c.isDigit = true) (hfrac : ∀ c ∈ frac, c.isDigit = true) :
    decimalPart (withPoint (int, frac)) =
      some ((Nat.ofDigitChars 10 (int ++ frac) 0 : ℚ) / 10 ^ frac.length) := by
  rw [decimalPart, dropWhile_point hint]
  rcases eq_or_ne frac [] with rfl | hsome
  · rw [if_pos rfl, withPoint, if_pos rfl, List.append_nil]
    dsimp only
    rw [digitsOf_of_digits hne hint]
    simp
  · have hall : ∀ c ∈ int ++ frac, c.isDigit = true := by
      intro c hc
      exact (List.mem_append.mp hc).elim (hint c) (hfrac c)
    have hnil : int ++ frac ≠ [] := by simp [hne]
    rw [if_neg hsome, takeWhile_point hint]
    dsimp only
    rw [digitsOf_of_digits hnil hall]
    rfl

/-- A text of digits, points and minus signs is read as it stands. -/
theorem read_ofList {cs : List Char}
    (hcs : ∀ c ∈ cs, c.isDigit = true ∨ c = '.' ∨ c = '-') :
    (strip (String.ofList cs)).toList.filter (fun c ↦ c ≠ '_') = cs := by
  have hspace : ∀ c ∈ (String.ofList cs).toList, isSpace c = false := by
    intro c hc
    rw [String.toList_ofList] at hc
    rcases hcs c hc with hdigit | rfl | rfl
    · exact isSpace_of_isDigit hdigit
    · decide
    · decide
  rw [strip_of_no_space hspace, String.toList_ofList, List.filter_eq_self]
  intro c hc
  rw [decide_eq_true_iff]
  rintro rfl
  rcases hcs '_' hc with h | h | h
  · exact absurd h (by decide)
  · exact absurd h (by decide)
  · exact absurd h (by decide)

/-- A text of digits and points, with or without a sign in front. -/
theorem decimalOf_signed {cs : List Char} (sign : Bool) {c : Char} (hfirst : cs.head? = some c)
    (hc : c.isDigit = true) (hcs : ∀ c ∈ cs, c.isDigit = true ∨ c = '.') :
    decimalOf (String.ofList (signChars sign ++ cs)) =
      (decimalPart cs).map fun q ↦ (if sign then -1 else 1) * q := by
  have hexponent : cs.dropWhile (fun c ↦ c ≠ 'e' && c ≠ 'E') = [] := by
    rw [List.dropWhile_eq_nil_iff]
    intro c hc
    rcases hcs c hc with hdigit | rfl
    · rw [Bool.and_eq_true, decide_eq_true_iff, decide_eq_true_iff]
      constructor
      · rintro rfl
        exact absurd hdigit (by decide)
      · rintro rfl
        exact absurd hdigit (by decide)
    · decide
  have hunsigned : unsignedDecimal cs = decimalPart cs := by rw [unsignedDecimal, hexponent]
  have hread : (strip (String.ofList (signChars sign ++ cs))).toList.filter
      (fun c ↦ c ≠ '_') = signChars sign ++ cs := by
    refine read_ofList fun c hc ↦ ?_
    rcases List.mem_append.mp hc with hc | hc
    · cases sign with
      | true => exact Or.inr (Or.inr (List.mem_singleton.mp hc))
      | false => cases hc
    · exact (hcs c hc).imp_right Or.inl
  have hdecimal : decimalOf (String.ofList (signChars sign ++ cs)) =
      signed (- ·) unsignedDecimal (signChars sign ++ cs) :=
    congrArg (signed (- ·) unsignedDecimal) hread
  rw [hdecimal, ← hunsigned]
  cases sign with
  | true =>
      refine (signed_minus (- ·) unsignedDecimal cs).trans ?_
      simp only [if_pos, neg_one_mul]
  | false =>
      have hsign : ∀ {d : Char}, d.isDigit = false → c ≠ d := by
        rintro _ hd rfl
        exact Bool.false_ne_true (hd.symm.trans hc)
      refine (signed_of_head? (- ·) unsignedDecimal hfirst (hsign (by decide))
        (hsign (by decide))).trans ?_
      simp only [Bool.false_eq_true, if_false, one_mul, Option.map_id']

/-- The digits of `n` before and after a point. -/
structure PlainParts (fraction n : ℕ) (parts : List Char × List Char) : Prop where
  int_ne_nil : parts.1 ≠ []
  int_digits : ∀ c ∈ parts.1, c.isDigit = true
  frac_digits : ∀ c ∈ parts.2, c.isDigit = true
  frac_length : parts.2.length = fraction
  value : Nat.ofDigitChars 10 (parts.1 ++ parts.2) 0 = n

theorem plainParts_splitAtFraction (fraction n : ℕ) :
    PlainParts fraction n (splitAtFraction fraction (filled fraction n)) where
  int_ne_nil := by
    rw [← List.length_pos_iff]
    exact Nat.pos_of_ne_zero (length_splitAtFraction fraction n).1
  int_digits := fun _ hc ↦ isDigit_of_mem_parts (Or.inl hc)
  frac_digits := fun _ hc ↦ isDigit_of_mem_parts (Or.inr hc)
  frac_length := (length_splitAtFraction fraction n).2
  value := by rw [splitAtFraction_append, ofDigitChars_filled]

namespace PlainParts

variable {fraction n : ℕ} {parts : List Char × List Char} (h : PlainParts fraction n parts)

include h

theorem exists_head? : ∃ c, (withPoint parts).head? = some c ∧ c.isDigit = true := by
  obtain ⟨c, hc⟩ := Option.isSome_iff_exists.mp (List.isSome_head?.mpr h.int_ne_nil)
  refine ⟨c, ?_, h.int_digits c (List.mem_of_head? hc)⟩
  rw [withPoint, List.head?_append, hc]
  rfl

theorem isDigit_or_point : ∀ c ∈ withPoint parts, c.isDigit = true ∨ c = '.' := by
  intro c hc
  rcases List.mem_append.mp hc with hc | hc
  · exact Or.inl (h.int_digits c hc)
  · split at hc
    · cases hc
    · exact (List.mem_cons.mp hc).symm.imp_left (h.frac_digits c)

theorem decimalPart_eq : decimalPart (withPoint parts) = some ((n : ℚ) / 10 ^ fraction) := by
  rw [decimalPart_withPoint h.int_ne_nil h.int_digits h.frac_digits, h.value, h.frac_length]

theorem length_dropWhile :
    ((withPoint parts).dropWhile (· ≠ '.')).length = if fraction = 0 then 0 else fraction + 1 := by
  rw [dropWhile_point h.int_digits, ← h.frac_length]
  cases parts.2 with
  | nil => rfl
  | cons c frac => rfl

end PlainParts

theorem decimalOf_plainText (sign : Bool) (fraction n : ℕ) :
    decimalOf (plainText sign fraction n) =
      some ((if sign then -1 else 1) * ((n : ℚ) / 10 ^ fraction)) := by
  have hparts := plainParts_splitAtFraction fraction n
  obtain ⟨c, hhead, hc⟩ := hparts.exists_head?
  rw [plainText, decimalOf_signed sign hhead hc hparts.isDigit_or_point, hparts.decimalPart_eq,
    Option.map_some]

/-- What the text of a decimal shows besides its value. -/
theorem sign_fraction_of_plainText {sign sign' : Bool} {fraction fraction' n n' : ℕ}
    (h : plainText sign fraction n = plainText sign' fraction' n') :
    sign = sign' ∧ fraction = fraction' := by
  have hparts := plainParts_splitAtFraction fraction n
  have hparts' := plainParts_splitAtFraction fraction' n'
  rw [plainText, plainText] at h
  generalize splitAtFraction fraction (filled fraction n) = parts at h hparts
  generalize splitAtFraction fraction' (filled fraction' n') = parts' at h hparts'
  have hlist := String.ofList_injective h
  have hsign : sign = sign' := by
    obtain ⟨c, hhead, hc⟩ := hparts.exists_head?
    obtain ⟨c', hhead', hc'⟩ := hparts'.exists_head?
    have hfirst := congrArg List.head? hlist
    cases sign with
    | true =>
        cases sign' with
        | true => rfl
        | false =>
            rw [signChars, signChars, if_pos rfl, if_neg Bool.false_ne_true, List.nil_append,
              hhead'] at hfirst
            obtain rfl := Option.some.inj hfirst
            exact absurd hc' (by decide)
    | false =>
        cases sign' with
        | true =>
            rw [signChars, signChars, if_pos rfl, if_neg Bool.false_ne_true, List.nil_append,
              hhead] at hfirst
            obtain rfl := Option.some.inj hfirst
            exact absurd hc (by decide)
        | false => rfl
  subst hsign
  refine ⟨rfl, ?_⟩
  have hpoint := congrArg (fun cs ↦ (cs.dropWhile (· ≠ '.')).length)
    (List.append_cancel_left hlist)
  rw [hparts.length_dropWhile, hparts'.length_dropWhile] at hpoint
  split at hpoint
  · split at hpoint
    · omega
    · omega
  · split at hpoint
    · omega
    · omega

theorem decimalOf_dstr (d : PyDecimal) : decimalOf d.dstr = some d.value := by
  rw [dstr_eq, decimalOf_plainText, value_eq]

/-- The text of a decimal is read back as its value.  Two decimals have the same text
exactly when they have the same sign, the same value and as many digits after the
point, so that 1.5 and 1.50 are told apart, and so are 0 and -0. -/
theorem dstr_round_trip (d d' : PyDecimal) :
    decimalOf d.dstr = some d.value ∧
      (d.dstr = d'.dstr ↔
        d.sign = d'.sign ∧ d.value = d'.value ∧ d.fraction = d'.fraction) := by
  refine ⟨decimalOf_dstr d, ?_, ?_⟩
  · intro h
    have hvalue : some d.value = some d'.value := by rw [← decimalOf_dstr d, h, decimalOf_dstr d']
    rw [dstr_eq, dstr_eq] at h
    obtain ⟨hsign, hfraction⟩ := sign_fraction_of_plainText h
    exact ⟨hsign, Option.some.inj hvalue, hfraction⟩
  · rintro ⟨hsign, hvalue, hfraction⟩
    rw [value_eq, value_eq, hsign, hfraction] at hvalue
    have hunit : (if d'.sign then (-1 : ℚ) else 1) ≠ 0 := by split <;> norm_num
    have hscale : (10 : ℚ) ^ d'.fraction ≠ 0 := by positivity
    have hshifted : (d.shifted : ℚ) = d'.shifted :=
      (div_left_inj' hscale).mp (mul_left_cancel₀ hunit hvalue)
    rw [dstr_eq, dstr_eq, hsign, hfraction, Nat.cast_injective hshifted]

/-- An account that a server answers with the texts it was sent is read back with the
values they were made of. -/
theorem got_dstr (name : String) (balance hi lo : PyDecimal) :
    AccountVertex.got ⟨name, .str balance.dstr, .str hi.dstr, .str lo.dstr⟩ =
      some ⟨balance.value, hi.value, lo.value⟩ := by
  simp [AccountVertex.got, PropertyValue.decimal, decimalOf_dstr]

example : (⟨true, 150, -2⟩ : PyDecimal).dstr = "-1.50" := by decide +kernel

end PyDecimal

end HugeGraphValidation.Bench
