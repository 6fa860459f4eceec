import HugeGraphValidation.Bench.Decimal
import HugeGraphValidation.Lib.Numerals

/-!
# The precision of the oracle

The bench adds its increments up as Python decimals, and each operation rounds its
result to the digits of the context.  The increments have eighteen digits after the
point, so that nothing is ever rounded as long as the sums keep below the context.
-/

namespace HugeGraphValidation.Bench

open Lib

/-- `getcontext().prec = 200` -/
def contextPrec : ℕ := 200

/-! ## The oracle with rounded operations -/

section Rounded

variable (rnd : ℚ → ℚ)

section Draws

variable {G : Type} (gen : Generator G)

def randDecIn (r : G) : ℚ × G :=
  let b8 := gen.getrandbits 8 r
  let b64 := gen.getrandbits 64 b8.2
  let b128 := gen.getrandbits 128 b64.2
  let b255 := gen.getrandbits 255 b128.2
  let mag := gen.choice [b8.1, b64.1, b128.1, b255.1] 0 b255.2
  let bits := gen.getrandbits 60 mag.2
  let frac : ℕ := bits.1 % 10 ^ 18
  let d : ℚ := rnd (mag.1 + rnd (frac / 10 ^ 18))
  let coin := gen.random bits.2
  (if coin.1 < 3 / 10 then rnd (-d) else d, coin.2)

def incrementIn (n : String) (r : G) : (String × ℚ) × G :=
  let d := randDecIn rnd gen r
  ((n, d.1), d.2)

def DecimalBench.drawnIn (b : DecimalBench) (rd : ℕ) : Drawn G :=
  let work := Generator.each (incrementIn rnd gen) b.names (gen.seed (100 + rd))
  let dup := gen.sample 50 b.names work.2
  let extra := Generator.each (incrementIn rnd gen) dup.1 dup.2
  ⟨work.1, extra.1, extra.2⟩

end Draws

def accumulateIn (d : ℚ) (o : OracleEntry) : OracleEntry :=
  ⟨rnd (o.balance + d), some (orPick max d o.hi), some (orPick min d o.lo)⟩

def accumulateExtraIn (d : ℚ) (o : OracleEntry) : OracleEntry :=
  ⟨rnd (o.balance + d), o.hi.map fun hi ↦ max hi d, o.lo.map fun lo ↦ min lo d⟩

def DecimalBench.oracleRoundIn {G : Type} (gen : Generator G) (b : DecimalBench) (o : Oracle)
    (rd : ℕ) : Oracle :=
  let drawn := b.drawnIn rnd gen rd
  drawn.extra.foldl (Oracle.add (accumulateExtraIn rnd))
    (drawn.work.foldl (Oracle.add (accumulateIn rnd)) o)

def DecimalBench.oracleIn {G : Type} (gen : Generator G) (b : DecimalBench) (rounds : ℕ) :
    Oracle :=
  (List.range rounds).foldl (b.oracleRoundIn rnd gen) Oracle.init

end Rounded

/-! ## Eighteen digits after the point -/

def Scaled (q : ℚ) : Prop := ∃ k : ℤ, q * 10 ^ 18 = k

theorem Scaled.add {p q : ℚ} (hp : Scaled p) (hq : Scaled q) : Scaled (p + q) := by
  obtain ⟨k, hk⟩ := hp
  obtain ⟨l, hl⟩ := hq
  exact ⟨k + l, by rw [add_mul, hk, hl, Int.cast_add]⟩

theorem Scaled.neg {q : ℚ} (hq : Scaled q) : Scaled (-q) := by
  obtain ⟨k, hk⟩ := hq
  exact ⟨-k, by rw [neg_mul, hk, Int.cast_neg]⟩

theorem scaled_natCast (n : ℕ) : Scaled n :=
  ⟨n * 10 ^ 18, by push_cast; rfl⟩

theorem scaled_fraction (n : ℕ) : Scaled (n / 10 ^ 18) :=
  ⟨n, by rw [div_mul_cancel₀ _ (by positivity), Int.cast_natCast]⟩

/-- Numbers of eighteen digits after the point are kept below the bound. -/
def Keeps (rnd : ℚ → ℚ) (bound : ℚ) : Prop := ∀ q, Scaled q → |q| < bound → rnd q = q

theorem keeps_roundSig : Keeps (roundSig contextPrec) (10 ^ 182) := by
  rintro q ⟨k, hk⟩ hlt
  refine roundSig_eq_self hk ?_
  calc |q| * 10 ^ 18 < 10 ^ 182 * 10 ^ 18 := mul_lt_mul_of_pos_right hlt (by positivity)
    _ = 10 ^ contextPrec := by norm_num [contextPrec]

/-- One increment. -/
structure Increment (d : ℚ) : Prop where
  scaled : Scaled d
  le : |d| ≤ 2 ^ 255

section Run

variable {G : Type} {gen : Generator G} {rnd : ℚ → ℚ} {bound : ℚ}

/-- Whichever size of number is chosen. -/
theorem mag_lt (hbits : ∀ k g, (gen.getrandbits k g).1 < 2 ^ k) (g8 g64 g128 g255 g : G) :
    (gen.choice [(gen.getrandbits 8 g8).1, (gen.getrandbits 64 g64).1,
      (gen.getrandbits 128 g128).1, (gen.getrandbits 255 g255).1] 0 g).1 < 2 ^ 255 := by
  have hmem := gen.choice_mem (List.cons_ne_nil (gen.getrandbits 8 g8).1
    [(gen.getrandbits 64 g64).1, (gen.getrandbits 128 g128).1, (gen.getrandbits 255 g255).1]) 0 g
  revert hmem
  generalize (gen.choice _ 0 g).1 = n
  intro hmem
  simp only [List.mem_cons, List.not_mem_nil, or_false] at hmem
  rcases hmem with rfl | rfl | rfl | rfl
  · exact (hbits 8 g8).trans (by norm_num)
  · exact (hbits 64 g64).trans (by norm_num)
  · exact (hbits 128 g128).trans (by norm_num)
  · exact hbits 255 g255

theorem increment_draw {n : ℕ} (hn : n < 2 ^ 255) (m : ℕ) :
    Increment ((n : ℚ) + ((m % 10 ^ 18 : ℕ) : ℚ) / 10 ^ 18) := by
  have hfrac : ((m % 10 ^ 18 : ℕ) : ℚ) / 10 ^ 18 ≤ 1 := by
    rw [div_le_one (by positivity)]
    exact_mod_cast (Nat.mod_lt m (by positivity)).le
  have hmag : (n : ℚ) + 1 ≤ 2 ^ 255 := by exact_mod_cast hn
  refine ⟨(scaled_natCast n).add (scaled_fraction _), ?_⟩
  rw [abs_of_nonneg (by positivity)]
  linarith

theorem Increment.neg {d : ℚ} (h : Increment d) : Increment (-d) :=
  ⟨h.scaled.neg, by rw [abs_neg]; exact h.le⟩

variable (hbits : ∀ k g, (gen.getrandbits k g).1 < 2 ^ k) (hkeeps : Keeps rnd bound)
  (hbound : (2 : ℚ) ^ 255 < bound)

include hbits

theorem increment_randDec (r : G) : Increment (randDec gen r).1 := by
  unfold randDec
  dsimp only
  split
  · exact (increment_draw (mag_lt hbits _ _ _ _ _) _).neg
  · exact increment_draw (mag_lt hbits _ _ _ _ _) _

include hkeeps hbound

theorem randDecIn_eq : randDecIn rnd gen = randDec gen := by
  have hkept : ∀ d, Increment d → rnd d = d := fun d h ↦
    hkeeps d h.scaled (h.le.trans_lt hbound)
  have hfrac : ∀ m : ℕ, rnd (((m % 10 ^ 18 : ℕ) : ℚ) / 10 ^ 18) =
      ((m % 10 ^ 18 : ℕ) : ℚ) / 10 ^ 18 := by
    intro m
    have h := increment_draw (show 0 < 2 ^ 255 by positivity) m
    rw [Nat.cast_zero, zero_add] at h
    exact hkept _ h
  funext r
  unfold randDecIn randDec
  dsimp only
  rw [hfrac, hkept _ (increment_draw (mag_lt hbits _ _ _ _ _) _),
    hkept _ (increment_draw (mag_lt hbits _ _ _ _ _) _).neg]

theorem drawnIn_eq (b : DecimalBench) (rd : ℕ) : b.drawnIn rnd gen rd = b.drawn gen rd := by
  have hincrement : incrementIn rnd gen = increment gen := by
    funext n r
    rw [incrementIn, increment, randDecIn_eq hbits hkeeps hbound]
  rw [DecimalBench.drawnIn, DecimalBench.drawn, hincrement]

end Run

/-! ## The sums -/

/-- The balances after `t` increments. -/
def Fits (t : ℕ) (o : Oracle) : Prop :=
  ∀ n, Scaled (o n).balance ∧ |(o n).balance| ≤ t * 2 ^ 255

theorem fits_init : Fits 0 Oracle.init := fun _ ↦ ⟨scaled_natCast 0, by simp [Oracle.init]⟩

section Sums

variable {rnd : ℚ → ℚ} {bound : ℚ} {f fIn : ℚ → OracleEntry → OracleEntry} {t : ℕ} {o : Oracle}

theorem fits_balance_add {e : String × ℚ} (h : Fits t o) (he : Increment e.2) :
    Scaled ((o e.1).balance + e.2) ∧ |(o e.1).balance + e.2| ≤ (t + 1 : ℕ) * 2 ^ 255 := by
  obtain ⟨hscaled, hle⟩ := h e.1
  refine ⟨hscaled.add he.scaled, (abs_add_le _ _).trans ?_⟩
  push_cast
  linarith [he.le]

theorem Fits.mono {t' : ℕ} (h : Fits t o) (ht : t ≤ t') : Fits t' o := fun n ↦
  ⟨(h n).1, (h n).2.trans (mul_le_mul_of_nonneg_right (Nat.cast_le.mpr ht) (by positivity))⟩

theorem Fits.add (hf : ∀ d e, (f d e).balance = e.balance + d) {e : String × ℚ}
    (h : Fits t o) (he : Increment e.2) : Fits (t + 1) (Oracle.add f o e) := by
  intro n
  by_cases hname : n = e.1
  · subst hname
    rw [Oracle.add, Function.update_self, hf]
    exact fits_balance_add h he
  · rw [Oracle.add, Function.update_of_ne hname]
    exact h.mono (Nat.le_succ t) n

theorem Fits.foldl (hf : ∀ d e, (f d e).balance = e.balance + d) {es : List (String × ℚ)}
    (hes : ∀ e ∈ es, Increment e.2) (h : Fits t o) :
    Fits (t + es.length) (es.foldl (Oracle.add f) o) := by
  induction es generalizing t o with
  | nil => exact h
  | cons e es ih =>
      obtain ⟨he, hes⟩ := List.forall_mem_cons.mp hes
      have hrest := ih hes (h.add hf he)
      rw [List.length_cons, Nat.add_comm es.length, ← Nat.add_assoc]
      exact hrest

theorem balance_accumulate (d : ℚ) (e : OracleEntry) :
    (accumulate d e).balance = e.balance + d := rfl

theorem balance_accumulateExtra (d : ℚ) (e : OracleEntry) :
    (accumulateExtra d e).balance = e.balance + d := rfl

variable (rnd) in
theorem accumulateIn_eq (d : ℚ) (e : OracleEntry) :
    accumulateIn rnd d e = { accumulate d e with balance := rnd (e.balance + d) } := rfl

variable (rnd) in
theorem accumulateExtraIn_eq (d : ℚ) (e : OracleEntry) :
    accumulateExtraIn rnd d e = { accumulateExtra d e with balance := rnd (e.balance + d) } := rfl

/-- As long as the sums keep below the bound, the rounded loop is the exact one. -/
theorem foldl_rounded (hkeeps : Keeps rnd bound) (hf : ∀ d e, (f d e).balance = e.balance + d)
    (hfIn : ∀ d e, fIn d e = { f d e with balance := rnd (e.balance + d) })
    {es : List (String × ℚ)} (hes : ∀ e ∈ es, Increment e.2) (h : Fits t o)
    (hbound : ((t + es.length : ℕ) : ℚ) * 2 ^ 255 < bound) :
    es.foldl (Oracle.add fIn) o = es.foldl (Oracle.add f) o := by
  induction es generalizing t o with
  | nil => rfl
  | cons e es ih =>
      obtain ⟨he, hes⟩ := List.forall_mem_cons.mp hes
      obtain ⟨hscaled, hle⟩ := fits_balance_add h he
      rw [List.length_cons, Nat.add_comm es.length, ← Nat.add_assoc] at hbound
      have hlt : |(o e.1).balance + e.2| < bound := by
        refine (hle.trans ?_).trans_lt hbound
        exact mul_le_mul_of_nonneg_right (Nat.cast_le.mpr (Nat.le_add_right _ _)) (by positivity)
      have hstep : Oracle.add fIn o e = Oracle.add f o e := by
        rw [Oracle.add, Oracle.add, hfIn, hkeeps _ hscaled hlt, ← hf]
      rw [List.foldl_cons, List.foldl_cons, hstep]
      exact ih hes (h.add hf he) hbound

end Sums

section Rounds

variable {G : Type} {gen : Generator G} {rnd : ℚ → ℚ} {bound : ℚ} (b : DecimalBench)
  (hbits : ∀ k g, (gen.getrandbits k g).1 < 2 ^ k)

variable (gen) in
theorem length_drawn (rd : ℕ) :
    (b.drawn gen rd).work.length = b.accounts ∧ (b.drawn gen rd).extra.length = 50 := by
  have hnames : b.names.length = b.accounts := by
    rw [DecimalBench.names, List.length_map, List.length_range]
  refine ⟨(Generator.length_each _ _ _).trans hnames, (Generator.length_each _ _ _).trans ?_⟩
  exact gen.length_sample _ (hnames ▸ b.accounts_ge)

include hbits

theorem increment_drawn (rd : ℕ) :
    (∀ e ∈ (b.drawn gen rd).work, Increment e.2) ∧ ∀ e ∈ (b.drawn gen rd).extra, Increment e.2 :=
  have hdraw : ∀ n r, Increment (increment gen n r).1.2 := fun _ r ↦ increment_randDec hbits r
  ⟨Generator.forall_mem_each (P := fun e : String × ℚ ↦ Increment e.2) hdraw _ _,
    Generator.forall_mem_each (P := fun e : String × ℚ ↦ Increment e.2) hdraw _ _⟩

theorem fits_oracleRound {t : ℕ} {o : Oracle} (h : Fits t o) (rd : ℕ) :
    Fits (t + (b.accounts + 50)) (b.oracleRound gen o rd) := by
  obtain ⟨hwork, hextra⟩ := increment_drawn b hbits rd
  obtain ⟨hworkLength, hextraLength⟩ := length_drawn gen b rd
  have hafter := (h.foldl balance_accumulate hwork).foldl balance_accumulateExtra hextra
  rw [hworkLength, hextraLength, Nat.add_assoc] at hafter
  exact hafter

theorem fits_oracle (rounds : ℕ) : Fits (rounds * (b.accounts + 50)) (b.oracle gen rounds) := by
  induction rounds with
  | zero =>
      rw [Nat.zero_mul]
      exact fits_init
  | succ rounds ih =>
      rw [DecimalBench.oracle, List.range_succ, List.foldl_append, Nat.succ_mul]
      exact fits_oracleRound b hbits ih rounds

theorem oracleRoundIn_eq (hkeeps : Keeps rnd bound) {t : ℕ} {o : Oracle} (h : Fits t o)
    (hbound : ((t + (b.accounts + 50) : ℕ) : ℚ) * 2 ^ 255 < bound) (rd : ℕ) :
    b.oracleRoundIn rnd gen o rd = b.oracleRound gen o rd := by
  obtain ⟨hwork, hextra⟩ := increment_drawn b hbits rd
  obtain ⟨hworkLength, hextraLength⟩ := length_drawn gen b rd
  have hle : ∀ {k : ℕ}, k ≤ t + (b.accounts + 50) → (k : ℚ) * 2 ^ 255 < bound := fun hk ↦
    (mul_le_mul_of_nonneg_right (Nat.cast_le.mpr hk) (by positivity)).trans_lt hbound
  have hone : (2 : ℚ) ^ 255 < bound := by
    have h1 := hle (k := 1) (by omega)
    rwa [Nat.cast_one, one_mul] at h1
  have hloop : (b.drawn gen rd).work.foldl (Oracle.add (accumulateIn rnd)) o =
      (b.drawn gen rd).work.foldl (Oracle.add accumulate) o :=
    foldl_rounded hkeeps balance_accumulate (accumulateIn_eq rnd) hwork h (hle (by omega))
  have hafter : Fits (t + (b.drawn gen rd).work.length)
      ((b.drawn gen rd).work.foldl (Oracle.add accumulate) o) :=
    h.foldl balance_accumulate hwork
  rw [DecimalBench.oracleRoundIn, DecimalBench.oracleRound, drawnIn_eq hbits hkeeps hone, hloop]
  exact foldl_rounded hkeeps balance_accumulateExtra (accumulateExtraIn_eq rnd) hextra hafter
    (hle (by omega))

theorem oracleIn_eq (hkeeps : Keeps rnd bound) {rounds : ℕ}
    (hbound : ((rounds * (b.accounts + 50) : ℕ) : ℚ) * 2 ^ 255 < bound) :
    b.oracleIn rnd gen rounds = b.oracle gen rounds := by
  induction rounds with
  | zero => rfl
  | succ rounds ih =>
      rw [Nat.succ_mul] at hbound
      have hbefore : ((rounds * (b.accounts + 50) : ℕ) : ℚ) * 2 ^ 255 < bound := by
        refine lt_of_le_of_lt ?_ hbound
        exact mul_le_mul_of_nonneg_right (Nat.cast_le.mpr (Nat.le_add_right _ _)) (by positivity)
      have hrounds := ih hbefore
      rw [DecimalBench.oracleIn, DecimalBench.oracle] at hrounds
      rw [DecimalBench.oracleIn, DecimalBench.oracle, List.range_succ, List.foldl_append,
        List.foldl_append, hrounds]
      exact oracleRoundIn_eq b hbits hkeeps (fits_oracle b hbits rounds) hbound rounds

end Rounds

/-- The oracle of the bench, added up with the 200 digits of its context, is the exact
one for up to 10^105 upserts: each increment is drawn exactly, and every balance is a
number of eighteen digits after the point that fits into the context. -/
theorem oracle_precision {G : Type} (gen : Generator G)
    (hbits : ∀ k g, (gen.getrandbits k g).1 < 2 ^ k) (b : DecimalBench) (rounds : ℕ)
    (hupserts : rounds * (b.accounts + 50) ≤ 10 ^ 105) :
    (∀ rd, b.drawnIn (roundSig contextPrec) gen rd = b.drawn gen rd) ∧
      b.oracleIn (roundSig contextPrec) gen rounds = b.oracle gen rounds ∧
      ∀ n, ∃ k : ℤ, (b.oracle gen rounds n).balance * 10 ^ 18 = k ∧ |k| < 10 ^ contextPrec := by
  have hbound : ((rounds * (b.accounts + 50) : ℕ) : ℚ) * 2 ^ 255 < 10 ^ 182 := by
    calc ((rounds * (b.accounts + 50) : ℕ) : ℚ) * 2 ^ 255
        ≤ ((10 ^ 105 : ℕ) : ℚ) * 2 ^ 255 :=
          mul_le_mul_of_nonneg_right (Nat.cast_le.mpr hupserts) (by positivity)
      _ < 10 ^ 182 := by norm_num
  refine ⟨drawnIn_eq hbits keeps_roundSig (by norm_num) b,
    oracleIn_eq b hbits keeps_roundSig hbound, fun n ↦ ?_⟩
  obtain ⟨⟨k, hk⟩, hle⟩ := fits_oracle b hbits rounds n
  refine ⟨k, hk, ?_⟩
  have hlt : |(k : ℚ)| < 10 ^ contextPrec := by
    rw [← hk, abs_mul, abs_of_pos (show (0 : ℚ) < 10 ^ 18 by positivity)]
    calc |(b.oracle gen rounds n).balance| * 10 ^ 18
        < 10 ^ 182 * 10 ^ 18 := mul_lt_mul_of_pos_right (hle.trans_lt hbound) (by positivity)
      _ = 10 ^ contextPrec := by norm_num [contextPrec]
  exact_mod_cast hlt

theorem oracle_precision_fifty_accounts :
    fiftyAccounts.oracleIn (roundSig contextPrec) counting 2 = fiftyAccounts.oracle counting 2 :=
  (oracle_precision counting (fun k g ↦ Nat.mod_lt g (Nat.two_pow_pos k)) fiftyAccounts 2
    (show 2 * (50 + 50) ≤ 10 ^ 105 by norm_num)).2.1

end HugeGraphValidation.Bench
