import HugeGraphValidation.Bench.DecimalText
import HugeGraphValidation.Bench.Precision
import HugeGraphValidation.Lib.Orders

/-!
# What the bench notices

Chunks of a round may be lost: the server refuses them, or answers and does not keep
them, or the call raises and ends its worker.  What the bench reports at the end depends
on nothing but the increments that were applied and the ones that were lost.
-/

namespace HugeGraphValidation.Bench

open Lib

/-- The increments of one account, in their order. -/
def incrementsOf (es : List (String × ℚ)) (n : String) : List ℚ :=
  (es.filter fun e ↦ e.1 = n).map Prod.snd

/-- The entries of the chunks of all rounds. -/
def entriesOf (chunks : ℕ → List (List (String × ℚ))) (rounds : ℕ) : List (String × ℚ) :=
  (List.range rounds).flatMap fun rd ↦ (chunks rd).flatten

/-- Lost increments that the values of the account do not show: they add up to nothing
and lie between those that were applied. -/
def Unnoticed (applied lost : List ℚ) : Prop :=
  lost.sum = 0 ∧ (∀ d ∈ lost, ∃ x ∈ applied, d ≤ x) ∧ ∀ d ∈ lost, ∃ x ∈ applied, x ≤ d

instance (applied lost : List ℚ) : Decidable (Unnoticed applied lost) :=
  inferInstanceAs (Decidable (_ ∧ _ ∧ _))

/-- The server answers with the accounts that it has, as many as `limit` lets through, with
their values as strings. -/
structure Answered (accounts : String → Option Account) (names : List String)
    (data : List AccountVertex) : Prop where
  listed : (data.map AccountVertex.name).Subperm (names.filter fun n ↦ (accounts n).isSome)
  length : data.length = min 100000 (names.countP fun n ↦ (accounts n).isSome)
  wellFormed : ∀ v ∈ data, v.WellFormed names
  got : ∀ v ∈ data, v.got = accounts v.name

/-- Within the limit the answer lists each account that the server has, once. -/
theorem Answered.perm {accounts : String → Option Account} {names : List String}
    {data : List AccountVertex} (h : Answered accounts names data) (hle : names.length ≤ 100000) :
    (data.map AccountVertex.name).Perm (names.filter fun n ↦ (accounts n).isSome) := by
  refine h.listed.perm_of_length_le ?_
  rw [List.length_map, h.length, List.countP_eq_length_filter]
  exact le_min ((List.length_filter_le _ _).trans hle) le_rfl

/-! ## The values of an account -/

theorem foldl_accumulate_eq (es : List (String × ℚ)) (o : Oracle) (n : String) :
    es.foldl (Oracle.add accumulate) o n =
      (incrementsOf es n).foldl (fun e d ↦ accumulate d e) (o n) := by
  induction es generalizing o with
  | nil => rfl
  | cons e es ih =>
      rw [List.foldl_cons, ih]
      by_cases hname : e.1 = n
      · subst hname
        simp [incrementsOf, Oracle.add]
      · simp [incrementsOf, Oracle.add, hname, Function.update_of_ne (Ne.symm hname)]

theorem foldl_accumulate_init (ds : List ℚ) :
    ds.foldl (fun e d ↦ accumulate d e) ⟨0, none, none⟩ = ⟨ds.sum, ds.max?, ds.min?⟩ := by
  induction ds using List.reverseRecOn with
  | nil => rfl
  | append_singleton ds d ih =>
      rw [List.foldl_append, ih, List.sum_append, max?_concat, min?_concat]
      cases hmax : ds.max? <;> cases hmin : ds.min? <;> simp [accumulate, orPick]

/-- An entry holds the sum, the largest and the least of the increments. -/
theorem accumulated_eq (es : List (String × ℚ)) (n : String) :
    es.foldl (Oracle.add accumulate) Oracle.init n =
      ⟨(incrementsOf es n).sum, (incrementsOf es n).max?, (incrementsOf es n).min?⟩ := by
  rw [foldl_accumulate_eq]
  exact foldl_accumulate_init _

theorem incrementsOf_append (es es' : List (String × ℚ)) (n : String) :
    incrementsOf (es ++ es') n = incrementsOf es n ++ incrementsOf es' n := by
  simp [incrementsOf]

/-- Lost increments leave the entry as it is exactly when they are unnoticed. -/
theorem accumulated_append_iff {applied : List (String × ℚ)} (lost : List (String × ℚ))
    {n : String} (hne : incrementsOf applied n ≠ []) :
    (applied ++ lost).foldl (Oracle.add accumulate) Oracle.init n =
        applied.foldl (Oracle.add accumulate) Oracle.init n ↔
      Unnoticed (incrementsOf applied n) (incrementsOf lost n) := by
  rw [accumulated_eq, accumulated_eq, incrementsOf_append, OracleEntry.mk.injEq,
    List.sum_append, add_eq_left, max?_append_eq_iff hne, min?_append_eq_iff hne]
  rfl

/-! ## The server and the oracle -/

theorem seen_serverAfter_eq (applied : ℕ → List (List (String × ℚ))) (rounds : ℕ) (n : String) :
    seen (serverAfter applied rounds n) =
      (entriesOf applied rounds).foldl (Oracle.add accumulate) Oracle.init n := by
  rw [entriesOf, List.foldl_flatMap]
  exact congrFun (seen_serverAfter applied rounds) n

/-- An account exists once an increment of it was applied. -/
theorem isSome_serverAfter_iff (applied : ℕ → List (List (String × ℚ))) (rounds : ℕ)
    (n : String) :
    (serverAfter applied rounds n).isSome ↔ incrementsOf (entriesOf applied rounds) n ≠ [] := by
  have hseen := seen_serverAfter_eq applied rounds n
  rw [accumulated_eq] at hseen
  have hhi := congrArg OracleEntry.hi hseen
  cases haccount : serverAfter applied rounds n with
  | none =>
      rw [haccount] at hhi
      simpa using List.max?_eq_none_iff.mp hhi.symm
  | some a =>
      rw [haccount] at hhi
      have hne : incrementsOf (entriesOf applied rounds) n ≠ [] := by
        intro hnil
        rw [hnil] at hhi
        cases hhi
      simpa using hne

/-! ## The texts of the answer -/

/-- A number of eighteen digits after the point. -/
def scaledDecimal (q : ℚ) : PyDecimal := ⟨q < 0, (q * 10 ^ 18).num.natAbs, -18⟩

theorem value_scaledDecimal {q : ℚ} (h : Scaled q) : (scaledDecimal q).value = q := by
  obtain ⟨k, hk⟩ := h
  have hq : q = k * 10 ^ (-18 : ℤ) := by
    rw [← hk, zpow_neg, mul_assoc]
    norm_num
  have hnum : (q * 10 ^ 18).num = k := by rw [hk, Rat.num_intCast]
  have hsign : q < 0 ↔ k < 0 := by
    rw [← Int.cast_lt_zero (R := ℚ), ← hk]
    exact ⟨fun h ↦ mul_neg_of_neg_of_pos h (by positivity),
      fun h ↦ by_contra fun hq ↦ absurd h (not_lt.mpr (mul_nonneg (not_lt.mp hq) (by positivity)))⟩
  rw [PyDecimal.value, scaledDecimal]
  dsimp only
  rw [hnum, ← mul_assoc]
  conv_rhs => rw [hq]
  congr 1
  by_cases hneg : k < 0
  · rw [decide_eq_true (hsign.mpr hneg), if_pos rfl, Nat.cast_natAbs, abs_of_neg hneg]
    push_cast
    ring
  · rw [decide_eq_false (mt hsign.mp hneg), if_neg Bool.false_ne_true, one_mul, Nat.cast_natAbs,
      abs_of_nonneg (not_lt.mp hneg)]

def vertexOf (n : String) (a : Account) : AccountVertex :=
  ⟨n, .str (scaledDecimal a.balance).dstr, .str (scaledDecimal a.hi).dstr,
    .str (scaledDecimal a.lo).dstr⟩

structure Account.IsScaled (a : Account) : Prop where
  balance : Scaled a.balance
  hi : Scaled a.hi
  lo : Scaled a.lo

theorem got_vertexOf {n : String} {a : Account} (h : a.IsScaled) : (vertexOf n a).got = some a := by
  rw [vertexOf, PyDecimal.got_dstr, value_scaledDecimal h.balance, value_scaledDecimal h.hi,
    value_scaledDecimal h.lo]

theorem map_name_vertexOf (accounts : String → Option Account) (names : List String) :
    (names.filterMap fun n ↦ (accounts n).map (vertexOf n)).map AccountVertex.name =
      names.filter fun n ↦ (accounts n).isSome := by
  induction names with
  | nil => rfl
  | cons n names ih =>
      cases haccount : accounts n with
      | none => simp [haccount, ih]
      | some a => simp [haccount, ih, vertexOf]

theorem answered_vertexOf {accounts : String → Option Account}
    (h : ∀ n a, accounts n = some a → a.IsScaled) (names : List String) :
    Answered accounts names
      ((names.filterMap fun n ↦ (accounts n).map (vertexOf n)).take 100000) := by
  have hmem : ∀ v ∈ (names.filterMap fun n ↦ (accounts n).map (vertexOf n)).take 100000,
      ∃ n ∈ names, ∃ a, accounts n = some a ∧ v = vertexOf n a := by
    intro v hv
    obtain ⟨n, hn, hv⟩ := List.mem_filterMap.mp (List.mem_of_mem_take hv)
    obtain ⟨a, ha, rfl⟩ := Option.map_eq_some_iff.mp hv
    exact ⟨n, hn, a, ha, rfl⟩
  refine ⟨?_, ?_, fun v hv ↦ ?_, fun v hv ↦ ?_⟩
  · rw [List.map_take, map_name_vertexOf]
    exact (List.take_sublist _ _).subperm
  · rw [List.length_take, ← List.length_map AccountVertex.name, map_name_vertexOf,
      List.countP_eq_length_filter]
  · obtain ⟨n, hn, a, ha, rfl⟩ := hmem v hv
    exact ⟨hn, ⟨_, _, rfl, PyDecimal.decimalOf_dstr _⟩, ⟨_, _, rfl, PyDecimal.decimalOf_dstr _⟩,
      ⟨_, _, rfl, PyDecimal.decimalOf_dstr _⟩⟩
  · obtain ⟨n, -, a, ha, rfl⟩ := hmem v hv
    rw [got_vertexOf (h n a ha)]
    exact ha.symm

theorem scaled_sum {ds : List ℚ} (h : ∀ d ∈ ds, Scaled d) : Scaled ds.sum := by
  induction ds with
  | nil => exact scaled_natCast 0
  | cons d ds ih =>
      obtain ⟨hd, hds⟩ := List.forall_mem_cons.mp h
      rw [List.sum_cons]
      exact hd.add (ih hds)

theorem isScaled_serverAfter {applied : ℕ → List (List (String × ℚ))} {rounds : ℕ}
    (h : ∀ e ∈ entriesOf applied rounds, Scaled e.2) {n : String} {a : Account}
    (ha : serverAfter applied rounds n = some a) : a.IsScaled := by
  have hseen := seen_serverAfter_eq applied rounds n
  rw [ha, accumulated_eq, seen, OracleEntry.mk.injEq] at hseen
  obtain ⟨hbalance, hhi, hlo⟩ := hseen
  have hds : ∀ d ∈ incrementsOf (entriesOf applied rounds) n, Scaled d := by
    intro d hd
    obtain ⟨e, he, rfl⟩ := List.mem_map.mp hd
    exact h e (List.mem_of_mem_filter he)
  exact ⟨hbalance ▸ scaled_sum hds, hds _ (List.max?_mem hhi.symm), hds _ (List.min?_mem hlo.symm)⟩

/-! ## The run -/

section Run

variable {G : Type} {T : ℕ} (gen : Generator G) (b : DecimalBench)
  (call : ℕ → List (List (String × ℚ)) → List (String × ℚ) → Option Answer)

/-- The chunks of a round that were not applied, posted or not. -/
def DecimalBench.lost (applied : ℕ → List (List (String × ℚ))) (rd : ℕ) :
    List (List (String × ℚ)) :=
  (b.chunks gen rd).diff (applied rd)

/-- The chunks of a round are those that were applied and those that were lost. -/
theorem applied_append_lost (hload : b.verifyOnly = false) {rd : ℕ} {schedule : List (Fin T)}
    {applied : ℕ → List (List (String × ℚ))}
    (happlied : (applied rd).Subperm (b.workers gen call rd schedule).posted) :
    (applied rd ++ b.lost gen applied rd).Perm (b.chunks gen rd) := by
  rw [workers_eq gen b call hload] at happlied
  have hchunks := happlied.trans (work_subperm (drawsAll_takeNext _) schedule)
  exact List.subperm_append_diff_self_of_count_le (List.subperm_ext_iff.mp hchunks)

theorem oracle_eq_foldl (rounds : ℕ) :
    b.oracle gen rounds =
      ((List.range rounds).flatMap (b.accumulated gen)).foldl (Oracle.add accumulate)
        Oracle.init := by
  rw [DecimalBench.oracle, List.foldl_flatMap]
  apply List.foldl_ext
  intro o rd _
  exact oracleRound_eq gen b rd o

/-- The applied and the lost entries are those of the oracle. -/
theorem oracle_eq_of_perm {applied lost : ℕ → List (List (String × ℚ))} {rounds : ℕ}
    (h : ∀ rd < rounds, (applied rd ++ lost rd).flatten.Perm (b.accumulated gen rd)) :
    b.oracle gen rounds =
      (entriesOf applied rounds ++ entriesOf lost rounds).foldl (Oracle.add accumulate)
        Oracle.init := by
  have hrounds : ((List.range rounds).flatMap fun rd ↦
      (applied rd).flatten ++ (lost rd).flatten).Perm
        ((List.range rounds).flatMap (b.accumulated gen)) := by
    refine List.Perm.flatMap_left _ fun rd hrd ↦ ?_
    rw [← List.flatten_append]
    exact h rd (List.mem_range.mp hrd)
  rw [oracle_eq_foldl]
  exact foldl_accumulate_perm ((List.flatMap_append_perm _ _ _).trans hrounds).symm _

/-- An account that the answer shows is right exactly when what it lost is unnoticed. -/
theorem shows_iff_unnoticed {applied lost : ℕ → List (List (String × ℚ))} {rounds : ℕ}
    (horacle : b.oracle gen rounds =
      (entriesOf applied rounds ++ entriesOf lost rounds).foldl (Oracle.add accumulate)
        Oracle.init)
    {v : AccountVertex} (hgot : v.got = serverAfter applied rounds v.name)
    (hsome : (serverAfter applied rounds v.name).isSome) :
    v.Shows (b.oracle gen rounds v.name) ↔
      Unnoticed (incrementsOf (entriesOf applied rounds) v.name)
        (incrementsOf (entriesOf lost rounds) v.name) := by
  have hne := (isSome_serverAfter_iff applied rounds v.name).mp hsome
  obtain ⟨a, ha⟩ := Option.isSome_iff_exists.mp hsome
  rw [← accumulated_append_iff _ hne, ← horacle, ← seen_serverAfter_eq, ha,
    AccountVertex.Shows, hgot, ha, Option.map_some, Option.some.injEq, eq_comm]

/-- Within the limit the vertices that are wrong are the accounts with noticed losses. -/
theorem countP_noticed {applied lost : ℕ → List (List (String × ℚ))} {rounds : ℕ}
    (horacle : b.oracle gen rounds =
      (entriesOf applied rounds ++ entriesOf lost rounds).foldl (Oracle.add accumulate)
        Oracle.init)
    {names : List String} (hle : names.length ≤ 100000) {data : List AccountVertex}
    (hdata : Answered (serverAfter applied rounds) names data) :
    data.countP (fun v ↦ ¬ v.Shows (b.oracle gen rounds v.name)) =
      names.countP fun n ↦ incrementsOf (entriesOf applied rounds) n ≠ [] ∧
        ¬ Unnoticed (incrementsOf (entriesOf applied rounds) n)
          (incrementsOf (entriesOf lost rounds) n) := by
  have hlisted := hdata.perm hle
  have hsome : ∀ v ∈ data, (serverAfter applied rounds v.name).isSome := fun v hv ↦
    (List.mem_filter.mp (hlisted.subset (List.mem_map_of_mem hv))).2
  calc data.countP (fun v ↦ ¬ v.Shows (b.oracle gen rounds v.name))
      = data.countP fun v ↦ ¬ Unnoticed (incrementsOf (entriesOf applied rounds) v.name)
          (incrementsOf (entriesOf lost rounds) v.name) := by
        refine List.countP_congr fun v hv ↦ ?_
        rw [decide_eq_true_iff, decide_eq_true_iff, not_iff_not]
        exact shows_iff_unnoticed gen b horacle (hdata.got v hv) (hsome v hv)
    _ = (data.map AccountVertex.name).countP fun n ↦
          ¬ Unnoticed (incrementsOf (entriesOf applied rounds) n)
            (incrementsOf (entriesOf lost rounds) n) := by
        rw [List.countP_map]
        rfl
    _ = names.countP fun n ↦ incrementsOf (entriesOf applied rounds) n ≠ [] ∧
          ¬ Unnoticed (incrementsOf (entriesOf applied rounds) n)
            (incrementsOf (entriesOf lost rounds) n) := by
        rw [hlisted.countP_eq, List.countP_filter]
        refine List.countP_congr fun n _ ↦ ?_
        rw [Bool.and_eq_true, decide_eq_true_iff, decide_eq_true_iff, and_comm,
          isSome_serverAfter_iff]

/-- Where nothing is lost, every account has something applied. -/
theorem kept_of_nothing_lost {applied lost : ℕ → List (List (String × ℚ))} {rounds : ℕ}
    (horacle : b.oracle gen rounds =
      (entriesOf applied rounds ++ entriesOf lost rounds).foldl (Oracle.add accumulate)
        Oracle.init)
    (hrounds : 1 ≤ rounds) (hnone : ∀ rd < rounds, lost rd = []) {n : String}
    (hn : n ∈ b.names) :
    incrementsOf (entriesOf applied rounds) n ≠ [] ∧
      Unnoticed (incrementsOf (entriesOf applied rounds) n)
        (incrementsOf (entriesOf lost rounds) n) := by
  have hgone : entriesOf lost rounds = [] := by
    refine List.flatMap_eq_nil_iff.mpr fun rd hrd ↦ ?_
    rw [hnone rd (List.mem_range.mp hrd), List.flatten_nil]
  have hseeded := (seeded_oracle gen b hrounds hn).1
  rw [horacle, hgone, List.append_nil, accumulated_eq] at hseeded
  refine ⟨fun hnil ↦ ?_, ?_⟩
  · rw [hnil] at hseeded
    cases hseeded
  · simp [hgone, incrementsOf, Unnoticed]

/-- Where the server keeps just the chunks that it answers with 200, the others are lost. -/
theorem countP_recorded (hload : b.verifyOnly = false) (hT : 1 ≤ T) {rd : ℕ}
    {schedule : List (Fin T)} (hfinished : (b.workers gen call rd schedule).Finished)
    {applied : ℕ → List (List (String × ℚ))}
    (hkept : (applied rd).Perm
      (((b.workers gen call rd schedule).recorded.filter fun e ↦ e.2.status = 200).map Prod.fst))
    (hchunks : (applied rd ++ b.lost gen applied rd).Perm (b.chunks gen rd)) :
    (b.workers gen call rd schedule).recorded.countP (fun e ↦ e.2.status ≠ 200) =
      (b.lost gen applied rd).length := by
  have hrecorded := (workers_perm gen b call hload hT hfinished).2
  have hall := hrecorded.length_eq.trans hchunks.length_eq.symm
  have happlied := hkept.length_eq
  have hsplit := List.length_eq_countP_add_countP
    (fun e : List (String × ℚ) × Answer ↦ decide (e.2.status = 200))
    (l := (b.workers gen call rd schedule).recorded)
  rw [List.length_map, List.length_append] at hall
  rw [List.length_map, ← List.countP_eq_length_filter] at happlied
  simp only [decide_eq_true_eq] at hsplit
  simp only [ne_eq]
  omega

/-- The chunk of a call that raises is in no answer. -/
theorem length_recorded_lt (hload : b.verifyOnly = false) {rd : ℕ} {schedule : List (Fin T)}
    (hdied : (b.workers gen call rd schedule).HasDied) :
    (b.workers gen call rd schedule).recorded.length < (b.chunks gen rd).length := by
  obtain ⟨w, chunk, hphase⟩ := hdied
  rw [workers_eq gen b call hload] at hphase ⊢
  have hsub := (work_died (drawsAll_takeNext _) hphase).length_le
  rw [List.length_cons, List.length_map] at hsub
  exact hsub

/-- Whatever the workers and the server did: the bench checks the accounts of which
something was applied, up to the limit of its query.  Within the limit it counts those
whose losses are noticed; it checks all accounts and finds no mismatch exactly when every
account has something applied and nothing noticed lost, and so it is where nothing was
lost.  Where every call returns and the server keeps just what it answers with 200, the
errors are as many as the lost chunks; a chunk whose call raises is in no answer. -/
theorem decimal_bench_losses (hload : b.verifyOnly = false) (hT : 1 ≤ T)
    (schedule : ℕ → List (Fin T)) (rounds : ℕ) (applied : ℕ → List (List (String × ℚ)))
    (happlied : ∀ rd < rounds,
      (applied rd).Subperm (b.workers gen call rd (schedule rd)).posted)
    (edges query : Option Reply) (hreached : Reached b.accounts b.verifyOnly edges query)
    (dupset : List String) (data : List AccountVertex)
    (hdata : Answered (serverAfter applied rounds) b.names data) :
    let crew := fun rd ↦ b.workers gen call rd (schedule rd)
    let lost := b.lost gen applied
    let kept := incrementsOf (entriesOf applied rounds)
    let gone := incrementsOf (entriesOf lost rounds)
    (∃ c, readBack gen b.names (b.oracle gen rounds) dupset b.verifyOnly edges query data =
        some c ∧
      c.checked = min 100000 (b.names.countP fun n ↦ kept n ≠ []) ∧
      (b.accounts ≤ 100000 →
        c.mism = b.names.countP (fun n ↦ kept n ≠ [] ∧ ¬ Unnoticed (kept n) (gone n)) ∧
        (c.checked = b.accounts ∧ c.mism = 0 ↔
          ∀ n ∈ b.names, kept n ≠ [] ∧ Unnoticed (kept n) (gone n)) ∧
        (1 ≤ rounds → (∀ rd < rounds, lost rd = []) →
          c.checked = b.accounts ∧ c.mism = 0))) ∧
    ((∀ rd < rounds, (crew rd).Finished ∧
        (applied rd).Perm (((crew rd).recorded.filter fun e ↦ e.2.status = 200).map Prod.fst)) →
      (Dict.values (upsertErrors ((List.range rounds).flatMap fun rd ↦ (crew rd).recorded))).sum =
        ((List.range rounds).map fun rd ↦ (lost rd).length).sum) ∧
    ∀ rd < rounds, (crew rd).HasDied → (crew rd).recorded.length < (b.chunks gen rd).length := by
  intro crew lost kept gone
  have hchunks : ∀ rd < rounds, (applied rd ++ lost rd).Perm (b.chunks gen rd) := fun rd hrd ↦
    applied_append_lost gen b call hload (happlied rd hrd)
  have hperm : ∀ rd < rounds, (applied rd ++ lost rd).flatten.Perm (b.accumulated gen rd) := by
    intro rd hrd
    have hflatten := (hchunks rd hrd).flatten
    rw [chunks_flatten] at hflatten
    exact hflatten.trans (work_perm_accumulated gen b rd)
  have horacle := oracle_eq_of_perm gen b hperm
  obtain ⟨c, hrun, hlength, hmism⟩ :=
    verifyAccounts_eq (b.oracle gen rounds) dupset hdata.wellFormed
  have hread : readBack gen b.names (b.oracle gen rounds) dupset b.verifyOnly edges query data =
      some c := (readBack_of_reached gen hreached data).trans hrun
  have hkept : ∀ n, (serverAfter applied rounds n).isSome = decide (kept n ≠ []) := by
    intro n
    rw [Bool.eq_iff_iff, decide_eq_true_iff]
    exact isSome_serverAfter_iff applied rounds n
  have hchecked : c.checked = min 100000 (b.names.countP fun n ↦ kept n ≠ []) := by
    rw [hlength, hdata.length]
    simp only [hkept]
  refine ⟨⟨c, hread, hchecked, fun hlimit ↦ ?_⟩, fun hkeeps ↦ ?_, fun rd _ hdied ↦
    length_recorded_lt gen b call hload hdied⟩
  · have hlen : b.names.length = b.accounts := by
      rw [DecimalBench.names, List.length_map, List.length_range]
    have hle : b.names.countP (fun n ↦ kept n ≠ []) ≤ 100000 :=
      List.countP_le_length.trans (hlen.le.trans hlimit)
    have hcount :
        c.mism = b.names.countP fun n ↦ kept n ≠ [] ∧ ¬ Unnoticed (kept n) (gone n) :=
      hmism.trans (countP_noticed gen b horacle (hlen.le.trans hlimit) hdata)
    have hpass : c.checked = b.accounts ∧ c.mism = 0 ↔
        ∀ n ∈ b.names, kept n ≠ [] ∧ Unnoticed (kept n) (gone n) := by
      rw [hchecked, min_eq_right hle, hcount, ← hlen, List.countP_eq_length,
        List.countP_eq_zero, ← forall₂_and]
      simp only [decide_eq_true_iff, not_and, not_not]
      exact forall₂_congr fun n _ ↦ and_congr_right fun hne ↦ forall_prop_of_true hne
    exact ⟨hcount, hpass, fun hrounds hnone ↦ hpass.mpr fun n hn ↦
      kept_of_nothing_lost gen b horacle hrounds hnone hn⟩
  · rw [sum_upsertErrors, List.countP_flatMap]
    refine congrArg List.sum (List.map_congr_left fun rd hrd ↦ ?_)
    obtain ⟨hfinished, happly⟩ := hkeeps rd (List.mem_range.mp hrd)
    exact countP_recorded gen b call hload hT hfinished happly (hchunks rd (List.mem_range.mp hrd))

end Run

/-- Two thousand accounts in five chunks. -/
def twoThousandAccounts : DecimalBench := ⟨2000, 500, false, false, by decide, by decide⟩

/-- Two workers by turns, two rounds, on a server that keeps all chunks. -/
theorem decimal_bench_losses_none :
    let crew : ℕ → Crew 2 ℕ (List (String × ℚ)) Answer := fun rd ↦
      twoThousandAccounts.workers counting (fun _ _ _ ↦ some ⟨200, ""⟩) rd
        (List.replicate 20 [0, 1]).flatten
    let applied : ℕ → List (List (String × ℚ)) := fun rd ↦ (crew rd).posted.reverse
    let data := (twoThousandAccounts.names.filterMap fun n ↦
      (serverAfter applied 2 n).map (vertexOf n)).take 100000
    ∃ c, readBack counting twoThousandAccounts.names (twoThousandAccounts.oracle counting 2) []
        false (some ⟨201, true⟩) (some ⟨200, true⟩) data = some c ∧
      c.checked = 2000 ∧ c.mism = 0 := by
  intro crew applied data
  have hturns : ∀ w : Fin 2, 3 * 5 + 2 < (List.replicate 20 [(0 : Fin 2), 1]).flatten.count w := by
    decide +kernel
  have hcount : ∀ rd, (twoThousandAccounts.chunks counting rd).length = 5 := fun rd ↦
    length_chunks counting twoThousandAccounts rd
  have hfinished : ∀ rd, (crew rd).Finished := fun rd ↦
    workers_finished counting _ _ rfl ((hcount rd).symm ▸ hturns) fun _ _ ↦ rfl
  have hposted : ∀ rd, (crew rd).posted.Perm (twoThousandAccounts.chunks counting rd) :=
    fun rd ↦ (workers_perm counting _ _ rfl (by decide) (hfinished rd)).1
  have happlied : ∀ rd, (applied rd).Perm (twoThousandAccounts.chunks counting rd) := fun rd ↦
    (List.reverse_perm _).trans (hposted rd)
  have hbits : ∀ k g, (counting.getrandbits k g).1 < 2 ^ k := fun k g ↦
    Nat.mod_lt g (Nat.two_pow_pos k)
  have hentries : ∀ e ∈ entriesOf applied 2, Scaled e.2 := by
    intro e he
    obtain ⟨rd, -, he⟩ := List.mem_flatMap.mp he
    have hchunks := (happlied rd).flatten
    rw [chunks_flatten] at hchunks
    have hperm := hchunks.trans (work_perm_accumulated counting twoThousandAccounts rd)
    obtain ⟨hwork, hextra⟩ := increment_drawn twoThousandAccounts hbits rd
    rcases List.mem_append.mp (hperm.subset he) with he | he
    · exact (hwork e he).scaled
    · exact (hextra e he).scaled
  have hdata : Answered (serverAfter applied 2) twoThousandAccounts.names data :=
    answered_vertexOf (fun _ _ ha ↦ isScaled_serverAfter hentries ha) _
  obtain ⟨⟨c, hread, -, hlimit⟩, -⟩ := decimal_bench_losses counting twoThousandAccounts
    (fun _ _ _ ↦ some ⟨200, ""⟩) rfl (by decide) (fun _ ↦ (List.replicate 20 [0, 1]).flatten) 2
    applied (fun rd _ ↦ (List.reverse_perm _).subperm) (some ⟨201, true⟩) (some ⟨200, true⟩)
    ⟨by decide, Or.inr ⟨_, rfl, by decide⟩, rfl⟩ [] data hdata
  refine ⟨c, hread, (hlimit (by decide)).2.2 (by decide) fun rd _ ↦ ?_⟩
  have hposts : (applied rd).Subperm (crew rd).posted := (List.reverse_perm _).subperm
  have hlength := (applied_append_lost counting twoThousandAccounts _ rfl hposts).length_eq
  rw [List.length_append, (happlied rd).length_eq, Nat.add_eq_left] at hlength
  exact List.length_eq_zero_iff.mp hlength

end HugeGraphValidation.Bench
