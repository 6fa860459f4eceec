import HugeGraphValidation.Bench.Index
import HugeGraphValidation.Bench.SameChunk

/-!
# The Decimal oracle

`decimal_sum_bench.py` adds increments to its accounts in rounds: it draws them,
adds them to an oracle, and lets workers post them in chunks that the server
merges with SUM, BIGGER and SMALLER.  The oracle is what the server must have,
whatever the order of the chunks.
-/

namespace HugeGraphValidation.Bench

open Lib

/-- `oracle[n]` -/
structure OracleEntry where
  balance : ℚ
  hi : Option ℚ
  lo : Option ℚ
  deriving DecidableEq

/-- The oracle has an entry for each name from the start. -/
abbrev Oracle := String → OracleEntry

def Oracle.init : Oracle := fun _ ↦ ⟨0, none, none⟩

/-- `d if x is None else pick(x, d)` -/
def orPick (pick : ℚ → ℚ → ℚ) (d : ℚ) : Option ℚ → ℚ
  | none => d
  | some x => pick x d

/-- The first loop over the accounts. -/
def accumulate (d : ℚ) (o : OracleEntry) : OracleEntry :=
  ⟨o.balance + d, some (orPick max d o.hi), some (orPick min d o.lo)⟩

/-- The loop over the duplicated accounts, which have `hi` and `lo` by then. -/
def accumulateExtra (d : ℚ) (o : OracleEntry) : OracleEntry :=
  ⟨o.balance + d, o.hi.map fun hi ↦ max hi d, o.lo.map fun lo ↦ min lo d⟩

def Oracle.add (f : ℚ → OracleEntry → OracleEntry) (o : Oracle) (e : String × ℚ) : Oracle :=
  Function.update o e.1 (f e.2 (o e.1))

/-- The arguments; `sample` needs fifty names, and `range` a step. -/
structure DecimalBench where
  accounts : ℕ
  batch : ℕ
  sameChunk : Bool
  verifyOnly : Bool
  accounts_ge : 50 ≤ accounts
  batch_pos : 1 ≤ batch

section Round

variable {G : Type} (gen : Generator G)

def randDec (r : G) : ℚ × G :=
  let b8 := gen.getrandbits 8 r
  let b64 := gen.getrandbits 64 b8.2
  let b128 := gen.getrandbits 128 b64.2
  let b255 := gen.getrandbits 255 b128.2
  let mag := gen.choice [b8.1, b64.1, b128.1, b255.1] 0 b255.2
  let bits := gen.getrandbits 60 mag.2
  let frac : ℕ := bits.1 % 10 ^ 18
  let d : ℚ := mag.1 + frac / 10 ^ 18
  let coin := gen.random bits.2
  (if coin.1 < 3 / 10 then -d else d, coin.2)

def increment (n : String) (r : G) : (String × ℚ) × G :=
  let d := randDec gen r
  ((n, d.1), d.2)

def DecimalBench.names (b : DecimalBench) : List String := (List.range b.accounts).map acct

/-- What a round draws before it shuffles: the increments of all accounts, those
of the duplicated ones, and the generator after them. -/
structure Drawn (G : Type) where
  work : List (String × ℚ)
  extra : List (String × ℚ)
  rng : G

def DecimalBench.drawn (b : DecimalBench) (rd : ℕ) : Drawn G :=
  let work := Generator.each (increment gen) b.names (gen.seed (100 + rd))
  let dup := gen.sample 50 b.names work.2
  let extra := Generator.each (increment gen) dup.1 dup.2
  ⟨work.1, extra.1, extra.2⟩

def DecimalBench.oracleRound (b : DecimalBench) (o : Oracle) (rd : ℕ) : Oracle :=
  let drawn := b.drawn gen rd
  drawn.extra.foldl (Oracle.add accumulateExtra) (drawn.work.foldl (Oracle.add accumulate) o)

def DecimalBench.oracle (b : DecimalBench) (rounds : ℕ) : Oracle :=
  (List.range rounds).foldl (b.oracleRound gen) Oracle.init

def DecimalBench.work (b : DecimalBench) (rd : ℕ) : List (String × ℚ) :=
  let drawn := b.drawn gen rd
  let shuffled := gen.shuffle drawn.work drawn.rng
  if b.sameChunk then insertExtras shuffled.1 drawn.extra
  else (gen.shuffle (shuffled.1 ++ drawn.extra) shuffled.2).1

def DecimalBench.chunks (b : DecimalBench) (rd : ℕ) : List (List (String × ℚ)) :=
  slices b.batch (b.work gen rd)

variable {T : ℕ} (call : ℕ → List (List (String × ℚ)) → List (String × ℚ) → Option Answer)

/-- The workers of a round after a schedule; a verify-only run has none.  The
answer to a chunk may depend on the round and the chunks posted in it before.  There
is none where `call` raises, which it does for all but the errors of HTTP. -/
def DecimalBench.workers (b : DecimalBench) (rd : ℕ) (schedule : List (Fin T)) :
    Crew T ℕ (List (String × ℚ)) Answer :=
  Lib.work (takeNext (b.chunks gen rd)) (call rd) 0 (if b.verifyOnly then [] else schedule)

/-- `errors`, after the lock sections of `upsert` in their order. -/
def upsertErrors (recorded : List (List (String × ℚ) × Answer)) : List (String × ℕ) :=
  recorded.foldl (fun errors e ↦
    if e.2.status ≠ 200 then Dict.count s!"{e.2.status} {e.2.shown}" errors else errors) []

end Round

/-! ## The server -/

structure Account where
  balance : ℚ
  hi : ℚ
  lo : ℚ
  deriving DecidableEq

/-- SUM, BIGGER and SMALLER; a missing account is created from the entry. -/
def upsertAccount (d : ℚ) : Option Account → Account
  | none => ⟨d, d, d⟩
  | some a => ⟨a.balance + d, max a.hi d, min a.lo d⟩

def applyEntry (accounts : String → Option Account) (e : String × ℚ) : String → Option Account :=
  Function.update accounts e.1 (some (upsertAccount e.2 (accounts e.1)))

/-- The accounts after the chunks that each round has applied, in this order. -/
def serverAfter (applied : ℕ → List (List (String × ℚ))) (rounds : ℕ) :
    String → Option Account :=
  (List.range rounds).foldl (fun accounts rd ↦
    (applied rd).foldl (fun accounts chunk ↦ chunk.foldl applyEntry accounts) accounts)
    fun _ ↦ none

/-- An account as the oracle has it. -/
def seen : Option Account → OracleEntry
  | none => ⟨0, none, none⟩
  | some a => ⟨a.balance, some a.hi, some a.lo⟩

/-- `mism`, over what the server returns. -/
def mismatches (o : Oracle) (data : List (String × Account)) : ℕ :=
  data.countP fun v ↦ seen (some v.2) ≠ o v.1

/-! ## The order of the increments -/

theorem orPick_comm {pick : ℚ → ℚ → ℚ} (hcomm : ∀ x y, pick x y = pick y x)
    (hright : ∀ x y z, pick (pick x y) z = pick (pick x z) y) (d d' : ℚ) (x : Option ℚ) :
    orPick pick d (some (orPick pick d' x)) = orPick pick d' (some (orPick pick d x)) := by
  cases x with
  | none => exact hcomm d' d
  | some x => exact hright x d' d

theorem accumulate_comm (d d' : ℚ) (o : OracleEntry) :
    accumulate d (accumulate d' o) = accumulate d' (accumulate d o) := by
  simp only [accumulate, add_right_comm o.balance d' d,
    orPick_comm max_comm max_right_comm d d' o.hi, orPick_comm min_comm min_right_comm d d' o.lo]

theorem add_comm_of_accumulate (o : Oracle) (e e' : String × ℚ) :
    Oracle.add accumulate (Oracle.add accumulate o e) e' =
      Oracle.add accumulate (Oracle.add accumulate o e') e := by
  by_cases hname : e'.1 = e.1
  · simp only [Oracle.add, hname, Function.update_self, Function.update_idem]
    rw [accumulate_comm]
  · simp only [Oracle.add, Function.update_of_ne hname, Function.update_of_ne (Ne.symm hname)]
    rw [Function.update_comm hname]

instance : RightCommutative (Oracle.add accumulate) := ⟨add_comm_of_accumulate⟩

theorem foldl_accumulate_perm {es es' : List (String × ℚ)} (h : es.Perm es') (o : Oracle) :
    es.foldl (Oracle.add accumulate) o = es'.foldl (Oracle.add accumulate) o :=
  h.foldl_eq o

def Seeded (o : Oracle) (n : String) : Prop := (o n).hi.isSome ∧ (o n).lo.isSome

theorem seeded_add {o : Oracle} {n : String} {e : String × ℚ} (h : e.1 = n ∨ Seeded o n) :
    Seeded (Oracle.add accumulate o e) n := by
  by_cases hname : n = e.1
  · subst hname
    simp [Seeded, Oracle.add, accumulate]
  · have hseeded := h.resolve_left (Ne.symm hname)
    simpa [Seeded, Oracle.add, Function.update_of_ne hname] using hseeded

theorem seeded_foldl {es : List (String × ℚ)} {o : Oracle} {n : String}
    (h : n ∈ es.map Prod.fst ∨ Seeded o n) :
    Seeded (es.foldl (Oracle.add accumulate) o) n := by
  induction es generalizing o with
  | nil => simpa using h
  | cons e es ih =>
      rw [List.foldl_cons]
      apply ih
      rw [List.map_cons, List.mem_cons] at h
      rcases h with (rfl | hmem) | hseeded
      · exact Or.inr (seeded_add (Or.inl rfl))
      · exact Or.inl hmem
      · exact Or.inr (seeded_add (Or.inr hseeded))

/-- Where `hi` and `lo` are set, the second loop does what the first one does. -/
theorem add_accumulateExtra {o : Oracle} {e : String × ℚ} (h : Seeded o e.1) :
    Oracle.add accumulateExtra o e = Oracle.add accumulate o e := by
  obtain ⟨hi, hhi⟩ := Option.isSome_iff_exists.mp h.1
  obtain ⟨lo, hlo⟩ := Option.isSome_iff_exists.mp h.2
  simp [Oracle.add, accumulateExtra, accumulate, orPick, hhi, hlo]

theorem foldl_accumulateExtra {es : List (String × ℚ)} {o : Oracle}
    (h : ∀ e ∈ es, Seeded o e.1) :
    es.foldl (Oracle.add accumulateExtra) o = es.foldl (Oracle.add accumulate) o := by
  induction es generalizing o with
  | nil => rfl
  | cons e es ih =>
      rw [List.foldl_cons, List.foldl_cons, add_accumulateExtra (h e List.mem_cons_self), ih]
      intro e' he'
      exact seeded_add (Or.inr (h e' (List.mem_cons_of_mem e he')))

/-! ## The server and the oracle -/

/-- An upsert does to the account what the loop does to its entry, also when it
creates the account. -/
theorem seen_upsertAccount (d : ℚ) (a : Option Account) :
    seen (some (upsertAccount d a)) = accumulate d (seen a) := by
  cases a with
  | none => simp [seen, upsertAccount, accumulate, orPick]
  | some a => simp [seen, upsertAccount, accumulate, orPick]

theorem seen_applyEntry (accounts : String → Option Account) (e : String × ℚ) :
    (fun n ↦ seen (applyEntry accounts e n)) =
      Oracle.add accumulate (fun n ↦ seen (accounts n)) e := by
  funext n
  by_cases hname : n = e.1
  · subst hname
    simp [applyEntry, Oracle.add, seen_upsertAccount]
  · simp [applyEntry, Oracle.add, Function.update_of_ne hname]

theorem seen_foldl_applyEntry (es : List (String × ℚ)) (accounts : String → Option Account) :
    (fun n ↦ seen (es.foldl applyEntry accounts n)) =
      es.foldl (Oracle.add accumulate) fun n ↦ seen (accounts n) := by
  induction es generalizing accounts with
  | nil => rfl
  | cons e es ih => rw [List.foldl_cons, List.foldl_cons, ih, seen_applyEntry]

theorem seen_serverAfter (applied : ℕ → List (List (String × ℚ))) (rounds : ℕ) :
    (fun n ↦ seen (serverAfter applied rounds n)) =
      (List.range rounds).foldl
        (fun o rd ↦ (applied rd).flatten.foldl (Oracle.add accumulate) o) Oracle.init := by
  induction rounds with
  | zero => rfl
  | succ rounds ih =>
      rw [serverAfter, List.range_succ, List.foldl_append, List.foldl_append, ← serverAfter, ← ih,
        List.foldl_cons, List.foldl_nil, List.foldl_cons, List.foldl_nil, ← List.foldl_flatten,
        seen_foldl_applyEntry]

theorem sum_upsertErrors (recorded : List (List (String × ℚ) × Answer)) :
    (Dict.values (upsertErrors recorded)).sum =
      recorded.countP fun e ↦ e.2.status ≠ 200 := by
  induction recorded using List.reverseRecOn with
  | nil => rfl
  | append_singleton recorded e ih =>
      rw [upsertErrors, List.foldl_append, List.foldl_cons, List.foldl_nil, ← upsertErrors,
        List.countP_append, List.countP_singleton]
      by_cases hst : e.2.status = 200
      · simp [hst, ih]
      · simp [hst, ih, Dict.sum_values_count]

/-! ## The rounds -/

section Rounds

variable {G : Type} (gen : Generator G) (b : DecimalBench) (rd : ℕ)

def DecimalBench.accumulated : List (String × ℚ) :=
  (b.drawn gen rd).work ++ (b.drawn gen rd).extra

theorem increment_name (n : String) (r : G) : (increment gen n r).1.1 = n := rfl

theorem drawn_work_names : (b.drawn gen rd).work.map Prod.fst = b.names := by
  rw [DecimalBench.drawn, Generator.map_each (increment_name gen), List.map_id']

theorem drawn_extra_names {e : String × ℚ} (he : e ∈ (b.drawn gen rd).extra) : e.1 ∈ b.names := by
  have hname := List.mem_map_of_mem (f := Prod.fst) he
  rw [DecimalBench.drawn, Generator.map_each (increment_name gen), List.map_id'] at hname
  exact (gen.sample_subperm 50 b.names _).subset hname

theorem nodup_names : b.names.Nodup := List.nodup_range.map acct_injective

theorem oracleRound_eq (o : Oracle) :
    b.oracleRound gen o rd = (b.accumulated gen rd).foldl (Oracle.add accumulate) o := by
  rw [DecimalBench.oracleRound, DecimalBench.accumulated, List.foldl_append]
  apply foldl_accumulateExtra
  intro e he
  apply seeded_foldl
  rw [drawn_work_names]
  exact Or.inl (drawn_extra_names gen b rd he)

theorem work_perm_accumulated : (b.work gen rd).Perm (b.accumulated gen rd) := by
  have hshuffled := gen.shuffle_perm (b.drawn gen rd).work (b.drawn gen rd).rng
  have hboth := hshuffled.append_right (b.drawn gen rd).extra
  unfold DecimalBench.work
  cases b.sameChunk with
  | true =>
      have hnames := hshuffled.map Prod.fst
      rw [drawn_work_names] at hnames
      refine (insertExtras_perm (hnames.nodup_iff.mpr (nodup_names b)) ?_).trans hboth
      intro e he
      exact hnames.mem_iff.mpr (drawn_extra_names gen b rd he)
  | false => exact (gen.shuffle_perm _ _).trans hboth

theorem chunks_flatten : (b.chunks gen rd).flatten = b.work gen rd :=
  slices_flatten b.batch_pos _

theorem length_work : (b.work gen rd).length = b.accounts + 50 := by
  have hnames : b.names.length = b.accounts := by
    rw [DecimalBench.names, List.length_map, List.length_range]
  have hsample : ∀ g, (gen.sample 50 b.names g).1.length = 50 :=
    fun g ↦ gen.length_sample g (hnames ▸ b.accounts_ge)
  rw [(work_perm_accumulated gen b rd).length_eq, DecimalBench.accumulated, List.length_append,
    DecimalBench.drawn, Generator.length_each, Generator.length_each, hsample, hnames]

theorem length_chunks : (b.chunks gen rd).length = sliceCount b.batch (b.accounts + 50) := by
  rw [DecimalBench.chunks, slices, List.length_map, List.length_range, length_work]

theorem seeded_oracle {rounds : ℕ} (hrounds : 1 ≤ rounds) {n : String} (hn : n ∈ b.names) :
    Seeded (b.oracle gen rounds) n := by
  obtain ⟨rounds, rfl⟩ := Nat.exists_eq_add_of_le' hrounds
  rw [DecimalBench.oracle, List.range_succ, List.foldl_append, List.foldl_cons, List.foldl_nil,
    oracleRound_eq, DecimalBench.accumulated]
  apply seeded_foldl
  rw [List.map_append, drawn_work_names]
  exact Or.inl (List.mem_append_left _ hn)

theorem oracle_congr {b' : DecimalBench} (h : b'.accounts = b.accounts) (rounds : ℕ) :
    b'.oracle gen rounds = b.oracle gen rounds := by
  have hnames : b'.names = b.names := by rw [DecimalBench.names, h, DecimalBench.names]
  have hround : b'.oracleRound gen = b.oracleRound gen := by
    funext o rd
    simp only [DecimalBench.oracleRound, DecimalBench.drawn, hnames]
  rw [DecimalBench.oracle, hround, DecimalBench.oracle]

end Rounds

/-! ## The whole run -/

section Run

variable {G : Type} {T : ℕ} (gen : Generator G) (b : DecimalBench)
  (call : ℕ → List (List (String × ℚ)) → List (String × ℚ) → Option Answer)

theorem workers_eq (hload : b.verifyOnly = false) (rd : ℕ) (schedule : List (Fin T)) :
    b.workers gen call rd schedule =
      Lib.work (takeNext (b.chunks gen rd)) (call rd) 0 schedule := by
  rw [DecimalBench.workers, hload]
  rfl

theorem workers_over (hload : b.verifyOnly = false) {rd : ℕ} {schedule : List (Fin T)}
    (hturns : ∀ w, 3 * (b.chunks gen rd).length + T < schedule.count w) :
    (b.workers gen call rd schedule).Over := by
  rw [workers_eq gen b call hload]
  exact work_over (drawsAll_takeNext _) hturns

theorem workers_finished (hload : b.verifyOnly = false) {rd : ℕ} {schedule : List (Fin T)}
    (hturns : ∀ w, 3 * (b.chunks gen rd).length + T < schedule.count w)
    (hcalls : ∀ sent chunk, (call rd sent chunk).isSome) :
    (b.workers gen call rd schedule).Finished := by
  rw [workers_eq gen b call hload]
  exact work_finished (drawsAll_takeNext _) hcalls hturns

/-- Each chunk is posted once, and answered once. -/
theorem workers_perm (hload : b.verifyOnly = false) (hT : 1 ≤ T) {rd : ℕ}
    {schedule : List (Fin T)} (hfinished : (b.workers gen call rd schedule).Finished) :
    (b.workers gen call rd schedule).posted.Perm (b.chunks gen rd) ∧
      ((b.workers gen call rd schedule).recorded.map Prod.fst).Perm (b.chunks gen rd) := by
  rw [workers_eq gen b call hload] at hfinished ⊢
  exact work_perm hT (drawsAll_takeNext _) hfinished

theorem seen_serverAfter_eq_oracle {applied : ℕ → List (List (String × ℚ))} {rounds : ℕ}
    (happlied : ∀ rd < rounds, (applied rd).flatten.Perm (b.accumulated gen rd)) :
    (fun n ↦ seen (serverAfter applied rounds n)) = b.oracle gen rounds := by
  rw [seen_serverAfter, DecimalBench.oracle]
  apply List.foldl_ext
  intro o rd hrd
  rw [oracleRound_eq, foldl_accumulate_perm (happlied rd (List.mem_range.mp hrd))]

/-- Whatever the schedules: the workers of a round are over when each has turns
enough, and have ended where no call raises; then they have posted each chunk once,
with the increments of the round; after the last round the accounts are those of the
oracle, in whatever order the chunks of the rounds were applied; and any run with as
many accounts has the same oracle. -/
theorem decimal_oracle_exact (hload : b.verifyOnly = false) (hT : 1 ≤ T)
    (schedule : ℕ → List (Fin T)) (rounds : ℕ) :
    (∀ rd, (∀ w, 3 * (b.chunks gen rd).length + T < (schedule rd).count w) →
      (b.workers gen call rd (schedule rd)).Over ∧
      ((∀ sent chunk, (call rd sent chunk).isSome) →
        (b.workers gen call rd (schedule rd)).Finished)) ∧
    (∀ rd, (b.workers gen call rd (schedule rd)).Finished →
      (b.workers gen call rd (schedule rd)).posted.Perm (b.chunks gen rd) ∧
      (b.workers gen call rd (schedule rd)).posted.flatten.Perm (b.accumulated gen rd)) ∧
    (∀ applied : ℕ → List (List (String × ℚ)),
      (∀ rd < rounds, (b.workers gen call rd (schedule rd)).Finished ∧
        (applied rd).Perm (b.workers gen call rd (schedule rd)).posted) →
      (∀ n, seen (serverAfter applied rounds n) = b.oracle gen rounds n) ∧
      (1 ≤ rounds → ∀ n ∈ b.names, (serverAfter applied rounds n).isSome) ∧
      ∀ data, (∀ v ∈ data, serverAfter applied rounds v.1 = some v.2) →
        mismatches (b.oracle gen rounds) data = 0) ∧
    (∀ b' : DecimalBench, b'.accounts = b.accounts →
      b'.oracle gen rounds = b.oracle gen rounds) := by
  have hposted : ∀ rd, (b.workers gen call rd (schedule rd)).Finished →
      (b.workers gen call rd (schedule rd)).posted.Perm (b.chunks gen rd) :=
    fun rd hfinished ↦ (workers_perm gen b call hload hT hfinished).1
  have hentries : ∀ rd, (b.workers gen call rd (schedule rd)).Finished →
      (b.workers gen call rd (schedule rd)).posted.flatten.Perm (b.accumulated gen rd) := by
    intro rd hfinished
    have hflatten := (hposted rd hfinished).flatten
    rw [chunks_flatten] at hflatten
    exact hflatten.trans (work_perm_accumulated gen b rd)
  refine ⟨?_, fun rd h ↦ ⟨hposted rd h, hentries rd h⟩, ?_,
    fun b' h ↦ oracle_congr gen b h rounds⟩
  · intro rd hturns
    exact ⟨workers_over gen b call hload hturns, workers_finished gen b call hload hturns⟩
  · intro applied happlied
    have hall : ∀ rd < rounds, (applied rd).flatten.Perm (b.accumulated gen rd) := by
      intro rd hrd
      obtain ⟨hfinished, hperm⟩ := happlied rd hrd
      exact hperm.flatten.trans (hentries rd hfinished)
    have hseen := congrFun (seen_serverAfter_eq_oracle gen b hall)
    refine ⟨hseen, ?_, ?_⟩
    · intro hrounds n hn
      have hseeded := seeded_oracle gen b hrounds hn
      rw [Seeded, ← hseen n] at hseeded
      cases haccount : serverAfter applied rounds n with
      | none =>
          rw [haccount] at hseeded
          exact absurd hseeded.1 (by decide)
      | some a => rfl
    · intro data hdata
      rw [mismatches, List.countP_eq_zero]
      intro v hv
      rw [← hseen v.1, hdata v hv]
      simp

end Run

/-- Fifty accounts, all duplicated, in four chunks. -/
def fiftyAccounts : DecimalBench := ⟨50, 30, true, false, by decide, by decide⟩

/-- Two workers by turns; the server applies the last chunk first. -/
theorem decimal_oracle_exact_two_rounds :
    let schedule : List (Fin 2) := (List.replicate 15 [0, 1]).flatten
    let applied : ℕ → List (List (String × ℚ)) := fun rd ↦
      (fiftyAccounts.workers counting (fun _ _ _ ↦ some ⟨200, ""⟩) rd schedule).posted.reverse
    (∀ rd, (fiftyAccounts.chunks counting rd).length = 4) ∧
      seen (serverAfter applied 2 (acct 7)) = fiftyAccounts.oracle counting 2 (acct 7) ∧
      (serverAfter applied 2 (acct 7)).isSome := by
  intro schedule applied
  have hchunks : ∀ rd, (fiftyAccounts.chunks counting rd).length = 4 := by
    intro rd
    rw [length_chunks]
    decide
  obtain ⟨hturns, -, hexact, -⟩ := decimal_oracle_exact counting fiftyAccounts
    (fun _ _ _ ↦ some ⟨200, ""⟩) rfl (by decide) (fun _ ↦ schedule) 2
  have hfinished : ∀ rd, (fiftyAccounts.workers counting (fun _ _ _ ↦ some ⟨200, ""⟩) rd
      schedule).Finished := by
    intro rd
    refine (hturns rd ?_).2 fun _ _ ↦ rfl
    rw [hchunks]
    decide
  obtain ⟨hseen, hsome, -⟩ := hexact applied fun rd _ ↦ ⟨hfinished rd, List.reverse_perm _⟩
  exact ⟨hchunks, hseen (acct 7),
    hsome (by decide) _ (List.mem_map_of_mem (List.mem_range.mpr (by decide)))⟩

end HugeGraphValidation.Bench
