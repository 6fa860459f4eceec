import HugeGraphValidation.Lib.Dict
import HugeGraphValidation.Lib.Generator
import HugeGraphValidation.Lib.Numerals
import HugeGraphValidation.Lib.Slices
import HugeGraphValidation.Lib.WorkQueue

/-!
# The index-cost benchmark

The writers of `idx_bench.py` take the starts of the batches from a shared
counter, draw the edges of a batch from a generator seeded by its number, post
them, and add up the results.  A post raises where the body of an error cannot be
read; its writer then ends with the batch neither done nor failed.
-/

namespace HugeGraphValidation.Bench

open Lib

/-- The arguments; `randrange` needs a vertex to draw, and `range` a step. -/
structure IndexBench where
  sk4 : Bool
  edges : ℕ
  batch : ℕ
  vertices : ℕ
  batch_pos : 1 ≤ batch
  vertices_pos : 1 ≤ vertices

inductive EdgeProperties where
  | xfer (btcAddr : String) (seq height : ℕ) (asset : String) (amount : ℚ)
  | flow (addr : String) (ts : ℕ) (amount : ℚ)
  deriving DecidableEq

/-- The property that carries the index: `ts`, or the `height` of its block. -/
def EdgeProperties.Carries (i : ℕ) : EdgeProperties → Prop
  | .xfer _ _ height _ _ => height = 800000 + i / 3000
  | .flow _ ts _ => ts = 1700000000000 + i * 1000

structure Edge where
  label : String
  outV : String
  outVLabel : String
  inV : String
  inVLabel : String
  properties : EdgeProperties
  deriving DecidableEq

/-- What the edges are made of, drawn before the writers start. -/
structure Pools where
  ids : List String
  hot : List ℕ
  contracts : List String
  addrs : List String

/-- `"%0{width}x" % n` -/
def hexPadded (width n : ℕ) : String :=
  let digits := Nat.toDigits 16 n
  String.ofList (List.replicate (width - digits.length) '0' ++ digits)

def b58 : List Char := "123456789ABCDEFGHJKLMNPQRSTUVWXYZabcdefghijkmnopqrstuvwxyz".toList

section Draws

variable {G : Type} (gen : Generator G)

def btcAddr (g : G) : String × G :=
  let first := gen.random g
  let rest := Generator.each (fun _ g ↦ gen.choice b58 '1' g) (List.range 33) first.2
  ((if first.1 < 7 / 10 then "1" else "3") ++ String.ofList rest.1, rest.2)

def ethAddr (g : G) : String × G :=
  let bits := gen.getrandbits 160 g
  ("0x" ++ hexPadded 40 bits.1, bits.2)

def IndexBench.pools (b : IndexBench) : Pools :=
  let g := gen.seed 42
  if b.sk4 then
    let ids := Generator.each (fun i g ↦ if i % 2 = 0 then btcAddr gen g else ethAddr gen g)
      (List.range b.vertices) g
    let hot := ((List.range b.vertices).filter fun i ↦ i % 2 = 0).take (max 1 (b.vertices / 1000))
    let contracts := Generator.each (fun _ g ↦
      let eth := ethAddr gen g
      (String.ofList (eth.1.toList.drop 2), eth.2)) (List.range 50) ids.2
    let addrs := Generator.each (fun _ g ↦
      let bits := gen.getrandbits 80 g
      (hexPadded 20 bits.1, bits.2)) (List.range b.vertices) contracts.2
    ⟨ids.1, hot, contracts.1, addrs.1⟩
  else
    let ids := (List.range b.vertices).map fun i ↦ "a" ++ zeroPadded 6 i
    let addrs := Generator.each (fun _ g ↦
      let bits := gen.getrandbits 80 g
      (hexPadded 20 bits.1, bits.2)) (List.range b.vertices) g
    ⟨ids, [], [], addrs.1⟩

variable (amountOf : ℚ → ℚ)

/-- Edge `i`, with its index; `amountOf x` is `round(x * 1000, 3)` on floats. -/
def IndexBench.edge (b : IndexBench) (pools : Pools) (i : ℕ) (r : G) : (ℕ × Edge) × G :=
  let src := gen.randbelow b.vertices r
  if b.sk4 then
    let h := gen.random src.2
    let dst :=
      if h.1 < 1 / 2 then
        let k := gen.randbelow pools.hot.length h.2
        (pools.hot.getD k.1 0, k.2)
      else gen.randbelow b.vertices h.2
    let addr := if dst.1 % 2 = 0 then (pools.ids.getD dst.1 "", dst.2) else btcAddr gen dst.2
    let seq := gen.randbelow 1000 addr.2
    let height := 800000 + i / 3000
    let coin := gen.random seq.2
    let asset :=
      if coin.1 < 7 / 10 then ("btc", coin.2)
      else
        let k := gen.randbelow 50 coin.2
        (pools.contracts.getD k.1 "", k.2)
    let amount := gen.random asset.2
    ((i, ⟨"xfer", pools.ids.getD src.1 "", "addr", pools.ids.getD dst.1 "", "addr",
      .xfer addr.1 (1 + seq.1) height asset.1 (amountOf amount.1)⟩), amount.2)
  else
    let dst := gen.randbelow b.vertices src.2
    let amount := gen.random dst.2
    ((i, ⟨"flow", pools.ids.getD src.1 "", "acct", pools.ids.getD dst.1 "", "acct",
      .flow (pools.addrs.getD dst.1 "") (1700000000000 + i * 1000) (amountOf amount.1)⟩),
      amount.2)

/-- The edges of the batch that starts at `s`, with their indices: the generator
is seeded by the number of the batch, whichever writer takes it. -/
def IndexBench.batchEdges (b : IndexBench) (s : ℕ) : List (ℕ × Edge) :=
  (Generator.each (b.edge gen amountOf (b.pools gen))
    (List.range' s (min b.edges (s + b.batch) - s)) (gen.seed (1000 + s / b.batch))).1

end Draws

/-- `take()` -/
def IndexBench.take (b : IndexBench) (s : ℕ) : Option (ℕ × ℕ) :=
  if b.edges ≤ s then none else some (s, s + b.batch)

/-- The status and what the error message shows of the body. -/
structure Answer where
  status : ℕ
  shown : String
  deriving DecidableEq

def Answer.ok (a : Answer) : Bool := a.status = 200 || a.status = 201

/-- `done[0]` and `errors`. -/
structure Results where
  done : ℕ
  errors : List (String × ℕ)
  deriving DecidableEq

def Results.record (size : ℕ) (a : Answer) (r : Results) : Results :=
  if a.ok then { r with done := r.done + size }
  else { r with errors := Dict.count s!"{a.status} {a.shown}" r.errors }

section Run

variable {G : Type} {T : ℕ} (gen : Generator G) (amountOf : ℚ → ℚ) (b : IndexBench)
  (post : List ℕ → ℕ → Option Answer) (schedule : List (Fin T))

/-- The writers after a schedule; the server may answer a batch from everything
posted before, and there is no answer where `post` raises. -/
def IndexBench.writers : Crew T ℕ ℕ Answer := work b.take post 0 schedule

def IndexBench.results : Results :=
  (b.writers post schedule).recorded.foldl
    (fun r e ↦ r.record (b.batchEdges gen amountOf e.1).length e.2) ⟨0, []⟩

def IndexBench.postedEdges : List (ℕ × Edge) :=
  (b.writers post schedule).posted.flatMap (b.batchEdges gen amountOf)

end Run

def IndexBench.starts (b : IndexBench) : List ℕ :=
  (List.range (sliceCount b.batch b.edges)).map (· * b.batch)

section Starts

variable (b : IndexBench)

theorem mem_starts {s : ℕ} : s ∈ b.starts ↔ b.batch ∣ s ∧ s < b.edges := by
  rw [IndexBench.starts, List.mem_map]
  constructor
  · rintro ⟨k, hk, rfl⟩
    exact ⟨Nat.dvd_mul_left _ _, (lt_sliceCount_iff b.batch_pos).mp (List.mem_range.mp hk)⟩
  · rintro ⟨⟨k, rfl⟩, hlt⟩
    rw [Nat.mul_comm] at hlt
    exact ⟨k, List.mem_range.mpr ((lt_sliceCount_iff b.batch_pos).mpr hlt), Nat.mul_comm _ _⟩

theorem nodup_starts : b.starts.Nodup := by
  apply List.nodup_range.map
  intro j k h
  exact Nat.eq_of_mul_eq_mul_right b.batch_pos h

theorem drawsAll_take_from (n : ℕ) :
    ∀ k, sliceCount b.batch b.edges = k + n →
      DrawsAll b.take (k * b.batch) ((List.range' k n).map (· * b.batch)) := by
  induction n with
  | zero =>
      intro k hk
      have hend : b.edges ≤ k * b.batch := by
        have hnot := (lt_sliceCount_iff b.batch_pos).not.mp (by omega : ¬ k < sliceCount _ b.edges)
        omega
      exact ⟨k * b.batch, rfl, by rw [IndexBench.take, if_pos hend]⟩
  | succ n ih =>
      intro k hk
      have hlt : k * b.batch < b.edges := (lt_sliceCount_iff b.batch_pos).mp (by omega)
      have htake : b.take (k * b.batch) = some (k * b.batch, (k + 1) * b.batch) := by
        rw [IndexBench.take, if_neg (by omega), Nat.succ_mul]
      obtain ⟨e, hdraws, hend⟩ := ih (k + 1) (by omega)
      exact ⟨e, ⟨(k + 1) * b.batch, htake, hdraws⟩, hend⟩

theorem drawsAll_take : DrawsAll b.take 0 b.starts := by
  have h := drawsAll_take_from b (sliceCount b.batch b.edges) 0 (Nat.zero_add _).symm
  rwa [Nat.zero_mul, ← List.range_eq_range'] at h

end Starts

/-! ## The edges -/

section Edges

variable {G : Type} (gen : Generator G) (amountOf : ℚ → ℚ) (b : IndexBench)

theorem edge_index (pools : Pools) (i : ℕ) (r : G) :
    (b.edge gen amountOf pools i r).1.1 = i := by
  unfold IndexBench.edge
  cases b.sk4 with
  | true => rfl
  | false => rfl

theorem edge_carries (pools : Pools) (i : ℕ) (r : G) :
    (b.edge gen amountOf pools i r).1.2.properties.Carries i := by
  unfold IndexBench.edge
  cases b.sk4 with
  | true => rfl
  | false => rfl

theorem batchEdges_carries (s : ℕ) :
    ∀ e ∈ b.batchEdges gen amountOf s, e.2.properties.Carries e.1 := by
  refine Generator.forall_mem_each (fun i r ↦ ?_) _ _
  rw [edge_index]
  exact edge_carries gen amountOf b _ i r

theorem batchEdges_indices (s : ℕ) :
    (b.batchEdges gen amountOf s).map Prod.fst =
      List.range' s (min (s + b.batch) b.edges - s) := by
  rw [IndexBench.batchEdges, Generator.map_each (edge_index gen amountOf b _), List.map_id',
    Nat.min_comm]

/-- The batches cover the indices once, the short last one included. -/
theorem starts_indices :
    (b.starts.flatMap (b.batchEdges gen amountOf)).map Prod.fst = List.range b.edges := by
  have hslices : slices b.batch (List.range b.edges) =
      b.starts.map fun s ↦ (b.batchEdges gen amountOf s).map Prod.fst := by
    simp only [slices, IndexBench.starts, List.map_map, Function.comp_def, batchEdges_indices,
      take_drop_range, List.length_range]
  rw [List.map_flatMap, List.flatMap_def, ← hslices, slices_flatten b.batch_pos]

theorem sum_length_batchEdges :
    (b.starts.map fun s ↦ (b.batchEdges gen amountOf s).length).sum = b.edges := by
  have hlength := congrArg List.length (starts_indices gen amountOf b)
  rw [List.length_map, List.length_flatMap, List.length_range] at hlength
  exact hlength

end Edges

/-! ## The results -/

def failedBatches (recorded : List (ℕ × Answer)) : List ℕ :=
  (recorded.filter fun e ↦ !e.2.ok).map Prod.fst

structure Adds (size : ℕ → ℕ) (recorded : List (ℕ × Answer)) (r : Results) : Prop where
  done : r.done + ((failedBatches recorded).map size).sum =
    ((recorded.map Prod.fst).map size).sum
  errors : (Dict.values r.errors).sum = (failedBatches recorded).length

theorem Adds.record {size : ℕ → ℕ} {recorded : List (ℕ × Answer)} {r : Results}
    (h : Adds size recorded r) (e : ℕ × Answer) :
    Adds size (recorded ++ [e]) (r.record (size e.1) e.2) := by
  have hdone := h.done
  have herrors := h.errors
  cases hok : e.2.ok with
  | true =>
      have hfailed : failedBatches (recorded ++ [e]) = failedBatches recorded := by
        simp [failedBatches, hok]
      rw [Results.record, if_pos hok]
      refine ⟨?_, ?_⟩
      · simp only [hfailed, List.map_append, List.map_singleton, List.sum_append,
          List.sum_singleton]
        omega
      · rw [hfailed]
        exact herrors
  | false =>
      have hfailed : failedBatches (recorded ++ [e]) = failedBatches recorded ++ [e.1] := by
        simp [failedBatches, hok]
      rw [Results.record, if_neg (by simp [hok])]
      refine ⟨?_, ?_⟩
      · simp only [hfailed, List.map_append, List.map_singleton, List.sum_append,
          List.sum_singleton]
        omega
      · rw [hfailed, Dict.sum_values_count, herrors, List.length_append, List.length_singleton]

theorem adds_foldl (size : ℕ → ℕ) (recorded : List (ℕ × Answer)) :
    Adds size recorded
      (recorded.foldl (fun r e ↦ r.record (size e.1) e.2) ⟨0, []⟩) := by
  induction recorded using List.reverseRecOn with
  | nil => exact ⟨rfl, rfl⟩
  | append_singleton recorded e ih =>
      rw [List.foldl_append]
      exact ih.record e

section Main

variable {G : Type} {T : ℕ} (gen : Generator G) (amountOf : ℚ → ℚ) (b : IndexBench)
  (post : List ℕ → ℕ → Option Answer) (schedule : List (Fin T))

/-- The batches are all posted, each once; their edges are those of any run, with each
index once; and the results account for all edges and all failed batches. -/
structure Loads : Prop where
  posted : (b.writers post schedule).posted.Perm b.starts
  edges : (b.postedEdges gen amountOf post schedule).Perm
    (b.starts.flatMap (b.batchEdges gen amountOf))
  indices : ((b.postedEdges gen amountOf post schedule).map Prod.fst).Perm (List.range b.edges)
  carried : ∀ e ∈ b.postedEdges gen amountOf post schedule, e.2.properties.Carries e.1
  done : (b.results gen amountOf post schedule).done +
    ((failedBatches (b.writers post schedule).recorded).map
      fun s ↦ (b.batchEdges gen amountOf s).length).sum = b.edges
  errors : (Dict.values (b.results gen amountOf post schedule).errors).sum =
    (failedBatches (b.writers post schedule).recorded).length

theorem adds_results : Adds (fun s ↦ (b.batchEdges gen amountOf s).length)
    (b.writers post schedule).recorded (b.results gen amountOf post schedule) :=
  adds_foldl _ _

variable {b post schedule}

theorem loads_of_finished (hT : 1 ≤ T) (hfinished : (b.writers post schedule).Finished) :
    Loads gen amountOf b post schedule := by
  obtain ⟨hposted, hrecorded⟩ := work_perm hT (drawsAll_take b) hfinished
  have hedges : (b.postedEdges gen amountOf post schedule).Perm
      (b.starts.flatMap (b.batchEdges gen amountOf)) := hposted.flatMap_right _
  have hadds := adds_results gen amountOf b post schedule
  refine ⟨hposted, hedges, ?_, ?_, ?_, hadds.errors⟩
  · rw [← starts_indices gen amountOf b]
    exact hedges.map _
  · intro e he
    obtain ⟨s, -, he⟩ := List.mem_flatMap.mp he
    exact batchEdges_carries gen amountOf b s e he
  · have hall := (hrecorded.map fun s ↦ (b.batchEdges gen amountOf s).length).sum_eq
    rw [sum_length_batchEdges] at hall
    exact hadds.done.trans hall

/-- The batch that a writer has died of is neither done nor failed. -/
theorem done_lt_of_hasDied (hdied : (b.writers post schedule).HasDied) :
    (b.results gen amountOf post schedule).done +
      ((failedBatches (b.writers post schedule).recorded).map
        fun s ↦ (b.batchEdges gen amountOf s).length).sum < b.edges := by
  obtain ⟨w, s, hw⟩ := hdied
  obtain ⟨jobs, hperm, hsub⟩ := work_died (drawsAll_take b) hw
  have hs : s < b.edges := ((mem_starts b).mp (hsub.subset (hperm.mem_iff.mpr
    List.mem_cons_self))).2
  have hsize : 1 ≤ (b.batchEdges gen amountOf s).length := by
    have hlength := congrArg List.length (batchEdges_indices gen amountOf b s)
    rw [List.length_map, List.length_range'] at hlength
    have hbatch := b.batch_pos
    omega
  have hle := (hsub.map fun s ↦ (b.batchEdges gen amountOf s).length).sum_le_sum
    fun _ _ ↦ Nat.zero_le _
  rw [sum_length_batchEdges, (hperm.map _).sum_eq, List.map_cons, List.sum_cons] at hle
  have hdone := (adds_results gen amountOf b post schedule).done
  rw [IndexBench.writers] at hdone ⊢
  omega

variable (b post schedule)

/-- Whatever the schedule: each start is handed out at most once, in order; the writers
are over when each has turns enough; and then the load is as it should be exactly when
no post of the run has raised. -/
theorem index_bench_loads (hT : 1 ≤ T) :
    (∀ s, s ∈ b.starts ↔ b.batch ∣ s ∧ s < b.edges) ∧ b.starts.Nodup ∧
    (∃ given, given <+: b.starts ∧ ((b.writers post schedule).posted : Multiset ℕ) +
      tally Phase.unposted (b.writers post schedule).phase = given) ∧
    ((∀ w, 3 * b.starts.length + T < schedule.count w) → (b.writers post schedule).Over) ∧
    ((b.writers post schedule).Over →
      (Loads gen amountOf b post schedule ↔
        ¬ ∃ sent s, sent ++ [s] <+: (b.writers post schedule).posted ∧ post sent s = none)) := by
  refine ⟨fun s ↦ mem_starts b, nodup_starts b, work_given (drawsAll_take b) schedule,
    work_over (drawsAll_take b), fun hover ↦ ?_⟩
  have hraised : (b.writers post schedule).HasDied ↔
      ∃ sent s, sent ++ [s] <+: (b.writers post schedule).posted ∧ post sent s = none :=
    hasDied_iff schedule
  rw [← hraised]
  constructor
  · intro hloads hdied
    exact absurd hloads.done (done_lt_of_hasDied gen amountOf hdied).ne
  · intro hdied
    exact loads_of_finished gen amountOf hT (Crew.finished_iff.mpr ⟨hover, hdied⟩)

end Main

def fiveEdges : IndexBench := ⟨false, 5, 2, 3, by decide, by decide⟩

def busyAtSecond (sent : List ℕ) (_ : ℕ) : Option Answer :=
  if sent.length = 1 then some ⟨500, "busy"⟩ else some ⟨201, ""⟩

theorem index_bench_loads_two_writers :
    let schedule : List (Fin 2) := [0, 1, 1, 0, 1, 0, 1, 1, 1, 1, 0]
    (fiveEdges.writers busyAtSecond schedule).posted = [2, 0, 4] ∧
      failedBatches (fiveEdges.writers busyAtSecond schedule).recorded = [0] ∧
      ((fiveEdges.postedEdges counting (· * 1000) busyAtSecond schedule).map Prod.fst).Perm
        [0, 1, 2, 3, 4] ∧
      (Dict.values (fiveEdges.results counting (· * 1000) busyAtSecond schedule).errors).sum =
        1 := by
  intro schedule
  have hover : (fiveEdges.writers busyAtSecond schedule).Over := by decide
  have hnone : ¬ ∃ sent s, sent ++ [s] <+: (fiveEdges.writers busyAtSecond schedule).posted ∧
      busyAtSecond sent s = none := by
    rintro ⟨sent, s, -, hraised⟩
    rw [busyAtSecond] at hraised
    split at hraised <;> cases hraised
  obtain ⟨-, -, -, -, hloads⟩ := index_bench_loads counting (· * 1000) fiveEdges busyAtSecond
    schedule (by decide)
  have h := (hloads hover).mpr hnone
  have hfailed : failedBatches (fiveEdges.writers busyAtSecond schedule).recorded = [0] := by
    decide
  refine ⟨by decide, hfailed, h.indices, ?_⟩
  rw [h.errors, hfailed]
  rfl

/-- The only writer dies of its first post: the batches behind it are never handed out,
and the batch is in neither count. -/
theorem index_bench_loads_unreadable :
    (fiveEdges.writers (fun _ _ ↦ none) [(0 : Fin 1), 0]).Over ∧
      (fiveEdges.writers (fun _ _ ↦ none) [(0 : Fin 1), 0]).posted = [0] ∧
      fiveEdges.starts = [0, 2, 4] ∧
      (fiveEdges.results counting (· * 1000) (fun _ _ ↦ none) [(0 : Fin 1), 0]).done +
        ((failedBatches (fiveEdges.writers (fun _ _ ↦ none) [(0 : Fin 1), 0]).recorded).map
          fun s ↦ (fiveEdges.batchEdges counting (· * 1000) s).length).sum ≠ fiveEdges.edges := by
  refine ⟨by decide, by decide, by decide, by decide⟩

end HugeGraphValidation.Bench
