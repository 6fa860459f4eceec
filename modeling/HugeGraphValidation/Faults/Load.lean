import HugeGraphValidation.Faults.Verify
import HugeGraphValidation.Lib.Dict
import HugeGraphValidation.Lib.Rounds

/-!
# The writes under load

During a fault `Load` posts batches of new vertices and keeps the acknowledged
ones; each scenario merges them into the ledger of the oracle.  A batch without
an acknowledgement may be applied all the same, also after the run.
-/

namespace HugeGraphValidation.Faults

open Lib

/-- `f"{tag}-{n:06d}-{k}"` -/
def loadName (tag : String) (n k : ℕ) : String := s!"{tag}-{zeroPadded 6 n}-{k}"

def loadBatch (tag : String) (n : ℕ) : List VertexDoc :=
  (List.range 20).map fun k ↦ ⟨loadName tag n k, (n + k) % 97⟩

/-- The status of the write and the answer to the read of one round, with the
number of the edges where the body has some; `none` for a call that raises. -/
structure LoadRound where
  write : Option ℕ
  read : Option (Response ℕ)

inductive LoadEvent where
  | w (status : ℕ)
  | r (status : ℕ)
  deriving DecidableEq

/-- The state of a load: the posted batches with the status of their answers
besides what the thread keeps. -/
structure Load where
  n : ℕ
  posted : List (List VertexDoc × Option ℕ)
  acked : List (String × ℤ)
  events : List LoadEvent
  deriving DecidableEq

def Load.init : Load := ⟨0, [], [], []⟩

/-- `self.acked[nm] = (self.n + k) % 97` for the names of the batch. -/
def acknowledge (docs : List VertexDoc) (acked : List (String × ℤ)) : List (String × ℤ) :=
  Dict.update acked (docs.map fun d ↦ (d.name, (d.w : ℤ)))

/-- The status that the read is recorded with: 599 when the number of edges is
not the expected one. -/
def readStatus (edgesPerVertex : ℕ) (r : Response ℕ) : Option ℕ :=
  if r.status = 200 then r.json.map fun n ↦ if n = edgesPerVertex then 200 else 599
  else some r.status

/-- One round of `Load.run`. -/
def Load.round (tag : String) (edgesPerVertex : ℕ) (i : LoadRound) (s : Load) :
    Round Load Raised :=
  let docs := loadBatch tag (s.n + 1)
  let s := { s with n := s.n + 1, posted := s.posted ++ [(docs, i.write)] }
  match i.write with
  | none => .leave s .other
  | some st =>
      let s := { s with events := s.events ++ [.w st] }
      let s := if st = 201 then { s with acked := acknowledge docs s.acked } else s
      match i.read.bind (readStatus edgesPerVertex) with
      | none => .leave s .other
      | some st => .again { s with events := s.events ++ [.r st] }

/-- `Load.run` over the rounds until it is stopped or a call raises. -/
def Load.run (tag : String) (edgesPerVertex : ℕ) (rounds : List LoadRound) : Load :=
  (forRounds (Load.round tag edgesPerVertex) rounds Load.init).state

structure LoadRun where
  tag : String
  rounds : List LoadRound

def LoadRun.load (edgesPerVertex : ℕ) (run : LoadRun) : Load :=
  Load.run run.tag edgesPerVertex run.rounds

/-- `oracle["acked"]` after the scenarios, each of which updates it. -/
def ledger (edgesPerVertex : ℕ) (runs : List LoadRun) : List (String × ℤ) :=
  runs.foldl (fun acked run ↦ Dict.update acked (run.load edgesPerVertex).acked) []

def postedBatches (edgesPerVertex : ℕ) (runs : List LoadRun) :
    List (List VertexDoc × Option ℕ) :=
  runs.flatMap fun run ↦ (run.load edgesPerVertex).posted

/-! ## Names -/

theorem toList_loadName (tag : String) (n k : ℕ) :
    (loadName tag n k).toList =
      (tag.toList ++ '-' :: (zeroPadded 6 n).toList) ++ '-' :: (toString k).toList := by
  simp [loadName, toString, List.append_assoc]

theorem loadName_inj {tag tag' : String} {n n' k k' : ℕ} :
    loadName tag n k = loadName tag' n' k' ↔ tag = tag' ∧ n = n' ∧ k = k' := by
  constructor
  · intro h
    have hlist := congrArg String.toList h
    rw [toList_loadName, toList_loadName] at hlist
    have hdash : '-'.isDigit = false := by decide
    obtain ⟨hhead, hk⟩ := append_cons_inj (not_mem_toString hdash k) (not_mem_toString hdash k')
      hlist
    obtain ⟨htag, hn⟩ := append_cons_inj (not_mem_zeroPadded hdash 6 n)
      (not_mem_zeroPadded hdash 6 n') hhead
    exact ⟨String.toList_inj.mp htag, zeroPadded_injective 6 (String.toList_inj.mp hn),
      Nat.repr_inj.mp (String.toList_inj.mp hk)⟩
  · rintro ⟨rfl, rfl, rfl⟩
    rfl

theorem not_mem_vname (i : ℕ) : '-' ∉ (vname i).toList := by
  rw [vname_eq, String.toList_append, List.mem_append, not_or]
  exact ⟨by decide, not_mem_zeroPadded (by decide) 7 i⟩

theorem loadName_ne_vname (tag : String) (n k i : ℕ) : loadName tag n k ≠ vname i := by
  intro h
  apply not_mem_vname i
  rw [← h, toList_loadName]
  simp

/-- Two loads that post one name post it with one number. -/
theorem loadBatch_w {tag tag' : String} {n n' : ℕ} {d d' : VertexDoc} (hd : d ∈ loadBatch tag n)
    (hd' : d' ∈ loadBatch tag' n') (hname : d.name = d'.name) : d.w = d'.w := by
  obtain ⟨k, -, rfl⟩ := List.mem_map.mp hd
  obtain ⟨k', -, rfl⟩ := List.mem_map.mp hd'
  obtain ⟨-, rfl, rfl⟩ := loadName_inj.mp hname
  rfl

/-! ## One round and the run -/

theorem keys_acknowledge (docs : List VertexDoc) (acked : List (String × ℤ)) (name : String) :
    name ∈ Dict.keys (acknowledge docs acked) ↔
      name ∈ Dict.keys acked ∨ ∃ d ∈ docs, d.name = name := by
  rw [acknowledge, Dict.mem_keys_update]
  simp [Dict.keys]

theorem mem_of_mem_acknowledge {docs : List VertexDoc} {acked : List (String × ℤ)}
    {e : String × ℤ} (he : e ∈ acknowledge docs acked) :
    e ∈ acked ∨ ∃ d ∈ docs, (d.name, (d.w : ℤ)) = e :=
  (Dict.mem_of_mem_update he).imp_right List.mem_map.mp

/-- However a round ends, it has posted its batch, and has acknowledged it if it
was answered 201. -/
theorem state_round (tag : String) (edgesPerVertex : ℕ) (i : LoadRound) (s : Load) :
    ∃ events, (Load.round tag edgesPerVertex i s).state =
    { n := s.n + 1
      posted := s.posted ++ [(loadBatch tag (s.n + 1), i.write)]
      acked := if i.write = some 201 then acknowledge (loadBatch tag (s.n + 1)) s.acked
        else s.acked
      events := events } := by
  cases hwrite : i.write with
  | none => exact ⟨s.events, by simp [Load.round, hwrite, Round.state]⟩
  | some st =>
      cases hread : i.read.bind (readStatus edgesPerVertex) with
      | none =>
          refine ⟨s.events ++ [.w st], ?_⟩
          by_cases hst : st = 201 <;> simp [Load.round, hwrite, hread, hst, Round.state]
      | some st' =>
          refine ⟨s.events ++ [.w st] ++ [.r st'], ?_⟩
          by_cases hst : st = 201 <;> simp [Load.round, hwrite, hread, hst, Round.state]

/-- The entries are those of acknowledged batches among the posted ones. -/
structure Acknowledges (acked : List (String × ℤ)) (posted : List (List VertexDoc × Option ℕ)) :
    Prop where
  names : ∀ name, name ∈ Dict.keys acked ↔ ∃ p ∈ posted, p.2 = some 201 ∧ ∃ d ∈ p.1, d.name = name
  entries : ∀ e ∈ acked, ∃ p ∈ posted, ∃ d ∈ p.1, (d.name, (d.w : ℤ)) = e

theorem Acknowledges.nil : Acknowledges [] [] where
  names := by simp [Dict.keys]
  entries := by simp

theorem Acknowledges.post {acked : List (String × ℤ)} {posted : List (List VertexDoc × Option ℕ)}
    (h : Acknowledges acked posted) (docs : List VertexDoc) (st : Option ℕ) :
    Acknowledges (if st = some 201 then acknowledge docs acked else acked)
      (posted ++ [(docs, st)]) where
  names := by
    intro name
    split
    · rename_i hst
      rw [keys_acknowledge, h.names]
      simp [or_and_right, exists_or, hst]
    · rename_i hst
      rw [h.names]
      simp [or_and_right, exists_or, hst]
  entries := by
    intro e he
    split at he
    · rcases mem_of_mem_acknowledge he with he | hd
      · obtain ⟨p, hp, hd⟩ := h.entries e he
        exact ⟨p, List.mem_append_left _ hp, hd⟩
      · exact ⟨(docs, st), by simp, hd⟩
    · obtain ⟨p, hp, hd⟩ := h.entries e he
      exact ⟨p, List.mem_append_left _ hp, hd⟩

theorem Acknowledges.merge {acked acked' : List (String × ℤ)}
    {posted posted' : List (List VertexDoc × Option ℕ)} (h : Acknowledges acked posted)
    (h' : Acknowledges acked' posted') :
    Acknowledges (Dict.update acked acked') (posted ++ posted') where
  names := by
    intro name
    rw [Dict.mem_keys_update, h.names, h'.names]
    simp [or_and_right, exists_or]
  entries := by
    intro e he
    rcases Dict.mem_of_mem_update he with he | he
    · obtain ⟨p, hp, hd⟩ := h.entries e he
      exact ⟨p, List.mem_append_left _ hp, hd⟩
    · obtain ⟨p, hp, hd⟩ := h'.entries e he
      exact ⟨p, List.mem_append_right _ hp, hd⟩

structure Load.Truthful (tag : String) (s : Load) : Prop where
  acknowledges : Acknowledges s.acked s.posted
  batches : ∀ p ∈ s.posted, ∃ n, p.1 = loadBatch tag n

theorem Load.Truthful.round {tag : String} {s : Load} (h : s.Truthful tag) (edgesPerVertex : ℕ)
    (i : LoadRound) : (Load.round tag edgesPerVertex i s).state.Truthful tag := by
  obtain ⟨events, hstate⟩ := state_round tag edgesPerVertex i s
  rw [hstate]
  refine ⟨h.acknowledges.post _ _, ?_⟩
  intro p hp
  rcases List.mem_append.mp hp with hp | hp
  · exact h.batches p hp
  · obtain rfl := List.mem_singleton.mp hp
    exact ⟨_, rfl⟩

theorem Load.truthful_run (tag : String) (edgesPerVertex : ℕ) (rounds : List LoadRound) :
    (Load.run tag edgesPerVertex rounds).Truthful tag := by
  apply forRounds_state
  · intro i _ s hs
    exact hs.round edgesPerVertex i
  · exact ⟨Acknowledges.nil, by simp [Load.init]⟩

theorem ledger_acknowledges (edgesPerVertex : ℕ) (runs : List LoadRun) :
    Acknowledges (ledger edgesPerVertex runs) (postedBatches edgesPerVertex runs) := by
  induction runs using List.reverseRecOn with
  | nil => exact Acknowledges.nil
  | append_singleton runs run ih =>
      rw [ledger, postedBatches, List.foldl_append, List.flatMap_append, List.flatMap_singleton]
      exact ih.merge (Load.truthful_run run.tag edgesPerVertex run.rounds).acknowledges

theorem nodup_keys_ledger (edgesPerVertex : ℕ) (runs : List LoadRun) :
    (Dict.keys (ledger edgesPerVertex runs)).Nodup := by
  induction runs using List.reverseRecOn with
  | nil => exact List.nodup_nil
  | append_singleton runs run ih =>
      rw [ledger, List.foldl_append]
      exact Dict.nodup_keys_update ih _

section Posted

variable {edgesPerVertex : ℕ} {runs : List LoadRun}

theorem eq_loadBatch_of_mem {p : List VertexDoc × Option ℕ}
    (hp : p ∈ postedBatches edgesPerVertex runs) : ∃ tag n, p.1 = loadBatch tag n := by
  obtain ⟨run, -, hp⟩ := List.mem_flatMap.mp hp
  exact ⟨run.tag, (Load.truthful_run _ _ _).batches p hp⟩

theorem posted_w_unique {p p' : List VertexDoc × Option ℕ}
    (hp : p ∈ postedBatches edgesPerVertex runs) (hp' : p' ∈ postedBatches edgesPerVertex runs)
    {d d' : VertexDoc} (hd : d ∈ p.1) (hd' : d' ∈ p'.1) (hname : d.name = d'.name) :
    d.w = d'.w := by
  obtain ⟨tag, n, hbatch⟩ := eq_loadBatch_of_mem hp
  obtain ⟨tag', n', hbatch'⟩ := eq_loadBatch_of_mem hp'
  rw [hbatch] at hd
  rw [hbatch'] at hd'
  exact loadBatch_w hd hd' hname

theorem posted_ne_vname {p : List VertexDoc × Option ℕ}
    (hp : p ∈ postedBatches edgesPerVertex runs) {d : VertexDoc} (hd : d ∈ p.1) (i : ℕ) :
    d.name ≠ vname i := by
  obtain ⟨tag, n, hbatch⟩ := eq_loadBatch_of_mem hp
  rw [hbatch] at hd
  obtain ⟨k, -, rfl⟩ := List.mem_map.mp hd
  exact loadName_ne_vname tag n k i

end Posted

/-! ## Reading the ledger back -/

def lastWrite (posts : List Post) (name : String) : Option ℕ :=
  ((postedVertices posts).reverse.find? fun v ↦ v.name = name).map VertexDoc.w

/-- A server that answers each vertex with its last write, and of its outgoing
edges as many as the limit allows, in some order. -/
structure ServesLast (reader : Reader) (pre : String) (posts : List Post) : Prop where
  vertex : ∀ name w, lastWrite posts name = some w →
    (reader.vertex (pre ++ name)).status = 200 ∧
      (reader.vertex (pre ++ name)).json = some (some (w : ℤ))
  outEdges : ∀ name w, lastWrite posts name = some w → ∀ limit,
    (reader.outEdges (pre ++ name) limit).status = 200 ∧
      ∃ es : List (String × ℤ), es.Perm (postedFrom posts (pre ++ name)) ∧
        (reader.outEdges (pre ++ name) limit).json = some (es.take limit)

/-- The batches that a server has applied, in their order: those that it has
acknowledged, and perhaps others. -/
structure Applied (posted : List (List VertexDoc × Option ℕ)) (applied : List (List VertexDoc)) :
    Prop where
  was_posted : ∀ docs ∈ applied, ∃ st, (docs, st) ∈ posted
  acknowledged : ∀ docs, (docs, some 201) ∈ posted → docs ∈ applied

def withApplied (posts : List Post) (applied : List (List VertexDoc)) : List Post :=
  posts ++ applied.map .vertices

theorem lastWrite_eq_some {posts : List Post} {v : VertexDoc} (hv : v ∈ postedVertices posts)
    (hw : ∀ v' ∈ postedVertices posts, v'.name = v.name → v'.w = v.w) :
    lastWrite posts v.name = some v.w := by
  cases hfind : (postedVertices posts).reverse.find? fun v' ↦ v'.name = v.name with
  | none =>
      have hnone := List.find?_eq_none.mp hfind v (List.mem_reverse.mpr hv)
      simp at hnone
  | some v' =>
      have hname : v'.name = v.name := by simpa using List.find?_some hfind
      have hmem := List.mem_reverse.mp (List.mem_of_find?_eq_some hfind)
      rw [lastWrite, hfind, Option.map_some, hw v' hmem hname]

theorem postedVertices_withApplied (posts : List Post) (applied : List (List VertexDoc)) :
    postedVertices (withApplied posts applied) = postedVertices posts ++ applied.flatten := by
  have hvertices : postedVertices (applied.map Post.vertices) = applied.flatten := by
    rw [postedVertices, List.flatMap_map, List.flatten_eq_flatMap]
    rfl
  rw [withApplied, postedVertices_append, hvertices]

theorem postedFrom_withApplied (posts : List Post) (applied : List (List VertexDoc))
    (id : String) : postedFrom (withApplied posts applied) id = postedFrom posts id := by
  have hedges : postedEdges (applied.map Post.vertices) = [] := by
    rw [postedEdges, List.flatMap_map]
    exact List.flatMap_eq_nil_iff.mpr fun _ _ ↦ rfl
  rw [postedFrom, withApplied, postedEdges_append, hedges, List.append_nil, postedFrom]

section Applied

variable {edgesPerVertex : ℕ} {runs : List LoadRun} {applied : List (List VertexDoc)}
  {rest : List Post → Post → Response (List String)} {randrange : ℕ → ℕ → ℕ → ℕ}
  {V D batch : ℕ} {posts : List Post} {oracle : Oracle}
  (happlied : Applied (postedBatches edgesPerVertex runs) applied) (hbatch : 1 ≤ batch)
  (hsetup : setup rest randrange V D batch = .ok (posts, oracle))

include happlied hbatch hsetup

theorem lastWrite_withApplied {v : VertexDoc}
    (hv : v ∈ postedVertices (withApplied posts applied)) :
    lastWrite (withApplied posts applied) v.name = some v.w := by
  apply lastWrite_eq_some hv
  intro v' hv' hname
  have hbase : ∀ u ∈ postedVertices posts, ∃ i, u = vertexDoc i := by
    intro u hu
    rw [postedVertices_setup hbatch hsetup] at hu
    obtain ⟨i, -, rfl⟩ := List.mem_map.mp hu
    exact ⟨i, rfl⟩
  have hlate : ∀ u ∈ applied.flatten,
      ∃ p ∈ postedBatches edgesPerVertex runs, u ∈ p.1 := by
    intro u hu
    obtain ⟨docs, hdocs, hu⟩ := List.mem_flatten.mp hu
    obtain ⟨st, hst⟩ := happlied.was_posted docs hdocs
    exact ⟨_, hst, hu⟩
  rw [postedVertices_withApplied, List.mem_append] at hv hv'
  rcases hv with hv | hv
  · obtain ⟨i, rfl⟩ := hbase v hv
    rcases hv' with hv' | hv'
    · obtain ⟨j, rfl⟩ := hbase v' hv'
      obtain rfl := vname_injective hname
      rfl
    · obtain ⟨p, hp, hmem⟩ := hlate v' hv'
      exact absurd hname (posted_ne_vname hp hmem i)
  · obtain ⟨p, hp, hmem⟩ := hlate v hv
    rcases hv' with hv' | hv'
    · obtain ⟨j, rfl⟩ := hbase v' hv'
      exact absurd hname.symm (posted_ne_vname hp hmem j)
    · obtain ⟨p', hp', hmem'⟩ := hlate v' hv'
      exact posted_w_unique hp' hp hmem' hmem hname

theorem lastWrite_vname {i : ℕ} (hi : i < V) :
    lastWrite (withApplied posts applied) (vname i) = some (i % 97) := by
  apply lastWrite_withApplied happlied hbatch hsetup (v := vertexDoc i)
  rw [postedVertices_withApplied, postedVertices_setup hbatch hsetup]
  exact List.mem_append_left _ (List.mem_map_of_mem (List.mem_range.mpr hi))

variable {reader : Reader} {pre : String}
  (hserves : ServesLast reader pre (withApplied posts applied))

include hserves

theorem serves_of_servesLast : Serves reader pre posts where
  vertex := by
    intro v hv
    apply hserves.vertex
    apply lastWrite_withApplied happlied hbatch hsetup
    rw [postedVertices_withApplied]
    exact List.mem_append_left _ hv
  outEdges := by
    intro v hv
    rw [← postedFrom_withApplied posts applied]
    apply hserves.outEdges
    apply lastWrite_withApplied happlied hbatch hsetup
    rw [postedVertices_withApplied]
    exact List.mem_append_left _ hv

theorem checkAcked_ledger {e : String × ℤ} (he : e ∈ ledger edgesPerVertex runs) :
    checkAcked reader pre e = .ok none := by
  have hacknowledges := ledger_acknowledges edgesPerVertex runs
  obtain ⟨p, hp, d, hd, rfl⟩ := hacknowledges.entries e he
  obtain ⟨⟨docs, st⟩, hp', hst, d', hd', hname⟩ :=
    (hacknowledges.names d.name).mp (List.mem_map_of_mem he)
  obtain rfl : st = some 201 := hst
  have hposted : d' ∈ postedVertices (withApplied posts applied) := by
    rw [postedVertices_withApplied]
    exact List.mem_append_right _ (List.mem_flatten.mpr ⟨docs, happlied.acknowledged _ hp', hd'⟩)
  have hlast := lastWrite_withApplied happlied hbatch hsetup hposted
  rw [hname, posted_w_unique hp' hp hd' hd hname] at hlast
  obtain ⟨hstatus, hjson⟩ := hserves.vertex d.name d.w hlast
  exact checkAcked_eq_none hstatus hjson

end Applied

theorem eq_of_mem_ledger {edgesPerVertex : ℕ} {runs : List LoadRun} {e e' : String × ℤ}
    (he : e ∈ ledger edgesPerVertex runs) (he' : e' ∈ ledger edgesPerVertex runs)
    (hname : e.1 = e'.1) : e = e' :=
  List.inj_on_of_nodup_map (nodup_keys_ledger edgesPerVertex runs) he he' hname

/-- The server that answers with the last writes, and the edges in their order. -/
def readerOf (pre : String) (posts : List Post) : Reader where
  vertex id :=
    match (postedVertices posts).reverse.find? fun v ↦ pre ++ v.name = id with
    | some v => ⟨200, "", some (some (v.w : ℤ))⟩
    | none => ⟨404, "", none⟩
  outEdges id limit := ⟨200, "", some ((postedFrom posts id).take limit)⟩

theorem servesLast_readerOf (pre : String) (posts : List Post) :
    ServesLast (readerOf pre posts) pre posts where
  vertex := by
    intro name w hlast
    obtain ⟨v, hv, rfl⟩ := Option.map_eq_some_iff.mp hlast
    simp [readerOf, hv]
  outEdges := fun name _ _ _ ↦ ⟨rfl, postedFrom posts (pre ++ name), List.Perm.refl _, rfl⟩

/-- Two runs with one tag: a batch is acknowledged, the next one is not, and the
second run posts the first batch again. -/
def sampleRuns : List LoadRun :=
  [⟨"crash", [⟨some 201, some ⟨200, "", some 1⟩⟩, ⟨some 0, none⟩]⟩, ⟨"crash", [⟨none, none⟩]⟩]

def sampleApplied : List (List VertexDoc) :=
  [loadBatch "crash" 1, loadBatch "crash" 2, loadBatch "crash" 1]

end HugeGraphValidation.Faults
