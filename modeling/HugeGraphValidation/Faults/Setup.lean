import HugeGraphValidation.Lib.Numerals
import HugeGraphValidation.Lib.Slices
import HugeGraphValidation.Lib.Text

/-!
# Setting up the base data

`setup` posts the schema, the vertices and the edges of the base graph in
batches.  The targets of the edges are drawn from a seeded generator; the
answers of the server are arbitrary and may depend on everything posted before.
-/

namespace HugeGraphValidation.Faults

open Lib

/-- `f"v{i:07d}"` -/
def vname (i : ℕ) : String :=
  "v" ++ String.ofList (List.replicate (7 - (toString i).length) '0') ++ toString i

/-- An answer: the status, the text, and its JSON value where it has one of the
expected shape. -/
structure Response (α : Type*) where
  status : ℕ
  body : String
  json : Option α

/-- A posted vertex with label `node`. -/
structure VertexDoc where
  name : String
  w : ℕ
  deriving DecidableEq

/-- A posted edge with label `link` between vertices with label `node`. -/
structure EdgeDoc where
  outV : String
  inV : String
  seq : ℕ
  w : ℕ
  deriving DecidableEq

inductive Post where
  | schema (path name : String)
  | vertices (docs : List VertexDoc)
  | edges (docs : List EdgeDoc)
  deriving DecidableEq

/-- What a run is left by: `SystemExit` with a message, or another exception. -/
inductive Raised where
  | systemExit (message : String)
  | other
  deriving DecidableEq

structure Oracle where
  vertices : ℕ
  edgesPerVertex : ℕ
  edges : ℕ
  seed : ℕ
  vp : String
  acked : List (String × ℤ)
  deriving DecidableEq

/-- The schema elements, in the order they are created. -/
def schema : List (String × String) :=
  [("/schema/propertykeys", "name"), ("/schema/propertykeys", "seq"),
    ("/schema/propertykeys", "w"), ("/schema/vertexlabels", "node"),
    ("/schema/edgelabels", "link")]

def vertexDoc (j : ℕ) : VertexDoc := ⟨vname j, j % 97⟩

def edgeDoc (vp : String) (e : String × String × ℕ) : EdgeDoc :=
  ⟨vp ++ e.1, vp ++ e.2.1, e.2.2, e.2.2⟩

/-- `first[:len(first) - len(vname(0))]`, from the end where that is negative. -/
def idPrefix (first : String) : String :=
  if (vname 0).length ≤ first.length then clip (first.length - (vname 0).length) first
  else clip (2 * first.length - (vname 0).length) first

/-- The batches of vertices with the index of their first one. -/
def vertexBatches (V batch : ℕ) : List (ℕ × List VertexDoc) :=
  (List.range (sliceCount batch V)).map fun k ↦
    let i := k * batch
    (i, (List.range' i (min (i + batch) V - i)).map vertexDoc)

def edgeBatches (vp : String) (batch : ℕ) (edges : List (String × String × ℕ)) :
    List (ℕ × List EdgeDoc) :=
  (List.range (sliceCount batch edges.length)).map fun k ↦
    let i := k * batch
    (i, ((edges.drop i).take batch).map (edgeDoc vp))

/-- The edges of the base graph.  `randrange seed n k` is what draw `k` of a
generator with this seed gives below `n`; the loops count the draws. -/
def setupEdges (randrange : ℕ → ℕ → ℕ → ℕ) (V D : ℕ) : List (String × String × ℕ) :=
  ((List.range V).foldl (fun acc i ↦
    (List.range D).foldl (fun (acc : ℕ × List (String × String × ℕ)) s ↦
      (acc.1 + 1, acc.2 ++ [(vname i, vname (randrange 11 V acc.1), s)])) acc) (0, [])).2

section Posting

variable (rest : List Post → Post → Response (List String))

def postSchema : List (String × String) → List Post → Except Raised (List Post)
  | [], sent => .ok sent
  | (path, name) :: schema, sent =>
      let r := rest sent (.schema path name)
      if r.status ≠ 201 ∧ r.status ≠ 202 then
        .error (.systemExit s!"schema {name}: HTTP {r.status} {clip 200 r.body}")
      else postSchema schema (sent ++ [.schema path name])

/-- The answer to the first batch gives the prefix of the vertex ids. -/
def postVertices : List (ℕ × List VertexDoc) → List Post → Option String →
    Except Raised (List Post × Option String)
  | [], sent, vp => .ok (sent, vp)
  | (i, vs) :: batches, sent, vp =>
      let r := rest sent (.vertices vs)
      if r.status ≠ 201 then
        .error (.systemExit s!"vertex batch {i}: HTTP {r.status} {clip 200 r.body}")
      else if i = 0 then
        match r.json with
        | some (first :: _) =>
            postVertices batches (sent ++ [.vertices vs]) (some (idPrefix first))
        | _ => .error .other
      else postVertices batches (sent ++ [.vertices vs]) vp

def postEdges : List (ℕ × List EdgeDoc) → List Post → Except Raised (List Post)
  | [], sent => .ok sent
  | (i, es) :: batches, sent =>
      let r := rest sent (.edges es)
      if r.status ≠ 201 then
        .error (.systemExit s!"edge batch {i}: HTTP {r.status} {clip 200 r.body}")
      else postEdges batches (sent ++ [.edges es])

/-- `setup(rest)`: everything posted, and the oracle. -/
def setup (randrange : ℕ → ℕ → ℕ → ℕ) (V D batch : ℕ) : Except Raised (List Post × Oracle) :=
  match postSchema rest schema [] with
  | .error e => .error e
  | .ok sent =>
      match postVertices rest (vertexBatches V batch) sent none with
      | .error e => .error e
      | .ok (_, none) => .error .other
      | .ok (sent, some vp) =>
          let edges := setupEdges randrange V D
          match postEdges rest (edgeBatches vp batch edges) sent with
          | .error e => .error e
          | .ok sent => .ok (sent, ⟨V, D, edges.length, 11, vp, []⟩)

end Posting

def Post.vertexDocs : Post → List VertexDoc
  | vertices docs => docs
  | _ => []

def Post.edgeDocs : Post → List EdgeDoc
  | edges docs => docs
  | _ => []

def postedVertices (posts : List Post) : List VertexDoc := posts.flatMap Post.vertexDocs

def postedEdges (posts : List Post) : List EdgeDoc := posts.flatMap Post.edgeDocs

/-! ## Names -/

theorem vname_eq (i : ℕ) : vname i = "v" ++ zeroPadded 7 i := by
  rw [vname, zeroPadded, String.append_assoc]

theorem vname_injective : Function.Injective vname := by
  intro i j h
  rw [vname_eq, vname_eq] at h
  exact zeroPadded_injective 7 ((String.append_right_inj "v").mp h)

/-! ## The draws -/

/-- A loop that draws once a round uses consecutive draws. -/
theorem foldl_draws {β : Type*} (f : ℕ → ℕ → β) (D k : ℕ) (xs : List β) :
    (List.range D).foldl (fun acc s ↦ (acc.1 + 1, acc.2 ++ [f acc.1 s])) (k, xs) =
      (k + D, xs ++ (List.range D).map fun s ↦ f (k + s) s) := by
  induction D with
  | zero => simp
  | succ D ih =>
      rw [List.range_succ, List.foldl_append, ih]
      simp [Nat.add_assoc]

theorem foldl_rows {β : Type*} (f : ℕ → ℕ → List β) (D V : ℕ) :
    (List.range V).foldl (fun (acc : ℕ × List β) i ↦ (acc.1 + D, acc.2 ++ f i acc.1)) (0, []) =
      (V * D, (List.range V).flatMap fun i ↦ f i (i * D)) := by
  induction V with
  | zero => simp
  | succ V ih =>
      rw [List.range_succ, List.foldl_append, ih]
      simp [Nat.succ_mul]

/-- Edge `s` of vertex `i` uses draw `i * D + s`. -/
theorem setupEdges_eq (randrange : ℕ → ℕ → ℕ → ℕ) (V D : ℕ) :
    setupEdges randrange V D =
      (List.range V).flatMap fun i ↦
        (List.range D).map fun s ↦ (vname i, vname (randrange 11 V (i * D + s)), s) := by
  have hinner : ∀ (acc : ℕ × List (String × String × ℕ)) (i : ℕ),
      (List.range D).foldl (fun (acc : ℕ × List (String × String × ℕ)) s ↦
        (acc.1 + 1, acc.2 ++ [(vname i, vname (randrange 11 V acc.1), s)])) acc =
      (acc.1 + D, acc.2 ++ (List.range D).map fun s ↦
        (vname i, vname (randrange 11 V (acc.1 + s)), s)) :=
    fun acc i ↦ foldl_draws (fun k s ↦ (vname i, vname (randrange 11 V k), s)) D acc.1 acc.2
  simp only [setupEdges, hinner]
  rw [foldl_rows fun i k ↦ (List.range D).map fun s ↦
    (vname i, vname (randrange 11 V (k + s)), s)]

/-! ## What is posted -/

theorem vertexBatches_flatten {batch : ℕ} (hbatch : 1 ≤ batch) (V : ℕ) :
    ((vertexBatches V batch).map Prod.snd).flatten = (List.range V).map vertexDoc := by
  have hslices : (vertexBatches V batch).map Prod.snd =
      (slices batch (List.range V)).map (List.map vertexDoc) := by
    simp [vertexBatches, slices, take_drop_range]
  rw [hslices, ← List.map_flatten, slices_flatten hbatch]

theorem edgeBatches_flatten {batch : ℕ} (hbatch : 1 ≤ batch) (vp : String)
    (edges : List (String × String × ℕ)) :
    ((edgeBatches vp batch edges).map Prod.snd).flatten = edges.map (edgeDoc vp) := by
  have hslices : (edgeBatches vp batch edges).map Prod.snd =
      (slices batch edges).map (List.map (edgeDoc vp)) := by
    simp [edgeBatches, slices]
  rw [hslices, ← List.map_flatten, slices_flatten hbatch]

section Spec

variable {rest : List Post → Post → Response (List String)} {sent sent' : List Post}

theorem postSchema_eq_ok {schema : List (String × String)}
    (h : postSchema rest schema sent = .ok sent') :
    sent' = sent ++ schema.map fun e ↦ .schema e.1 e.2 := by
  induction schema generalizing sent with
  | nil => simpa [postSchema] using h.symm
  | cons e schema ih =>
      simp only [postSchema] at h
      split at h
      · cases h
      · rw [ih h, List.map_cons, List.append_assoc, List.singleton_append]

theorem postVertices_eq_ok {batches : List (ℕ × List VertexDoc)} {vp vp' : Option String}
    (h : postVertices rest batches sent vp = .ok (sent', vp')) :
    sent' = sent ++ batches.map fun b ↦ .vertices b.2 := by
  induction batches generalizing sent vp with
  | nil => simpa [postVertices] using (Prod.mk.inj (Except.ok.inj h)).1.symm
  | cons b batches ih =>
      simp only [postVertices] at h
      split at h
      · cases h
      · split at h
        · split at h
          · rw [ih h, List.map_cons, List.append_assoc, List.singleton_append]
          · cases h
        · rw [ih h, List.map_cons, List.append_assoc, List.singleton_append]

theorem postEdges_eq_ok {batches : List (ℕ × List EdgeDoc)}
    (h : postEdges rest batches sent = .ok sent') :
    sent' = sent ++ batches.map fun b ↦ .edges b.2 := by
  induction batches generalizing sent with
  | nil => simpa [postEdges] using h.symm
  | cons b batches ih =>
      simp only [postEdges] at h
      split at h
      · cases h
      · rw [ih h, List.map_cons, List.append_assoc, List.singleton_append]

theorem setup_eq_ok {randrange : ℕ → ℕ → ℕ → ℕ} {V D batch : ℕ} {posts : List Post}
    {oracle : Oracle} (h : setup rest randrange V D batch = .ok (posts, oracle)) :
    posts = (schema.map fun e ↦ .schema e.1 e.2) ++
        ((vertexBatches V batch).map fun b ↦ .vertices b.2) ++
        ((edgeBatches oracle.vp batch (setupEdges randrange V D)).map fun b ↦ .edges b.2) ∧
      oracle = ⟨V, D, (setupEdges randrange V D).length, 11, oracle.vp, []⟩ := by
  unfold setup at h
  split at h
  · cases h
  · rename_i sent hschema
    split at h
    · cases h
    · cases h
    · rename_i sent' vp hvertices
      simp only at h
      split at h
      · cases h
      · rename_i sent'' hedges
        obtain ⟨rfl, rfl⟩ := Prod.mk.inj (Except.ok.inj h)
        refine ⟨?_, rfl⟩
        rw [postEdges_eq_ok hedges, postVertices_eq_ok hvertices, postSchema_eq_ok hschema,
          List.nil_append]

end Spec

theorem postedVertices_append (posts posts' : List Post) :
    postedVertices (posts ++ posts') = postedVertices posts ++ postedVertices posts' :=
  List.flatMap_append

theorem postedEdges_append (posts posts' : List Post) :
    postedEdges (posts ++ posts') = postedEdges posts ++ postedEdges posts' :=
  List.flatMap_append

theorem postedVertices_map_vertices (batches : List (ℕ × List VertexDoc)) :
    postedVertices (batches.map fun b ↦ .vertices b.2) = (batches.map Prod.snd).flatten := by
  rw [postedVertices, List.flatMap_map, List.flatten_eq_flatMap, List.flatMap_map]
  rfl

theorem postedEdges_map_edges (batches : List (ℕ × List EdgeDoc)) :
    postedEdges (batches.map fun b ↦ .edges b.2) = (batches.map Prod.snd).flatten := by
  rw [postedEdges, List.flatMap_map, List.flatten_eq_flatMap, List.flatMap_map]
  rfl

theorem postedVertices_map_edges (batches : List (ℕ × List EdgeDoc)) :
    postedVertices (batches.map fun b ↦ .edges b.2) = [] := by
  rw [postedVertices, List.flatMap_map]
  exact List.flatMap_eq_nil_iff.mpr fun _ _ ↦ rfl

theorem postedEdges_map_vertices (batches : List (ℕ × List VertexDoc)) :
    postedEdges (batches.map fun b ↦ .vertices b.2) = [] := by
  rw [postedEdges, List.flatMap_map]
  exact List.flatMap_eq_nil_iff.mpr fun _ _ ↦ rfl

section Posted

variable {rest : List Post → Post → Response (List String)} {randrange : ℕ → ℕ → ℕ → ℕ}
  {V D batch : ℕ} {posts : List Post} {oracle : Oracle}

theorem postedVertices_setup (hbatch : 1 ≤ batch)
    (h : setup rest randrange V D batch = .ok (posts, oracle)) :
    postedVertices posts = (List.range V).map vertexDoc := by
  rw [(setup_eq_ok h).1, postedVertices_append, postedVertices_append,
    postedVertices_map_vertices, postedVertices_map_edges, vertexBatches_flatten hbatch,
    List.append_nil]
  rfl

theorem postedEdges_setup (hbatch : 1 ≤ batch)
    (h : setup rest randrange V D batch = .ok (posts, oracle)) :
    postedEdges posts = (setupEdges randrange V D).map (edgeDoc oracle.vp) := by
  rw [(setup_eq_ok h).1, postedEdges_append, postedEdges_append, postedEdges_map_vertices,
    postedEdges_map_edges, edgeBatches_flatten hbatch, List.append_nil]
  rfl

theorem idPrefix_append (pre : String) : idPrefix (pre ++ vname 0) = pre := by
  have hlength : (pre ++ vname 0).length - (vname 0).length = pre.length := by
    rw [String.length_append, Nat.add_sub_cancel]
  have hle : (vname 0).length ≤ (pre ++ vname 0).length := by
    rw [String.length_append]
    exact Nat.le_add_left _ _
  rw [idPrefix, if_pos hle, hlength, clip, String.toList_append, ← String.length_toList,
    List.take_left, String.ofList_toList]

theorem postVertices_vp {pre : String}
    (hids : ∀ sent vs, (rest sent (.vertices vs)).json = some (vs.map fun v ↦ pre ++ v.name))
    {batches : List (ℕ × List VertexDoc)}
    (hfirst : ∀ b ∈ batches, b.1 = 0 → ∃ vs, b.2 = vertexDoc 0 :: vs) {sent sent' : List Post}
    {vp vp' : Option String} (hvp : vp = none ∨ vp = some pre)
    (h : postVertices rest batches sent vp = .ok (sent', vp')) :
    vp' = none ∨ vp' = some pre := by
  induction batches generalizing sent vp with
  | nil => exact (Prod.mk.inj (Except.ok.inj h)).2 ▸ hvp
  | cons b batches ih =>
      have hrest := fun b hb ↦ hfirst b (List.mem_cons_of_mem _ hb)
      simp only [postVertices] at h
      split at h
      · cases h
      · split at h
        · rename_i hzero
          obtain ⟨vs, hvs⟩ := hfirst b List.mem_cons_self hzero
          rw [hids, hvs] at h
          refine ih hrest (Or.inr ?_) h
          rw [vertexDoc, idPrefix_append]
        · exact ih hrest hvp h

theorem vertexBatches_first (hbatch : 1 ≤ batch) (hV : 1 ≤ V) :
    ∀ b ∈ vertexBatches V batch, b.1 = 0 → ∃ vs, b.2 = vertexDoc 0 :: vs := by
  rintro b hb hzero
  obtain ⟨k, -, rfl⟩ := List.mem_map.mp hb
  have hk : k * batch = 0 := hzero
  obtain ⟨n, hn⟩ : ∃ n, min (k * batch + batch) V - k * batch = n + 1 :=
    ⟨min (k * batch + batch) V - k * batch - 1, by omega⟩
  refine ⟨(List.range' 1 n).map vertexDoc, ?_⟩
  simp only [hn]
  rw [hk, List.range'_succ, List.map_cons]

/-- The oracle keeps the prefix of the ids that the server gives. -/
theorem setup_vp {pre : String} (hbatch : 1 ≤ batch) (hV : 1 ≤ V)
    (hids : ∀ sent vs, (rest sent (.vertices vs)).json = some (vs.map fun v ↦ pre ++ v.name))
    (h : setup rest randrange V D batch = .ok (posts, oracle)) : oracle.vp = pre := by
  unfold setup at h
  split at h
  · cases h
  · split at h
    · cases h
    · cases h
    · rename_i sent vp hvertices
      have hvp := postVertices_vp hids (vertexBatches_first hbatch hV) (Or.inl rfl) hvertices
      simp only at h
      split at h
      · cases h
      · obtain ⟨-, rfl⟩ := Prod.mk.inj (Except.ok.inj h)
        simpa using hvp

section Accepted

variable (haccept : ∀ sent p, (rest sent p).status = 201)

include haccept

theorem postSchema_accepted (schema : List (String × String)) (sent : List Post) :
    ∃ sent', postSchema rest schema sent = .ok sent' := by
  induction schema generalizing sent with
  | nil => exact ⟨sent, rfl⟩
  | cons e schema ih => simpa [postSchema, haccept] using ih _

theorem postEdges_accepted (batches : List (ℕ × List EdgeDoc)) (sent : List Post) :
    ∃ sent', postEdges rest batches sent = .ok sent' := by
  induction batches generalizing sent with
  | nil => exact ⟨sent, rfl⟩
  | cons b batches ih => simpa [postEdges, haccept] using ih _

theorem postVertices_accepted {pre : String}
    (hids : ∀ sent vs, (rest sent (.vertices vs)).json = some (vs.map fun v ↦ pre ++ v.name))
    {batches : List (ℕ × List VertexDoc)}
    (hfirst : ∀ b ∈ batches, b.1 = 0 → ∃ vs, b.2 = vertexDoc 0 :: vs) (sent : List Post)
    {vp : Option String} (hvp : vp.isSome ∨ ∃ b ∈ batches, b.1 = 0) :
    ∃ sent' vp', postVertices rest batches sent vp = .ok (sent', some vp') := by
  induction batches generalizing sent vp with
  | nil =>
      obtain ⟨v, rfl⟩ := Option.isSome_iff_exists.mp (hvp.resolve_right (by simp))
      exact ⟨sent, v, rfl⟩
  | cons b batches ih =>
      have hrest := fun b hb ↦ hfirst b (List.mem_cons_of_mem _ hb)
      by_cases hzero : b.1 = 0
      · obtain ⟨vs, hvs⟩ := hfirst b List.mem_cons_self hzero
        simp only [postVertices, haccept, hzero, hids, hvs, List.map_cons]
        exact ih hrest _ (Or.inl rfl)
      · have hvp' : vp.isSome ∨ ∃ b ∈ batches, b.1 = 0 := by
          simpa [hzero] using hvp
        simpa [postVertices, haccept, hzero] using ih hrest _ hvp'

theorem setup_accepted {pre : String} (hbatch : 1 ≤ batch) (hV : 1 ≤ V)
    (hids : ∀ sent vs, (rest sent (.vertices vs)).json = some (vs.map fun v ↦ pre ++ v.name)) :
    ∃ posts oracle, setup rest randrange V D batch = .ok (posts, oracle) := by
  have hcount : 0 < sliceCount batch V := by
    rw [sliceCount_step hbatch hV]
    exact Nat.succ_pos _
  have hzero : (none : Option String).isSome ∨ ∃ b ∈ vertexBatches V batch, b.1 = 0 :=
    Or.inr ⟨_, List.mem_map_of_mem (List.mem_range.mpr hcount), Nat.zero_mul batch⟩
  obtain ⟨sent, hsent⟩ := postSchema_accepted haccept schema []
  obtain ⟨sent', vp, hsent'⟩ := postVertices_accepted haccept hids
    (vertexBatches_first hbatch hV) sent hzero
  obtain ⟨sent'', hsent''⟩ := postEdges_accepted haccept
    (edgeBatches vp batch (setupEdges randrange V D)) sent'
  refine ⟨sent'', ⟨V, D, (setupEdges randrange V D).length, 11, vp, []⟩, ?_⟩
  simp only [setup, hsent, hsent', hsent'']

end Accepted

theorem nodup_vertexDocs (V : ℕ) : ((List.range V).map vertexDoc).Nodup := by
  apply List.nodup_range.map
  intro i j h
  exact vname_injective (VertexDoc.mk.inj h).1

theorem nodup_edgeDocs (randrange : ℕ → ℕ → ℕ → ℕ) (V D : ℕ) (vp : String) :
    ((setupEdges randrange V D).map (edgeDoc vp)).Nodup := by
  rw [setupEdges_eq, List.map_flatMap, List.nodup_flatMap]
  refine ⟨?_, ?_⟩
  · intro i _
    rw [List.map_map]
    exact List.nodup_range.map fun s s' h ↦ (EdgeDoc.mk.inj h).2.2.1
  · apply List.nodup_range.imp
    intro i j hne e hi hj
    simp only [List.map_map, List.mem_map] at hi hj
    obtain ⟨s, -, rfl⟩ := hi
    obtain ⟨s', -, h⟩ := hj
    have hname : vp ++ vname j = vp ++ vname i := (EdgeDoc.mk.inj h).1
    exact hne (vname_injective (String.append_right_inj vp |>.mp hname)).symm

end Posted

end HugeGraphValidation.Faults
