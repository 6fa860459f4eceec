import HugeGraphValidation.Faults.Setup
import HugeGraphValidation.Lib.Lines

/-!
# Verifying the base data

`verify` generates the edges again from the seed and compares them with what
the server answers for a sample of the vertices.
-/

namespace HugeGraphValidation.Faults

open Lib

/-- What `verify` reads: `properties.w` of a vertex, absent or not a number
as `none`, and the far ends with their `seq` of the outgoing edges with label
`link`, up to a limit. -/
structure Reader where
  vertex : String → Response (Option ℤ)
  outEdges : String → ℕ → Response (List (String × ℤ))

inductive Bad where
  | vertex (name : String) (status : ℕ) (body : String)
  | edges (name : String) (status : ℕ) (body : String)
  | edgeset (name : String) (got want : ℕ)
  deriving DecidableEq

def Bad.name : Bad → String
  | vertex name _ _ => name
  | edges name _ _ => name
  | edgeset name _ _ => name

/-- `adj`: for each vertex the drawn targets with their `seq`. -/
def adjacency (randrange : ℕ → ℕ → ℕ → ℕ) (V D : ℕ) : List (List (ℕ × ℕ)) :=
  ((List.range V).foldl (fun (acc : ℕ × List (List (ℕ × ℕ))) _ ↦
    let row := (List.range D).foldl (fun (acc : ℕ × List (ℕ × ℕ)) s ↦
      (acc.1 + 1, acc.2 ++ [(randrange 11 V acc.1, s)])) (acc.1, [])
    (row.1, acc.2 ++ [row.2])) (0, [])).2

/-- `sorted` on pairs of a string and a number. -/
def sortPairs (pairs : List (String × ℤ)) : List (String ×ₗ ℤ) :=
  (pairs.map toLex).insertionSort (· ≤ ·)

/-- `(f"{vp}{vname(t)}", s)` for the drawn targets. -/
def wanted (vp : String) (row : List (ℕ × ℕ)) : List (String × ℤ) :=
  row.map fun p ↦ (vp ++ vname p.1, p.2)

/-- One round of the loop over the sample: the entry it appends to `bad`, if
any.  Answers with status 200 and an unexpected body raise. -/
def checkVertex (rest : Reader) (vp : String) (adj : List (List (ℕ × ℕ))) (i : ℕ) :
    Except Raised (Option Bad) :=
  let r := rest.vertex (vp ++ vname i)
  if r.status ≠ 200 then .ok (some (.vertex (vname i) r.status (clip 80 r.body)))
  else
    match r.json with
    | none => .error .other
    | some w =>
        if w ≠ some ((i % 97 : ℕ) : ℤ) then .ok (some (.vertex (vname i) r.status (clip 80 r.body)))
        else
          let r := rest.outEdges (vp ++ vname i) 1000
          if r.status ≠ 200 then .ok (some (.edges (vname i) r.status (clip 80 r.body)))
          else
            match r.json with
            | none => .error .other
            | some es =>
                let got := sortPairs es
                let want := sortPairs (wanted vp (adj.getD i []))
                if got ≠ want then .ok (some (.edgeset (vname i) got.length want.length))
                else .ok none

/-- One round of the loop over the acknowledged writes. -/
def checkAcked (rest : Reader) (vp : String) (acked : String × ℤ) :
    Except Raised (Option (String × ℕ)) :=
  let r := rest.vertex (vp ++ acked.1)
  if r.status ≠ 200 then .ok (some (acked.1, r.status))
  else
    match r.json with
    | none => .error .other
    | some w => if w ≠ some acked.2 then .ok (some (acked.1, r.status)) else .ok none

/-- A loop that collects what its rounds append. -/
def collect {ι β : Type*} (check : ι → Except Raised (Option β)) :
    List ι → Except Raised (List β)
  | [] => .ok []
  | i :: rest =>
      match check i with
      | .error e => .error e
      | .ok b =>
          match collect check rest with
          | .error e => .error e
          | .ok bs => .ok (b.toList ++ bs)

/-- `verify(rest, oracle, sample)` with the sampled vertices. -/
def verify (rest : Reader) (randrange : ℕ → ℕ → ℕ → ℕ) (oracle : Oracle) (pick : List ℕ) :
    Except Raised (List Bad × List (String × ℕ)) :=
  let adj := adjacency randrange oracle.vertices oracle.edgesPerVertex
  match collect (checkVertex rest oracle.vp adj) pick with
  | .error e => .error e
  | .ok bad =>
      match collect (checkAcked rest oracle.vp) oracle.acked with
      | .error e => .error e
      | .ok lost => .ok (bad, lost)

/-! ## The same graph -/

/-- The far ends and the `seq` of the posted edges of a vertex. -/
def postedFrom (posts : List Post) (id : String) : List (String × ℤ) :=
  ((postedEdges posts).filter fun e ↦ e.outV = id).map fun e ↦ (e.inV, (e.seq : ℤ))

/-- The second loop draws for edge `s` of vertex `i` what the first one drew. -/
theorem adjacency_eq (randrange : ℕ → ℕ → ℕ → ℕ) (V D : ℕ) :
    adjacency randrange V D =
      (List.range V).map fun i ↦
        (List.range D).map fun s ↦ (randrange 11 V (i * D + s), s) := by
  simp only [adjacency, foldl_draws (fun k s ↦ (randrange 11 V k, s)), List.nil_append]
  rw [foldl_rows fun _ k ↦ [(List.range D).map fun s ↦ (randrange 11 V (k + s), s)]]
  exact List.map_eq_flatMap.symm

theorem flatMap_range_ite {β : Type*} {V i : ℕ} (hi : i < V) (row : List β) :
    ((List.range V).flatMap fun j ↦ if j = i then row else []) = row := by
  induction V with
  | zero => omega
  | succ V ih =>
      rw [List.range_succ, List.flatMap_append, List.flatMap_singleton]
      by_cases hlast : V = i
      · have hnone : ((List.range V).flatMap fun j ↦ if j = i then row else []) = [] := by
          rw [List.flatMap_eq_nil_iff]
          intro j hj
          rw [if_neg (by simp at hj; omega)]
        rw [hnone, if_pos hlast, List.nil_append]
      · rw [ih (by omega), if_neg hlast, List.append_nil]

theorem adjacency_getD (randrange : ℕ → ℕ → ℕ → ℕ) {V i : ℕ} (D : ℕ) (hi : i < V) :
    (adjacency randrange V D).getD i [] =
      (List.range D).map fun s ↦ (randrange 11 V (i * D + s), s) := by
  rw [adjacency_eq, List.getD_eq_getElem?_getD, List.getElem?_map, List.getElem?_range hi]
  rfl

section Setup

variable {rest : List Post → Post → Response (List String)} {randrange : ℕ → ℕ → ℕ → ℕ}
  {V D batch : ℕ} {posts : List Post} {oracle : Oracle}

/-- What `verify` wants for a vertex is what `setup` has posted for it. -/
theorem wanted_eq_postedFrom (hbatch : 1 ≤ batch)
    (h : setup rest randrange V D batch = .ok (posts, oracle)) {i : ℕ} (hi : i < V) :
    wanted oracle.vp ((adjacency randrange V D).getD i []) =
      postedFrom posts (oracle.vp ++ vname i) := by
  have hfilter : ∀ j, (((List.range D).map fun s ↦
        (vname j, vname (randrange 11 V (j * D + s)), s)).map (edgeDoc oracle.vp)).filter
          (fun e ↦ e.outV = oracle.vp ++ vname i) =
      if j = i then ((List.range D).map fun s ↦
        (vname i, vname (randrange 11 V (i * D + s)), s)).map (edgeDoc oracle.vp) else [] := by
    intro j
    by_cases hj : j = i
    · subst hj
      rw [if_pos rfl, List.filter_eq_self]
      simp [edgeDoc]
    · rw [if_neg hj, List.filter_eq_nil_iff]
      have hne : vname j ≠ vname i := fun h ↦ hj (vname_injective h)
      simp [edgeDoc, String.append_right_inj, hne]
  rw [adjacency_getD randrange D hi, postedFrom, postedEdges_setup hbatch h, setupEdges_eq,
    List.map_flatMap, List.filter_flatMap]
  simp only [hfilter]
  rw [flatMap_range_ite hi]
  simp [wanted, edgeDoc]

end Setup

/-! ## One round and the loop -/

theorem sortPairs_eq_iff {ps qs : List (String × ℤ)} :
    sortPairs ps = sortPairs qs ↔ ps.Perm qs := by
  rw [sortPairs, sortPairs, insertionSort_eq_iff, List.map_perm_map_iff toLex.injective]

/-- The answers for vertex `i` are not those of a server that has for it the
number and the edges `want`. -/
def Differs (reader : Reader) (vp : String) (want : List (String × ℤ)) (i : ℕ) : Prop :=
  ¬ ((reader.vertex (vp ++ vname i)).status = 200 ∧
      (reader.vertex (vp ++ vname i)).json = some (some ((i % 97 : ℕ) : ℤ))) ∨
    (reader.outEdges (vp ++ vname i) 1000).status ≠ 200 ∨
    ∀ es : List (String × ℤ),
      (reader.outEdges (vp ++ vname i) 1000).json = some es → ¬ es.Perm want

theorem checkVertex_eq_ok {reader : Reader} {vp : String} {adj : List (List (ℕ × ℕ))} {i : ℕ}
    {b : Option Bad} (h : checkVertex reader vp adj i = .ok b) :
    (∀ e ∈ b, e.name = vname i) ∧
      (b.isSome ↔ Differs reader vp (wanted vp (adj.getD i [])) i) := by
  simp only [checkVertex] at h
  unfold Differs
  generalize wanted vp (adj.getD i []) = want at h ⊢
  split at h
  · rename_i hstatus
    obtain rfl := Except.ok.inj h
    exact ⟨by rintro _ ⟨⟩; rfl, by simp [hstatus]⟩
  · rename_i hstatus
    rw [not_not] at hstatus
    split at h
    · cases h
    · rename_i w hjson
      split at h
      · rename_i hw
        obtain rfl := Except.ok.inj h
        refine ⟨by rintro _ ⟨⟩; rfl, ?_⟩
        rw [hjson]
        exact iff_of_true rfl (Or.inl fun h ↦ hw (Option.some.inj h.2))
      · rename_i hw
        rw [not_not] at hw
        subst hw
        split at h
        · rename_i hedges
          obtain rfl := Except.ok.inj h
          exact ⟨by rintro _ ⟨⟩; rfl, by simp [hedges]⟩
        · rename_i hedges
          rw [not_not] at hedges
          split at h
          · cases h
          · rename_i es hes
            split at h
            · rename_i hset
              obtain rfl := Except.ok.inj h
              rw [Ne, sortPairs_eq_iff] at hset
              exact ⟨by rintro _ ⟨⟩; rfl, by simp [hes, hset]⟩
            · rename_i hset
              obtain rfl := Except.ok.inj h
              rw [not_not, sortPairs_eq_iff] at hset
              exact ⟨by rintro _ ⟨⟩, by simp [hstatus, hjson, hedges, hes, hset]⟩

theorem checkVertex_eq_none {reader : Reader} {vp : String} {adj : List (List (ℕ × ℕ))} {i : ℕ}
    {es : List (String × ℤ)} (hstatus : (reader.vertex (vp ++ vname i)).status = 200)
    (hjson : (reader.vertex (vp ++ vname i)).json = some (some ((i % 97 : ℕ) : ℤ)))
    (hedges : (reader.outEdges (vp ++ vname i) 1000).status = 200)
    (hes : (reader.outEdges (vp ++ vname i) 1000).json = some es)
    (hperm : es.Perm (wanted vp (adj.getD i []))) :
    checkVertex reader vp adj i = .ok none := by
  have hsort := sortPairs_eq_iff.mpr hperm
  simp only [checkVertex, hstatus, hjson, hedges, hes, hsort]
  simp

theorem checkAcked_eq_ok {reader : Reader} {vp : String} {e : String × ℤ}
    {b : Option (String × ℕ)} (h : checkAcked reader vp e = .ok b) :
    (∀ x ∈ b, x.1 = e.1) ∧
      (b.isSome ↔ ¬ ((reader.vertex (vp ++ e.1)).status = 200 ∧
        (reader.vertex (vp ++ e.1)).json = some (some e.2))) := by
  simp only [checkAcked] at h
  split at h
  · rename_i hstatus
    obtain rfl := Except.ok.inj h
    exact ⟨by rintro _ ⟨⟩; rfl, by simp [hstatus]⟩
  · rename_i hstatus
    rw [ne_eq, not_not] at hstatus
    split at h
    · cases h
    · rename_i w hjson
      split at h
      · rename_i hw
        obtain rfl := Except.ok.inj h
        exact ⟨by rintro _ ⟨⟩; rfl, by simp [hjson, hw]⟩
      · rename_i hw
        obtain rfl := Except.ok.inj h
        rw [ne_eq, not_not] at hw
        exact ⟨by rintro _ ⟨⟩, by simp [hstatus, hjson, hw]⟩

theorem checkAcked_eq_none {reader : Reader} {vp : String} {e : String × ℤ}
    (hstatus : (reader.vertex (vp ++ e.1)).status = 200)
    (hjson : (reader.vertex (vp ++ e.1)).json = some (some e.2)) :
    checkAcked reader vp e = .ok none := by
  simp [checkAcked, hstatus, hjson]

theorem mem_of_collect_eq_ok {ι β : Type*} {check : ι → Except Raised (Option β)}
    {is : List ι} {bs : List β} (h : collect check is = .ok bs) :
    (∀ i ∈ is, ∃ b, check i = .ok b) ∧
      ∀ x, x ∈ bs ↔ ∃ i ∈ is, check i = .ok (some x) := by
  induction is generalizing bs with
  | nil =>
      obtain rfl := Except.ok.inj h
      simp
  | cons i is ih =>
      simp only [collect] at h
      split at h
      · cases h
      · rename_i b hcheck
        split at h
        · cases h
        · rename_i bs' hrest
          obtain ⟨hall, hmem⟩ := ih hrest
          obtain rfl := Except.ok.inj h
          refine ⟨List.forall_mem_cons.mpr ⟨⟨b, hcheck⟩, hall⟩, ?_⟩
          intro x
          simp only [List.mem_append, Option.mem_toList, hmem, List.mem_cons, exists_eq_or_imp,
            hcheck, Except.ok.injEq]

theorem collect_eq_nil {ι β : Type*} {check : ι → Except Raised (Option β)} {is : List ι}
    (h : ∀ i ∈ is, check i = .ok none) : collect check is = .ok [] := by
  induction is with
  | nil => rfl
  | cons i is ih =>
      have hrest := ih fun j hj ↦ h j (List.mem_cons_of_mem i hj)
      simp [collect, h i List.mem_cons_self, hrest]

/-- Where the name tells the items apart, an entry has the name of an item exactly
when the round of the item appends one. -/
theorem exists_collected_iff {ι β κ : Type*} (name : β → κ) (itemName : ι → κ)
    {check : ι → Except Raised (Option β)} {is : List ι} {bs : List β}
    (h : collect check is = .ok bs)
    (hname : ∀ j b, check j = .ok b → ∀ x ∈ b, name x = itemName j) {i : ι} (hi : i ∈ is)
    (hinj : ∀ j ∈ is, itemName j = itemName i → j = i) :
    ∃ b, check i = .ok b ∧ ((∃ x ∈ bs, name x = itemName i) ↔ b.isSome) := by
  obtain ⟨hall, hmem⟩ := mem_of_collect_eq_ok h
  obtain ⟨b, hb⟩ := hall i hi
  refine ⟨b, hb, ?_, ?_⟩
  · rintro ⟨x, hx, hxi⟩
    obtain ⟨j, hj, hcheck⟩ := (hmem x).mp hx
    obtain rfl := hinj j hj ((hname j _ hcheck x rfl).symm.trans hxi)
    rw [hb] at hcheck
    rw [Except.ok.inj hcheck]
    rfl
  · intro hsome
    obtain ⟨x, rfl⟩ := Option.isSome_iff_exists.mp hsome
    exact ⟨x, (hmem x).mpr ⟨i, hi, hb⟩, hname i _ hb x rfl⟩

theorem verify_eq_ok_iff {reader : Reader} {randrange : ℕ → ℕ → ℕ → ℕ} {oracle : Oracle}
    {pick : List ℕ} {bad : List Bad} {lost : List (String × ℕ)} :
    verify reader randrange oracle pick = .ok (bad, lost) ↔
      collect (checkVertex reader oracle.vp
        (adjacency randrange oracle.vertices oracle.edgesPerVertex)) pick = .ok bad ∧
      collect (checkAcked reader oracle.vp) oracle.acked = .ok lost := by
  unfold verify
  cases hbad : collect (checkVertex reader oracle.vp
      (adjacency randrange oracle.vertices oracle.edgesPerVertex)) pick with
  | error e => simp [hbad]
  | ok bad' =>
      cases collect (checkAcked reader oracle.vp) oracle.acked with
      | error e => simp [hbad]
      | ok lost' => simp [hbad]

/-- A server that answers from what has been posted: each vertex under its id,
and of its outgoing edges as many as the limit allows, in some order. -/
structure Serves (reader : Reader) (pre : String) (posts : List Post) : Prop where
  vertex : ∀ v ∈ postedVertices posts, (reader.vertex (pre ++ v.name)).status = 200 ∧
    (reader.vertex (pre ++ v.name)).json = some (some (v.w : ℤ))
  outEdges : ∀ v ∈ postedVertices posts, ∀ limit,
    (reader.outEdges (pre ++ v.name) limit).status = 200 ∧
      ∃ es : List (String × ℤ), es.Perm (postedFrom posts (pre ++ v.name)) ∧
        (reader.outEdges (pre ++ v.name) limit).json = some (es.take limit)

theorem collect_checkVertex_eq_nil {rest : List Post → Post → Response (List String)}
    {randrange : ℕ → ℕ → ℕ → ℕ} {V D batch : ℕ} {posts : List Post} {oracle : Oracle}
    (hbatch : 1 ≤ batch) (hD : D ≤ 1000)
    (hsetup : setup rest randrange V D batch = .ok (posts, oracle)) {pick : List ℕ}
    (hpick : ∀ i ∈ pick, i < V) {reader : Reader} (hserves : Serves reader oracle.vp posts) :
    collect (checkVertex reader oracle.vp (adjacency randrange V D)) pick = .ok [] := by
  apply collect_eq_nil
  intro i hi
  have hposted : vertexDoc i ∈ postedVertices posts := by
    rw [postedVertices_setup hbatch hsetup]
    exact List.mem_map_of_mem (List.mem_range.mpr (hpick i hi))
  obtain ⟨hstatus, hjson⟩ := hserves.vertex _ hposted
  obtain ⟨hedges, es, hperm, hes⟩ := hserves.outEdges _ hposted 1000
  have hwant : es.Perm (wanted oracle.vp ((adjacency randrange V D).getD i [])) := by
    rw [wanted_eq_postedFrom hbatch hsetup (hpick i hi)]
    exact hperm
  have hlength : es.length ≤ 1000 := by
    rw [hwant.length_eq, adjacency_getD randrange D (hpick i hi)]
    simpa [wanted] using hD
  rw [List.take_of_length_le hlength] at hes
  exact checkVertex_eq_none hstatus hjson hedges hes hwant

/-- The setup ends on a server that accepts its posts.  When it ends, it has
posted every generated vertex and edge exactly once; `verify` finds nothing when
the server answers from what was posted; and whatever the server answers, a
sampled vertex is in `bad` exactly when its answers differ from it. -/
theorem verify_setup (randrange : ℕ → ℕ → ℕ → ℕ) {V D batch : ℕ} (hV : 1 ≤ V)
    (hD : D ≤ 1000) (hbatch : 1 ≤ batch) (rest : List Post → Post → Response (List String)) :
    (∀ pre : String, (∀ sent p, (rest sent p).status = 201) →
      (∀ sent vs, (rest sent (.vertices vs)).json = some (vs.map fun v ↦ pre ++ v.name)) →
      ∃ posts oracle, setup rest randrange V D batch = .ok (posts, oracle)) ∧
    ∀ (posts : List Post) (oracle : Oracle),
      setup rest randrange V D batch = .ok (posts, oracle) →
      (postedVertices posts = (List.range V).map vertexDoc ∧ (postedVertices posts).Nodup ∧
        postedEdges posts = ((List.range V).flatMap fun i ↦ (List.range D).map fun s ↦
          (vname i, vname (randrange 11 V (i * D + s)), s)).map (edgeDoc oracle.vp) ∧
        (postedEdges posts).Nodup) ∧
      (∀ (pre : String) (reader : Reader) (pick : List ℕ), (∀ i ∈ pick, i < V) →
        (∀ sent vs, (rest sent (.vertices vs)).json = some (vs.map fun v ↦ pre ++ v.name)) →
        Serves reader pre posts → verify reader randrange oracle pick = .ok ([], [])) ∧
      (∀ (reader : Reader) (acked : List (String × ℤ)) (pick : List ℕ) (bad : List Bad)
        (lost : List (String × ℕ)), (∀ i ∈ pick, i < V) →
        verify reader randrange { oracle with acked := acked } pick = .ok (bad, lost) →
        ∀ i ∈ pick, (∃ e ∈ bad, e.name = vname i) ↔
          Differs reader oracle.vp (postedFrom posts (oracle.vp ++ vname i)) i) := by
  refine ⟨fun pre haccept hids ↦ setup_accepted haccept hbatch hV hids, ?_⟩
  intro posts oracle hsetup
  have hvertices := postedVertices_setup hbatch hsetup
  have hedges := postedEdges_setup hbatch hsetup
  have horacle := (setup_eq_ok hsetup).2
  have hoV : oracle.vertices = V := by rw [horacle]
  have hoD : oracle.edgesPerVertex = D := by rw [horacle]
  have hacked : oracle.acked = [] := by rw [horacle]
  refine ⟨⟨hvertices, ?_, ?_, ?_⟩, ?_, ?_⟩
  · rw [hvertices]
    exact nodup_vertexDocs V
  · rw [hedges, setupEdges_eq]
  · rw [hedges]
    exact nodup_edgeDocs randrange V D oracle.vp
  · intro pre reader pick hpick hids hserves
    obtain rfl := setup_vp hbatch hV hids hsetup
    rw [verify_eq_ok_iff, hoV, hoD, hacked]
    exact ⟨collect_checkVertex_eq_nil hbatch hD hsetup hpick hserves, rfl⟩
  · intro reader acked pick bad lost hpick hverify i hi
    have hcollect := (verify_eq_ok_iff.mp hverify).1
    simp only [hoV, hoD] at hcollect
    obtain ⟨b, hb, hiff⟩ := exists_collected_iff Bad.name vname hcollect
      (fun _ _ hcheck ↦ (checkVertex_eq_ok hcheck).1) hi fun _ _ heq ↦ vname_injective heq
    rw [hiff, (checkVertex_eq_ok hb).2, wanted_eq_postedFrom hbatch hsetup (hpick i hi)]

def acceptAll (_ : List Post) : Post → Response (List String)
  | .vertices docs => ⟨201, "", some (docs.map fun v ↦ "1:" ++ v.name)⟩
  | _ => ⟨201, "", none⟩

/-- The same server, read with two vertices that have an edge to each other. -/
def twoVertices : Reader where
  vertex id :=
    if id = "1:v0000000" then ⟨200, "", some (some 0)⟩
    else if id = "1:v0000001" then ⟨200, "", some (some 1)⟩
    else ⟨404, "", none⟩
  outEdges id limit :=
    if id = "1:v0000000" then ⟨200, "", some ([("1:v0000001", 0)].take limit)⟩
    else if id = "1:v0000001" then ⟨200, "", some ([("1:v0000000", 0)].take limit)⟩
    else ⟨404, "", none⟩

def samplePosts : List Post :=
  (schema.map fun e ↦ .schema e.1 e.2) ++
    [.vertices [⟨"v0000000", 0⟩], .vertices [⟨"v0000001", 1⟩],
      .edges [⟨"1:v0000000", "1:v0000001", 0, 0⟩], .edges [⟨"1:v0000001", "1:v0000000", 0, 0⟩]]

theorem verify_setup_two_vertices :
    setup acceptAll (fun _ _ k ↦ 1 - k) 2 1 1 =
        .ok (samplePosts, ⟨2, 1, 2, 11, "1:", []⟩) ∧
      (postedVertices samplePosts).Nodup ∧
      verify twoVertices (fun _ _ k ↦ 1 - k) ⟨2, 1, 2, 11, "1:", []⟩ [1, 0] = .ok ([], []) ∧
      ¬ Differs twoVertices "1:" (postedFrom samplePosts ("1:" ++ vname 1)) 1 := by
  have hsetup : setup acceptAll (fun _ _ k ↦ 1 - k) 2 1 1 =
      .ok (samplePosts, ⟨2, 1, 2, 11, "1:", []⟩) := by decide
  obtain ⟨⟨-, hnodup, -, -⟩, hserves, hdiffers⟩ := (verify_setup (fun _ _ k ↦ 1 - k)
    (by omega) (by omega) (by omega) acceptAll).2 samplePosts _ hsetup
  have hverify := hserves "1:" twoVertices [1, 0] (by decide) (fun _ _ ↦ rfl)
    { vertex := by decide
      outEdges := by
        intro v hv limit
        have hcases : v = ⟨"v0000000", 0⟩ ∨ v = ⟨"v0000001", 1⟩ := by
          simpa [samplePosts, postedVertices, Post.vertexDocs, schema] using hv
        rcases hcases with rfl | rfl
        · exact ⟨rfl, [("1:v0000001", 0)], by decide, rfl⟩
        · exact ⟨rfl, [("1:v0000000", 0)], by decide, rfl⟩ }
  have hiff := hdiffers twoVertices [] [1, 0] [] [] (by decide) hverify 1 (by decide)
  refine ⟨hsetup, hnodup, hverify, ?_⟩
  rw [← hiff]
  simp

/-- The same with a page of a proxy in place of the first vertex. -/
def proxyPage : Reader where
  vertex id := if id = "1:v0000000" then ⟨200, "<html>", none⟩ else twoVertices.vertex id
  outEdges := twoVertices.outEdges

/-- `verify` raises on the page, so the vertex that differs is in no `bad`. -/
theorem verify_setup_raises :
    setup acceptAll (fun _ _ k ↦ 1 - k) 2 1 1 =
        .ok (samplePosts, ⟨2, 1, 2, 11, "1:", []⟩) ∧
      Differs proxyPage "1:" (postedFrom samplePosts ("1:" ++ vname 0)) 0 ∧
      verify proxyPage (fun _ _ k ↦ 1 - k) ⟨2, 1, 2, 11, "1:", []⟩ [1, 0] = .error .other ∧
      ¬ ∃ bad lost, verify proxyPage (fun _ _ k ↦ 1 - k) ⟨2, 1, 2, 11, "1:", []⟩ [1, 0] =
        .ok (bad, lost) := by
  have hraises : verify proxyPage (fun _ _ k ↦ 1 - k) ⟨2, 1, 2, 11, "1:", []⟩ [1, 0] =
      .error .other := by decide
  refine ⟨by decide, Or.inl (by decide), hraises, ?_⟩
  rintro ⟨bad, lost, hok⟩
  rw [hraises] at hok
  cases hok

end HugeGraphValidation.Faults
