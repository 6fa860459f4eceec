import HugeGraphValidation.Lib.Windows
import HugeGraphValidation.Paging.Unpatched
import HugeGraphValidation.Suite.Walk

/-!
# What the paging probe measures

`page_probe.py` follows the pages of a query and reports the ids that it meets
twice, and the pages that the next page begins with the last id of.  Run over the
iterator of the patch it finds none; run over the old one it finds F1.
-/

namespace HugeGraphValidation.Paging

open Lib Suite

/-- The numbers of one line of the probe's output. -/
structure Probed where
  pages : ℕ
  sizes : List ℕ
  n : ℕ
  uniq : ℕ
  dups : ℕ
  lastFirst : List ℕ
  dupPos : List ℕ
  dupIds : List Id
  deriving DecidableEq

def measure (pages : List (List Id)) : Probed :=
  let flat := pages.flatten
  let dups := repeats flat
  { pages := pages.length
    sizes := (pages.map List.length).take 6
    n := flat.length
    uniq := flat.toFinset.card
    dups := dups.length
    lastFirst := seams pages
    dupPos := (dups.map Prod.fst).take 4
    dupIds := (dups.map Prod.snd).take 2 }

/-- `walk`: like `HG.paged`, but the pages are kept apart. -/
def walkPages (get : String → Reply (List Id × Option String)) (fuel : ℕ) :
    Option (Walked String (List Id) String) :=
  walk (fun token ↦ (nextPage (idsRest (get token))).map fun p ↦ ([p.1], p.2))
    (fun pages ↦ decide (200 < pages)) fuel [] "" 0 []

def probe (get : String → Reply (List Id × Option String)) (fuel : ℕ) :
    Option (Except String Probed) :=
  (walkPages get fuel).map fun w ↦ w.result.map measure

/-- Whatever the server answers: the ids are those met once and those met again,
and a page that ends with the id the next one begins with is a repeat there. -/
theorem measure_counts (pages : List (List Id)) :
    let r := measure pages
    r.n = r.uniq + r.dups ∧ (r.dups = 0 ↔ pages.flatten.Nodup) ∧
      ∀ k ∈ r.lastFirst, ∃ x, ((pages.take (k + 1)).flatten.length, x) ∈ repeats pages.flatten := by
  refine ⟨?_, ?_, fun k hk ↦ repeats_of_mem_seams hk⟩
  · have hlength := length_repeats pages.flatten
    simp only [measure]
    omega
  · rw [← repeats_eq_nil_iff]
    exact List.length_eq_zero_iff

/-- The report on pages that overlap in one id. -/
theorem measure_overlap {ids : List Id} (hids : ids.Nodup) {step count : ℕ}
    (hfull : ∀ k < count, (k + 1) * step < ids.length) :
    let r := measure (windowPages (step + 1) step ids (count + 1))
    r.pages = count + 1 ∧ r.uniq = min ((count + 1) * step + 1) ids.length ∧ r.dups = count ∧
      r.n = r.uniq + count ∧ r.lastFirst = List.range count ∧
      r.dupPos = ((List.range count).map fun k ↦ (k + 1) * (step + 1)).take 4 := by
  intro r
  obtain ⟨hseen, hrepeats⟩ := windowPages_overlap hids count hfull
  have hpos : (repeats (windowPages (step + 1) step ids (count + 1)).flatten).map Prod.fst =
      (List.range count).map fun k ↦ (k + 1) * (step + 1) := by
    rw [hrepeats, List.map_filterMap, ← List.filterMap_eq_map]
    apply List.filterMap_congr
    intro k hk
    simp [hfull k (List.mem_range.mp hk)]
  have hdups : r.dups = count := by
    have hlength := congrArg List.length hpos
    simpa [r, measure] using hlength
  have huniq : r.uniq = min ((count + 1) * step + 1) ids.length := by
    simp only [r, measure]
    rw [hseen, List.toFinset_card_of_nodup (hids.sublist (List.take_sublist _ _)),
      List.length_take]
  have hn : r.n = r.uniq + r.dups := (measure_counts _).1
  refine ⟨by simp [r, measure, windowPages], huniq, hdups, by rw [hn, hdups],
    seams_overlap ids count hfull, ?_⟩
  simp only [r, measure]
  rw [hpos]

/-! ## The pages of an iterator -/

section Served

variable {Elem Entry Group : Type*}

/-- The server's answer to a page request: the page that begins at the token's
record, or the first one.  A violated assertion fails the request. -/
def served (m : Merger Elem Entry Group) (key : Elem → String) (idOf : Elem → Id) (limit : ℕ)
    (body : FetchBody Elem Entry String) (stream : List Elem) (token : String) :
    Reply (List Id × Option String) :=
  match page m limit body (if token = "" then stream else fromPosition key token stream) with
  | .error _ => ⟨500, true, none, "", ([], none)⟩
  | .ok p => ⟨200, false, none, "", ((p.records m).map idOf, p.position)⟩

variable (m : Merger Elem Entry Group) (key : Elem → String) (limit : ℕ)
  (body : FetchBody Elem Entry String) (stream : List Elem)

/-- Every page shows `size` records, and the next one begins `step` behind its start. -/
def Strides (size step : ℕ) : Prop :=
  ∀ n, ∃ p : Page Entry String, page m limit body (stream.drop n) = .ok p ∧
    p.records m = (stream.drop n).take size ∧
    p.position = (stream.drop (n + step)).head?.map key

variable {m key limit body stream} {idOf : Elem → Id} {size step : ℕ}

/-- The token of page `k`. -/
def tokenOf (key : Elem → String) (step : ℕ) (stream : List Elem) (k : ℕ) : String :=
  if k = 0 then "" else (stream[k * step]?.map key).getD ""

theorem fromPosition_tokenOf (hkeys : (stream.map key).Nodup) (hnonempty : "" ∉ stream.map key)
    {k : ℕ} (hk : k * step < stream.length ∨ k = 0) :
    (if tokenOf key step stream k = "" then stream
      else fromPosition key (tokenOf key step stream k) stream) = stream.drop (k * step) := by
  rcases Nat.eq_zero_or_pos k with rfl | hpos
  · simp [tokenOf]
  · have hlt : k * step < stream.length := hk.resolve_right (by omega)
    have htoken : tokenOf key step stream k = key stream[k * step] := by
      rw [tokenOf, if_neg (by omega), List.getElem?_eq_getElem hlt, Option.map_some,
        Option.getD_some]
    have hne : key stream[k * step] ≠ "" := by
      intro h
      exact hnonempty (h ▸ List.mem_map_of_mem (List.getElem_mem hlt))
    rw [htoken, if_neg hne]
    apply fromPosition_eq_drop hkeys
    rw [List.head?_drop, List.getElem?_eq_getElem hlt, Option.map_some]

theorem served_tokenOf (h : Strides m key limit body stream size step) (hstep : 1 ≤ step)
    (hkeys : (stream.map key).Nodup) (hnonempty : "" ∉ stream.map key) {k : ℕ}
    (hk : k < windowCount step stream.length) :
    nextPage (idsRest (served m key idOf limit body stream (tokenOf key step stream k))) =
      .ok (window size step (stream.map idOf) k,
        if k + 1 < windowCount step stream.length then some (tokenOf key step stream (k + 1))
        else none) := by
  have hbehind : k * step < stream.length ∨ k = 0 := by
    rcases Nat.eq_zero_or_pos k with hzero | hpos
    · exact Or.inr hzero
    · obtain ⟨j, rfl⟩ : ∃ j, k = j + 1 := ⟨k - 1, by omega⟩
      exact Or.inl ((lt_windowCount_iff hstep).mp hk)
  obtain ⟨p, hpage, hrecords, hposition⟩ := h (k * step)
  have hids : (p.records m).map idOf = window size step (stream.map idOf) k := by
    rw [hrecords, window, List.map_take, List.map_drop]
  have hnext : (p.position.filter fun token ↦ token ≠ "") =
      if k + 1 < windowCount step stream.length then some (tokenOf key step stream (k + 1))
      else none := by
    rw [hposition, List.head?_drop, ← Nat.succ_mul, Nat.succ_eq_add_one]
    simp only [lt_windowCount_iff hstep]
    split_ifs with hlt
    · have hne : key stream[(k + 1) * step] ≠ "" := by
        intro h
        exact hnonempty (h ▸ List.mem_map_of_mem (List.getElem_mem hlt))
      rw [tokenOf, if_neg k.succ_ne_zero, List.getElem?_eq_getElem hlt, Option.map_some,
        Option.getD_some]
      simp [hne]
    · rw [List.getElem?_eq_none (by omega)]
      rfl
  rw [served, fromPosition_tokenOf hkeys hnonempty hbehind, hpage, ← hids, ← hnext]
  rfl

variable (idOf) in
/-- The probe reads one window after the other, 201 of them at most. -/
theorem probe_of_strides (h : Strides m key limit body stream size step) (hstep : 1 ≤ step)
    (hkeys : (stream.map key).Nodup) (hnonempty : "" ∉ stream.map key) {fuel : ℕ}
    (hfuel : 201 ≤ fuel) :
    probe (served m key idOf limit body stream) fuel =
      some (.ok (measure (windowPages size step (stream.map idOf)
        (min 201 (windowCount step stream.length))))) := by
  have hchain : ∀ k < windowCount step stream.length,
      (nextPage (idsRest (served m key idOf limit body stream
        (tokenOf key step stream k)))).map (fun p ↦ ([p.1], p.2)) =
      .ok ([window size step (stream.map idOf) k],
        if k + 1 < windowCount step stream.length then some (tokenOf key step stream (k + 1))
        else none) := by
    intro k hk
    rw [served_tokenOf h hstep hkeys hnonempty hk]
    rfl
  have hwalk : ∃ w, (∀ fuel, 201 ≤ fuel →
        walkPages (served m key idOf limit body stream) fuel = some w) ∧
      w.result = .ok ((List.range (min 201 (windowCount step stream.length))).flatMap
        fun k ↦ [window size step (stream.map idOf) k]) ∧
      w.pages = min 201 (windowCount step stream.length) :=
    walk_of_chain (fun _ ↦ decide_eq_true_iff.trans Nat.lt_iff_add_one_le) (by omega)
      (Nat.le_add_right 1 _) rfl hchain
  obtain ⟨w, hrun, hresult, -⟩ := hwalk
  have hmap : (List.range (min 201 (windowCount step stream.length))).flatMap
      (fun k ↦ [window size step (stream.map idOf) k]) =
      windowPages size step (stream.map idOf) (min 201 (windowCount step stream.length)) :=
    List.map_eq_flatMap.symm
  rw [probe, hrun fuel hfuel, Option.map_some, hresult, hmap]
  rfl

end Served

/-! ## The iterator of the patch and the one before -/

section Pages

variable {Elem Entry Group Key : Type*} {m : Merger Elem Entry Group} {key : Elem → Key}
  {inlineBatchSize limit : ℕ}

/-- The limits at which a page of the old loop ends with a full batch. -/
def EndsBatch (inlineBatchSize limit : ℕ) : Prop :=
  limit % inlineBatchSize = 0 ∨ limit % inlineBatchSize = inlineBatchSize - 1

instance : DecidableRel EndsBatch := fun _ _ ↦ inferInstanceAs (Decidable (_ ∨ _))

/-- How many records such a page shows. -/
def batchPage (inlineBatchSize limit : ℕ) : ℕ :=
  if limit % inlineBatchSize = 0 then limit else limit + 1

variable (key) in
/-- A page of the old loop is that of the patched one, or it ends with a full batch and
leaves the position at its last record. -/
theorem page_twins (hB : 2 ≤ inlineBatchSize) (hL : 1 ≤ limit) {records : List Elem} {g : Group}
    (hg : ∀ e ∈ records, m.group e = g) :
    (∃ p : Page Entry Key,
      page m limit (fetchRoundUnpatched m key inlineBatchSize limit) records = .ok p ∧
        page m limit (fetchRound m key inlineBatchSize limit) records = .ok p ∧
        (EndsBatch inlineBatchSize limit → records.length < batchPage inlineBatchSize limit)) ∨
      ∃ p : Page Entry Key, EndsBatch inlineBatchSize limit ∧
        page m limit (fetchRoundUnpatched m key inlineBatchSize limit) records = .ok p ∧
        p.records m = records.take (batchPage inlineBatchSize limit) ∧
        p.position = (records.drop (batchPage inlineBatchSize limit - 1)).head?.map key := by
  have hstart : Twins m key (BinaryEntryIterator.start records)
      (BinaryEntryIterator.start records : BinaryEntryIterator Elem Entry Key) records :=
    ⟨rfl, rfl, rfl, rfl, rfl, rfl, rfl, Or.inl ⟨rfl, rfl⟩⟩
  have hrun := forRounds_of_twins hB (List.range (limit + 1)) _ _ [] records hstart
    (show 0 < limit by omega) (by simp [BinaryEntryIterator.start]) hg
  rw [show limit - (BinaryEntryIterator.start records :
    BinaryEntryIterator Elem Entry Key).count = limit from Nat.sub_zero limit] at hrun
  unfold page
  generalize forRounds (consumeRound m limit (fetchRound m key inlineBatchSize limit)) _ _ =
    patched at hrun ⊢
  generalize forRounds (consumeRound m limit (fetchRoundUnpatched m key inlineBatchSize limit))
    _ _ = unpatched at hrun ⊢
  cases hrun with
  | same s s' p hbatch hbeyond =>
      refine Or.inl ⟨p, rfl, rfl, ?_⟩
      intro hends
      unfold batchPage
      split_ifs with hzero
      · exact Nat.lt_of_not_le fun h ↦ hbatch ⟨hzero, h⟩
      · exact Nat.lt_of_not_le fun h ↦ hbeyond ⟨hends.resolve_left hzero, h⟩
  | stale _ s entries k hk hlength hrecords =>
      have hsize : k = batchPage inlineBatchSize limit := by
        unfold batchPage
        split_ifs with hzero
        · omega
        · omega
      exact Or.inr ⟨⟨[] ++ entries, (records.drop (k - 1)).head?.map key⟩,
        hk.imp And.left And.left, rfl, by rw [← hsize]; exact hrecords, by rw [hsize]⟩

variable (key) in
theorem page_unpatched_of_endsBatch (hB : 2 ≤ inlineBatchSize) (hL : 1 ≤ limit)
    (hends : EndsBatch inlineBatchSize limit) {records : List Elem} {g : Group}
    (hg : ∀ e ∈ records, m.group e = g) :
    ∃ p : Page Entry Key,
      page m limit (fetchRoundUnpatched m key inlineBatchSize limit) records = .ok p ∧
        p.records m = records.take (batchPage inlineBatchSize limit) ∧
        p.position = (records.drop (batchPage inlineBatchSize limit - 1)).head?.map key := by
  rcases page_twins key hB hL hg with ⟨p, hp, hq, hshort⟩ | ⟨p, -, hp, hrecords, hposition⟩
  · -- too few records for the full batch: the last page, clean
    have hlt := hshort hends
    have hle : limit ≤ batchPage inlineBatchSize limit ∧
        batchPage inlineBatchSize limit ≤ limit + 1 := by
      unfold batchPage
      split_ifs
      · omega
      · omega
    obtain ⟨q, hq', hqrecords, hqposition, -⟩ :=
      page_eq_ok (m := m) key inlineBatchSize limit (by omega) hL records
    obtain rfl : p = q := Except.ok.inj (hq.symm.trans hq')
    refine ⟨p, hp, ?_, ?_⟩
    · rw [hqrecords, List.take_of_length_le (by omega), List.take_of_length_le (by omega)]
    · rw [hqposition, List.drop_of_length_le (by omega), List.drop_of_length_le (by omega)]
  · exact ⟨p, hp, hrecords, hposition⟩

variable (key) in
theorem page_unpatched_of_not_endsBatch (hB : 2 ≤ inlineBatchSize) (hL : 1 ≤ limit)
    (hends : ¬ EndsBatch inlineBatchSize limit) {records : List Elem} {g : Group}
    (hg : ∀ e ∈ records, m.group e = g) :
    (page m limit (fetchRoundUnpatched m key inlineBatchSize limit) records :
      Except Fault (Page Entry Key)) =
        page m limit (fetchRound m key inlineBatchSize limit) records := by
  rcases page_twins key hB hL hg with ⟨p, hp, hq, -⟩ | ⟨p, hends', -⟩
  · rw [hp, hq]
  · exact absurd hends' hends

end Pages

def fiveRecords : List (ℕ × ℕ) := [(0, 1), (0, 2), (0, 3), (0, 4), (0, 5)]

def recordKey (e : ℕ × ℕ) : String := toString e.2

section Probe

variable {Elem Entry Group : Type*} (m : Merger Elem Entry Group) (key : Elem → String)
  {inlineBatchSize limit : ℕ}

theorem strides_patched (hB : 1 ≤ inlineBatchSize) (hL : 1 ≤ limit) (stream : List Elem) :
    Strides m key limit (fetchRound m key inlineBatchSize limit) stream limit limit := by
  intro n
  obtain ⟨p, hpage, hrecords, hposition, -⟩ :=
    page_eq_ok (m := m) key inlineBatchSize limit hB hL (stream.drop n)
  rw [List.drop_drop] at hposition
  exact ⟨p, hpage, hrecords, hposition⟩

theorem strides_unpatched (hB : 2 ≤ inlineBatchSize) (hL : 1 ≤ limit)
    (hends : EndsBatch inlineBatchSize limit) {stream : List Elem} {g : Group}
    (hg : ∀ e ∈ stream, m.group e = g) :
    Strides m key limit (fetchRoundUnpatched m key inlineBatchSize limit) stream
      (batchPage inlineBatchSize limit) (batchPage inlineBatchSize limit - 1) := by
  intro n
  have hsuffix : ∀ e ∈ stream.drop n, m.group e = g := fun e he ↦ hg e (List.mem_of_mem_drop he)
  obtain ⟨p, hpage, hrecords, hposition⟩ := page_unpatched_of_endsBatch key hB hL hends hsuffix
  rw [List.drop_drop] at hposition
  exact ⟨p, hpage, hrecords, hposition⟩

variable (stream : List Elem) (hkeys : (stream.map key).Nodup)
  (hnonempty : "" ∉ stream.map key) (idOf : Elem → Id) (hids : (stream.map idOf).Nodup)

include hkeys hnonempty hids

/-- Over the patched iterator the probe is clean, at every batch size and limit and
for every grouping of the records. -/
theorem probe_patched (hB : 1 ≤ inlineBatchSize) (hL : 1 ≤ limit) :
    ∃ r, (∀ fuel, 201 ≤ fuel →
        probe (served m key idOf limit (fetchRound m key inlineBatchSize limit) stream) fuel =
          some (.ok r)) ∧
      r.pages = min 201 (windowCount limit stream.length) ∧
      r.n = min (201 * limit) stream.length ∧ r.uniq = r.n ∧ r.dups = 0 ∧ r.lastFirst = [] := by
  have hstrides := strides_patched m key hB hL stream
  refine ⟨_, fun fuel hfuel ↦ probe_of_strides idOf hstrides hL hkeys hnonempty hfuel, ?_⟩
  have hflat := flatten_windowPages limit (stream.map idOf)
    (min 201 (windowCount limit stream.length))
  have hnodup : (windowPages limit limit (stream.map idOf)
      (min 201 (windowCount limit stream.length))).flatten.Nodup := by
    rw [hflat]
    exact hids.sublist (List.take_sublist _ _)
  have hreach := le_windowCount_mul hL stream.length
  simp only [measure, repeats_eq_nil_iff.mpr hnodup, seams_eq_nil hnodup,
    List.toFinset_card_of_nodup hnodup]
  refine ⟨by simp [windowPages], ?_, trivial, rfl, trivial⟩
  rw [hflat, List.length_take, List.length_map]
  rcases Nat.le_total 201 (windowCount limit stream.length) with hle | hle
  · rw [Nat.min_eq_left hle]
  · have hmul := Nat.mul_le_mul_right limit hle
    rw [Nat.min_eq_right hle]
    omega

omit hkeys hnonempty hids in
theorem probe_patched_five_records :
    ∃ r, probe (served listMerger recordKey (fun e ↦ .int e.2) 2
        (fetchRound listMerger recordKey 2 2) fiveRecords) 201 = some (.ok r) ∧
      r.pages = 3 ∧ r.n = 5 ∧ r.dups = 0 := by
  obtain ⟨r, hrun, hpages, hn, -, hdups, -⟩ := probe_patched listMerger recordKey fiveRecords
    (by decide +kernel) (by decide +kernel) (fun e ↦ .int e.2) (by decide +kernel)
    (show 1 ≤ 2 by omega) (show 1 ≤ 2 by omega)
  exact ⟨r, hrun 201 le_rfl, hpages, hn, hdups⟩

/-- Over the old iterator the probe meets the last id of every page but the last one
a second time, at the start of the next page, where the limit is a multiple of the
batch size or one short of that; at every other limit it reports what it reports over the
patched one. -/
theorem probe_unpatched (hB : 2 ≤ inlineBatchSize) (hL : 1 ≤ limit)
    (hgroup : ∃ g, ∀ e ∈ stream, m.group e = g) :
    ∃ r, probe (served m key idOf limit (fetchRoundUnpatched m key inlineBatchSize limit) stream)
          201 = some (.ok r) ∧
      (EndsBatch inlineBatchSize limit →
        let size := batchPage inlineBatchSize limit
        let pages := min 201 (windowCount (size - 1) stream.length)
        r.pages = pages ∧ r.uniq = min (pages * (size - 1) + 1) stream.length ∧
          r.dups = pages - 1 ∧ r.n = r.uniq + (pages - 1) ∧
          r.lastFirst = List.range (pages - 1) ∧
          r.dupPos = ((List.range (pages - 1)).map fun k ↦ (k + 1) * size).take 4) ∧
      (¬ EndsBatch inlineBatchSize limit →
        probe (served m key idOf limit (fetchRound m key inlineBatchSize limit) stream) 201 =
          some (.ok r)) := by
  obtain ⟨g, hg⟩ := hgroup
  by_cases hends : EndsBatch inlineBatchSize limit
  · have hstep : 1 ≤ batchPage inlineBatchSize limit - 1 := by
      rcases hends with hzero | hlast
      · have hle : inlineBatchSize ≤ limit := Nat.le_of_dvd hL (Nat.dvd_of_mod_eq_zero hzero)
        rw [batchPage, if_pos hzero]
        omega
      · have hne : limit % inlineBatchSize ≠ 0 := by omega
        rw [batchPage, if_neg hne]
        omega
    have hsize : batchPage inlineBatchSize limit - 1 + 1 = batchPage inlineBatchSize limit := by
      omega
    have hrun := probe_of_strides idOf (strides_unpatched m key hB hL hends hg) hstep
      hkeys hnonempty le_rfl
    refine ⟨_, hrun, fun _ ↦ ?_, fun h ↦ absurd hends h⟩
    intro size pages
    have hpages : 1 ≤ pages := by simp [pages, windowCount]
    have hfull : ∀ k < pages - 1, (k + 1) * (size - 1) < (stream.map idOf).length := by
      intro k hk
      rw [List.length_map]
      apply (lt_windowCount_iff hstep).mp
      have hle : pages ≤ windowCount (batchPage inlineBatchSize limit - 1) stream.length :=
        Nat.min_le_right _ _
      omega
    have hreport := measure_overlap hids hfull
    rw [hsize, Nat.sub_add_cancel hpages, List.length_map] at hreport
    exact hreport
  · have hsame : served m key idOf limit (fetchRoundUnpatched m key inlineBatchSize limit) stream =
        served m key idOf limit (fetchRound m key inlineBatchSize limit) stream := by
      funext token
      have hmem : ∀ e ∈ (if token = "" then stream else fromPosition key token stream),
          m.group e = g := by
        intro e he
        split_ifs at he
        · exact hg e he
        · exact hg e ((List.dropWhile_sublist _).subset he)
      rw [served, served, page_unpatched_of_not_endsBatch key hB hL hends hmem]
    have hstrides := strides_patched m key (show 1 ≤ inlineBatchSize by omega) hL stream
    have hrun := probe_of_strides idOf hstrides hL hkeys hnonempty (le_refl 201)
    rw [hsame]
    exact ⟨_, hrun, fun h ↦ absurd h hends, fun _ ↦ hrun⟩

end Probe

/-- Batches of 2: a page of 3 shows four records, and one id is counted twice. -/
theorem probe_unpatched_five_records :
    ∃ r, probe (served listMerger recordKey (fun e ↦ .int e.2) 3
        (fetchRoundUnpatched listMerger recordKey 2 3) fiveRecords) 201 = some (.ok r) ∧
      r.pages = 2 ∧ r.n = 6 ∧ r.uniq = 5 ∧ r.lastFirst = [0] := by
  obtain ⟨r, hrun, hstale, -⟩ := probe_unpatched listMerger recordKey fiveRecords
    (by decide +kernel) (by decide +kernel) (fun e ↦ .int e.2) (by decide +kernel)
    (show 2 ≤ 2 by omega) (show 1 ≤ 3 by omega) ⟨0, by decide⟩
  obtain ⟨hpages, huniq, -, hn, hlast, -⟩ := hstale (by decide)
  have huniq' : r.uniq = 5 := huniq.trans (by decide)
  exact ⟨r, hrun, hpages.trans (by decide), hn.trans (by rw [huniq']; decide), huniq',
    hlast.trans (by decide)⟩

end HugeGraphValidation.Paging
