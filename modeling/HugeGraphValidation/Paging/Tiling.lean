import HugeGraphValidation.Paging.Fetch
import HugeGraphValidation.Lib.Slices

/-!
# The pages of the patched iterator tile the stream

One call of `fetch()` cuts the next entry off the records still to come and
leaves the position at the first record behind it.  Draining a page repeats
this up to the limit, and following the positions repeats the pages.
-/

namespace HugeGraphValidation.Paging

open Lib

variable {Elem Entry Group Key : Type*} (m : Merger Elem Entry Group)
  (key : Elem → Key) (inlineBatchSize limit : ℕ)

/-- The records still to be handed out: the one kept for the next entry, if
any, and those not read yet. -/
def pending (it : BinaryEntryIterator Elem Entry Key) : List Elem :=
  (it.next.map m.columns).getD [] ++ it.results.rest

/-- Between two calls of `fetch()`: nothing is current, the store iterator is
open, and at most one record is kept for the next entry. -/
structure Ready (it : BinaryEntryIterator Elem Entry Key) (records : List Elem) :
    Prop where
  current : it.current = none
  isOpen : it.results.closed = false
  next : ∀ entry, it.next = some entry → ∃ elem, m.columns entry = [elem]
  pending : pending m it = records

structure WellFormed (entry : Entry) : Prop where
  nonempty : 1 ≤ m.sizeOf entry
  batch : m.sizeOf entry ≤ inlineBatchSize
  oneGroup : ∃ g, ∀ e ∈ m.columns entry, m.group e = g

/-- What one call of `fetch()` did: it made an entry of the first `n` pending
records, and the position is the key of the first record behind them. -/
structure Fetched (records : List Elem) (count n : ℕ) (entry : Entry)
    (it : BinaryEntryIterator Elem Entry Key) : Prop where
  current : it.current = some entry
  columns : m.columns entry = records.take n
  count_eq : it.count = count
  le_length : n ≤ records.length
  le_limit : count + n ≤ limit
  wellFormed : WellFormed m inlineBatchSize entry
  position : it.results.position = (records.drop n).head?.map key
  ready : count + n < limit → Ready m { it with current := none } (records.drop n)

variable {m key inlineBatchSize limit}

theorem Fetched.sizeOf_eq {records : List Elem} {count n : ℕ} {entry : Entry}
    {it : BinaryEntryIterator Elem Entry Key}
    (h : Fetched m key inlineBatchSize limit records count n entry it) :
    m.sizeOf entry = n := by
  simp [Merger.sizeOf, h.columns, h.le_length]

theorem Fetched.pos {records : List Elem} {count n : ℕ} {entry : Entry}
    {it : BinaryEntryIterator Elem Entry Key}
    (h : Fetched m key inlineBatchSize limit records count n entry it) : 1 ≤ n := by
  have hpos := h.wellFormed.nonempty
  rwa [h.sizeOf_eq] at hpos

/-! ## Rules for one call and one round of the consumer -/

section Consumer

variable {body : FetchBody Elem Entry Key} {it it' : BinaryEntryIterator Elem Entry Key}

theorem fetch_nil (hcur : it.current = none) (hnext : it.next = none)
    (hrest : it.results.rest = []) (hopen : it.results.closed = false) :
    fetch body it =
      .ok (false, { it with results := { it.results with position := none } }) := by
  simp [fetch, hnext, hopen, hrest, fetchEnd, hcur]

theorem consumeRound_of_fetch {entry : Entry} (hcur : it.current = none)
    (hlt : it.count < limit) (hfetch : fetch body it = .ok (true, it'))
    (hcur' : it'.current = some entry) (round : ℕ) (out : List Entry) :
    consumeRound m limit body round (it, out) =
      .again ({ it' with current := none, count := it'.count + m.sizeOf entry },
        out ++ [entry]) := by
  have hnot : reachLimit limit it.count = false := decide_eq_false (by omega)
  simp [consumeRound, hasNext, hnot, hcur, hfetch, hcur']

theorem consumeRound_of_fetch_end (hcur : it.current = none) (hlt : it.count < limit)
    (hfetch : fetch body it = .ok (false, it')) (round : ℕ) (out : List Entry) :
    consumeRound m limit body round (it, out) =
      .leave (it', out) (.ok ⟨out, it'.results.position⟩) := by
  have hnot : reachLimit limit it.count = false := decide_eq_false (by omega)
  simp [consumeRound, hasNext, hnot, hcur, hfetch]

theorem consumeRound_of_reached (hle : limit ≤ it.count) (round : ℕ) (out : List Entry) :
    consumeRound m limit body round (it, out) =
      .leave (it, out) (.ok ⟨out, it.results.position⟩) := by
  have hreached : reachLimit limit it.count = true := decide_eq_true hle
  simp [consumeRound, hasNext, hreached]

end Consumer

/-! ## One call of `fetch()` -/

/-- What a round does with the record that it reads behind a current entry: the
record is kept for the next entry, or read beyond the limit and dropped again, or
it joins the entry. -/
inductive RoundBehind (m : Merger Elem Entry Group) (key : Elem → Key)
    (inlineBatchSize limit : ℕ) (it : BinaryEntryIterator Elem Entry Key) (cur : Entry)
    (elem : Elem) (rest : List Elem) :
    Round (BinaryEntryIterator Elem Entry Key) (Except Fault Unit) → Prop where
  | keeps (kept : Entry) (hkept : m.columns kept = [elem]) :
      RoundBehind m key inlineBatchSize limit it cur elem rest (.leave { it with
        next := some kept
        results := ⟨rest, some (key elem), it.results.closed⟩ } (.ok ()))
  | stops (entry : Entry) (hcols : m.columns entry = m.columns cur)
      (hstop : limit ≤ it.count + m.sizeOf cur) :
      RoundBehind m key inlineBatchSize limit it cur elem rest (.leave { it with
        current := some entry
        results := ⟨rest, some (key elem), true⟩ } (.ok ()))
  | grows (entry : Entry) (hcols : m.columns entry = m.columns cur ++ [elem])
      (hwf : WellFormed m inlineBatchSize entry) (hlimit : it.count + m.sizeOf entry ≤ limit) :
      RoundBehind m key inlineBatchSize limit it cur elem rest (.again { it with
        current := some entry
        results := ⟨rest, some (key elem), it.results.closed⟩ })

theorem WellFormed.exists_first {cur : Entry} (h : WellFormed m inlineBatchSize cur) :
    ∃ first, (m.columns cur).head? = some first := by
  cases hcols : m.columns cur with
  | nil =>
      have hne := h.nonempty
      simp [Merger.sizeOf, hcols] at hne
  | cons first cols => exact ⟨first, rfl⟩

theorem WellFormed.concat {cur merged : Entry} {first elem : Elem}
    (h : WellFormed m inlineBatchSize cur) (hfull : ¬ inlineBatchSize ≤ m.sizeOf cur)
    (hfirst : (m.columns cur).head? = some first) (hgroup : m.group first = m.group elem)
    (hcols : m.columns merged = m.columns cur ++ [elem]) :
    WellFormed m inlineBatchSize merged := by
  obtain ⟨g, hg⟩ := h.oneGroup
  have hsize : m.sizeOf merged = m.sizeOf cur + 1 := by simp [Merger.sizeOf, hcols]
  refine ⟨by omega, by omega, g, ?_⟩
  intro e he
  rw [hcols, List.mem_append, List.mem_singleton] at he
  rcases he with he | rfl
  · exact hg e he
  · rw [← hgroup, hg first (List.mem_of_head? hfirst)]

theorem roundBehind_fetchRound (key : Elem → Key) (limit : ℕ)
    {it : BinaryEntryIterator Elem Entry Key} {cur : Entry} {elem : Elem} {rest : List Elem}
    (hrest : it.results.rest = elem :: rest)
    (hcur : it.current = some cur) (hnext : it.next = none)
    (hwf : WellFormed m inlineBatchSize cur) :
    RoundBehind m key inlineBatchSize limit it cur elem rest
      (fetchRound m key inlineBatchSize limit elem it) := by
  by_cases hfull : inlineBatchSize ≤ m.sizeOf cur
  · -- a full batch: the record starts the next entry
    have hleave : fetchRound m key inlineBatchSize limit elem it = .leave { it with
        next := some (m.apply none elem).entry
        results := ⟨rest, some (key elem), it.results.closed⟩ } (.ok ()) := by
      simp [fetchRound, takeRecord, hcur, hfull, keepForNext, hnext, hrest]
    rw [hleave]
    exact .keeps _ (m.apply_none elem)
  · obtain ⟨first, hfirst⟩ := hwf.exists_first
    by_cases hgroup : m.group first = m.group elem
    · obtain ⟨merged, happly, hcols⟩ := m.apply_same hfirst hgroup
      have hsize : m.sizeOf merged = m.sizeOf cur + 1 := by simp [Merger.sizeOf, hcols]
      by_cases hstop : limit ≤ it.count + m.sizeOf cur
      · -- `limit + 1` records: the last one is dropped again
        have hleave : fetchRound m key inlineBatchSize limit elem it = .leave { it with
            current := some (m.removeLastRecord merged)
            results := ⟨rest, some (key elem), true⟩ } (.ok ()) := by
          simp [fetchRound, takeRecord, hcur, hfull, happly, stopAtLimit, fetched, reachLimit,
            hsize, hstop, hrest]
        rw [hleave]
        refine .stops _ ?_ hstop
        rw [m.columns_removeLastRecord, hcols, List.dropLast_concat]
      · -- the record joins the entry and the loop goes on
        have hagain : fetchRound m key inlineBatchSize limit elem it = .again { it with
            current := some merged
            results := ⟨rest, some (key elem), it.results.closed⟩ } := by
          simp [fetchRound, takeRecord, hcur, hfull, happly, stopAtLimit, fetched, reachLimit,
            hsize, hrest]
          omega
        rw [hagain]
        exact .grows merged hcols (hwf.concat hfull hfirst hgroup hcols) (by omega)
    · -- the record of another group starts the next entry
      obtain ⟨kept, happly, hkept⟩ := m.apply_fresh hfirst hgroup
      have hleave : fetchRound m key inlineBatchSize limit elem it = .leave { it with
          next := some kept
          results := ⟨rest, some (key elem), it.results.closed⟩ } (.ok ()) := by
        simp [fetchRound, takeRecord, hcur, hfull, happly, keepForNext, hnext, hrest]
      rw [hleave]
      exact .keeps kept hkept

section Fetch

variable (key inlineBatchSize limit)

variable {key inlineBatchSize limit} in
/-- An entry with the columns of the current one, and the position at the record
behind it. -/
theorem fetched_of_columns {records : List Elem} {count : ℕ} {cur entry : Entry}
    {it : BinaryEntryIterator Elem Entry Key} (hcur : it.current = some entry)
    (hcols : m.columns entry = m.columns cur) (hcount : it.count = count)
    (hwf : WellFormed m inlineBatchSize cur) (hlimit : count + m.sizeOf cur ≤ limit)
    (hpos : it.results.position = records.head?.map key)
    (hready : count + m.sizeOf cur < limit → Ready m { it with current := none } records) :
    Fetched m key inlineBatchSize limit (m.columns cur ++ records) count (m.sizeOf cur) entry
      it where
  current := hcur
  columns := by rw [hcols, List.take_left]
  count_eq := hcount
  le_length := by simp
  le_limit := hlimit
  wellFormed := by
    refine ⟨?_, ?_, ?_⟩
    · simpa [Merger.sizeOf, hcols] using hwf.nonempty
    · simpa [Merger.sizeOf, hcols] using hwf.batch
    · simpa [hcols] using hwf.oneGroup
  position := by rw [List.drop_left, hpos]
  ready := by rwa [List.drop_left]

/-- The loop of `fetch()` once an entry is current: it takes the records of
that entry's group up to the batch size and the limit. -/
theorem forRounds_fetchRound (records : List Elem) :
    ∀ (it : BinaryEntryIterator Elem Entry Key) (cur : Entry),
      it.results.rest = records → it.current = some cur → it.next = none →
      it.results.closed = false → WellFormed m inlineBatchSize cur →
      it.count + m.sizeOf cur ≤ limit →
      ∃ it' entry n,
        fetchEnd (forRounds (fetchRound m key inlineBatchSize limit) records it) =
            .ok (true, it') ∧
          Fetched m key inlineBatchSize limit (m.columns cur ++ records) it.count n entry
            it' := by
  induction records with
  | nil =>
      intro it cur hrest hcur hnext hopen hwf hlimit
      refine ⟨{ it with results := { it.results with position := none } }, cur,
        m.sizeOf cur, by simp [fetchEnd, hcur],
        fetched_of_columns hcur rfl rfl hwf hlimit rfl ?_⟩
      intro _
      exact ⟨rfl, hopen, by simp [hnext], by simp [pending, hnext, hrest]⟩
  | cons elem rest ih =>
      intro it cur hrest hcur hnext hopen hwf hlimit
      have hround := roundBehind_fetchRound key limit hrest hcur hnext hwf
      generalize hresult : fetchRound m key inlineBatchSize limit elem it = result at hround
      cases hround with
      | keeps kept hkept =>
          refine ⟨{ it with
            next := some kept
            results := ⟨rest, some (key elem), it.results.closed⟩ }, cur, m.sizeOf cur,
            by simp [forRounds_cons_leave hresult, fetchEnd, hcur],
            fetched_of_columns hcur rfl rfl hwf hlimit rfl ?_⟩
          intro _
          exact ⟨rfl, hopen, by simp [hkept], by simp [pending, hkept]⟩
      | stops entry hcols hstop =>
          refine ⟨{ it with
            current := some entry
            results := ⟨rest, some (key elem), true⟩ }, entry, m.sizeOf cur,
            by simp [forRounds_cons_leave hresult, fetchEnd],
            fetched_of_columns rfl hcols rfl hwf hlimit rfl ?_⟩
          intro hlt
          omega
      | grows entry hcols hentry hentryLimit =>
          rw [forRounds_cons_again hresult]
          obtain ⟨it', entry', n, hrun, hfetched⟩ :=
            ih { it with
              current := some entry
              results := ⟨rest, some (key elem), it.results.closed⟩ } entry rfl rfl hnext hopen
              hentry hentryLimit
          refine ⟨it', entry', n, hrun, ?_⟩
          simpa [hcols] using hfetched

variable {inlineBatchSize} in
theorem wellFormed_singleton (hB : 1 ≤ inlineBatchSize) {entry : Entry} {elem : Elem}
    (hcols : m.columns entry = [elem]) : WellFormed m inlineBatchSize entry where
  nonempty := by simp [Merger.sizeOf, hcols]
  batch := by simpa [Merger.sizeOf, hcols] using hB
  oneGroup := ⟨m.group elem, by simp [hcols]⟩

theorem fetch_of_ready (hB : 1 ≤ inlineBatchSize)
    {it : BinaryEntryIterator Elem Entry Key} {records : List Elem}
    (h : Ready m it records) (hne : records ≠ []) (hlt : it.count < limit) :
    ∃ it' entry n,
      fetch (fetchRound m key inlineBatchSize limit) it = .ok (true, it') ∧
        Fetched m key inlineBatchSize limit records it.count n entry it' := by
  have hopen := h.isOpen
  cases hnext : it.next with
  | some kept =>
      obtain ⟨elem, hkept⟩ := h.next kept hnext
      have hrecords : records = m.columns kept ++ it.results.rest := by
        rw [← h.pending]
        simp [pending, hnext]
      obtain ⟨it', entry, n, hrun, hfetched⟩ :=
        forRounds_fetchRound key inlineBatchSize limit it.results.rest
          { it with current := some kept, next := none } kept rfl rfl rfl hopen
          (wellFormed_singleton hB hkept) (by simp [Merger.sizeOf, hkept]; omega)
      refine ⟨it', entry, n, ?_, hrecords ▸ hfetched⟩
      simpa [fetch, hnext, hopen] using hrun
  | none =>
      have hrecords : records = it.results.rest := by
        rw [← h.pending]
        simp [pending, hnext]
      cases hrest : it.results.rest with
      | nil => exact absurd (hrecords.trans hrest) hne
      | cons elem rest =>
          have hcols := m.apply_none elem
          have hagain : fetchRound m key inlineBatchSize limit elem it = .again { it with
              current := some (m.apply none elem).entry
              results := ⟨rest, some (key elem), it.results.closed⟩ } := by
            simp [fetchRound, takeRecord, h.current, stopAtLimit, fetched, reachLimit,
              Merger.sizeOf, hcols, hrest]
            omega
          obtain ⟨it', entry, n, hrun, hfetched⟩ :=
            forRounds_fetchRound key inlineBatchSize limit rest
              { it with
                current := some (m.apply none elem).entry
                results := ⟨rest, some (key elem), it.results.closed⟩ }
              (m.apply none elem).entry rfl rfl hnext hopen
              (wellFormed_singleton hB hcols) (by simp [Merger.sizeOf, hcols]; omega)
          refine ⟨it', entry, n, ?_, ?_⟩
          · simpa [fetch, hnext, hopen, hrest, forRounds_cons_again hagain] using hrun
          · simpa [hrecords, hrest, hcols] using hfetched

theorem fetch_of_ready_nil {it : BinaryEntryIterator Elem Entry Key}
    (h : Ready m it []) :
    ∃ it', fetch (fetchRound m key inlineBatchSize limit) it = .ok (false, it') ∧
      it'.results.position = none := by
  have hpending := h.pending
  simp only [pending, List.append_eq_nil_iff] at hpending
  have hnext : it.next = none := by
    cases hn : it.next with
    | none => rfl
    | some kept =>
        obtain ⟨elem, hkept⟩ := h.next kept hn
        simp [hn, hkept] at hpending
  exact ⟨_, fetch_nil h.current hnext hpending.2 h.isOpen, rfl⟩

/-! ## One page -/

theorem forRounds_consumeRound (hB : 1 ≤ inlineBatchSize) (rounds : List ℕ) :
    ∀ (it : BinaryEntryIterator Elem Entry Key) (out : List Entry) (records : List Elem),
      Ready m it records → it.count < limit → limit - it.count < rounds.length →
      ∃ s entries,
        forRounds (consumeRound m limit (fetchRound m key inlineBatchSize limit)) rounds
            (it, out) =
          .leave s (.ok ⟨out ++ entries, (records.drop (limit - it.count)).head?.map key⟩) ∧
        entries.flatMap m.columns = records.take (limit - it.count) ∧
        ∀ entry ∈ entries, WellFormed m inlineBatchSize entry := by
  induction rounds with
  | nil =>
      intro it out records _ _ hrounds
      simp at hrounds
  | cons round rounds ih =>
      intro it out records hready hlt hrounds
      by_cases hne : records = []
      · subst hne
        obtain ⟨it', hfetch, hpos⟩ := fetch_of_ready_nil key inlineBatchSize limit hready
        have hleave := consumeRound_of_fetch_end (m := m) hready.current hlt hfetch round out
        exact ⟨(it', out), [], by simp [forRounds_cons_leave hleave, hpos], by simp, by simp⟩
      · obtain ⟨it', entry, n, hfetch, hfetched⟩ :=
          fetch_of_ready key inlineBatchSize limit hB hready hne hlt
        have hpos := hfetched.pos
        have hle := hfetched.le_limit
        rw [forRounds_cons_again (consumeRound_of_fetch hready.current hlt hfetch
          hfetched.current round out), hfetched.count_eq, hfetched.sizeOf_eq]
        by_cases hmore : it.count + n < limit
        · -- below the limit: the next round fetches again
          have hready' : Ready m { it' with current := none, count := it.count + n }
              (records.drop n) := by
            have h := hfetched.ready hmore
            exact ⟨h.current, h.isOpen, h.next, h.pending⟩
          have hrounds' : limit - (it.count + n) < rounds.length := by
            simp only [List.length_cons] at hrounds
            omega
          obtain ⟨s, entries, hrun, hrecords, hwf⟩ :=
            ih _ (out ++ [entry]) _ hready' hmore hrounds'
          refine ⟨s, entry :: entries, ?_, ?_, ?_⟩
          · rw [hrun, List.drop_drop, show n + (limit - (it.count + n)) =
              limit - it.count by omega]
            simp
          · rw [List.flatMap_cons, hrecords, hfetched.columns,
              show limit - it.count = n + (limit - (it.count + n)) by omega,
              List.take_add]
          · simpa using ⟨hfetched.wellFormed, hwf⟩
        · -- the limit is reached: the next round leaves at once
          have hn : limit - it.count = n := by omega
          obtain ⟨round', rounds', rfl⟩ : ∃ round' rounds', rounds = round' :: rounds' := by
            apply List.exists_cons_of_length_pos
            simp only [List.length_cons] at hrounds
            omega
          refine ⟨({ it' with current := none, count := it.count + n }, out ++ [entry]),
            [entry], ?_, ?_, ?_⟩
          · have hreached : limit ≤ it.count + n := by omega
            rw [hn, ← hfetched.position]
            exact forRounds_cons_leave (consumeRound_of_reached hreached round' _) rounds'
          · simp [hn, hfetched.columns]
          · simpa using hfetched.wellFormed

/-- A page emits the records up to the limit, and its position is the key of
the first record not emitted. -/
theorem page_eq_ok (hB : 1 ≤ inlineBatchSize) (hL : 1 ≤ limit) (records : List Elem) :
    ∃ p : Page Entry Key,
      page m limit (fetchRound m key inlineBatchSize limit) records = .ok p ∧
        p.records m = records.take limit ∧
        p.position = (records.drop limit).head?.map key ∧
        ∀ entry ∈ p.entries, WellFormed m inlineBatchSize entry := by
  have hready : Ready m (BinaryEntryIterator.start records :
      BinaryEntryIterator Elem Entry Key) records :=
    ⟨rfl, rfl, by simp [BinaryEntryIterator.start], by simp [pending, BinaryEntryIterator.start]⟩
  obtain ⟨s, entries, hrun, hrecords, hwf⟩ :=
    forRounds_consumeRound key inlineBatchSize limit hB (List.range (limit + 1)) _ []
      records hready hL (by simp [BinaryEntryIterator.start])
  refine ⟨⟨entries, (records.drop limit).head?.map key⟩, ?_, hrecords, rfl, hwf⟩
  simp only [page, hrun]
  simp [BinaryEntryIterator.start]

end Fetch

/-! ## All pages -/

/-- With distinct keys, the stream from the position of a suffix on is that
suffix. -/
theorem fromPosition_eq_drop [DecidableEq Key] {stream : List Elem}
    (hkeys : (stream.map key).Nodup) {n : ℕ} {position : Key}
    (hpos : (stream.drop n).head?.map key = some position) :
    fromPosition key position stream = stream.drop n := by
  induction stream generalizing n with
  | nil => simp at hpos
  | cons elem stream ih =>
      rw [List.map_cons, List.nodup_cons] at hkeys
      cases n with
      | zero =>
          have hkey : key elem = position := by simpa using hpos
          simp [fromPosition, hkey]
      | succ n =>
          have hpos' : (stream.drop n).head?.map key = some position := by simpa using hpos
          have hne : key elem ≠ position := by
            intro heq
            obtain ⟨e, he, hkey⟩ := Option.map_eq_some_iff.mp hpos'
            have hmem : e ∈ stream := List.mem_of_mem_drop (List.mem_of_head? he)
            exact hkeys.1 (List.mem_map.mpr ⟨e, hmem, hkey.trans heq.symm⟩)
          simpa [fromPosition, hne] using ih hkeys.2 hpos'

variable (m inlineBatchSize limit) in
/-- The `k`-th page (from 0) is the `k`-th slice of the stream, its position is
null exactly at the end of the stream, and its entries are well formed. -/
structure PageAt (stream : List Elem) (k : ℕ) (p : Page Entry Key) : Prop where
  records : p.records m = (stream.drop (k * limit)).take limit
  position : p.position = none ↔ stream.length ≤ (k + 1) * limit
  entries : ∀ entry ∈ p.entries, WellFormed m inlineBatchSize entry

theorem pages_from [DecidableEq Key] (hB : 1 ≤ inlineBatchSize) (hL : 1 ≤ limit)
    {stream : List Elem} (hkeys : (stream.map key).Nodup) (rounds : ℕ) :
    ∀ k, stream.length - k * limit < rounds →
      ∃ ps : List (Page Entry Key),
        pages m key limit (fetchRound m key inlineBatchSize limit) stream rounds
            (stream.drop (k * limit)) = .ok ps ∧
          (∀ j p, ps[j]? = some p → PageAt m inlineBatchSize limit stream (k + j) p) ∧
          ps.length = max 1 (sliceCount limit (stream.length - k * limit)) ∧
          ps.flatMap (Page.records m) = stream.drop (k * limit) := by
  induction rounds with
  | zero =>
      intro k hrounds
      omega
  | succ rounds ih =>
      intro k hrounds
      obtain ⟨p, hpage, hrecords, hposition, hwf⟩ :=
        page_eq_ok (m := m) key inlineBatchSize limit hB hL (stream.drop (k * limit))
      have hnext : k * limit + limit = (k + 1) * limit := by ring
      rw [List.drop_drop, hnext] at hposition
      have hnull : p.position = none ↔ stream.length ≤ (k + 1) * limit := by
        rw [hposition, Option.map_eq_none_iff, List.head?_eq_none_iff, List.drop_eq_nil_iff]
      have hat : PageAt m inlineBatchSize limit stream k p := ⟨hrecords, hnull, hwf⟩
      cases hpos : p.position with
      | none =>
          -- the last page
          have hlast := hnull.mp hpos
          have hcount : sliceCount limit (stream.length - k * limit) ≤ 1 := by
            rcases Nat.eq_zero_or_pos (stream.length - k * limit) with hzero | hrest
            · simp [hzero, sliceCount_zero hL]
            · rw [sliceCount_step hL hrest,
                show stream.length - k * limit - limit = 0 by omega, sliceCount_zero hL]
          refine ⟨[p], by simp [pages, hpage, hpos], ?_, ?_, ?_⟩
          · intro j q hq
            obtain ⟨rfl, rfl⟩ : j = 0 ∧ p = q := by
              cases j with
              | zero => simpa using hq
              | succ j => simp at hq
            exact hat
          · simp [hcount]
          · rw [List.flatMap_singleton, hrecords, List.take_of_length_le]
            rw [List.length_drop]
            omega
      | some position =>
          have hmore : (k + 1) * limit < stream.length := by
            by_contra hle
            simp [hnull.mpr (by omega)] at hpos
          have hfrom := fromPosition_eq_drop hkeys (hposition.symm.trans hpos)
          obtain ⟨ps, hrun, hps, hlen, hflat⟩ := ih (k + 1) (by omega)
          refine ⟨p :: ps, ?_, ?_, ?_, ?_⟩
          · simp [pages, hpage, hpos, hfrom, hrun, Except.map]
          · intro j q hq
            cases j with
            | zero =>
                obtain rfl : p = q := by simpa using hq
                exact hat
            | succ j =>
                have h := hps j q (by simpa using hq)
                rwa [show k + 1 + j = k + (j + 1) by omega] at h
          · have hpos' : 1 ≤ stream.length - (k + 1) * limit := by omega
            have hpos'' : 1 ≤ stream.length - k * limit := by omega
            rw [List.length_cons, hlen, sliceCount_step hL hpos'',
              show stream.length - k * limit - limit = stream.length - (k + 1) * limit by omega,
              sliceCount_step hL hpos']
            omega
          · rw [List.flatMap_cons, hflat, hrecords, ← hnext, ← List.drop_drop,
              List.take_append_drop]

/-- Paging tiles the stream: the client's loop ends without a violated
assertion, page `k` holds the records from `k * limit` on up to the limit, its
position is null exactly when the stream is exhausted, every entry is one batch
of one group, and the pages laid end to end are the stream. -/
theorem pages_tile [DecidableEq Key] (m : Merger Elem Entry Group) (key : Elem → Key)
    (inlineBatchSize limit : ℕ) (hB : 1 ≤ inlineBatchSize) (hL : 1 ≤ limit)
    (stream : List Elem) (hkeys : (stream.map key).Nodup) :
    ∃ ps : List (Page Entry Key),
      pages m key limit (fetchRound m key inlineBatchSize limit) stream
          (stream.length + 1) stream = .ok ps ∧
        ps.length = max 1 (sliceCount limit stream.length) ∧
        (∀ k p, ps[k]? = some p →
          p.records m = (stream.drop (k * limit)).take limit ∧
            (p.position = none ↔ stream.length ≤ (k + 1) * limit) ∧
            ∀ entry ∈ p.entries,
              1 ≤ m.sizeOf entry ∧ m.sizeOf entry ≤ inlineBatchSize ∧
                ∃ g, ∀ e ∈ m.columns entry, m.group e = g) ∧
        ps.flatMap (Page.records m) = stream := by
  obtain ⟨ps, hrun, hps, hlen, hflat⟩ :=
    pages_from (m := m) hB hL hkeys (stream.length + 1) 0 (by omega)
  simp only [Nat.zero_mul, List.drop_zero, Nat.sub_zero, Nat.zero_add] at hrun hps hlen hflat
  refine ⟨ps, hrun, hlen, ?_, hflat⟩
  intro k p hk
  have hat := hps k p hk
  refine ⟨hat.records, hat.position, ?_⟩
  intro entry hentry
  have hwf := hat.entries entry hentry
  exact ⟨hwf.nonempty, hwf.batch, hwf.oneGroup⟩

def listMerger : Merger (ℕ × ℕ) (List (ℕ × ℕ)) ℕ where
  columns := id
  group := Prod.fst
  apply
    | none, elem => .fresh [elem]
    | some cur, elem =>
        if cur.head?.map Prod.fst = some elem.1 then .same (cur ++ [elem]) else .fresh [elem]
  removeLastRecord := List.dropLast
  apply_none := fun _ ↦ rfl
  apply_same := by
    intro cur first elem hfirst hgroup
    have hhead : cur.head? = some first := hfirst
    exact ⟨cur ++ [elem], by simp [hhead, hgroup], rfl⟩
  apply_fresh := by
    intro cur first elem hfirst hgroup
    have hhead : cur.head? = some first := hfirst
    exact ⟨[elem], by simp [hhead, hgroup], rfl⟩
  columns_removeLastRecord := fun _ ↦ rfl

/-- Two groups, a batch of 2 and pages of 4: the first page ends on a full batch. -/
theorem pages_tile_at_batch_boundary :
    ∃ ps : List (Page (List (ℕ × ℕ)) ℕ),
      pages listMerger Prod.snd 4 (fetchRound listMerger Prod.snd 2 4)
          [(0, 1), (0, 2), (0, 3), (0, 4), (0, 5), (7, 6)] 7
          [(0, 1), (0, 2), (0, 3), (0, 4), (0, 5), (7, 6)] = .ok ps ∧
        ps.length = 2 := by
  obtain ⟨ps, hrun, hlen, -, -⟩ := pages_tile listMerger Prod.snd 2 4 (by omega) (by omega)
    [(0, 1), (0, 2), (0, 3), (0, 4), (0, 5), (7, 6)] (by decide)
  exact ⟨ps, hrun, hlen⟩

end HugeGraphValidation.Paging
