import HugeGraphValidation.Paging.Tiling

/-!
# The page iterator before the patch

The removed lines of the patch merge a record first and look at the batch size
then, before the limit.  Both loops make the same entries until a full batch ends
at the limit, or one record behind it; there the old loop leaves the position at a
record that it has emitted.
-/

namespace HugeGraphValidation.Paging

open Lib

variable {Elem Entry Group Key : Type*}

section Unpatched

variable (m : Merger Elem Entry Group) (key : Elem → Key) (inlineBatchSize limit : ℕ)

/-- The body of the loop in the removed lines. -/
def fetchRoundUnpatched (elem : Elem) (it : BinaryEntryIterator Elem Entry Key) :
    Round (BinaryEntryIterator Elem Entry Key) (Except Fault Unit) :=
  let it := takeRecord key it elem
  match it.current with
  | none => stopAtLimit m limit { it with current := some (m.apply none elem).entry }
  | some current =>
      match m.apply (some current) elem with
      | .same merged =>
          let it := { it with current := some merged }
          if inlineBatchSize ≤ m.sizeOf merged then .leave it (.ok ()) else stopAtLimit m limit it
      | .fresh merged => keepForNext it merged

end Unpatched

variable {m : Merger Elem Entry Group} {key : Elem → Key} {inlineBatchSize limit : ℕ}

/-! ## One round of both loops -/

theorem stopAtLimit_of_le {it : BinaryEntryIterator Elem Entry Key} {entry : Entry}
    (hcur : it.current = some entry) (hpos : 1 ≤ m.sizeOf entry)
    (h : it.count + m.sizeOf entry ≤ limit) : stopAtLimit m limit it = .again it := by
  have hreach : reachLimit limit (fetched m it - 1) = false := by
    simp only [reachLimit, fetched, hcur, Option.map_some, Option.getD_some]
    exact decide_eq_false (by omega)
  rw [stopAtLimit, hreach]
  rfl

theorem stopAtLimit_of_lt {it : BinaryEntryIterator Elem Entry Key} {entry : Entry}
    (hcur : it.current = some entry) (h : limit < it.count + m.sizeOf entry) :
    stopAtLimit m limit it = .leave { it with
      current := some (m.removeLastRecord entry)
      results := { it.results with closed := true } } (.ok ()) := by
  have hreach : reachLimit limit (fetched m it - 1) = true := by
    simp only [reachLimit, fetched, hcur, Option.map_some, Option.getD_some]
    exact decide_eq_true (by omega)
  rw [stopAtLimit, hreach, hcur]
  rfl

/-- The iterator when a record has joined the current entry. -/
def joined (key : Elem → Key) (it : BinaryEntryIterator Elem Entry Key) (elem : Elem)
    (merged : Entry) : BinaryEntryIterator Elem Entry Key :=
  { takeRecord key it elem with current := some merged }

section Round

variable (key limit) {it : BinaryEntryIterator Elem Entry Key} {cur merged : Entry} {elem : Elem}
  (hcur : it.current = some cur) (happly : m.apply (some cur) elem = .same merged)

include hcur happly

theorem fetchRound_of_same (hfull : m.sizeOf cur < inlineBatchSize) :
    fetchRound m key inlineBatchSize limit elem it =
      stopAtLimit m limit (joined key it elem merged) := by
  have hfull : ¬ inlineBatchSize ≤ m.sizeOf cur := by omega
  simp only [fetchRound, takeRecord, hcur, happly, if_neg hfull]
  rfl

theorem fetchRoundUnpatched_of_full (hfull : inlineBatchSize ≤ m.sizeOf merged) :
    fetchRoundUnpatched m key inlineBatchSize limit elem it =
      .leave (joined key it elem merged) (.ok ()) := by
  simp only [fetchRoundUnpatched, takeRecord, hcur, happly, if_pos hfull]
  rfl

theorem fetchRoundUnpatched_of_same (hfull : m.sizeOf merged < inlineBatchSize) :
    fetchRoundUnpatched m key inlineBatchSize limit elem it =
      stopAtLimit m limit (joined key it elem merged) := by
  have hfull : ¬ inlineBatchSize ≤ m.sizeOf merged := by omega
  simp only [fetchRoundUnpatched, takeRecord, hcur, happly, if_neg hfull]
  rfl

end Round

/-! ## One call of `fetch()` -/

/-- The two iterators between two calls, with the same records to come; the
patched one may have the first of them kept. -/
structure Twins (m : Merger Elem Entry Group) (key : Elem → Key)
    (patched unpatched : BinaryEntryIterator Elem Entry Key) (records : List Elem) : Prop where
  current : patched.current = none
  current' : unpatched.current = none
  count : unpatched.count = patched.count
  isOpen : patched.results.closed = false
  isOpen' : unpatched.results.closed = false
  next : unpatched.next = none
  rest : unpatched.results.rest = records
  ahead : (patched.next = none ∧ patched.results.rest = records) ∨
    ∃ e rest, records = e :: rest ∧ patched.next = some (m.apply none e).entry ∧
      patched.results = ⟨rest, some (key e), false⟩

/-- What one call of each does: both do the same and this ends the page, or the
old one has taken a full batch. -/
inductive TwinFetch (m : Merger Elem Entry Group) (key : Elem → Key)
    (inlineBatchSize limit : ℕ) (records : List Elem) (count : ℕ) :
    Except Fault (Bool × BinaryEntryIterator Elem Entry Key) →
      Except Fault (Bool × BinaryEntryIterator Elem Entry Key) → Prop where
  | same (it : BinaryEntryIterator Elem Entry Key) (entry : Entry)
      (hcur : it.current = some entry) (hcount : it.count = count)
      (hpos : 1 ≤ m.sizeOf entry) (hlimit : count + m.sizeOf entry ≤ limit)
      (hshort : limit - count + 2 ≤ inlineBatchSize ∨ records.length < inlineBatchSize)
      (hend : count + m.sizeOf entry < limit →
        it.next = none ∧ it.results = ⟨[], none, false⟩) :
      TwinFetch m key inlineBatchSize limit records count (.ok (true, it)) (.ok (true, it))
  | full (patched : Except Fault (Bool × BinaryEntryIterator Elem Entry Key))
      (it : BinaryEntryIterator Elem Entry Key) (entry : Entry)
      (hcur : it.current = some entry) (hcount : it.count = count)
      (hcols : m.columns entry = records.take inlineBatchSize)
      (hlength : inlineBatchSize ≤ records.length)
      (hroom : inlineBatchSize ≤ limit - count + 1)
      (hpos : it.results.position = (records.drop (inlineBatchSize - 1)).head?.map key)
      (htwins : count + inlineBatchSize < limit → ∃ it', patched = .ok (true, it') ∧
        it'.current = some entry ∧ it'.count = count ∧
        Twins m key { it' with current := none } { it with current := none }
          (records.drop inlineBatchSize)) :
      TwinFetch m key inlineBatchSize limit records count patched (.ok (true, it))

theorem fetchEnd_again {it : BinaryEntryIterator Elem Entry Key} {entry : Entry}
    (hcur : it.current = some entry) :
    fetchEnd (.again it) =
      .ok (true, { it with results := { it.results with position := none } }) := by
  rw [fetchEnd, hcur]
  rfl

theorem fetchEnd_leave {it : BinaryEntryIterator Elem Entry Key} {entry : Entry}
    (hcur : it.current = some entry) : fetchEnd (.leave it (.ok ())) = .ok (true, it) := by
  rw [fetchEnd, hcur]
  rfl

/-- The patched loop goes on behind a full batch: it keeps the next record, or
finds that there is none. -/
theorem fetch_behind_full {it : BinaryEntryIterator Elem Entry Key} {entry : Entry}
    {rest : List Elem} (hrest : it.results.rest = rest) (hcur : it.current = some entry)
    (hnext : it.next = none) (hopen : it.results.closed = false)
    (hfull : m.sizeOf entry = inlineBatchSize) :
    ∃ it', fetchEnd (forRounds (fetchRound m key inlineBatchSize limit) rest it) =
        .ok (true, it') ∧
      it'.current = some entry ∧ it'.count = it.count ∧
      Twins m key { it' with current := none } { it with current := none } rest := by
  cases rest with
  | nil =>
      refine ⟨_, fetchEnd_again hcur, hcur, rfl, ?_⟩
      exact
        { current := rfl
          current' := rfl
          count := rfl
          isOpen := hopen
          isOpen' := hopen
          next := hnext
          rest := hrest
          ahead := Or.inl ⟨hnext, hrest⟩ }
  | cons e rest =>
      have hleave : fetchRound m key inlineBatchSize limit e it = .leave { it with
          next := some (m.apply none e).entry
          results := ⟨rest, some (key e), false⟩ } (.ok ()) := by
        simp [fetchRound, takeRecord, hcur, hfull, keepForNext, hnext, hrest, hopen]
      refine ⟨{ it with
        next := some (m.apply none e).entry
        results := ⟨rest, some (key e), false⟩ }, ?_, hcur, rfl, ?_⟩
      · rw [forRounds_cons_leave hleave]
        exact fetchEnd_leave hcur
      · exact
          { current := rfl
            current' := rfl
            count := rfl
            isOpen := rfl
            isOpen' := hopen
            next := hnext
            rest := hrest
            ahead := Or.inr ⟨e, rest, rfl, rfl, rfl⟩ }

/-- Both loops from one entry that is not a full batch. -/
theorem forRounds_fetch_twins {g : Group} (records : List Elem) :
    ∀ (it : BinaryEntryIterator Elem Entry Key) (cur : Entry),
      it.results.rest = records → it.current = some cur → it.next = none →
      it.results.closed = false → 1 ≤ m.sizeOf cur → m.sizeOf cur < inlineBatchSize →
      it.count + m.sizeOf cur ≤ limit → (∀ e ∈ m.columns cur ++ records, m.group e = g) →
      TwinFetch m key inlineBatchSize limit (m.columns cur ++ records) it.count
        (fetchEnd (forRounds (fetchRound m key inlineBatchSize limit) records it))
        (fetchEnd (forRounds (fetchRoundUnpatched m key inlineBatchSize limit) records it)) := by
  induction records with
  | nil =>
      intro it cur hrest hcur hnext hopen hpos hroom hlimit hgroup
      rw [forRounds_nil, forRounds_nil, fetchEnd_again hcur]
      refine .same _ cur hcur rfl hpos hlimit (Or.inr (by simpa using hroom)) ?_
      intro _
      exact ⟨hnext, by simp [hrest, hopen]⟩
  | cons elem rest ih =>
      intro it cur hrest hcur hnext hopen hpos hroom hlimit hgroup
      obtain ⟨first, cols, hcolumns⟩ := List.exists_cons_of_length_pos hpos
      have hfirst : (m.columns cur).head? = some first := by rw [hcolumns]; rfl
      have hsame : m.group first = m.group elem := by
        rw [hgroup first (by simp [hcolumns]), hgroup elem (by simp)]
      obtain ⟨merged, happly, hcols⟩ := m.apply_same hfirst hsame
      have hsize : m.sizeOf merged = m.sizeOf cur + 1 := by simp [Merger.sizeOf, hcols]
      have hrecords : m.columns cur ++ elem :: rest = m.columns merged ++ rest := by
        simp [hcols]
      have hjoined : (joined key it elem merged).results = ⟨rest, some (key elem), false⟩ := by
        simp [joined, takeRecord, hrest, hopen]
      have hpatched := fetchRound_of_same key limit hcur happly hroom
      rw [hrecords] at hgroup ⊢
      by_cases hfull : m.sizeOf merged = inlineBatchSize
      · -- the old loop leaves with a full batch, the patched one looks at the limit
        have hleave := fetchRoundUnpatched_of_full key limit hcur happly hfull.ge
        have htake : (m.columns merged ++ rest).take inlineBatchSize = m.columns merged := by
          rw [← hfull, List.take_left]
        have hdrop : (m.columns merged ++ rest).drop inlineBatchSize = rest := by
          rw [← hfull, List.drop_left]
        rw [forRounds_cons_leave hleave, fetchEnd_leave rfl]
        refine .full _ _ merged rfl rfl htake.symm ?_ (by omega) ?_ ?_
        · simp [← hfull]
        · rw [hjoined, show inlineBatchSize - 1 = m.sizeOf cur by omega, hcols]
          simp
        · intro hlt
          have hagain : stopAtLimit m limit (joined key it elem merged) =
              .again (joined key it elem merged) :=
            stopAtLimit_of_le rfl (hpos.trans (by omega)) (hfull.symm ▸ hlt.le)
          rw [forRounds_cons_again (hpatched.trans hagain), hdrop]
          exact fetch_behind_full (by rw [hjoined]) rfl hnext (by rw [hjoined]) hfull
      · have hsmall : m.sizeOf merged < inlineBatchSize := by omega
        have hunpatched := fetchRoundUnpatched_of_same key limit hcur happly hsmall
        by_cases hstop : limit < it.count + m.sizeOf merged
        · -- one record too many: both drop it
          have hleave : stopAtLimit m limit (joined key it elem merged) = _ :=
            stopAtLimit_of_lt rfl hstop
          have hremoved : m.sizeOf (m.removeLastRecord merged) = m.sizeOf cur := by
            rw [Merger.sizeOf, m.columns_removeLastRecord, hcols, List.dropLast_concat]
          rw [forRounds_cons_leave (hpatched.trans hleave),
            forRounds_cons_leave (hunpatched.trans hleave), fetchEnd_leave rfl]
          exact .same _ _ rfl rfl (hremoved ▸ hpos) (hremoved ▸ hlimit) (Or.inl (by omega))
            fun h ↦ absurd h (by omega)
        · -- both loops go on
          have hagain : stopAtLimit m limit (joined key it elem merged) =
              .again (joined key it elem merged) :=
            stopAtLimit_of_le rfl (hpos.trans (by omega)) (Nat.le_of_not_lt hstop)
          rw [forRounds_cons_again (hpatched.trans hagain),
            forRounds_cons_again (hunpatched.trans hagain)]
          exact ih (joined key it elem merged) merged (by rw [hjoined]) rfl hnext
            (by rw [hjoined]) (by omega) (by omega) (Nat.le_of_not_lt hstop) hgroup

/-- The iterator when the first record of an entry has been read. -/
def begun (m : Merger Elem Entry Group) (key : Elem → Key) (count : ℕ) (elem : Elem)
    (rest : List Elem) : BinaryEntryIterator Elem Entry Key :=
  ⟨some (m.apply none elem).entry, none, count, ⟨rest, some (key elem), false⟩⟩

theorem stopAtLimit_begun {count : ℕ} (hlt : count < limit) (elem : Elem) (rest : List Elem) :
    stopAtLimit m limit (begun m key count elem rest) =
      .again (begun m key count elem rest) := by
  have hsize : m.sizeOf (m.apply none elem).entry = 1 := by simp [Merger.sizeOf, m.apply_none]
  exact stopAtLimit_of_le rfl hsize.ge (by simp only [begun, hsize]; omega)

theorem fetch_of_twins {patched unpatched : BinaryEntryIterator Elem Entry Key} {elem : Elem}
    {rest : List Elem} (h : Twins m key patched unpatched (elem :: rest))
    (hB : 2 ≤ inlineBatchSize) (hlt : patched.count < limit) {g : Group}
    (hgroup : ∀ e ∈ elem :: rest, m.group e = g) :
    TwinFetch m key inlineBatchSize limit (elem :: rest) patched.count
      (fetch (fetchRound m key inlineBatchSize limit) patched)
      (fetch (fetchRoundUnpatched m key inlineBatchSize limit) unpatched) := by
  have hcols := m.apply_none elem
  have hsize : m.sizeOf (m.apply none elem).entry = 1 := by simp [Merger.sizeOf, hcols]
  have hunpatched : fetch (fetchRoundUnpatched m key inlineBatchSize limit) unpatched =
      fetchEnd (forRounds (fetchRoundUnpatched m key inlineBatchSize limit) rest
        (begun m key patched.count elem rest)) := by
    have hround : fetchRoundUnpatched m key inlineBatchSize limit elem unpatched =
        .again (begun m key patched.count elem rest) := by
      rw [← stopAtLimit_begun hlt elem rest]
      simp [fetchRoundUnpatched, takeRecord, h.current', h.next, h.rest, h.isOpen', h.count, begun]
    simp [fetch, h.next, h.isOpen', h.rest, forRounds_cons_again hround]
  have hpatched : fetch (fetchRound m key inlineBatchSize limit) patched =
      fetchEnd (forRounds (fetchRound m key inlineBatchSize limit) rest
        (begun m key patched.count elem rest)) := by
    rcases h.ahead with ⟨hnext, hrest⟩ | ⟨e, rest', hrecords, hnext, hresults⟩
    · have hround : fetchRound m key inlineBatchSize limit elem patched =
          .again (begun m key patched.count elem rest) := by
        rw [← stopAtLimit_begun hlt elem rest]
        simp [fetchRound, takeRecord, h.current, hnext, hrest, h.isOpen, begun]
      simp [fetch, hnext, h.isOpen, hrest, forRounds_cons_again hround]
    · obtain ⟨rfl, rfl⟩ := List.cons.inj hrecords
      simp [fetch, hnext, hresults, begun]
  rw [hpatched, hunpatched]
  have hrecords : elem :: rest = m.columns (m.apply none elem).entry ++ rest := by
    rw [hcols, List.singleton_append]
  rw [hrecords] at hgroup ⊢
  refine forRounds_fetch_twins rest (begun m key patched.count elem rest) _ rfl rfl rfl rfl
    hsize.ge ?_ ?_ hgroup
  · omega
  · simp only [begun, hsize]
    omega

/-! ## A page of both loops -/

/-- Both pages are the same, or the old one has emitted `k` records and leaves
the position at the `k`-th. -/
inductive TwinPage (m : Merger Elem Entry Group) (key : Elem → Key) (inlineBatchSize room : ℕ)
    (records : List Elem) (out : List Entry) :
    Round (BinaryEntryIterator Elem Entry Key × List Entry) (Except Fault (Page Entry Key)) →
      Round (BinaryEntryIterator Elem Entry Key × List Entry)
        (Except Fault (Page Entry Key)) → Prop where
  | same (s s' : BinaryEntryIterator Elem Entry Key × List Entry) (p : Page Entry Key)
      (hbatch : ¬ (room % inlineBatchSize = 0 ∧ room ≤ records.length))
      (hbeyond : ¬ (room % inlineBatchSize = inlineBatchSize - 1 ∧ room + 1 ≤ records.length)) :
      TwinPage m key inlineBatchSize room records out (.leave s (.ok p)) (.leave s' (.ok p))
  | stale (patched : Round (BinaryEntryIterator Elem Entry Key × List Entry)
        (Except Fault (Page Entry Key)))
      (s : BinaryEntryIterator Elem Entry Key × List Entry) (entries : List Entry) (k : ℕ)
      (hk : room % inlineBatchSize = 0 ∧ k = room ∨
        room % inlineBatchSize = inlineBatchSize - 1 ∧ k = room + 1)
      (hlength : k ≤ records.length)
      (hrecords : entries.flatMap m.columns = records.take k) :
      TwinPage m key inlineBatchSize room records out patched
        (.leave s (.ok ⟨out ++ entries, (records.drop (k - 1)).head?.map key⟩))

theorem Twins.advance {patched unpatched : BinaryEntryIterator Elem Entry Key}
    {records : List Elem} (h : Twins m key patched unpatched records) (count : ℕ) :
    Twins m key { patched with count := count } { unpatched with count := count } records where
  current := h.current
  current' := h.current'
  count := rfl
  isOpen := h.isOpen
  isOpen' := h.isOpen'
  next := h.next
  rest := h.rest
  ahead := h.ahead

theorem Twins.drained {it : BinaryEntryIterator Elem Entry Key} (hnext : it.next = none)
    (hresults : it.results = ⟨[], none, false⟩) (count : ℕ) :
    Twins m key { it with current := none, count := count }
      { it with current := none, count := count } [] where
  current := rfl
  current' := rfl
  count := rfl
  isOpen := by rw [hresults]
  isOpen' := by rw [hresults]
  next := hnext
  rest := by rw [hresults]
  ahead := Or.inl ⟨hnext, by rw [hresults]⟩

/-- Where a call of both loops ends short of a full batch, the page ends as it
should. -/
theorem not_stale_of_short {room length : ℕ} (hpos : 1 ≤ room)
    (h : room + 2 ≤ inlineBatchSize ∨ length < inlineBatchSize) :
    ¬ (room % inlineBatchSize = 0 ∧ room ≤ length) ∧
      ¬ (room % inlineBatchSize = inlineBatchSize - 1 ∧ room + 1 ≤ length) := by
  constructor
  · rintro ⟨hmod, hle⟩
    rw [Nat.mod_eq_of_lt (by omega)] at hmod
    omega
  · rintro ⟨hmod, hle⟩
    rw [Nat.mod_eq_of_lt (by omega)] at hmod
    omega

/-- Where a full batch ends the page, it ends at the limit or one record behind it. -/
theorem full_batch_room {room : ℕ} (hroom : inlineBatchSize ≤ room + 1)
    (hlast : room ≤ inlineBatchSize) :
    room % inlineBatchSize = 0 ∧ inlineBatchSize = room ∨
      room % inlineBatchSize = inlineBatchSize - 1 ∧ inlineBatchSize = room + 1 := by
  rcases Nat.lt_or_ge room inlineBatchSize with hless | hge
  · rw [Nat.mod_eq_of_lt hless]
    omega
  · obtain rfl : room = inlineBatchSize := by omega
    exact Or.inl ⟨Nat.mod_self room, rfl⟩

/-- A page that goes on when there are no more records. -/
theorem TwinPage.behind_drained {room room' : ℕ} {records : List Elem} {out out' : List Entry}
    {patched unpatched : Round (BinaryEntryIterator Elem Entry Key × List Entry)
      (Except Fault (Page Entry Key))}
    (h : TwinPage m key inlineBatchSize room' [] out' patched unpatched) (hroom' : 1 ≤ room')
    (hbatch : ¬ (room % inlineBatchSize = 0 ∧ room ≤ records.length))
    (hbeyond : ¬ (room % inlineBatchSize = inlineBatchSize - 1 ∧ room + 1 ≤ records.length)) :
    TwinPage m key inlineBatchSize room records out patched unpatched := by
  cases h with
  | same s s' p => exact .same s s' p hbatch hbeyond
  | stale _ s entries k hk hlength =>
      have hzero : k = 0 := Nat.le_zero.mp hlength
      omega

/-- A page that goes on behind a full batch. -/
theorem TwinPage.behind_full {room room' : ℕ} {records : List Elem} {out : List Entry}
    {entry : Entry}
    {patched unpatched : Round (BinaryEntryIterator Elem Entry Key × List Entry)
      (Except Fault (Page Entry Key))}
    (h : TwinPage m key inlineBatchSize room' (records.drop inlineBatchSize) (out ++ [entry])
      patched unpatched)
    (hroom : room = room' + inlineBatchSize) (hroom' : 1 ≤ room')
    (hcols : m.columns entry = records.take inlineBatchSize)
    (hlength : inlineBatchSize ≤ records.length) :
    TwinPage m key inlineBatchSize room records out patched unpatched := by
  have hmod : room % inlineBatchSize = room' % inlineBatchSize := by
    rw [hroom, Nat.add_mod_right]
  cases h with
  | same s s' p hbatch hbeyond =>
      rw [List.length_drop] at hbatch hbeyond
      refine .same s s' p ?_ ?_
      · rintro ⟨hzero, hle⟩
        exact hbatch ⟨hmod ▸ hzero, by omega⟩
      · rintro ⟨hlast, hle⟩
        exact hbeyond ⟨hmod ▸ hlast, by omega⟩
  | stale _ s entries k hk hle hrecords =>
      rw [List.length_drop] at hle
      have hdrop : (records.drop inlineBatchSize).drop (k - 1) =
          records.drop (k + inlineBatchSize - 1) := by
        rw [List.drop_drop]
        congr 1
        omega
      rw [List.append_assoc, List.singleton_append, hdrop]
      refine .stale patched s (entry :: entries) (k + inlineBatchSize) ?_ (by omega) ?_
      · rw [hmod]
        omega
      · rw [List.flatMap_cons, hcols, hrecords, Nat.add_comm, List.take_add]

/-- Both consumers from twins: a round ends both pages, or it has taken a full batch and
keeps them twins. -/
theorem forRounds_of_twins (hB : 2 ≤ inlineBatchSize) {g : Group} (rounds : List ℕ) :
    ∀ (patched unpatched : BinaryEntryIterator Elem Entry Key) (out : List Entry)
      (records : List Elem), Twins m key patched unpatched records → patched.count < limit →
      limit - patched.count < rounds.length → (∀ e ∈ records, m.group e = g) →
      TwinPage m key inlineBatchSize (limit - patched.count) records out
        (forRounds (consumeRound m limit (fetchRound m key inlineBatchSize limit)) rounds
          (patched, out))
        (forRounds (consumeRound m limit (fetchRoundUnpatched m key inlineBatchSize limit)) rounds
          (unpatched, out)) := by
  induction rounds with
  | nil =>
      intro patched unpatched out records _ _ hrounds
      simp at hrounds
  | cons round rounds ih =>
      intro patched unpatched out records htwins hlt hrounds hgroup
      have hlt' : unpatched.count < limit := htwins.count ▸ hlt
      have hrounds' : limit - patched.count ≤ rounds.length := by
        simpa using Nat.le_of_lt_succ hrounds
      cases records with
      | nil =>
          obtain ⟨hnext, hrest⟩ : patched.next = none ∧ patched.results.rest = [] := by
            simpa using htwins.ahead
          rw [forRounds_cons_leave (consumeRound_of_fetch_end htwins.current hlt
              (fetch_nil htwins.current hnext hrest htwins.isOpen) round out),
            forRounds_cons_leave (consumeRound_of_fetch_end htwins.current' hlt'
              (fetch_nil htwins.current' htwins.next htwins.rest htwins.isOpen') round out)]
          have hshort : ([] : List Elem).length < inlineBatchSize := Nat.zero_lt_of_lt hB
          obtain ⟨hbatch, hbeyond⟩ := not_stale_of_short (Nat.sub_pos_of_lt hlt) (Or.inr hshort)
          exact .same _ _ _ hbatch hbeyond
      | cons elem rest =>
          have hfetch := fetch_of_twins htwins hB hlt hgroup
          generalize hpatched : fetch (fetchRound m key inlineBatchSize limit) patched = resultP
            at hfetch
          generalize hunpatched : fetch (fetchRoundUnpatched m key inlineBatchSize limit)
            unpatched = resultU at hfetch
          cases hfetch with
          | same it entry hcur hcount hpos hlimit hshort hend =>
              rw [forRounds_cons_again (consumeRound_of_fetch htwins.current hlt hpatched hcur
                  round out),
                forRounds_cons_again (consumeRound_of_fetch htwins.current' hlt' hunpatched hcur
                  round out), hcount]
              obtain ⟨hbatch, hbeyond⟩ := not_stale_of_short (by omega) hshort
              by_cases hmore : patched.count + m.sizeOf entry < limit
              · obtain ⟨hnext, hresults⟩ := hend hmore
                have hrounds'' : limit - (patched.count + m.sizeOf entry) < rounds.length := by
                  omega
                have hrun : TwinPage m key inlineBatchSize
                    (limit - (patched.count + m.sizeOf entry)) [] (out ++ [entry]) _ _ :=
                  ih _ _ _ [] (Twins.drained hnext hresults _) hmore hrounds'' (by simp)
                exact hrun.behind_drained (Nat.sub_pos_of_lt hmore) hbatch hbeyond
              · obtain ⟨round', rounds', rfl⟩ := List.exists_cons_of_length_pos
                  (show 0 < rounds.length by omega)
                have hreached : limit ≤ patched.count + m.sizeOf entry := Nat.le_of_not_lt hmore
                rw [forRounds_cons_leave (consumeRound_of_reached hreached round' _),
                  forRounds_cons_leave (consumeRound_of_reached hreached round' _)]
                exact .same _ _ _ hbatch hbeyond
          | full _ it entry hcur hcount hcols hlength hroom hpos htwins' =>
              have hsize : m.sizeOf entry = inlineBatchSize := by
                rw [Merger.sizeOf, hcols, List.length_take, Nat.min_eq_left hlength]
              rw [forRounds_cons_again (consumeRound_of_fetch htwins.current' hlt' hunpatched hcur
                round out), hcount, hsize]
              by_cases hmore : patched.count + inlineBatchSize < limit
              · obtain ⟨it', rfl, hcur', hcount', hnext⟩ := htwins' hmore
                clear htwins'
                rw [forRounds_cons_again (consumeRound_of_fetch htwins.current hlt hpatched hcur'
                  round out), hcount', hsize]
                have hrounds'' : limit - (patched.count + inlineBatchSize) < rounds.length := by
                  omega
                have hrun : TwinPage m key inlineBatchSize
                    (limit - (patched.count + inlineBatchSize))
                    ((elem :: rest).drop inlineBatchSize) (out ++ [entry]) _ _ :=
                  ih _ _ _ _ (hnext.advance (patched.count + inlineBatchSize)) hmore hrounds''
                    fun e he ↦ hgroup e (List.mem_of_mem_drop he)
                exact hrun.behind_full (by omega) (by omega) hcols hlength
              · -- the full batch ends at the limit, or one record behind it
                obtain ⟨round', rounds', rfl⟩ := List.exists_cons_of_length_pos
                  (show 0 < rounds.length by omega)
                have hreached : limit ≤ patched.count + inlineBatchSize := Nat.le_of_not_lt hmore
                rw [forRounds_cons_leave (consumeRound_of_reached hreached round' _)]
                have hlast : limit - patched.count ≤ inlineBatchSize := by omega
                dsimp only
                rw [hpos]
                exact .stale _ _ [entry] inlineBatchSize (full_batch_room hroom hlast) hlength
                  (by rw [List.flatMap_singleton, hcols])

/-- The extent of F1.  On records of one entry, a page of the old loop is the page
of the patched one, with two exceptions: a limit of whole batches, and one that is a
record short of that.  There the page ends with a full batch, and going on from its
position begins with a record that it has emitted. -/
theorem unpatched_page [DecidableEq Key] (m : Merger Elem Entry Group) (key : Elem → Key)
    (inlineBatchSize limit : ℕ) (hB : 2 ≤ inlineBatchSize) (hL : 1 ≤ limit)
    (records : List Elem) (hkeys : (records.map key).Nodup)
    (hgroup : ∃ g, ∀ e ∈ records, m.group e = g) :
    ∃ p : Page Entry Key,
      page m limit (fetchRoundUnpatched m key inlineBatchSize limit) records = .ok p ∧
      (limit % inlineBatchSize = 0 ∧ limit ≤ records.length →
        p.records m = records.take limit ∧
          p.position = (records.drop (limit - 1)).head?.map key ∧
          ∃ position, p.position = some position ∧
            fromPosition key position records = records.drop (limit - 1)) ∧
      (limit % inlineBatchSize = inlineBatchSize - 1 ∧ limit + 1 ≤ records.length →
        p.records m = records.take (limit + 1) ∧
          p.position = (records.drop limit).head?.map key ∧
          ∃ position, p.position = some position ∧
            fromPosition key position records = records.drop limit) ∧
      (¬ (limit % inlineBatchSize = 0 ∧ limit ≤ records.length) →
        ¬ (limit % inlineBatchSize = inlineBatchSize - 1 ∧ limit + 1 ≤ records.length) →
        p.records m = records.take limit ∧
          p.position = (records.drop limit).head?.map key ∧
          page m limit (fetchRound m key inlineBatchSize limit) records = .ok p) := by
  obtain ⟨g, hg⟩ := hgroup
  have hstart : Twins m key (BinaryEntryIterator.start records)
      (BinaryEntryIterator.start records : BinaryEntryIterator Elem Entry Key) records :=
    ⟨rfl, rfl, rfl, rfl, rfl, rfl, rfl, Or.inl ⟨rfl, rfl⟩⟩
  have hrun := forRounds_of_twins hB (List.range (limit + 1)) _ _ [] records hstart
    (show 0 < limit by omega) (by simp [BinaryEntryIterator.start]) hg
  rw [show limit - (BinaryEntryIterator.start records :
    BinaryEntryIterator Elem Entry Key).count = limit from Nat.sub_zero limit] at hrun
  obtain ⟨q, hq, hqrecords, hqposition, -⟩ :=
    page_eq_ok (m := m) key inlineBatchSize limit (by omega) hL records
  unfold page at hq ⊢
  generalize forRounds (consumeRound m limit (fetchRound m key inlineBatchSize limit)) _ _ =
    patched at hrun hq ⊢
  generalize forRounds (consumeRound m limit (fetchRoundUnpatched m key inlineBatchSize limit))
    _ _ = unpatched at hrun ⊢
  cases hrun with
  | same s s' p hbatch hbeyond =>
      obtain rfl : p = q := Except.ok.inj hq
      exact ⟨p, rfl, fun h ↦ absurd h hbatch, fun h ↦ absurd h hbeyond,
        fun _ _ ↦ ⟨hqrecords, hqposition, rfl⟩⟩
  | stale _ s entries k hk hlength hrecords =>
      have hbehind : k - 1 < records.length := by omega
      have hposition : (records.drop (k - 1)).head?.map key = some (key records[k - 1]) := by
        rw [List.head?_drop, List.getElem?_eq_getElem hbehind]
        rfl
      have hfrom := fromPosition_eq_drop hkeys hposition
      have hemitted : Page.records m (⟨[] ++ entries, (records.drop (k - 1)).head?.map key⟩ :
          Page Entry Key) = records.take k := hrecords
      refine ⟨⟨[] ++ entries, (records.drop (k - 1)).head?.map key⟩, rfl, ?_, ?_, ?_⟩
      · rintro ⟨hbatch, -⟩
        obtain rfl : k = limit := by omega
        exact ⟨hemitted, rfl, _, hposition, hfrom⟩
      · rintro ⟨hbeyond, -⟩
        obtain rfl : k = limit + 1 := by omega
        exact ⟨hemitted, rfl, _, hposition, hfrom⟩
      · intro hbatch hbeyond
        omega

/-- Batches of 2: a page of 3 takes a fourth record, and the next one begins with it. -/
theorem unpatched_page_beyond_limit :
    ∃ p : Page (List (ℕ × ℕ)) ℕ,
      page listMerger 3 (fetchRoundUnpatched listMerger Prod.snd 2 3)
          [(0, 1), (0, 2), (0, 3), (0, 4), (0, 5)] = .ok p ∧
        p.records listMerger = [(0, 1), (0, 2), (0, 3), (0, 4)] ∧
        ∃ position, p.position = some position ∧
          fromPosition Prod.snd position [(0, 1), (0, 2), (0, 3), (0, 4), (0, 5)] =
            [(0, 4), (0, 5)] := by
  obtain ⟨p, hpage, -, hbeyond, -⟩ := unpatched_page listMerger Prod.snd 2 3 le_rfl (by omega)
    [(0, 1), (0, 2), (0, 3), (0, 4), (0, 5)] (by decide) ⟨0, by decide⟩
  obtain ⟨hrecords, -, hrestart⟩ := hbeyond ⟨rfl, by simp⟩
  exact ⟨p, hpage, hrecords, hrestart⟩

end HugeGraphValidation.Paging
