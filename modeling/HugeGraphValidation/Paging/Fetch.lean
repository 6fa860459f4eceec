import HugeGraphValidation.Lib.Rounds

/-!
# The page iterator over store records

`BinaryEntryIterator.fetch()` merges store records into the current backend
entry until the entry is complete.  The patch replaces the body of its loop;
what the loop uses of the classes around it is a parameter of the model
(`Merger`) or follows their description in `docs/findings.md`, F1.
-/

namespace HugeGraphValidation.Paging

open Lib

variable {Elem Entry Group Key : Type*}

/-- What `merger.apply(cur, elem)` returns: `cur` itself, grown by the record,
or a new entry. -/
inductive Merged (Entry : Type*) where
  | same (entry : Entry)
  | fresh (entry : Entry)

def Merged.entry : Merged Entry → Entry
  | .same entry => entry
  | .fresh entry => entry

/-- The serializer's side of the loop.  `group` names the backend entry a
record belongs to; a non-empty entry grows exactly by the records of the
group it was begun with. -/
structure Merger (Elem Entry Group : Type*) where
  columns : Entry → List Elem
  group : Elem → Group
  apply : Option Entry → Elem → Merged Entry
  removeLastRecord : Entry → Entry
  apply_none (elem : Elem) :
    columns (apply none elem).entry = [elem]
  apply_same {cur : Entry} {first elem : Elem} :
    (columns cur).head? = some first → group first = group elem →
      ∃ entry, apply (some cur) elem = .same entry ∧
        columns entry = columns cur ++ [elem]
  apply_fresh {cur : Entry} {first elem : Elem} :
    (columns cur).head? = some first → group first ≠ group elem →
      ∃ entry, apply (some cur) elem = .fresh entry ∧ columns entry = [elem]
  columns_removeLastRecord (entry : Entry) :
    columns (removeLastRecord entry) = (columns entry).dropLast

/-- The store's record stream.  `position` is the key of the record that the
last `hasNext()` announced, null once there was none. -/
structure Results (Elem Key : Type*) where
  rest : List Elem
  position : Option Key
  closed : Bool

/-- A violated Java `assert`, a null entry handed to the consumer, or a loop
that does not come to its end. -/
inductive Fault where
  | assertNextIsNull
  | nullEntry
  | outOfRounds
  deriving DecidableEq

structure BinaryEntryIterator (Elem Entry Key : Type*) where
  current : Option Entry
  next : Option Entry
  count : ℕ
  results : Results Elem Key

namespace BinaryEntryIterator

def start (records : List Elem) : BinaryEntryIterator Elem Entry Key where
  current := none
  next := none
  count := 0
  results := ⟨records, none, false⟩

end BinaryEntryIterator

section Iterator

variable (m : Merger Elem Entry Group) (key : Elem → Key)
  (inlineBatchSize limit : ℕ)

abbrev Merger.sizeOf (entry : Entry) : ℕ := (m.columns entry).length

def fetched (it : BinaryEntryIterator Elem Entry Key) : ℕ :=
  it.count + (it.current.map m.sizeOf).getD 0

def reachLimit (count : ℕ) : Bool := decide (limit ≤ count)

/-- The end of the loop body: with `limit + 1` records fetched, drop the last
one and stop. -/
def stopAtLimit (it : BinaryEntryIterator Elem Entry Key) :
    Round (BinaryEntryIterator Elem Entry Key) (Except Fault Unit) :=
  if reachLimit limit (fetched m it - 1) then
    .leave { it with
      current := it.current.map m.removeLastRecord
      results := { it.results with closed := true } } (.ok ())
  else .again it

/-- `assert this.next == null; this.next = entry; break;` -/
def keepForNext (it : BinaryEntryIterator Elem Entry Key) (entry : Entry) :
    Round (BinaryEntryIterator Elem Entry Key) (Except Fault Unit) :=
  if it.next.isNone then .leave { it with next := some entry } (.ok ())
  else .leave it (.error .assertNextIsNull)

/-- `results.next()`: the record is taken off the stream; the `hasNext()`
before it has moved the position to its key. -/
def takeRecord (it : BinaryEntryIterator Elem Entry Key) (elem : Elem) :
    BinaryEntryIterator Elem Entry Key :=
  { it with results := ⟨it.results.rest.tail, some (key elem), it.results.closed⟩ }

def fetchRound (elem : Elem) (it : BinaryEntryIterator Elem Entry Key) :
    Round (BinaryEntryIterator Elem Entry Key) (Except Fault Unit) :=
  let it := takeRecord key it elem
  match it.current with
  | none =>
      -- the first time to read
      stopAtLimit m limit { it with current := some (m.apply none elem).entry }
  | some current =>
      if inlineBatchSize ≤ m.sizeOf current then
        -- a full batch: start the next entry with this record
        keepForNext it (m.apply none elem).entry
      else
        match m.apply (some current) elem with
        | .same merged => stopAtLimit m limit { it with current := some merged }
        | .fresh merged => keepForNext it merged

/-- The body of `fetch()`'s loop, so that two versions of it can be compared. -/
abbrev FetchBody (Elem Entry Key : Type*) :=
  Elem → BinaryEntryIterator Elem Entry Key →
    Round (BinaryEntryIterator Elem Entry Key) (Except Fault Unit)

variable (body : FetchBody Elem Entry Key)

/-- The loop is left by a `break`, or because `results.hasNext()` is false,
which clears the position; then `return this.current != null`. -/
def fetchEnd :
    Round (BinaryEntryIterator Elem Entry Key) (Except Fault Unit) →
      Except Fault (Bool × BinaryEntryIterator Elem Entry Key)
  | .again it =>
      .ok (it.current.isSome, { it with results := { it.results with position := none } })
  | .leave it (.ok ()) => .ok (it.current.isSome, it)
  | .leave _ (.error fault) => .error fault

/-- `fetch()`: continue with the entry kept for now, then read on. -/
def fetch (it : BinaryEntryIterator Elem Entry Key) :
    Except Fault (Bool × BinaryEntryIterator Elem Entry Key) :=
  -- a closed store iterator answers `hasNext()` with false and keeps its position
  let it := if it.next.isSome then { it with current := it.next, next := none } else it
  if it.results.closed then .ok (it.current.isSome, it)
  else fetchEnd (forRounds body it.results.rest it)

def hasNext (it : BinaryEntryIterator Elem Entry Key) :
    Except Fault (Bool × BinaryEntryIterator Elem Entry Key) :=
  if reachLimit limit it.count then .ok (false, it)
  else if it.current.isSome then .ok (true, it)
  else fetch body it

/-- A page as the client sees it: the entries and the position to go on from. -/
structure Page (Entry Key : Type*) where
  entries : List Entry
  position : Option Key

def consumeRound (_round : ℕ)
    (s : BinaryEntryIterator Elem Entry Key × List Entry) :
    Round (BinaryEntryIterator Elem Entry Key × List Entry)
      (Except Fault (Page Entry Key)) :=
  match hasNext limit body s.1 with
  | .error fault => .leave s (.error fault)
  | .ok (false, it) => .leave (it, s.2) (.ok ⟨s.2, it.results.position⟩)
  | .ok (true, it) =>
      match it.current with
      | none => .leave (it, s.2) (.error .nullEntry)
      | some entry =>
          .again ({ it with current := none, count := it.count + m.sizeOf entry },
            s.2 ++ [entry])

/-- A page: drain a fresh iterator.  Every round but the last emits a record,
so `limit + 1` rounds are enough (`page_eq_ok`). -/
def page (records : List Elem) : Except Fault (Page Entry Key) :=
  match forRounds (consumeRound m limit body) (List.range (limit + 1))
      (BinaryEntryIterator.start records, []) with
  | .leave _ result => result
  | .again _ => .error .outOfRounds

/-- The stream from the record with the given key on, that record included. -/
def fromPosition [DecidableEq Key] (position : Key) (stream : List Elem) : List Elem :=
  stream.dropWhile fun e ↦ decide (key e ≠ position)

/-- The client's loop: ask for pages until the position is null. -/
def pages [DecidableEq Key] (stream : List Elem) :
    ℕ → List Elem → Except Fault (List (Page Entry Key))
  | 0, _ => .error .outOfRounds
  | rounds + 1, records =>
      match page m limit body records with
      | .error fault => .error fault
      | .ok p =>
          match p.position with
          | none => .ok [p]
          | some position =>
              (pages stream rounds (fromPosition key position stream)).map (p :: ·)

def Page.records (p : Page Entry Key) : List Elem := p.entries.flatMap m.columns

end Iterator

end HugeGraphValidation.Paging
