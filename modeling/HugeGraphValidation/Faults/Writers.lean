import HugeGraphValidation.Faults.Setup
import HugeGraphValidation.Lib.Dict
import HugeGraphValidation.Lib.Numerals
import HugeGraphValidation.Lib.Threads

/-!
# The writers of the dead server

While a store is frozen, the threads of `repro_rest_dead.py` post one vertex after
the other and count in one dictionary, under a lock: the requests in flight, the
most of them at one time, the accepted ones and the others by their status.  What
they count is right after every interleaving of their steps.
-/

namespace HugeGraphValidation.Faults

open Lib

/-- What a request ends with: a status of the server, or the text for an error. -/
inductive PostStatus where
  | code (n : ℕ)
  | text (s : String)
  deriving DecidableEq

def PostStatus.str : PostStatus → String
  | code n => toString n
  | text s => s

def PostStatus.accepted (st : PostStatus) : Bool := st = .code 201 || st = .code 200

structure Stats where
  ok : ℕ
  err : List (String × ℕ)
  inflight : ℤ
  maxInflight : ℤ
  deriving DecidableEq

def Stats.start : Stats := ⟨0, [], 0, 0⟩

/-- The first block under the lock. -/
def Stats.counted (s : Stats) : Stats :=
  { s with inflight := s.inflight + 1, maxInflight := max s.maxInflight (s.inflight + 1) }

/-- The second block under the lock. -/
def Stats.finished (s : Stats) (st : PostStatus) : Stats :=
  let s := { s with inflight := s.inflight - 1 }
  if st.accepted then { s with ok := s.ok + 1 }
  else { s with err := Dict.count (clip 60 st.str) s.err }

/-- The six hexadecimal digits of a `uuid4`. -/
structure UuidHex where
  digits : String
  no_dash : '-' ∉ digits.toList

/-- The vertex of a request: the writer, its number there, and the digits. -/
structure Request (W : ℕ) where
  writer : Fin W
  n : ℕ
  hex : UuidHex

/-- `f"{TAG}-{i}-{n}-{uuid.uuid4().hex[:6]}"` -/
def Request.vid {W : ℕ} (tag : String) (r : Request W) : String :=
  s!"{tag}-{r.writer.val}-{r.n}-{r.hex.digits}"

inductive WriterPhase (W : ℕ) where
  | looping
  | named (r : Request W)
  | posting (r : Request W)
  | answered (r : Request W) (st : PostStatus)
  | ended
  /-- the body of an error could not be read, which ends the thread -/
  | died (r : Request W)

structure Writers (W : ℕ) where
  stats : Stats
  n : Fin W → ℕ
  phase : Fin W → WriterPhase W
  /-- the requests that were counted in -/
  begun : List (Request W)

def Writers.start {W : ℕ} : Writers W := ⟨.start, fun _ ↦ 0, fun _ ↦ .looping, []⟩

/-- Whose turn is next, and what it finds there: the seconds since the start, the
digits of its `uuid`, and the status of its request, unless the handler raises. -/
structure WriterTurn (W : ℕ) where
  writer : Fin W
  elapsed : ℚ
  hex : UuidHex
  st : Option PostStatus

section Turns

variable {W : ℕ} (dur : ℤ)

/-- One step of a writer, between two of its uses of the lock, the clock or the
network. -/
def writerTurn (s : Writers W) (t : WriterTurn W) : Writers W :=
  let w := t.writer
  match s.phase w with
  | .looping =>
      if t.elapsed < dur then
        { s with
          n := Function.update s.n w (s.n w + 1)
          phase := Function.update s.phase w (.named ⟨w, s.n w, t.hex⟩) }
      else { s with phase := Function.update s.phase w .ended }
  | .named r =>
      { s with
        stats := s.stats.counted
        phase := Function.update s.phase w (.posting r)
        begun := s.begun ++ [r] }
  | .posting r =>
      match t.st with
      | none => { s with phase := Function.update s.phase w (.died r) }
      | some st => { s with phase := Function.update s.phase w (.answered r st) }
  | .answered _ st =>
      { s with
        stats := s.stats.finished st
        phase := Function.update s.phase w .looping }
  | .ended => s
  | .died _ => s

def writersRun (turns : List (WriterTurn W)) : Writers W :=
  turns.foldl (writerTurn dur) .start

end Turns

/-! ## The vertices -/

theorem Request.vid_inj {W : ℕ} {tag : String} {r r' : Request W}
    (h : r.vid tag = r'.vid tag) : r.writer = r'.writer ∧ r.n = r'.n := by
  have hchars : ∀ r : Request W, (r.vid tag).toList =
      (tag.toList ++ '-' :: Nat.toDigits 10 r.writer.val ++ '-' :: Nat.toDigits 10 r.n) ++
        '-' :: r.hex.digits.toList := by
    intro r
    have hvid : r.vid tag = tag ++ "-" ++ toString r.writer.val ++ "-" ++ toString r.n ++ "-" ++
        r.hex.digits := rfl
    simp [hvid]
  have hlist := congrArg String.toList h
  rw [hchars, hchars] at hlist
  have hdash : ∀ n, '-' ∉ Nat.toDigits 10 n := by
    intro n
    rw [← toList_toString]
    exact not_mem_toString rfl n
  obtain ⟨hnames, -⟩ := append_cons_inj r.hex.no_dash r'.hex.no_dash hlist
  obtain ⟨hwriters, hn⟩ := append_cons_inj (hdash _) (hdash _) hnames
  obtain ⟨-, hw⟩ := append_cons_inj (hdash _) (hdash _) hwriters
  have hdigits : ∀ {m n : ℕ}, Nat.toDigits 10 m = Nat.toDigits 10 n → m = n := by
    intro m n hmn
    rw [← Nat.ofDigitChars_ten_toDigits (n := m), hmn, Nat.ofDigitChars_ten_toDigits]
  exact ⟨Fin.ext (hdigits hw), hdigits hn⟩

/-! ## What the counters hold -/

/-- The request is being made: it is counted in, and its writer will count it out. -/
def WriterPhase.inFlight {W : ℕ} : WriterPhase W → ℕ
  | posting _ => 1
  | answered _ _ => 1
  | _ => 0

/-- The writer has died in a request that it had counted in. -/
def WriterPhase.lost {W : ℕ} : WriterPhase W → ℕ
  | died _ => 1
  | _ => 0

def WriterPhase.countedIn {W : ℕ} (p : WriterPhase W) : ℕ := p.inFlight + p.lost

/-- The writer is past the clock, and its request is not counted in. -/
def WriterPhase.waiting {W : ℕ} : WriterPhase W → ℕ
  | named _ => 1
  | _ => 0

theorem WriterPhase.countedIn_le_one {W : ℕ} (p : WriterPhase W) : p.countedIn ≤ 1 := by
  cases p <;> simp [countedIn, inFlight, lost]

section Steps

variable {W : ℕ} {dur : ℤ}

/-- What a step does, by the phase of the writer. -/
inductive WriterStep (dur : ℤ) (s : Writers W) (w : Fin W) (elapsed : ℚ) : Writers W → Prop where
  | rests : WriterStep dur s w elapsed s
  | ends (h : s.phase w = .looping) (hdur : dur ≤ elapsed) :
      WriterStep dur s w elapsed { s with phase := Function.update s.phase w .ended }
  | names (h : s.phase w = .looping) (hdur : elapsed < dur) (hex : UuidHex) :
      WriterStep dur s w elapsed
        { s with
          n := Function.update s.n w (s.n w + 1)
          phase := Function.update s.phase w (.named ⟨w, s.n w, hex⟩) }
  | begins (r : Request W) (h : s.phase w = .named r) :
      WriterStep dur s w elapsed
        { s with
          stats := s.stats.counted
          phase := Function.update s.phase w (.posting r)
          begun := s.begun ++ [r] }
  | dies (r : Request W) (h : s.phase w = .posting r) :
      WriterStep dur s w elapsed { s with phase := Function.update s.phase w (.died r) }
  | answers (r : Request W) (h : s.phase w = .posting r) (st : PostStatus) :
      WriterStep dur s w elapsed { s with phase := Function.update s.phase w (.answered r st) }
  | finishes (r : Request W) (st : PostStatus) (h : s.phase w = .answered r st) :
      WriterStep dur s w elapsed
        { s with
          stats := s.stats.finished st
          phase := Function.update s.phase w .looping }

theorem writerStep (dur : ℤ) (s : Writers W) (t : WriterTurn W) :
    WriterStep dur s t.writer t.elapsed (writerTurn dur s t) := by
  unfold writerTurn
  dsimp only
  cases hphase : s.phase t.writer with
  | looping =>
      dsimp only
      split_ifs with hdur
      · exact .names hphase hdur t.hex
      · exact .ends hphase (not_lt.mp hdur)
  | named r => exact .begins r hphase
  | posting r =>
      cases hst : t.st with
      | none => exact .dies r hphase
      | some st => exact .answers r hphase st
  | answered r st => exact .finishes r st hphase
  | ended => exact .rests
  | died _ => exact .rests

theorem finished_counts (s : Stats) (st : PostStatus) :
    (s.finished st).inflight = s.inflight - 1 ∧
      (s.finished st).maxInflight = s.maxInflight ∧
      (s.finished st).ok + (Dict.values (s.finished st).err).sum =
        s.ok + (Dict.values s.err).sum + 1 := by
  unfold Stats.finished
  dsimp only
  split_ifs
  · exact ⟨rfl, rfl, by dsimp only; omega⟩
  · refine ⟨rfl, rfl, ?_⟩
    dsimp only
    rw [Dict.sum_values_count]
    omega

structure WritersCounted (s : Writers W) : Prop where
  inflight : s.stats.inflight = sumOver WriterPhase.countedIn s.phase
  begun : s.stats.ok + (Dict.values s.stats.err).sum + sumOver WriterPhase.countedIn s.phase =
    s.begun.length

theorem WritersCounted.step {s s' : Writers W} {w : Fin W} {elapsed : ℚ}
    (hstep : WriterStep dur s w elapsed s') (h : WritersCounted s) : WritersCounted s' := by
  obtain ⟨hinflight, hbegun⟩ := h
  have hphase : ∀ p q, s.phase w = q →
      sumOver WriterPhase.countedIn (Function.update s.phase w p) + q.countedIn =
        sumOver WriterPhase.countedIn s.phase + p.countedIn := by
    rintro p _ rfl
    exact sumOver_update WriterPhase.countedIn s.phase w p
  have hsame : ∀ p q, s.phase w = q → p.countedIn = q.countedIn →
      sumOver WriterPhase.countedIn (Function.update s.phase w p) =
        sumOver WriterPhase.countedIn s.phase := by
    intro p q hq hpq
    have hsum := hphase p q hq
    omega
  cases hstep with
  | rests => exact ⟨hinflight, hbegun⟩
  | ends hw hdur =>
      have hsum := hsame .ended _ hw rfl
      exact ⟨by rw [hsum, hinflight], by rw [hsum, hbegun]⟩
  | names hw hdur hex =>
      have hsum := hsame (.named ⟨w, s.n w, hex⟩) _ hw rfl
      exact ⟨by rw [hsum, hinflight], by rw [hsum, hbegun]⟩
  | dies r hw =>
      have hsum := hsame (.died r) _ hw rfl
      exact ⟨by rw [hsum, hinflight], by rw [hsum, hbegun]⟩
  | answers r hw st =>
      have hsum := hsame (.answered r st) _ hw rfl
      exact ⟨by rw [hsum, hinflight], by rw [hsum, hbegun]⟩
  | begins r hw =>
      have hsum := hphase (.posting r) _ hw
      simp only [WriterPhase.countedIn, WriterPhase.inFlight, WriterPhase.lost] at hsum
      constructor
      · dsimp only [Stats.counted]
        omega
      · dsimp only [Stats.counted]
        rw [List.length_append, List.length_singleton]
        omega
  | finishes r st hw =>
      have hsum := hphase .looping _ hw
      simp only [WriterPhase.countedIn, WriterPhase.inFlight, WriterPhase.lost] at hsum
      obtain ⟨hfinished, -, hcounts⟩ := finished_counts s.stats st
      constructor
      · dsimp only
        omega
      · dsimp only
        omega

theorem writersCounted_run (dur : ℤ) (turns : List (WriterTurn W)) :
    WritersCounted (writersRun dur turns) := by
  refine foldl_invariant (fun s t h ↦ h.step (writerStep dur s t)) ?_ turns
  have hzero : sumOver WriterPhase.countedIn (Writers.start : Writers W).phase = 0 :=
    sumOver_eq_zero fun _ ↦ rfl
  constructor
  · rw [hzero]
    rfl
  · rw [hzero]
    rfl

/-- `max_inflight` is the largest value of `inflight` at any time. -/
theorem isGreatest_maxInflight (dur : ℤ) (turns : List (WriterTurn W)) :
    IsGreatest (valuesOf (writerTurn dur) (fun s ↦ s.stats.inflight) .start turns)
      (writersRun dur turns).stats.maxInflight := by
  refine isGreatest_peak (fun s : Writers W ↦ s.stats.inflight)
    (fun s : Writers W ↦ s.stats.maxInflight) ?_ rfl turns
  intro s t hle
  have hstep := writerStep dur s t
  generalize writerTurn dur s t = s' at hstep
  have hsame : s.stats.maxInflight = max s.stats.maxInflight s.stats.inflight :=
    (max_eq_left hle).symm
  cases hstep with
  | rests => exact hsame
  | ends hw hdur => exact hsame
  | names hw hdur hex => exact hsame
  | begins r hw => rfl
  | dies r hw => exact hsame
  | answers r hw st => exact hsame
  | finishes r st hw =>
      obtain ⟨hinflight, hmax, -⟩ := finished_counts s.stats st
      dsimp only
      rw [hinflight, hmax]
      exact (max_eq_left ((sub_le_self _ zero_le_one).trans hle)).symm

/-! ## The requests -/

/-- The numbers of the requests of each writer grow, so none is begun twice. -/
structure WritersNamed (s : Writers W) : Prop where
  fresh : ∀ r ∈ s.begun, r.n < s.n r.writer
  named : ∀ w r, s.phase w = .named r → r.writer = w ∧ r.n < s.n w ∧
    ∀ r' ∈ s.begun, (r'.writer, r'.n) ≠ (r.writer, r.n)
  nodup : (s.begun.map fun r ↦ (r.writer, r.n)).Nodup

/-- A step that begins no request and names none. -/
theorem WritersNamed.update {s : Writers W} (h : WritersNamed s) {w : Fin W}
    {p : WriterPhase W} (hp : ∀ r, p ≠ .named r) (stats : Stats) :
    WritersNamed { s with stats := stats, phase := Function.update s.phase w p } where
  fresh := h.fresh
  named := by
    intro w' r hw'
    by_cases hw : w' = w
    · subst hw
      exact absurd ((Function.update_self w' p s.phase).symm.trans hw') (hp r)
    · exact h.named w' r ((Function.update_of_ne hw p s.phase).symm.trans hw')
  nodup := h.nodup

theorem WritersNamed.step {s s' : Writers W} {w : Fin W} {elapsed : ℚ}
    (hstep : WriterStep dur s w elapsed s') (h : WritersNamed s) : WritersNamed s' := by
  cases hstep with
  | rests => exact h
  | ends hw hdur => exact h.update (by simp) s.stats
  | dies r hw => exact h.update (by simp) s.stats
  | answers r hw st => exact h.update (by simp) s.stats
  | finishes r st hw => exact h.update (by simp) (s.stats.finished st)
  | names hw hdur hex =>
      have hle : ∀ w', s.n w' ≤ Function.update s.n w (s.n w + 1) w' := by
        intro w'
        by_cases hw' : w' = w
        · subst hw'
          rw [Function.update_self]
          exact Nat.le_succ _
        · rw [Function.update_of_ne hw']
      refine ⟨fun r hr ↦ (h.fresh r hr).trans_le (hle r.writer), ?_, h.nodup⟩
      intro w' r hr
      by_cases hw' : w' = w
      · subst hw'
        have hphase : (WriterPhase.named ⟨w', s.n w', hex⟩ : WriterPhase W) = .named r :=
          (Function.update_self w' _ s.phase).symm.trans hr
        obtain rfl := WriterPhase.named.inj hphase
        refine ⟨rfl, ?_, fun r' hr' heq ↦ ?_⟩
        · dsimp only
          rw [Function.update_self]
          exact Nat.lt_succ_self _
        · obtain ⟨hwriter, hn⟩ := Prod.mk.inj heq
          have hlt := h.fresh r' hr'
          rw [hn, hwriter] at hlt
          exact lt_irrefl _ hlt
      · obtain ⟨hwriter, hn, hnew⟩ := h.named w' r
          ((Function.update_of_ne hw' _ s.phase).symm.trans hr)
        exact ⟨hwriter, hn.trans_le (hle w'), hnew⟩
  | begins r hw =>
      obtain ⟨hwriter, hn, hnew⟩ := h.named w r hw
      refine ⟨?_, ?_, ?_⟩
      · intro r' hr'
        rcases List.mem_append.mp hr' with hr' | hr'
        · exact h.fresh r' hr'
        · obtain rfl := List.mem_singleton.mp hr'
          rw [hwriter]
          exact hn
      · intro w' r' hr'
        by_cases hw' : w' = w
        · subst hw'
          cases (Function.update_self w' _ s.phase).symm.trans hr'
        · obtain ⟨hwriter', hn', hnew'⟩ := h.named w' r'
            ((Function.update_of_ne hw' _ s.phase).symm.trans hr')
          refine ⟨hwriter', hn', fun r'' hr'' ↦ ?_⟩
          rcases List.mem_append.mp hr'' with hr'' | hr''
          · exact hnew' r'' hr''
          · obtain rfl := List.mem_singleton.mp hr''
            intro heq
            exact hw' (hwriter'.symm.trans ((Prod.mk.inj heq).1.symm.trans hwriter))
      · dsimp only
        rw [List.map_append, List.map_singleton, List.nodup_append]
        refine ⟨h.nodup, List.nodup_singleton _, ?_⟩
        intro a ha b hb
        obtain ⟨r', hr', rfl⟩ := List.mem_map.mp ha
        obtain rfl := List.mem_singleton.mp hb
        exact hnew r' hr'

theorem writersNamed_run (dur : ℤ) (turns : List (WriterTurn W)) :
    WritersNamed (writersRun dur turns) := by
  refine foldl_invariant (fun s t h ↦ h.step (writerStep dur s t)) ?_ turns
  refine ⟨fun r hr ↦ ?_, fun w r hw ↦ ?_, List.nodup_nil⟩
  · cases hr
  · cases hw

/-- Behind the end of the writes only the requests begin that were named before. -/
theorem begun_after_writes (s : Writers W) {later : List (WriterTurn W)}
    (hlater : ∀ t ∈ later, dur ≤ t.elapsed) :
    (later.foldl (writerTurn dur) s).begun.length +
        sumOver WriterPhase.waiting (later.foldl (writerTurn dur) s).phase =
      s.begun.length + sumOver WriterPhase.waiting s.phase := by
  induction later generalizing s with
  | nil => rfl
  | cons t later ih =>
      rw [List.forall_mem_cons] at hlater
      rw [List.foldl_cons, ih _ hlater.2]
      have hstep := writerStep dur s t
      generalize writerTurn dur s t = s' at hstep
      have hphase : ∀ p q, s.phase t.writer = q →
          sumOver WriterPhase.waiting (Function.update s.phase t.writer p) + q.waiting =
            sumOver WriterPhase.waiting s.phase + p.waiting := by
        rintro p _ rfl
        exact sumOver_update WriterPhase.waiting s.phase t.writer p
      cases hstep with
      | rests => rfl
      | ends hw hdur => exact congrArg (s.begun.length + ·) (hphase .ended _ hw)
      | names hw hdur hex => exact absurd hlater.1 (not_le.mpr hdur)
      | begins r hw =>
          have hsum := hphase (.posting r) _ hw
          simp only [WriterPhase.waiting] at hsum
          dsimp only
          rw [List.length_append, List.length_singleton]
          omega
      | dies r hw => exact congrArg (s.begun.length + ·) (hphase (.died r) _ hw)
      | answers r hw st => exact congrArg (s.begun.length + ·) (hphase (.answered r st) _ hw)
      | finishes r st hw => exact congrArg (s.begun.length + ·) (hphase .looping _ hw)

/-- What the counters hold at the end of a run. -/
structure WritersAccount (dur : ℤ) (tag : String) (turns : List (WriterTurn W))
    (s : Writers W) : Prop where
  inflight : s.stats.inflight =
    sumOver WriterPhase.inFlight s.phase + sumOver WriterPhase.lost s.phase
  begun : s.stats.ok + (Dict.values s.stats.err).sum + sumOver WriterPhase.inFlight s.phase +
    sumOver WriterPhase.lost s.phase = s.begun.length
  peak : IsGreatest (valuesOf (writerTurn dur) (fun s ↦ s.stats.inflight) .start turns)
    s.stats.maxInflight
  bounded : s.stats.maxInflight ≤ W
  vids : (s.begun.map (Request.vid tag)).Nodup

/-- After every interleaving of the steps of the writers, `inflight` is the number of
requests being made and of writers that have died in one; the requests that were begun
are the accepted ones, those that ended otherwise and these; the largest value of
`inflight` is no more than the writers, and no vertex is posted twice. -/
theorem writers_account (dur : ℤ) (tag : String) (turns : List (WriterTurn W)) :
    WritersAccount dur tag turns (writersRun dur turns) := by
  have hcounted := writersCounted_run dur turns
  have hpeak := isGreatest_maxInflight dur turns
  have hsum : sumOver WriterPhase.countedIn (writersRun dur turns).phase =
      sumOver WriterPhase.inFlight (writersRun dur turns).phase +
        sumOver WriterPhase.lost (writersRun dur turns).phase :=
    sumOver_add WriterPhase.inFlight WriterPhase.lost _
  refine ⟨?_, ?_, hpeak, ?_, ?_⟩
  · rw [hcounted.inflight, hsum]
    push_cast
    rfl
  · rw [← hcounted.begun, hsum, add_assoc]
  · obtain ⟨k, -, hk⟩ := hpeak.1
    rw [hk]
    change (writersRun dur (turns.take k)).stats.inflight ≤ W
    rw [(writersCounted_run dur (turns.take k)).inflight]
    exact_mod_cast sumOver_le WriterPhase.countedIn_le_one _
  · have hpairs := List.pairwise_map.mp (writersNamed_run dur turns).nodup
    refine List.pairwise_map.mpr (hpairs.imp fun hne hvid ↦ hne ?_)
    obtain ⟨hwriter, hn⟩ := Request.vid_inj hvid
    rw [hwriter, hn]

def sampleHex : UuidHex := ⟨"0a1b2c", by decide⟩

/-- Two writers; the handler of the first one raises, the request of the other one is
accepted. -/
def diedTurns : List (WriterTurn 2) :=
  [⟨0, 0, sampleHex, none⟩, ⟨0, 0, sampleHex, none⟩, ⟨1, 0, sampleHex, none⟩,
    ⟨1, 0, sampleHex, none⟩, ⟨0, 1, sampleHex, none⟩, ⟨1, 1, sampleHex, some (.code 201)⟩,
    ⟨1, 1, sampleHex, none⟩, ⟨1, 6, sampleHex, none⟩]

/-- `inflight` stays at 1 with no request being made. -/
theorem writers_account_died :
    WritersAccount 5 "t" diedTurns (writersRun 5 diedTurns) ∧
      sumOver WriterPhase.inFlight (writersRun 5 diedTurns).phase = 0 ∧
      sumOver WriterPhase.lost (writersRun 5 diedTurns).phase = 1 ∧
      (writersRun 5 diedTurns).stats.inflight = 1 := by
  have haccount := writers_account 5 "t" diedTurns
  have hflight : sumOver WriterPhase.inFlight (writersRun 5 diedTurns).phase = 0 := by
    decide +kernel
  have hlost : sumOver WriterPhase.lost (writersRun 5 diedTurns).phase = 1 := by
    decide +kernel
  refine ⟨haccount, hflight, hlost, ?_⟩
  rw [haccount.inflight, hflight, hlost]
  rfl

/-- Once the writers are past the end of the writes, no more requests begin than
there are writers. -/
theorem writers_stop (dur : ℤ) (turns later : List (WriterTurn W))
    (hlater : ∀ t ∈ later, dur ≤ t.elapsed) :
    (writersRun dur (turns ++ later)).begun.length ≤ (writersRun dur turns).begun.length + W := by
  have hafter := begun_after_writes (writersRun dur turns) hlater
  have hwaiting : sumOver WriterPhase.waiting (writersRun dur turns).phase ≤ W :=
    sumOver_le (fun p ↦ by cases p <;> simp [WriterPhase.waiting]) _
  rw [writersRun, List.foldl_append]
  rw [writersRun] at hafter hwaiting ⊢
  omega

/-- One writer that was past the clock. -/
theorem writers_stop_one_writer :
    (writersRun 5 ([⟨(0 : Fin 1), 0, sampleHex, none⟩] ++
        [⟨0, 6, sampleHex, none⟩, ⟨0, 7, sampleHex, some (.code 201)⟩, ⟨0, 7, sampleHex, none⟩,
          ⟨0, 8, sampleHex, none⟩])).begun.length ≤
      (writersRun 5 [⟨(0 : Fin 1), 0, sampleHex, none⟩]).begun.length + 1 :=
  writers_stop 5 _ _ (by simp; norm_num)

end Steps

end HugeGraphValidation.Faults
