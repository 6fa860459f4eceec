import HugeGraphValidation.Lib.Dict
import HugeGraphValidation.Lib.Threads

/-!
# The posts at a steady rate

The writer of `repro_rate.py` starts a thread for every post.  It counts the post in
under a lock, and the thread notes its answer and counts itself out under the same
lock.  The probes read the counters under the lock too, but the summary reads them
without it, one after the other.
-/

namespace HugeGraphValidation.Faults

open Lib

inductive RateWriter where
  | looping
  /-- past the clock, in front of the lock -/
  | cleared
  /-- behind `inflight += 1` -/
  | counting
  | ended
  deriving DecidableEq

structure Rate where
  sent : ℕ
  inflight : ℤ
  done : List (ℕ × ℚ × String)
  writer : RateWriter
  /-- the posts without an answer -/
  flying : List ℕ
  /-- the post behind its `done.append` -/
  closing : Option ℕ

/-- A step of the writer, or of a post. -/
inductive RateStep where
  | clock (elapsed : ℚ)
  | count
  | send
  | append (i : ℕ) (dt : ℚ) (st : String)
  | uncount

namespace Rate

def start : Rate := ⟨0, 0, [], .looping, [], none⟩

def locked (s : Rate) : Bool := s.writer = .counting || s.closing.isSome

/-- A step that is not due, or has to wait for the lock, changes nothing. -/
def step (ws : ℤ) (s : Rate) : RateStep → Rate
  | .clock elapsed =>
      if s.writer = .looping then
        { s with writer := if elapsed < ws then .cleared else .ended }
      else s
  | .count =>
      if s.writer = .cleared ∧ s.locked = false then
        { s with inflight := s.inflight + 1, writer := .counting }
      else s
  | .send =>
      if s.writer = .counting then
        { s with sent := s.sent + 1, writer := .looping, flying := s.flying ++ [s.sent] }
      else s
  | .append i dt st =>
      if i ∈ s.flying ∧ s.locked = false then
        { s with
          done := s.done ++ [(i, dt, st)]
          flying := s.flying.erase i
          closing := some i }
      else s
  | .uncount =>
      match s.closing with
      | none => s
      | some _ => { s with inflight := s.inflight - 1, closing := none }

def run (ws : ℤ) (steps : List RateStep) : Rate := steps.foldl (step ws) start

end Rate

/-- `for _, _, s in done: sts[s] = sts.get(s, 0) + 1` -/
def statuses (done : List (ℕ × ℚ × String)) : List (String × ℕ) :=
  done.foldl (fun sts d ↦ Dict.count d.2.2 sts) []

/-- The counters of the summary; nothing where no post has ended, since `None` has no
decimals. -/
structure RateSummary where
  sent : ℕ
  finished : ℕ
  stillInflight : ℤ
  statuses : List (String × ℕ)
  deriving DecidableEq

/-- The lock is held in `locked`, and the three counters are read in the other states. -/
def rateSummary (locked sent finished inflight : Rate) : Option RateSummary :=
  if locked.done = [] then none
  else some ⟨sent.sent, finished.done.length, inflight.inflight, statuses locked.done⟩

namespace Rate

theorem locked_eq_false_iff {s : Rate} :
    s.locked = false ↔ s.writer ≠ .counting ∧ s.closing = none := by
  simp [locked]

/-- What a step changes. -/
inductive Moved (ws : ℤ) (s : Rate) : Rate → Prop where
  | rests : Moved ws s s
  | clears (h : s.writer = .looping) : Moved ws s { s with writer := .cleared }
  | ends (h : s.writer = .looping) : Moved ws s { s with writer := .ended }
  | counts (h : s.writer = .cleared) (hfree : s.locked = false) :
      Moved ws s { s with inflight := s.inflight + 1, writer := .counting }
  | sends (h : s.writer = .counting) :
      Moved ws s { s with sent := s.sent + 1, writer := .looping, flying := s.flying ++ [s.sent] }
  | appends (i : ℕ) (dt : ℚ) (st : String) (hi : i ∈ s.flying) (hfree : s.locked = false) :
      Moved ws s
        { s with done := s.done ++ [(i, dt, st)], flying := s.flying.erase i, closing := some i }
  | uncounts (i : ℕ) (h : s.closing = some i) :
      Moved ws s { s with inflight := s.inflight - 1, closing := none }

theorem moved (ws : ℤ) (s : Rate) (e : RateStep) : Moved ws s (s.step ws e) := by
  cases e with
  | clock elapsed =>
      by_cases hwriter : s.writer = .looping
      · by_cases hclock : elapsed < ws
        · simpa [step, hwriter, hclock] using Moved.clears hwriter
        · simpa [step, hwriter, hclock] using Moved.ends hwriter
      · simpa [step, hwriter] using Moved.rests
  | count =>
      by_cases hcount : s.writer = .cleared ∧ s.locked = false
      · rw [step, if_pos hcount]
        exact .counts hcount.1 hcount.2
      · rw [step, if_neg hcount]
        exact .rests
  | send =>
      by_cases hsend : s.writer = .counting
      · rw [step, if_pos hsend]
        exact .sends hsend
      · rw [step, if_neg hsend]
        exact .rests
  | append i dt st =>
      by_cases happend : i ∈ s.flying ∧ s.locked = false
      · rw [step, if_pos happend]
        exact .appends i dt st happend.1 happend.2
      · rw [step, if_neg happend]
        exact .rests
  | uncount =>
      cases hclosing : s.closing with
      | none => simpa [step, hclosing] using Moved.rests
      | some i => simpa [step, hclosing] using Moved.uncounts i hclosing

/-! ## The account of the posts -/

/-- Every post that was sent is in flight or has noted its answer; whoever is inside
the lock is alone, and is counted as in flight. -/
structure Accounted (s : Rate) : Prop where
  alone : s.writer = .counting → s.closing = none
  inflight : s.inflight = s.flying.length + if s.locked then 1 else 0
  posts : (s.done.map Prod.fst ++ s.flying).Perm (List.range s.sent)

theorem Accounted.length {s : Rate} (h : Accounted s) :
    s.done.length + s.flying.length = s.sent := by
  have hlength := h.posts.length_eq
  rwa [List.length_append, List.length_map, List.length_range] at hlength

theorem Accounted.step {s s' : Rate} {ws : ℤ} (hmoved : Moved ws s s') (h : Accounted s) :
    Accounted s' := by
  obtain ⟨halone, hinflight, hposts⟩ := h
  cases hmoved with
  | rests => exact ⟨halone, hinflight, hposts⟩
  | clears hwriter =>
      refine ⟨fun h ↦ (by cases h), ?_, hposts⟩
      rw [hinflight]
      simp [locked, hwriter]
  | ends hwriter =>
      refine ⟨fun h ↦ (by cases h), ?_, hposts⟩
      rw [hinflight]
      simp [locked, hwriter]
  | counts hwriter hfree =>
      refine ⟨fun _ ↦ (locked_eq_false_iff.mp hfree).2, ?_, hposts⟩
      dsimp only
      rw [hinflight, hfree]
      simp [locked]
  | sends hwriter =>
      refine ⟨fun h ↦ (by cases h), ?_, ?_⟩
      · simp [hinflight, hwriter, halone hwriter, locked]
      · dsimp only
        rw [List.range_succ, ← List.append_assoc]
        exact hposts.append_right [s.sent]
  | appends i dt st hi hfree =>
      refine ⟨fun h ↦ absurd h (locked_eq_false_iff.mp hfree).1, ?_, ?_⟩
      · have hlength := List.length_erase_add_one hi
        rw [hinflight, hfree, ← hlength]
        simp [locked]
      · dsimp only
        refine List.Perm.trans ?_ hposts
        rw [List.map_append, List.append_assoc]
        exact (List.perm_cons_erase hi).symm.append_left _
  | uncounts i hclosing =>
      have hwriter : s.writer ≠ .counting := by
        intro hwriter
        rw [halone hwriter] at hclosing
        cases hclosing
      refine ⟨fun h ↦ absurd h hwriter, ?_, hposts⟩
      simp [hinflight, locked, hclosing, hwriter]

theorem accounted_run (ws : ℤ) (steps : List RateStep) : Accounted (run ws steps) :=
  foldl_invariant (fun s e h ↦ h.step (moved ws s e))
    ⟨fun h ↦ (by cases h), rfl, List.Perm.refl _⟩ steps

/-- Who holds the lock and changes nothing reads counters that add up. -/
theorem Accounted.read_locked {s : Rate} (h : Accounted s) (hfree : s.locked = false) :
    (s.done.length : ℤ) + s.inflight = s.sent := by
  have hlength := h.length
  rw [h.inflight, hfree]
  push_cast [← hlength]
  simp

end Rate

theorem sum_statuses (done : List (ℕ × ℚ × String)) :
    (Dict.values (statuses done)).sum = done.length := by
  have hhistogram : statuses done = Dict.histogram (done.map fun d ↦ d.2.2) := by
    rw [statuses, Dict.histogram, List.foldl_map]
  rw [hhistogram, Dict.sum_values_histogram, List.length_map]

theorem done_prefix (ws : ℤ) (s : Rate) (steps : List RateStep) :
    s.done <+: (steps.foldl (Rate.step ws) s).done := by
  induction steps generalizing s with
  | nil => exact List.prefix_refl _
  | cons e steps ih =>
      refine List.IsPrefix.trans ?_ (ih (s.step ws e))
      have hmoved := Rate.moved ws s e
      generalize s.step ws e = s' at hmoved
      cases hmoved with
      | appends i dt st hi hfree => exact List.prefix_append _ _
      | _ => exact List.prefix_refl _

/-- Under the lock the counters add up.  The summary comes after any steps of the
threads, with more steps between its four readings: the posts are numbered once each;
the statuses are those of the posts that had ended at the first reading, and no more
than the finished ones; and the finished posts and those in flight make up the sent
ones but for the posts that were sent or ended between the readings, and for one whose
thread is inside the lock at the last. -/
theorem rate_summary (ws : ℤ) (before sending finishing flying : List RateStep)
    {r : RateSummary}
    (hr : rateSummary (Rate.run ws before) (Rate.run ws (before ++ sending))
      (Rate.run ws (before ++ sending ++ finishing))
      (Rate.run ws (before ++ sending ++ finishing ++ flying)) = some r) :
    (∀ steps, (Rate.run ws steps).locked = false →
      ((Rate.run ws steps).done.length : ℤ) + (Rate.run ws steps).inflight =
        (Rate.run ws steps).sent) ∧
    let last := Rate.run ws (before ++ sending ++ finishing ++ flying)
    (last.done.map Prod.fst).Nodup ∧
      (Dict.values r.statuses).sum = (Rate.run ws before).done.length ∧
      (Dict.values r.statuses).sum ≤ r.finished ∧
      (r.finished + r.stillInflight - r.sent : ℤ) =
        (last.sent - r.sent) - (last.done.length - r.finished) + if last.locked then 1 else 0 := by
  refine ⟨fun steps ↦ (Rate.accounted_run ws steps).read_locked, ?_⟩
  intro last
  have hlast := Rate.accounted_run ws (before ++ sending ++ finishing ++ flying)
  unfold rateSummary at hr
  split_ifs at hr
  obtain rfl := Option.some.inj hr
  refine ⟨?_, sum_statuses _, ?_, ?_⟩
  · have hnodup := hlast.posts.nodup_iff.mpr List.nodup_range
    exact hnodup.of_append_left
  · have hprefix := done_prefix ws (Rate.run ws before) (sending ++ finishing)
    rw [Rate.run, ← List.foldl_append, ← Rate.run, ← Rate.run, ← List.append_assoc] at hprefix
    dsimp only
    rw [sum_statuses]
    exact hprefix.length_le
  · have hlength : (last.done.length : ℤ) + last.flying.length = last.sent := by
      exact_mod_cast hlast.length
    have hinflight : last.inflight = last.flying.length + if last.locked then 1 else 0 :=
      hlast.inflight
    change ((Rate.run ws (before ++ sending ++ finishing)).done.length : ℤ) + last.inflight -
      (Rate.run ws (before ++ sending)).sent =
      (last.sent - (Rate.run ws (before ++ sending)).sent) -
        (last.done.length - (Rate.run ws (before ++ sending ++ finishing)).done.length) +
          if last.locked then 1 else 0
    linarith

/-- The second post ends between the readings of the finished posts and of those in
flight, and is missing from both. -/
theorem rate_summary_two_posts :
    let first : List RateStep := [.clock 0, .count, .send, .append 0 1 "201", .uncount]
    let second : List RateStep := [.clock 1, .count, .send]
    let last := Rate.run 10 (first ++ second ++ [] ++ [.append 1 1 "201", .uncount])
    ((1 : ℤ) + 0 - 2 =
      (last.sent - 2) - (last.done.length - 1) + if last.locked then 1 else 0) := by
  intro first second last
  have h := rate_summary 10 first second [] [.append 1 1 "201", .uncount]
    (r := ⟨2, 1, 0, [("201", 1)]⟩) (by decide)
  exact h.2.2.2.2

end HugeGraphValidation.Faults
