import Mathlib

/-!
# Workers that take jobs from a shared source

Each worker takes a job under a lock, posts it, and records the answer under the
lock; it ends when the source has no more jobs, and it dies of a post that raises.
A schedule lists whose turn is next.  Whatever the schedule, no job of the source is
posted twice, and where no worker dies each is posted once and recorded once.
-/

namespace HugeGraphValidation.Lib

variable {σ α ρ : Type*} {T : ℕ}

inductive Phase (α ρ : Type*) where
  | idle
  | holding (job : α)
  | answered (job : α) (answer : ρ)
  | ended
  /-- the post of the job has raised, which ends the worker -/
  | died (job : α)
  deriving DecidableEq

def Phase.over : Phase α ρ → Bool
  | ended => true
  | died _ => true
  | _ => false

/-- The source, what each worker does, the jobs in the order they were posted,
and the answers in the order they were recorded. -/
structure Crew (T : ℕ) (σ α ρ : Type*) where
  source : σ
  phase : Fin T → Phase α ρ
  posted : List α
  recorded : List (α × ρ)

namespace Crew

def init (start : σ) : Crew T σ α ρ := ⟨start, fun _ ↦ .idle, [], []⟩

end Crew

section Turns

variable (take : σ → Option (α × σ)) (answer : List α → α → Option ρ)

/-- One turn of worker `w`; `answer` may depend on everything posted before, and there
is none where the post raises. -/
def turn (s : Crew T σ α ρ) (w : Fin T) : Crew T σ α ρ :=
  match s.phase w with
  | .idle =>
      match take s.source with
      | none => ⟨s.source, Function.update s.phase w .ended, s.posted, s.recorded⟩
      | some (job, source) =>
          ⟨source, Function.update s.phase w (.holding job), s.posted, s.recorded⟩
  | .holding job =>
      match answer s.posted job with
      | none => ⟨s.source, Function.update s.phase w (.died job), s.posted ++ [job], s.recorded⟩
      | some r =>
          ⟨s.source, Function.update s.phase w (.answered job r), s.posted ++ [job], s.recorded⟩
  | .answered job r =>
      ⟨s.source, Function.update s.phase w .idle, s.posted, s.recorded ++ [(job, r)]⟩
  | .ended => s
  | .died _ => s

def work (start : σ) (schedule : List (Fin T)) : Crew T σ α ρ :=
  schedule.foldl (turn take answer) (Crew.init start)

/-- `jobs` are the next jobs of the source, and `s'` is what they leave of it. -/
def Draws : σ → List α → σ → Prop
  | s, [], s' => s = s'
  | s, job :: jobs, s' => ∃ t, take s = some (job, t) ∧ Draws t jobs s'

def DrawsAll (s : σ) (jobs : List α) : Prop := ∃ s', Draws take s jobs s' ∧ take s' = none

end Turns

def Crew.Finished (s : Crew T σ α ρ) : Prop := ∀ w, s.phase w = .ended

instance [DecidableEq α] [DecidableEq ρ] (s : Crew T σ α ρ) : Decidable s.Finished :=
  inferInstanceAs (Decidable (∀ w, s.phase w = .ended))

/-- Every worker has ended or died. -/
def Crew.Over (s : Crew T σ α ρ) : Prop := ∀ w, (s.phase w).over = true

instance (s : Crew T σ α ρ) : Decidable s.Over :=
  inferInstanceAs (Decidable (∀ w, (s.phase w).over = true))

def Crew.HasDied (s : Crew T σ α ρ) : Prop := ∃ w job, s.phase w = .died job

theorem Crew.finished_iff {s : Crew T σ α ρ} : s.Finished ↔ s.Over ∧ ¬ s.HasDied := by
  constructor
  · intro h
    refine ⟨fun w ↦ by rw [h w]; rfl, ?_⟩
    rintro ⟨w, job, hdied⟩
    rw [h w] at hdied
    cases hdied
  · rintro ⟨hover, hdied⟩ w
    have hw := hover w
    cases hphase : s.phase w with
    | ended => rfl
    | died job => exact absurd ⟨w, job, hphase⟩ hdied
    | idle => rw [hphase] at hw; cases hw
    | holding job => rw [hphase] at hw; cases hw
    | answered job r => rw [hphase] at hw; cases hw

section Draws

variable {take : σ → Option (α × σ)}

theorem Draws.concat {s s' t : σ} {jobs : List α} {job : α} (h : Draws take s jobs s')
    (hjob : take s' = some (job, t)) : Draws take s (jobs ++ [job]) t := by
  induction jobs generalizing s with
  | nil =>
      obtain rfl : s = s' := h
      exact ⟨t, hjob, rfl⟩
  | cons _ jobs ih =>
      obtain ⟨u, hfirst, hrest⟩ := h
      exact ⟨u, hfirst, ih hrest⟩

theorem Draws.eq_append {s s' : σ} {taken jobs : List α} (h : Draws take s taken s')
    (hall : DrawsAll take s jobs) : ∃ rest, jobs = taken ++ rest ∧ DrawsAll take s' rest := by
  induction taken generalizing s jobs with
  | nil =>
      obtain rfl : s = s' := h
      exact ⟨jobs, rfl, hall⟩
  | cons job taken ih =>
      obtain ⟨t, hfirst, hrest⟩ := h
      obtain ⟨e, hdraws, hend⟩ := hall
      cases jobs with
      | nil =>
          obtain rfl : s = e := hdraws
          rw [hfirst] at hend
          cases hend
      | cons job' jobs =>
          obtain ⟨t', hfirst', hrest'⟩ := hdraws
          rw [hfirst] at hfirst'
          obtain ⟨rfl, rfl⟩ := Prod.mk.inj (Option.some.inj hfirst')
          obtain ⟨rest, rfl, hrest''⟩ := ih hrest ⟨e, hrest', hend⟩
          exact ⟨rest, rfl, hrest''⟩

theorem DrawsAll.eq_nil {s : σ} {jobs : List α} (h : DrawsAll take s jobs)
    (hend : take s = none) : jobs = [] := by
  obtain ⟨e, hdraws, -⟩ := h
  cases jobs with
  | nil => rfl
  | cons job jobs =>
      obtain ⟨t, hfirst, -⟩ := hdraws
      rw [hend] at hfirst
      cases hfirst

end Draws

/-- Take the job at a shared index, and move the index on. -/
def takeNext (jobs : List α) (i : ℕ) : Option (α × ℕ) := jobs[i]?.map fun job ↦ (job, i + 1)

theorem drawsAll_takeNext_from (done jobs : List α) :
    DrawsAll (takeNext (done ++ jobs)) done.length jobs := by
  induction jobs generalizing done with
  | nil => exact ⟨done.length, rfl, by simp [takeNext]⟩
  | cons job jobs ih =>
      have hjob : takeNext (done ++ job :: jobs) done.length = some (job, done.length + 1) := by
        simp [takeNext]
      have hrest := ih (done ++ [job])
      rw [List.append_assoc, List.singleton_append, List.length_append,
        List.length_singleton] at hrest
      obtain ⟨e, hdraws, hend⟩ := hrest
      exact ⟨e, ⟨_, hjob, hdraws⟩, hend⟩

theorem drawsAll_takeNext (jobs : List α) : DrawsAll (takeNext jobs) 0 jobs :=
  drawsAll_takeNext_from [] jobs

/-! ## The account of the jobs -/

/-- The job that a worker holds and has not posted. -/
def Phase.unposted : Phase α ρ → Multiset α
  | holding job => {job}
  | _ => 0

/-- The job that a worker has posted and has not recorded, or never will. -/
def Phase.unrecorded : Phase α ρ → Multiset α
  | answered job _ => {job}
  | died job => {job}
  | _ => 0

/-- How many turns are left to a worker before it takes again or ends. -/
def Phase.turnsLeft : Phase α ρ → ℕ
  | idle => 1
  | holding _ => 3
  | answered _ _ => 2
  | ended => 0
  | died _ => 0

def tally {M : Type*} [AddCommMonoid M] (g : Phase α ρ → M) (phase : Fin T → Phase α ρ) : M :=
  ∑ w, g (phase w)

/-- A sum over the workers when one of them goes on to another phase. -/
theorem tally_update {M : Type*} [AddCommMonoid M] (g : Phase α ρ → M)
    {phase : Fin T → Phase α ρ} {w : Fin T} {q : Phase α ρ} (hq : phase w = q) (p : Phase α ρ)
    {a b : M} (ha : g q = a) (hb : g p = b) :
    tally g (Function.update phase w p) + a = tally g phase + b := by
  have hrest : ∑ w' ∈ Finset.univ.erase w, g (Function.update phase w p w') =
      ∑ w' ∈ Finset.univ.erase w, g (phase w') := by
    apply Finset.sum_congr rfl
    intro w' hw'
    rw [Function.update_of_ne (Finset.ne_of_mem_erase hw')]
  rw [tally, tally, ← Finset.add_sum_erase _ _ (Finset.mem_univ w),
    ← Finset.add_sum_erase _ (fun w' ↦ g (phase w')) (Finset.mem_univ w), hrest,
    Function.update_self, hq, ha, hb]
  abel

theorem tally_of_finished {M : Type*} [AddCommMonoid M] {g : Phase α ρ → M} (hg : g .ended = 0)
    {s : Crew T σ α ρ} (h : s.Finished) : tally g s.phase = 0 := by
  apply Finset.sum_eq_zero
  intro w _
  rw [h w, hg]

/-- Every job drawn from the source has been posted or is held by a worker, and
every posted job has been recorded or is in the hands of a worker. -/
structure Accounted (take : σ → Option (α × σ)) (start : σ) (taken : List α)
    (s : Crew T σ α ρ) : Prop where
  draws : Draws take start taken s.source
  posted : (s.posted : Multiset α) + tally Phase.unposted s.phase = taken
  recorded : ((s.recorded.map Prod.fst : List α) : Multiset α) + tally Phase.unrecorded s.phase =
    s.posted
  ended : ∀ w, s.phase w = .ended → take s.source = none

section Account

variable {take : σ → Option (α × σ)} {answer : List α → α → Option ρ} {start : σ}

theorem accounted_init : Accounted take start [] (Crew.init start : Crew T σ α ρ) where
  draws := rfl
  posted := by simp [Crew.init, tally, Phase.unposted]
  recorded := by simp [Crew.init, tally, Phase.unrecorded]
  ended := by simp [Crew.init]

/-- What a turn does, by the phase of the worker. -/
inductive Turned (take : σ → Option (α × σ)) (answer : List α → α → Option ρ)
    (s : Crew T σ α ρ) (w : Fin T) : Crew T σ α ρ → Prop where
  | rests (h : (s.phase w).over = true) : Turned take answer s w s
  | ends (h : s.phase w = .idle) (hnone : take s.source = none) :
      Turned take answer s w ⟨s.source, Function.update s.phase w .ended, s.posted, s.recorded⟩
  | takes (h : s.phase w = .idle) (job : α) (source : σ)
      (hjob : take s.source = some (job, source)) :
      Turned take answer s w
        ⟨source, Function.update s.phase w (.holding job), s.posted, s.recorded⟩
  | posts (job : α) (r : ρ) (h : s.phase w = .holding job)
      (hanswer : answer s.posted job = some r) :
      Turned take answer s w
        ⟨s.source, Function.update s.phase w (.answered job r), s.posted ++ [job], s.recorded⟩
  | dies (job : α) (h : s.phase w = .holding job) (hraised : answer s.posted job = none) :
      Turned take answer s w
        ⟨s.source, Function.update s.phase w (.died job), s.posted ++ [job], s.recorded⟩
  | records (job : α) (r : ρ) (h : s.phase w = .answered job r) :
      Turned take answer s w
        ⟨s.source, Function.update s.phase w .idle, s.posted, s.recorded ++ [(job, r)]⟩

theorem turned (take : σ → Option (α × σ)) (answer : List α → α → Option ρ)
    (s : Crew T σ α ρ) (w : Fin T) : Turned take answer s w (turn take answer s w) := by
  unfold turn
  cases hphase : s.phase w with
  | idle =>
      cases htake : take s.source with
      | none => exact .ends hphase htake
      | some next => exact .takes hphase next.1 next.2 htake
  | holding job =>
      cases hanswer : answer s.posted job with
      | none => simpa [hanswer] using Turned.dies job hphase hanswer
      | some r => simpa [hanswer] using Turned.posts job r hphase hanswer
  | answered job r => exact .records job r hphase
  | ended => exact .rests (by rw [hphase]; rfl)
  | died job => exact .rests (by rw [hphase]; rfl)

theorem update_phase_cases {phase : Fin T → Phase α ρ} {w w' : Fin T} {p q : Phase α ρ}
    (h : Function.update phase w p w' = q) : p = q ∨ phase w' = q := by
  by_cases hw : w' = w
  · subst hw
    rw [Function.update_self] at h
    exact Or.inl h
  · rw [Function.update_of_ne hw] at h
    exact Or.inr h

theorem coe_concat (jobs : List α) (job : α) :
    ((jobs ++ [job] : List α) : Multiset α) = jobs + {job} := rfl

/-- The account after a job is posted, whatever comes back. -/
theorem Accounted.posts {taken : List α} {s : Crew T σ α ρ} {w : Fin T} {job : α}
    (h : Accounted take start taken s) (hphase : s.phase w = .holding job) (p : Phase α ρ)
    (hunposted : p.unposted = 0) (hunrecorded : p.unrecorded = {job}) (hne : p ≠ .ended) :
    Accounted take start taken
      ⟨s.source, Function.update s.phase w p, s.posted ++ [job], s.recorded⟩ := by
  have hleft := tally_update Phase.unposted hphase p (a := {job}) (b := 0) rfl hunposted
  have hheld := tally_update Phase.unrecorded hphase p (a := 0) (b := {job}) rfl hunrecorded
  rw [add_zero] at hleft hheld
  refine ⟨h.draws, ?_, ?_, ?_⟩
  · rw [coe_concat, add_assoc, add_comm ({job} : Multiset α), hleft, h.posted]
  · rw [coe_concat, hheld, ← add_assoc, h.recorded]
  · intro w' hw'
    rcases update_phase_cases hw' with hp | hp
    · exact absurd hp hne
    · exact h.ended w' hp

theorem Accounted.turn {taken : List α} {s s' : Crew T σ α ρ} {w : Fin T}
    (h : Accounted take start taken s) (hturn : Turned take answer s w s') :
    ∃ taken', Accounted take start taken' s' := by
  cases hturn with
  | rests _ => exact ⟨taken, h⟩
  | ends hphase hnone =>
      have hunposted := tally_update Phase.unposted hphase .ended (a := 0) (b := 0) rfl rfl
      have hunrecorded := tally_update Phase.unrecorded hphase .ended (a := 0) (b := 0) rfl rfl
      rw [add_zero, add_zero] at hunposted hunrecorded
      refine ⟨taken, h.draws, ?_, ?_, fun _ _ ↦ hnone⟩
      · rw [hunposted, h.posted]
      · rw [hunrecorded, h.recorded]
  | takes hphase job source hjob =>
      have hunposted := tally_update Phase.unposted hphase
        (.holding job) (a := 0) (b := {job}) rfl rfl
      have hunrecorded := tally_update Phase.unrecorded hphase
        (.holding job) (a := 0) (b := 0) rfl rfl
      rw [add_zero] at hunposted
      rw [add_zero, add_zero] at hunrecorded
      refine ⟨taken ++ [job], h.draws.concat hjob, ?_, ?_, ?_⟩
      · rw [coe_concat, ← h.posted, hunposted, add_assoc]
      · rw [hunrecorded, h.recorded]
      · intro w' hw'
        rcases update_phase_cases hw' with hp | hp
        · cases hp
        · have hnone := h.ended w' hp
          rw [hjob] at hnone
          cases hnone
  | posts job r hphase hanswer =>
      exact ⟨taken, h.posts hphase (.answered job r) rfl rfl fun hp ↦ by cases hp⟩
  | dies job hphase hraised =>
      exact ⟨taken, h.posts hphase (.died job) rfl rfl fun hp ↦ by cases hp⟩
  | records job r hphase =>
      have hunposted := tally_update Phase.unposted hphase .idle (a := 0) (b := 0) rfl rfl
      have hunrecorded := tally_update Phase.unrecorded hphase .idle (a := {job}) (b := 0) rfl rfl
      rw [add_zero, add_zero] at hunposted
      rw [add_zero] at hunrecorded
      refine ⟨taken, h.draws, ?_, ?_, ?_⟩
      · rw [hunposted, h.posted]
      · rw [List.map_append, List.map_singleton, coe_concat, add_assoc,
          add_comm ({job} : Multiset α), hunrecorded, h.recorded]
      · intro w' hw'
        rcases update_phase_cases hw' with hp | hp
        · cases hp
        · exact h.ended w' hp

theorem accounted_work (take : σ → Option (α × σ)) (answer : List α → α → Option ρ)
    (start : σ) (schedule : List (Fin T)) :
    ∃ taken, Accounted take start taken (work take answer start schedule) := by
  induction schedule using List.reverseRecOn with
  | nil => exact ⟨[], accounted_init⟩
  | append_singleton schedule w ih =>
      obtain ⟨taken, h⟩ := ih
      rw [work, List.foldl_append]
      exact h.turn (turned take answer _ w)

/-- At any time the jobs that the workers have been given are the first ones of
the source, each given once. -/
theorem work_given {jobs : List α} (hall : DrawsAll take start jobs) (schedule : List (Fin T)) :
    ∃ taken, taken <+: jobs ∧ ((work take answer start schedule).posted : Multiset α) +
      tally Phase.unposted (work take answer start schedule).phase = taken := by
  obtain ⟨taken, h⟩ := accounted_work take answer start schedule
  obtain ⟨rest, rfl, -⟩ := h.draws.eq_append hall
  exact ⟨taken, List.prefix_append taken rest, h.posted⟩

theorem Accounted.perm_of_finished {taken jobs : List α} {s : Crew T σ α ρ}
    (h : Accounted take start taken s) (hall : DrawsAll take start jobs) (w : Fin T)
    (hfinished : s.Finished) : s.posted.Perm jobs ∧ (s.recorded.map Prod.fst).Perm jobs := by
  obtain ⟨rest, rfl, hrest⟩ := h.draws.eq_append hall
  obtain rfl := hrest.eq_nil (h.ended w (hfinished w))
  have hunposted : tally Phase.unposted s.phase = 0 := tally_of_finished rfl hfinished
  have hunrecorded : tally Phase.unrecorded s.phase = 0 := tally_of_finished rfl hfinished
  have hposted := h.posted
  have hrecorded := h.recorded
  rw [hunposted, add_zero] at hposted
  rw [hunrecorded, add_zero, hposted] at hrecorded
  rw [List.append_nil]
  exact ⟨Multiset.coe_eq_coe.mp hposted, Multiset.coe_eq_coe.mp hrecorded⟩

theorem work_perm {jobs : List α} (hT : 1 ≤ T) (hall : DrawsAll take start jobs)
    {schedule : List (Fin T)} (hfinished : (work take answer start schedule).Finished) :
    (work take answer start schedule).posted.Perm jobs ∧
      ((work take answer start schedule).recorded.map Prod.fst).Perm jobs := by
  obtain ⟨taken, h⟩ := accounted_work take answer start schedule
  exact h.perm_of_finished hall ⟨0, hT⟩ hfinished

/-- The jobs that were posted are some of the source's, each once. -/
theorem work_subperm {jobs : List α} (hall : DrawsAll take start jobs)
    (schedule : List (Fin T)) : (work take answer start schedule).posted.Subperm jobs := by
  obtain ⟨taken, h⟩ := accounted_work take answer start schedule
  obtain ⟨rest, rfl, -⟩ := h.draws.eq_append hall
  have hle : ((work take answer start schedule).posted : Multiset α) ≤ taken := by
    rw [← h.posted]
    exact Multiset.le_add_right _ _
  exact (Multiset.coe_le.mp hle).trans (List.sublist_append_left taken rest).subperm

/-- The job that a worker has died of is missing among the recorded ones. -/
theorem work_died {jobs : List α} (hall : DrawsAll take start jobs) {schedule : List (Fin T)}
    {w : Fin T} {job : α} (hdied : (work take answer start schedule).phase w = .died job) :
    (job :: (work take answer start schedule).recorded.map Prod.fst).Subperm jobs := by
  obtain ⟨taken, h⟩ := accounted_work take answer start schedule
  have hone : ({job} : Multiset α) ≤
      tally Phase.unrecorded (work take answer start schedule).phase := by
    have hterm : ((work take answer start schedule).phase w).unrecorded ≤
        tally Phase.unrecorded (work take answer start schedule).phase :=
      Finset.single_le_sum (f := fun w ↦
        ((work take answer start schedule).phase w).unrecorded)
        (fun _ _ ↦ Multiset.zero_le _) (Finset.mem_univ w)
    rw [hdied] at hterm
    exact hterm
  have hle : ((job :: (work take answer start schedule).recorded.map Prod.fst : List α) :
      Multiset α) ≤ (work take answer start schedule).posted := by
    rw [← h.recorded, ← Multiset.cons_coe, ← Multiset.singleton_add, add_comm]
    exact (add_le_add_iff_left _).mpr hone
  exact (Multiset.coe_le.mp hle).trans (work_subperm hall schedule)

theorem hasDied_update {s : Crew T σ α ρ} {w : Fin T} (hw : ∀ job, s.phase w ≠ .died job)
    {p : Phase α ρ} (hp : ∀ job, p ≠ .died job) (source : σ) (posted : List α)
    (recorded : List (α × ρ)) :
    (⟨source, Function.update s.phase w p, posted, recorded⟩ : Crew T σ α ρ).HasDied ↔
      s.HasDied := by
  refine exists_congr fun w' ↦ exists_congr fun job ↦ ?_
  dsimp only
  by_cases hsame : w' = w
  · subst hsame
    exact iff_of_false (by rw [Function.update_self]; exact hp job) (hw job)
  · rw [Function.update_of_ne hsame]

/-- A worker has died exactly when one of the posts that were made has raised. -/
theorem hasDied_iff (schedule : List (Fin T)) :
    (work take answer start schedule).HasDied ↔
      ∃ sent job, sent ++ [job] <+: (work take answer start schedule).posted ∧
        answer sent job = none := by
  induction schedule using List.reverseRecOn with
  | nil =>
      refine iff_of_false ?_ ?_
      · rintro ⟨w, job, hdied⟩
        cases hdied
      · rintro ⟨sent, job, hprefix, -⟩
        simpa using hprefix.length_le.trans_eq (rfl : ([] : List α).length = 0)
  | append_singleton schedule w ih =>
      have hstep : work take answer start (schedule ++ [w]) =
          turn take answer (work take answer start schedule) w := List.foldl_append
      have hturn := turned take answer (work take answer start schedule) w
      rw [hstep]
      generalize work take answer start schedule = s at hturn ih
      generalize turn take answer s w = s' at hturn
      have hne : ∀ {q : Phase α ρ}, s.phase w = q → (∀ job, q ≠ .died job) →
          ∀ job, s.phase w ≠ .died job := by
        rintro _ rfl hq
        exact hq
      cases hturn with
      | rests _ => exact ih
      | ends hphase _ => rw [hasDied_update (hne hphase (by simp)) (by simp), ih]
      | takes hphase job source _ => rw [hasDied_update (hne hphase (by simp)) (by simp), ih]
      | records job r hphase => rw [hasDied_update (hne hphase (by simp)) (by simp), ih]
      | posts job r hphase hanswer =>
          rw [hasDied_update (hne hphase (by simp)) (by simp), ih]
          refine exists_congr fun sent ↦ exists_congr fun job' ↦ and_congr_left fun hraised ↦ ?_
          rw [List.prefix_concat_iff, or_iff_right]
          intro heq
          obtain ⟨rfl, hjob⟩ := List.append_inj' heq rfl
          rw [(List.singleton_inj.mp hjob), hanswer] at hraised
          cases hraised
      | dies job hphase hraised =>
          refine iff_of_true ⟨w, job, Function.update_self w _ s.phase⟩ ?_
          exact ⟨s.posted, job, List.prefix_rfl, hraised⟩

theorem not_hasDied (hanswers : ∀ sent job, (answer sent job).isSome)
    (schedule : List (Fin T)) : ¬ (work take answer start schedule).HasDied := by
  rw [hasDied_iff]
  rintro ⟨sent, job, -, hraised⟩
  rw [← Option.not_isSome_iff_eq_none] at hraised
  exact hraised (hanswers sent job)

/-! ## The end -/

/-- The turns that are left: three for each job of the source, and those of the
jobs in the hands of the workers. -/
def potential (rest : List α) (s : Crew T σ α ρ) : ℕ :=
  3 * rest.length + tally Phase.turnsLeft s.phase

theorem Turned.potential {s s' : Crew T σ α ρ} {w : Fin T} {rest : List α}
    (hturn : Turned take answer s w s') (hrest : DrawsAll take s.source rest) :
    ∃ rest', DrawsAll take s'.source rest' ∧
      ((s.phase w).over = true ∧ s' = s ∧ rest' = rest ∨
        potential rest' s' + 1 ≤ potential rest s) := by
  cases hturn with
  | rests hphase => exact ⟨rest, hrest, Or.inl ⟨hphase, rfl, rfl⟩⟩
  | ends hphase hnone =>
      have hleft := tally_update Phase.turnsLeft hphase .ended (a := 1) (b := 0) rfl rfl
      refine ⟨rest, hrest, Or.inr ?_⟩
      simp only [Lib.potential]
      omega
  | takes hphase job source hjob =>
      have hleft := tally_update Phase.turnsLeft hphase (.holding job) (a := 1) (b := 3) rfl rfl
      obtain ⟨e, hdraws, hend⟩ := hrest
      cases rest with
      | nil =>
          obtain rfl : s.source = e := hdraws
          rw [hjob] at hend
          cases hend
      | cons job' rest =>
          obtain ⟨t, hfirst, hdraws⟩ := hdraws
          rw [hjob] at hfirst
          obtain ⟨rfl, rfl⟩ := Prod.mk.inj (Option.some.inj hfirst)
          refine ⟨rest, ⟨e, hdraws, hend⟩, Or.inr ?_⟩
          simp only [Lib.potential]
          rw [List.length_cons]
          omega
  | posts job r hphase _ =>
      have hleft := tally_update Phase.turnsLeft hphase (.answered job r) (a := 3) (b := 2) rfl rfl
      refine ⟨rest, hrest, Or.inr ?_⟩
      simp only [Lib.potential]
      omega
  | dies job hphase _ =>
      have hleft := tally_update Phase.turnsLeft hphase (.died job) (a := 3) (b := 0) rfl rfl
      refine ⟨rest, hrest, Or.inr ?_⟩
      simp only [Lib.potential]
      omega
  | records job r hphase =>
      have hleft := tally_update Phase.turnsLeft hphase .idle (a := 2) (b := 1) rfl rfl
      refine ⟨rest, hrest, Or.inr ?_⟩
      simp only [Lib.potential]
      omega

theorem Turned.over {s s' : Crew T σ α ρ} {w w' : Fin T} (hturn : Turned take answer s w s')
    (h : (s.phase w').over = true) : (s'.phase w').over = true := by
  have hupdate : ∀ {p q : Phase α ρ}, s.phase w = q → q.over = false →
      (Function.update s.phase w p w').over = true := by
    intro p q hphase hq
    have hw : w' ≠ w := by
      rintro rfl
      rw [hphase, hq] at h
      cases h
    rw [Function.update_of_ne hw, h]
  cases hturn with
  | rests _ => exact h
  | ends hphase _ => exact hupdate hphase rfl
  | takes hphase => exact hupdate hphase rfl
  | posts _ _ hphase => exact hupdate hphase rfl
  | dies _ hphase => exact hupdate hphase rfl
  | records _ _ hphase => exact hupdate hphase rfl

theorem foldl_turn_over {s : Crew T σ α ρ} {w : Fin T} (h : (s.phase w).over = true)
    (schedule : List (Fin T)) :
    ((schedule.foldl (turn take answer) s).phase w).over = true := by
  induction schedule generalizing s with
  | nil => exact h
  | cons w' schedule ih => exact ih ((turned take answer s w').over h)

theorem count_le_potential {s : Crew T σ α ρ} {w : Fin T} {rest : List α}
    (hrest : DrawsAll take s.source rest) (schedule : List (Fin T))
    (hgoes : ((schedule.foldl (turn take answer) s).phase w).over = false) :
    schedule.count w ≤ potential rest s := by
  induction schedule generalizing s rest with
  | nil => exact Nat.zero_le _
  | cons w' schedule ih =>
      obtain ⟨rest', hrest', hcases⟩ := (turned take answer s w').potential hrest
      have hcount := ih hrest' hgoes
      rcases hcases with ⟨hover, hs, rfl⟩ | hless
      · have hw : w' ≠ w := by
          rintro rfl
          exact Bool.false_ne_true (hgoes.symm.trans (foldl_turn_over hover (w' :: schedule)))
        rw [hs] at hcount
        rw [List.count_cons_of_ne hw]
        exact hcount
      · have hcons : (w' :: schedule).count w ≤ schedule.count w + 1 := by
          rw [List.count_cons]
          split
          · exact le_rfl
          · exact Nat.le_succ _
        omega

/-- All workers are over once each has had more turns than the jobs need. -/
theorem work_over {jobs : List α} (hall : DrawsAll take start jobs)
    {schedule : List (Fin T)} (hturns : ∀ w, 3 * jobs.length + T < schedule.count w) :
    (work take answer start schedule).Over := by
  intro w
  by_contra hgoes
  have hcount := count_le_potential hall schedule (Bool.eq_false_iff.mpr hgoes)
  have hinit : potential jobs (Crew.init start : Crew T σ α ρ) = 3 * jobs.length + T := by
    simp [potential, tally, Crew.init, Phase.turnsLeft]
  have hlt := hturns w
  omega

theorem work_finished {jobs : List α} (hall : DrawsAll take start jobs)
    (hanswers : ∀ sent job, (answer sent job).isSome)
    {schedule : List (Fin T)} (hturns : ∀ w, 3 * jobs.length + T < schedule.count w) :
    (work take answer start schedule).Finished :=
  Crew.finished_iff.mpr ⟨work_over hall hturns, not_hasDied hanswers schedule⟩

end Account

end HugeGraphValidation.Lib
