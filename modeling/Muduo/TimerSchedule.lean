import Muduo.Lib.Fifo
import Muduo.TimerCancel

/-!
When callbacks start. A pass starts the callbacks of the timers that are due, and
a timer that repeats is due one interval behind the reading of the clock with
which its last pass began.

* `step_ran`: a step starts no callback, or the first that awaits it;
* `pass_starts_due`: a pass starts what is due, whatever the callbacks do;
* `starts_on_schedule`: in every run a timer starts when its schedule says, and
  not sooner.
-/

namespace Muduo

open Lib
open TimerQueue (Action)

/-- When the timer is due, behind passes with these readings that started it. -/
def Timer.due (t : Timer) (times : List TimeStamp) : TimeStamp :=
  match times.getLast? with
  | some now => now + t.interval
  | none => t.expiration

namespace TimerLoop

/-- The reading of the clock with which the pass has begun. -/
def reading (s : TimerLoop) : Option TimeStamp :=
  match s.phase with
  | .idle => none
  | .calling now _ _ => some now
  | .resetting now _ _ => some now

/-- The reading of the pass, if the step starts the callback of `x`. -/
def startTimes (x : ActiveTimer) (s : TimerLoop) : TimerMove → List TimeStamp
  | .run => if s.awaiting.head? = some x then s.reading.toList else []
  | _ => []

/-! ## The callbacks of a pass -/

/-- The next callback awaits its start no more. -/
theorem run_awaiting {s s' : TimerLoop} (hm : s.Moves .run s') :
    ∃ x, s.awaiting = x :: s'.awaiting ∧ s'.queue.ran = s.queue.ran ++ [x] ∧
      s'.reading = s.reading := by
  cases hm with
  | @ran now expired todo e t hp ht =>
    refine ⟨⟨e.second, t.sequence⟩, ?_, rfl, by simp [reading, hp]⟩
    simp [awaiting, TimerLoop.todo, hp, ht]

/-- The other steps of a pass. -/
theorem quiet_awaiting {s s' : TimerLoop} (h : s.Inv) {m : TimerMove} (hm : s.Moves m s')
    (hrun : m ≠ .run) (hbegin : ∀ now, m ≠ .beginPass now) :
    s'.awaiting = s.awaiting ∧ s'.queue.ran = s.queue.ran := by
  cases m with
  | act a =>
    refine ⟨awaiting_congr (by cases hm <;> rfl)
      fun e he => act_heap h hm (h.suffix.subset he), ?_⟩
    cases hm with
    | added =>
      unfold TimerQueue.added
      split <;> rfl
    | _ => rfl
  | beginPass now => exact absurd rfl (hbegin now)
  | run => exact absurd rfl hrun
  | endCalls =>
    cases hm with
    | endedCalls hp => simp [awaiting, TimerLoop.todo, hp]
  | reset clock =>
    cases hm with
    | restarted next hp =>
      simp [awaiting, TimerLoop.todo, hp, TimerQueue.rearm_eq, TimerQueue.restarted,
        TimerQueue.inserted, TimerQueue.store]
    | deleted next hp =>
      simp [awaiting, TimerLoop.todo, hp, TimerQueue.rearm_eq, TimerQueue.store]
  | endPass =>
    cases hm with
    | endedPass hp => simp [awaiting, TimerLoop.todo, hp]

/-- A step of a pass starts what awaits, in its order. -/
theorem step_ran {s s' : TimerLoop} (h : s.Inv) {m : TimerMove} (hm : s.Moves m s')
    (hbegin : ∀ now, m ≠ .beginPass now) :
    ∃ starts, s'.queue.ran = s.queue.ran ++ starts ∧ starts ++ s'.awaiting = s.awaiting := by
  by_cases hrun : m = .run
  · subst hrun
    obtain ⟨x, hwait, hran, -⟩ := run_awaiting hm
    exact ⟨[x], hran, hwait.symm⟩
  · obtain ⟨hwait, hran⟩ := quiet_awaiting h hm hrun hbegin
    exact ⟨[], by rw [hran, List.append_nil], hwait⟩

/-- What has expired awaits its callback when the pass begins. -/
theorem begin_awaiting {s s' : TimerLoop} (h : s.Inv) {now : TimeStamp}
    (hm : s.Moves (.beginPass now) s') (x : ActiveTimer) :
    x ∈ s'.awaiting ↔ ∃ u, s'.flying x = some u := by
  refine ⟨(step_inv h hm).flying_of_awaiting, ?_⟩
  rintro ⟨u, hu⟩
  obtain ⟨hlookup, e, he, hptr⟩ := flying_eq_some.mp hu
  obtain ⟨hheap, hseq⟩ := TimerQueue.lookup_eq_some.mp hlookup
  have htodo : s'.todo = s'.batch := by cases hm; rfl
  refine List.mem_filterMap.mpr ⟨e.second, List.mem_map_of_mem (htodo ▸ he), ?_⟩
  rw [hptr, hheap, Option.map_some, hseq]

/-- The callbacks await their start in the order of their expirations. -/
theorem begin_sorted {s s' : TimerLoop} (h : s.Inv) {now : TimeStamp}
    (hm : s.Moves (.beginPass now) s') :
    s'.awaiting.Pairwise fun x y => ∀ u v, s.queue.pending x = some u →
      s.queue.pending y = some v → u.expiration ≤ v.expiration := by
  cases hm with
  | @begun _ active hp hcoh hf =>
    have hsorted : (s.queue.expiredEntries now).Pairwise fun e f => e.first ≤ f.first :=
      (Finset.pairwise_sort _ _).imp Entry.first_le
    simp only [awaiting, TimerLoop.todo, List.filterMap_map, Function.comp_def]
    -- an entry carries the expiration of its timer
    have hkey : ∀ e ∈ s.queue.expiredEntries now, ∀ x u,
        (s.queue.heap e.second).map (fun t => (⟨e.second, t.sequence⟩ : ActiveTimer)) = some x →
        s.queue.pending x = some u → u.expiration = e.first := by
      intro e he x u hx hu
      obtain ⟨t, ht, rfl⟩ := Option.map_eq_some_iff.mp hx
      obtain ⟨hlookup, hmem⟩ := h.coherent.pending_eq_some.mp hu
      have hin := ((TimerQueue.mem_expiredEntries h.coherent).mp he).1
      have heq := h.coherent.entry_eq (.inl hin) (TimerQueue.lookup_eq_some.mp hlookup).1
      exact (congrArg Entry.first heq)
    refine List.pairwise_filterMap.mpr ?_
    refine hsorted.imp_of_mem fun he hf hle x hx y hy u v hu hv => ?_
    rw [hkey _ he x u (by simpa using hx) hu, hkey _ hf y v (by simpa using hy) hv]
    exact hle

/-- The callbacks that have been started in the pass, and those that await it. -/
theorem during_ran {s t : TimerLoop} {body : List TimerMove} (h : s.Inv)
    (hphase : s.phase ≠ .idle) (hrun : Run step s body t) (hen : Along step Enabled s body)
    (hno : .endPass ∉ body) :
    t.Inv ∧ ∃ starts, t.queue.ran = s.queue.ran ++ starts ∧ starts ++ t.awaiting = s.awaiting := by
  induction hrun with
  | nil => exact ⟨h, [], by simp, rfl⟩
  | @cons s s' t m body hs hrun ih =>
    have hm := moves_of_step h hen.1 hs
    have hne : m ≠ .endPass := fun heq => hno (heq ▸ List.mem_cons_self ..)
    have hbegin : ∀ now, m ≠ .beginPass now := by
      rintro now rfl
      exact hphase hen.1
    have hphase' : s'.phase ≠ .idle := by
      cases hm with
      | begun => exact absurd rfl (hbegin _)
      | endedPass => exact absurd rfl hne
      | added | canceled | remembered | ignored => exact hphase
      | _ => simp
    obtain ⟨starts, hran, hwait⟩ := step_ran h hm hbegin
    obtain ⟨ht, starts', hran', hwait'⟩ := ih (step_inv h hm) hphase' (hen.2 _ hs)
      fun hmem => hno (List.mem_cons_of_mem m hmem)
    refine ⟨ht, starts ++ starts', ?_, ?_⟩
    · rw [hran', hran, List.append_assoc]
    · rw [List.append_assoc, hwait', hwait]

/-- **A pass.** Whatever timers its callbacks add and cancel, a pass starts the
callback of each timer that is due at its beginning once, in the order of their
expirations, and no other. -/
theorem pass_starts_due (before body after : List TimerMove) (now : TimeStamp)
    (hmoves : Along step Enabled new (before ++ (.beginPass now :: (body ++ [.endPass]) ++ after)))
    (hno : .endPass ∉ body) :
    ∃ s t starts, Run step new before s ∧ Run step s (.beginPass now :: (body ++ [.endPass])) t ∧
      t.queue.ran = s.queue.ran ++ starts ∧ starts.Nodup ∧
      (∀ x, x ∈ starts ↔ ∃ u, s.queue.pending x = some u ∧ u.expiration ≤ now) ∧
      starts.Pairwise fun x y => ∀ u v, s.queue.pending x = some u →
        s.queue.pending y = some v → u.expiration ≤ v.expiration := by
  obtain ⟨s, hrun, h⟩ := exists_run new_inv hmoves.left
  have hen := (hmoves.right hrun).left
  obtain ⟨s₁, hs₁, hm₁⟩ := step_moves h hen.1
  have h₁ := step_inv h hm₁
  have hen₁ := hen.2 s₁ hs₁
  obtain ⟨s₂, hrun₂, -⟩ := exists_run h₁ hen₁.left
  have hphase : s₁.phase ≠ .idle := by cases hm₁; simp
  obtain ⟨h₂, starts, hran, hwait⟩ := during_ran h₁ hphase hrun₂ hen₁.left hno
  obtain ⟨t, ht, hm⟩ := step_moves h₂ (hen₁.right hrun₂).1
  have hend : s₂.awaiting = [] ∧ t.queue.ran = s₂.queue.ran := by
    cases hm with
    | endedPass hp => exact ⟨by simp [awaiting, TimerLoop.todo, hp], rfl⟩
  rw [hend.1, List.append_nil] at hwait
  have hbegun : s₁.queue.ran = s.queue.ran := by
    cases hm₁
    exact TimerQueue.begun_ran _ _ _
  refine ⟨s, t, starts, hrun, .cons hs₁ (hrun₂.append (.cons ht (.nil t))), ?_, ?_, fun x => ?_, ?_⟩
  · rw [hend.2, hran, hbegun]
  · exact hwait ▸ h₁.awaiting_nodup
  · rw [hwait, begin_awaiting h hm₁, (begin_refines h hm₁).2]
    simp [Pending.expired, Option.filter_eq_some_iff]
  · exact hwait ▸ begin_sorted h hm₁

/-- The one timer of the run is due. -/
theorem pass_starts_due_sample :
    ∃ s t starts, Run step new [.act (.add 1 halfSecond 1000000), .act (.cancel ⟨7, 9⟩)] s ∧
      Run step s [.beginPass 2000000, .run, .act (.add 2 ⟨3000000, 0, false, 2⟩ 2000000),
        .act (.cancel ⟨1, 1⟩), .endCalls, .reset 2000000, .endPass] t ∧
      t.queue.ran = s.queue.ran ++ starts ∧ starts.Nodup ∧
      (∀ x, x ∈ starts ↔ ∃ u, s.queue.pending x = some u ∧ u.expiration ≤ 2000000) ∧
      starts.Pairwise fun x y => ∀ u v, s.queue.pending x = some u →
        s.queue.pending y = some v → u.expiration ≤ v.expiration :=
  pass_starts_due [.act (.add 1 halfSecond 1000000), .act (.cancel ⟨7, 9⟩)]
    [.run, .act (.add 2 ⟨3000000, 0, false, 2⟩ 2000000), .act (.cancel ⟨1, 1⟩), .endCalls,
      .reset 2000000] [] 2000000 halfSecond_run (by simp)

/-! ## The schedule of a timer -/

/-- The timer as it waits for its next start. -/
def Waits (t : Timer) (times : List TimeStamp) (u : Timer) : Prop :=
  u = { t with expiration := t.due times } ∧ (t.repeat_ = false → times = [])

/-- The timer `t` with the id `x` and the readings of the passes that have
started it. In a pass it awaits its start or has been started in this one. -/
structure Scheduled (x : ActiveTimer) (t : Timer) (s : TimerLoop) (times : List TimeStamp) : Prop where
  added : x ∈ s.added
  ran : s.queue.ran.count x = times.length
  spaced : ∀ earlier now, earlier ++ [now] <+: times → t.due earlier ≤ now
  once : t.repeat_ = false → times.length ≤ 1
  pending : ∀ u, s.queue.pending x = some u → Waits t times u
  awaiting : ∀ u, s.flying x = some u → x ∈ s.awaiting →
    Waits t times u ∧ ∃ now, s.reading = some now ∧ u.expiration ≤ now
  started : ∀ u, s.flying x = some u → x ∉ s.awaiting →
    (∃ now, s.reading = some now ∧ times.getLast? = some now) ∧
      ∃ e, u = { t with expiration := e }

section Steps

variable {x : ActiveTimer} {t : Timer} {s s' : TimerLoop} {times : List TimeStamp}

theorem Scheduled.act (hsch : Scheduled x t s times) (h : s.Inv) {a : Action}
    (hm : s.Moves (.act a) s') : Scheduled x t s' times := by
  obtain ⟨hpending, hflying⟩ := act_refines h hm
  obtain ⟨hwait, hran⟩ := quiet_awaiting h hm (by simp) (by simp)
  have hreading : s'.reading = s.reading := by cases hm <;> rfl
  have hkept : ∀ u, s'.queue.pending x = some u → s.queue.pending x = some u := by
    intro u hu
    rw [hpending] at hu
    cases a with
    | add timer t' now =>
      cases hm with
      | added _ _ hfresh =>
        have hne : x ≠ ⟨timer, t'.sequence⟩ := by
          rintro rfl
          exact hfresh _ hsch.added rfl
        exact (Function.update_of_ne hne _ _).symm.trans hu
    | cancel y =>
      by_cases hy : x = y
      · simp [Pending.act, hy] at hu
      · exact (Function.update_of_ne hy _ _).symm.trans hu
  refine ⟨?_, hran ▸ hsch.ran, hsch.spaced, hsch.once, fun u hu => hsch.pending u (hkept u hu),
    ?_, ?_⟩
  · cases hm with
    | added => exact List.mem_append_left _ hsch.added
    | _ => exact hsch.added
  · rw [hflying, hwait, hreading]
    exact hsch.awaiting
  · rw [hflying, hwait, hreading]
    exact hsch.started

theorem Scheduled.beginPass (hsch : Scheduled x t s times) (h : s.Inv) {now : TimeStamp}
    (hm : s.Moves (.beginPass now) s') : Scheduled x t s' times := by
  obtain ⟨hpending, hflying⟩ := begin_refines h hm
  have hreading : s'.reading = some now := by cases hm; rfl
  refine ⟨by cases hm; exact hsch.added, ?_, hsch.spaced, hsch.once, fun u hu => ?_,
    fun u hu _ => ?_, fun u hu hnot => ?_⟩
  · have hran : s'.queue.ran = s.queue.ran := by
      cases hm
      exact TimerQueue.begun_ran _ _ _
    rw [hran, hsch.ran]
  · rw [hpending, Pending.later, Option.filter_eq_some_iff] at hu
    exact hsch.pending u hu.1
  · rw [hflying, Pending.expired, Option.filter_eq_some_iff] at hu
    exact ⟨hsch.pending u hu.1, now, hreading, by simpa using hu.2⟩
  · exact absurd ((begin_awaiting h hm x).mpr ⟨u, hu⟩) hnot

/-- The callback of another timer starts, or that of this one, which was due. -/
theorem Scheduled.run (hsch : Scheduled x t s times) (h : s.Inv) (hm : s.Moves .run s') :
    Scheduled x t s' (times ++ startTimes x s .run) := by
  obtain ⟨hpending, hflying, -, hadded⟩ := run_refines hm (.inl rfl)
  obtain ⟨y, hwait, hran, hreading⟩ := run_awaiting hm
  by_cases hy : y = x
  · subst hy
    have hmem : y ∈ s.awaiting := hwait ▸ List.mem_cons_self ..
    have hnot : y ∉ s'.awaiting := by
      have hnodup := h.awaiting_nodup
      rw [hwait] at hnodup
      exact (List.nodup_cons.mp hnodup).1
    obtain ⟨u, hu⟩ := h.flying_of_awaiting hmem
    obtain ⟨⟨heq, honce⟩, now, hnow, hle⟩ := hsch.awaiting u hu hmem
    have htimes : times ++ startTimes y s .run = times ++ [now] := by
      simp [startTimes, hwait, hnow]
    rw [htimes]
    refine ⟨hadded ▸ hsch.added, ?_, fun earlier a hprefix => ?_, fun hrep => ?_, fun v hv => ?_,
      fun v _ hin => absurd hin hnot, fun v hv _ => ⟨⟨now, hreading.trans hnow, by simp⟩, ?_⟩⟩
    · rw [hran, List.count_append, hsch.ran]
      simp
    · rcases List.prefix_concat_iff.mp hprefix with hlast | hbefore
      · obtain ⟨rfl, hnow'⟩ := List.append_inj' hlast rfl
        cases hnow'
        rw [heq] at hle
        exact hle
      · exact hsch.spaced earlier a hbefore
    · simp [honce hrep]
    · rw [hpending, h.pending_none hu] at hv
      cases hv
    · rw [hflying, hu] at hv
      cases hv
      exact ⟨_, heq⟩
  · have htimes : times ++ startTimes x s .run = times := by
      simp [startTimes, hwait, hy]
    have hiff : x ∈ s'.awaiting ↔ x ∈ s.awaiting := by
      rw [hwait, List.mem_cons]
      exact (or_iff_right fun heq => hy heq.symm).symm
    rw [htimes]
    refine ⟨hadded ▸ hsch.added, ?_, hsch.spaced, hsch.once, hpending ▸ hsch.pending, ?_, ?_⟩
    · rw [hran, List.count_append, hsch.ran]
      simp [hy]
    · rw [hflying, hreading, hiff]
      exact hsch.awaiting
    · rw [hflying, hreading, hiff]
      exact hsch.started

/-- A timer that is put back is due an interval behind this pass. -/
theorem Scheduled.reset (hsch : Scheduled x t s times) (h : s.Inv) {clock : TimeStamp}
    (hm : s.Moves (.reset clock) s') : Scheduled x t s' times := by
  obtain ⟨now, y, u, hreset⟩ := reset_refines h hm
  obtain ⟨hwait, hran⟩ := quiet_awaiting h hm (by simp) (by simp)
  obtain ⟨next, todo, hp⟩ := hreset.before
  obtain ⟨next', todo', hp'⟩ := hreset.after
  have hnone : s.awaiting = [] := awaiting_nil (by simp [TimerLoop.todo, hp])
  have hreading : s'.reading = s.reading := by simp [reading, hp, hp']
  have hleft : ∀ v, s'.flying x = some v → s.flying x = some v := by
    intro v hv
    rw [hreset.flying] at hv
    by_cases hy : x = y
    · simp [hy] at hv
    · rwa [Function.update_of_ne hy] at hv
  refine ⟨by cases hm <;> exact hsch.added, hran ▸ hsch.ran, hsch.spaced, hsch.once, fun v hv => ?_,
    fun v _ hin => ?_, fun v hv hnot => ?_⟩
  · rcases hreset.pending with ⟨hrep, -, heq⟩ | ⟨-, heq⟩
    · by_cases hy : x = y
      · subst hy
        obtain ⟨⟨a, ha, hlast⟩, e, he⟩ := hsch.started u hreset.expired (by simp [hnone])
        obtain rfl : now = a := by simpa [reading, hp] using ha
        rw [heq, Function.update_self] at hv
        cases hv
        subst he
        have hrep' : t.repeat_ = true := hrep
        refine ⟨?_, fun hno => by simp [hrep'] at hno⟩
        simp [Timer.restart, Timer.due, hlast, hrep']
      · rw [heq, Function.update_of_ne hy] at hv
        exact hsch.pending v hv
    · exact hsch.pending v (heq ▸ hv)
  · simp [hwait, hnone] at hin
  · rw [hreading]
    exact hsch.started v (hleft v hv) (hwait ▸ hnot)

theorem Scheduled.step (hsch : Scheduled x t s times) (h : s.Inv) {m : TimerMove}
    (hm : s.Moves m s') : Scheduled x t s' (times ++ startTimes x s m) := by
  cases m with
  | act a => exact (List.append_nil times).symm ▸ hsch.act h hm
  | beginPass now => exact (List.append_nil times).symm ▸ hsch.beginPass h hm
  | run => exact hsch.run h hm
  | reset clock => exact (List.append_nil times).symm ▸ hsch.reset h hm
  | endCalls =>
    obtain ⟨hpending, hflying, -, hadded⟩ := run_refines hm (.inr rfl)
    obtain ⟨hwait, hran⟩ := quiet_awaiting h hm (by simp) (by simp)
    have hreading : s'.reading = s.reading := by
      cases hm with
      | endedCalls hp => simp [reading, hp]
    refine (List.append_nil times).symm ▸ ⟨hadded ▸ hsch.added, hran ▸ hsch.ran, hsch.spaced,
      hsch.once, hpending ▸ hsch.pending, ?_, ?_⟩
    · rw [hflying, hwait, hreading]
      exact hsch.awaiting
    · rw [hflying, hwait, hreading]
      exact hsch.started
  | endPass =>
    cases hm with
    | endedPass hp =>
      have hnone : flying { s with phase := .idle } x = none := by simp [flying, batch]
      refine (List.append_nil times).symm ▸ ⟨hsch.added, hsch.ran, hsch.spaced, hsch.once,
        hsch.pending, fun v hv => ?_, fun v hv => ?_⟩
      · rw [hnone] at hv
        cases hv
      · rw [hnone] at hv
        cases hv

end Steps

/-! ## Runs -/

/-- Before its addition a timer is not started. -/
structure Unknown (x : ActiveTimer) (s : TimerLoop) (times : List TimeStamp) : Prop where
  inv : s.Inv
  quiet : x ∉ s.added → times = [] ∧ x ∉ s.queue.ran

theorem Inv.added_of_flying {s : TimerLoop} (h : s.Inv) {x : ActiveTimer} {u : Timer}
    (hu : s.flying x = some u) : x ∈ s.added :=
  ((h.ledger.alive_iff x).mp ⟨u, (flying_eq_some.mp hu).1⟩).1

theorem added_mono {s s' : TimerLoop} {m : TimerMove} (hm : s.Moves m s') :
    s.added ⊆ s'.added := by
  cases hm with
  | added => exact List.subset_append_left _ _
  | _ => exact fun _ hx => hx

theorem Unknown.step {x : ActiveTimer} {s s' : TimerLoop} {times : List TimeStamp}
    (hun : Unknown x s times) {m : TimerMove} (hm : s.Moves m s') :
    Unknown x s' (times ++ startTimes x s m) := by
  refine ⟨step_inv hun.inv hm, fun hnot => ?_⟩
  have hbefore : x ∉ s.added := fun hx => hnot (added_mono hm hx)
  obtain ⟨htimes, hran⟩ := hun.quiet hbefore
  by_cases hrun : m = .run
  · subst hrun
    obtain ⟨y, hwait, hran', -⟩ := run_awaiting hm
    have hy : y ≠ x := by
      rintro rfl
      obtain ⟨u, hu⟩ := hun.inv.flying_of_awaiting (hwait ▸ List.mem_cons_self ..)
      exact hbefore (hun.inv.added_of_flying hu)
    simp [startTimes, hwait, hy, htimes, hran', hran, hy.symm]
  · have hran' : s'.queue.ran = s.queue.ran := by
      by_cases hbegin : ∃ now, m = .beginPass now
      · obtain ⟨now, rfl⟩ := hbegin
        cases hm
        exact TimerQueue.begun_ran _ _ _
      · exact (quiet_awaiting hun.inv hm hrun fun now heq => hbegin ⟨now, heq⟩).2
    have hnone : startTimes x s m = [] := by
      cases m with
      | run => exact absurd rfl hrun
      | _ => rfl
    rw [hnone, List.append_nil, hran']
    exact ⟨htimes, hran⟩

/-- The schedule begins with the addition. -/
theorem Unknown.scheduled {s s' : TimerLoop} {times : List TimeStamp} {timer : Ptr} {t : Timer}
    {now : TimeStamp} (hun : Unknown ⟨timer, t.sequence⟩ s times)
    (hm : s.Moves (.act (.add timer t now)) s') :
    times = [] ∧ Scheduled ⟨timer, t.sequence⟩ t s' [] := by
  obtain ⟨hpending, hflying⟩ := act_refines hun.inv hm
  have hran := (quiet_awaiting hun.inv hm (by simp) (by simp)).2
  have hnot : (⟨timer, t.sequence⟩ : ActiveTimer) ∉ s.added := by
    cases hm with
    | added _ _ hfresh => exact fun hx => hfresh _ hx rfl
  obtain ⟨htimes, hquiet⟩ := hun.quiet hnot
  have hnone : ∀ u, s'.flying ⟨timer, t.sequence⟩ ≠ some u := by
    intro u hu
    rw [hflying] at hu
    exact hnot (hun.inv.added_of_flying hu)
  refine ⟨htimes, ?_, ?_, by simp, by simp, fun u hu => ?_, fun u hu => absurd hu (hnone u),
    fun u hu => absurd hu (hnone u)⟩
  · cases hm with
    | added => simp
  · rw [hran]
    exact List.count_eq_zero.mpr hquiet
  · rw [hpending] at hu
    obtain rfl : t = u := by simpa [Pending.act] using hu
    exact ⟨rfl, fun _ => rfl⟩

/-- The start number `k` comes no sooner than `k` intervals behind the first
expiration. -/
theorem le_of_spaced {t : Timer} {times : List TimeStamp}
    (h : ∀ earlier now, earlier ++ [now] <+: times → t.due earlier ≤ now) (k : Nat) :
    ∀ now, times[k]? = some now → t.expiration + k * t.interval ≤ now := by
  have hprefix : ∀ k now, times[k]? = some now → t.due (times.take k) ≤ now := by
    intro k now hk
    apply h
    have htake := List.take_prefix (k + 1) times
    rwa [List.take_add_one, hk] at htake
  induction k with
  | zero =>
    intro now hk
    simpa [Timer.due] using hprefix 0 now hk
  | succ k ih =>
    intro now hk
    have hdue := hprefix (k + 1) now hk
    obtain ⟨last, hlast⟩ : ∃ last, times[k]? = some last := by
      obtain ⟨hlt, -⟩ := List.getElem?_eq_some_iff.mp hk
      exact ⟨_, List.getElem?_eq_getElem (by omega)⟩
    have hlow := ih last hlast
    rw [List.take_add_one, hlast] at hdue
    simp only [Timer.due, Option.toList_some, List.getLast?_concat] at hdue
    calc
      t.expiration + ((k + 1 : Nat) : Int) * t.interval
          = t.expiration + k * t.interval + t.interval := by
        rw [Int.natCast_succ, Int.add_mul, Int.one_mul, Int.add_assoc]
      _ ≤ last + t.interval := Int.add_le_add_right hlow _
      _ ≤ now := hdue

/-- **The schedule.** In every run, whatever else is added and cancelled and
whatever the clock says: a timer starts for the first time in a pass that begins
no sooner than its expiration, and each further time in one that begins no sooner
than an interval behind the last; one that does not repeat starts at most once;
and while it waits its expiration is the next time of this schedule. -/
theorem starts_on_schedule (before after : List TimerMove) (timer : Ptr) (t : Timer) (now : TimeStamp)
    (hmoves : Along step Enabled new (before ++ .act (.add timer t now) :: after)) :
    ∃ s times, Run step new (before ++ .act (.add timer t now) :: after) s ∧
      yields step (startTimes ⟨timer, t.sequence⟩) new
        (before ++ .act (.add timer t now) :: after) = times ∧
      s.queue.ran.count ⟨timer, t.sequence⟩ = times.length ∧
      (∀ earlier now, earlier ++ [now] <+: times → t.due earlier ≤ now) ∧
      (∀ (k : Nat) now, times[k]? = some now → t.expiration + k * t.interval ≤ now) ∧
      (t.repeat_ = false → times.length ≤ 1) ∧
      ∀ u, s.queue.pending ⟨timer, t.sequence⟩ = some u → u.expiration = t.due times := by
  obtain ⟨s₀, hbefore, h₀⟩ := exists_run new_inv hmoves.left
  have hen := hmoves.right hbefore
  obtain ⟨s₁, hs₁, hm₁⟩ := step_moves h₀ hen.1
  have h₁ := step_inv h₀ hm₁
  obtain ⟨s, hafter, -⟩ := exists_run h₁ (hen.2 s₁ hs₁)
  have hun : Unknown ⟨timer, t.sequence⟩ s₀ ([] ++ yields step (startTimes ⟨timer, t.sequence⟩) new before) :=
    hbefore.history (J := Unknown ⟨timer, t.sequence⟩) hmoves.left
      ⟨new_inv, fun _ => ⟨rfl, by simp [new, TimerQueue.new]⟩⟩
      fun s m s' times hun ha hs => hun.step (moves_of_step hun.inv ha hs)
  obtain ⟨hnone, hsch₁⟩ := hun.scheduled hm₁
  have hsch := hafter.history
    (J := fun s times => s.Inv ∧ Scheduled ⟨timer, t.sequence⟩ t s times) (hen.2 s₁ hs₁)
    ⟨h₁, hsch₁⟩ fun s m s' times hj ha hs =>
      ⟨step_inv hj.1 (moves_of_step hj.1 ha hs), hj.2.step hj.1 (moves_of_step hj.1 ha hs)⟩
  have htimes : yields step (startTimes ⟨timer, t.sequence⟩) new
      (before ++ .act (.add timer t now) :: after) =
        [] ++ yields step (startTimes ⟨timer, t.sequence⟩) s₁ after := by
    rw [hbefore.yields_append, yields_cons hs₁]
    rw [List.nil_append] at hnone
    simp [hnone, startTimes]
  exact ⟨s, _, hbefore.append (.cons hs₁ hafter), htimes, hsch.2.ran, hsch.2.spaced,
    le_of_spaced hsch.2.spaced, hsch.2.once, fun u hu => congrArg Timer.expiration (hsch.2.pending u hu).1⟩

/-- Added before all else, and started once. -/
theorem starts_on_schedule_halfSecond :
    ∃ (s : TimerLoop) (times : List TimeStamp), Run step new [.act (.add 1 halfSecond 1000000),
        .act (.cancel ⟨7, 9⟩), .beginPass 2000000, .run, .act (.add 2 ⟨3000000, 0, false, 2⟩ 2000000),
        .act (.cancel ⟨1, 1⟩), .endCalls, .reset 2000000, .endPass] s ∧
      s.queue.ran.count ⟨1, 1⟩ = times.length ∧
      ∀ (k : Nat) now, times[k]? = some now → 2000000 + k * 500000 ≤ now := by
  obtain ⟨s, times, hrun, -, hran, -, hlate, -⟩ :=
    starts_on_schedule [] [.act (.cancel ⟨7, 9⟩), .beginPass 2000000, .run,
      .act (.add 2 ⟨3000000, 0, false, 2⟩ 2000000), .act (.cancel ⟨1, 1⟩), .endCalls,
      .reset 2000000, .endPass] 1 halfSecond 1000000 halfSecond_run
  exact ⟨s, times, hrun, hran, hlate⟩

end TimerLoop

end Muduo
