import Muduo.PendingTimers

/-!
What a cancellation stops. `cancelInLoop` deletes a timer that waits and keeps
an expired one from being put back, but it does not take an expired timer out
of the pass that runs.

* `cancelled_starts`: a timer that is cancelled by the callback before its own
  in the same pass, and one that is cancelled before it is added;
* `cancelled_not_started`: no other start follows a cancellation.
-/

namespace Muduo

open Lib
open TimerQueue (Action)

namespace TimerLoop

/-- The timers whose callbacks this pass has still to start. -/
def awaiting (s : TimerLoop) : List ActiveTimer :=
  (s.todo.map Entry.second).filterMap fun p => (s.queue.heap p).map fun t => ⟨p, t.sequence⟩

theorem Inv.awaiting_nodup {s : TimerLoop} (h : s.Inv) : s.awaiting.Nodup := by
  have htodo : (s.todo.map Entry.second).Nodup := (h.suffix.sublist.map _).nodup h.nodup
  apply htodo.filterMap
  intro p p' x hx hx'
  obtain ⟨t, -, rfl⟩ := Option.map_eq_some_iff.mp hx
  obtain ⟨t', -, heq⟩ := Option.map_eq_some_iff.mp hx'
  exact (ActiveTimer.mk.inj heq).1.symm

/-- A timer that waits for its callback has expired. -/
theorem Inv.flying_of_awaiting {s : TimerLoop} (h : s.Inv) {x : ActiveTimer}
    (hx : x ∈ s.awaiting) : ∃ t, s.flying x = some t := by
  obtain ⟨p, hp, hx⟩ := List.mem_filterMap.mp hx
  obtain ⟨e, he, rfl⟩ := List.mem_map.mp hp
  obtain ⟨t, ht, rfl⟩ := Option.map_eq_some_iff.mp hx
  exact ⟨t, flying_eq_some.mpr ⟨TimerQueue.lookup_eq_some.mpr ⟨ht, rfl⟩, e, h.suffix.subset he, rfl⟩⟩

theorem awaiting_congr {s s' : TimerLoop} (htodo : s'.todo = s.todo)
    (hheap : ∀ e ∈ s.todo, s'.queue.heap e.second = s.queue.heap e.second) :
    s'.awaiting = s.awaiting := by
  unfold awaiting
  rw [htodo]
  apply List.filterMap_congr
  intro p hp
  obtain ⟨e, he, rfl⟩ := List.mem_map.mp hp
  rw [hheap e he]

/-! ## Cancelled timers -/

/-- An id that was cancelled behind its addition: it does not wait, and if it
has expired in this pass it will not be put back. -/
structure Cancelled (x : ActiveTimer) (s : TimerLoop) : Prop where
  added : x ∈ s.added
  pending : s.queue.pending x = none
  marked : ∀ t, s.flying x = some t → x ∈ s.queue.cancelingTimers

theorem act_canceling_subset {s s' : TimerLoop} {a : Action} (hm : s.Moves (.act a) s') :
    s.queue.cancelingTimers ⊆ s'.queue.cancelingTimers := by
  cases hm with
  | added =>
    unfold TimerQueue.added
    split <;> exact Finset.Subset.refl _
  | canceled => exact Finset.Subset.refl _
  | remembered => exact Finset.subset_insert _ _
  | ignored => exact Finset.Subset.refl _

/-- The cancellation itself. -/
theorem cancel_cancelled {s s' : TimerLoop} (h : s.Inv) {x : ActiveTimer}
    (hen : s.Enabled (.act (.cancel x))) (hm : s.Moves (.act (.cancel x)) s') (hx : x ∈ s.added) :
    Cancelled x s' := by
  obtain ⟨hpending, hflying⟩ := act_refines h hm
  refine ⟨by cases hm <;> exact hx, by rw [hpending]; exact Function.update_self .., ?_⟩
  intro t ht
  rw [hflying] at ht
  -- only in a pass has a timer expired, and then its callbacks are running
  have hcall : s.queue.callingExpiredTimers = true := by
    refine h.calling.mpr ?_
    obtain ⟨-, e, he, -⟩ := flying_eq_some.mp ht
    cases hp : s.phase with
    | idle => simp [batch, hp] at he
    | calling now expired todo => exact ⟨_, _, _, rfl⟩
    | resetting now nextExpire todo => exact absurd hp (hen.1 _ _ _)
  exact (act_canceling h hm hcall ht).mpr (.inr rfl)

theorem Cancelled.step {s s' : TimerLoop} {x : ActiveTimer} (hc : Cancelled x s) (h : s.Inv)
    {m : TimerMove} (hm : s.Moves m s') : Cancelled x s' := by
  cases m with
  | act a =>
    obtain ⟨hpending, hflying⟩ := act_refines h hm
    refine ⟨?_, ?_, fun t ht => act_canceling_subset hm (hc.marked t (hflying ▸ ht))⟩
    · cases hm with
      | added => exact List.mem_append_left _ hc.added
      | _ => exact hc.added
    · rw [hpending]
      cases a with
      | add timer t now =>
        cases hm with
        | added _ _ hfresh =>
          have hne : x ≠ ⟨timer, t.sequence⟩ := by
            rintro rfl
            exact hfresh _ hc.added rfl
          exact (Function.update_of_ne hne _ _).trans hc.pending
      | cancel y =>
        by_cases hy : x = y
        · exact hy ▸ Function.update_self ..
        · exact (Function.update_of_ne hy _ _).trans hc.pending
  | beginPass now =>
    obtain ⟨hpending, hflying⟩ := begin_refines h hm
    refine ⟨by cases hm; exact hc.added, ?_, ?_⟩
    · rw [hpending, Pending.later, hc.pending]
      rfl
    · intro t ht
      rw [hflying, Pending.expired, hc.pending] at ht
      cases ht
  | reset clock =>
    obtain ⟨now, y, u, hreset⟩ := reset_refines h hm
    have hsub : ∀ t, s'.flying x = some t → s.flying x = some t := by
      intro t ht
      rw [hreset.flying] at ht
      by_cases hy : x = y
      · simp [hy] at ht
      · rwa [Function.update_of_ne hy] at ht
    refine ⟨by cases hm <;> exact hc.added, ?_, ?_⟩
    · rcases hreset.pending with ⟨-, hnot, hp⟩ | ⟨-, hp⟩
      · have hy : x ≠ y := by
          rintro rfl
          exact hnot (hc.marked u hreset.expired)
        rw [hp, Function.update_of_ne hy, hc.pending]
      · rw [hp, hc.pending]
    · intro t ht
      rw [reset_canceling hm]
      exact hc.marked t (hsub t ht)
  | run =>
    obtain ⟨hpending, hflying, hcanceling, hadded⟩ := run_refines hm (.inl rfl)
    exact ⟨hadded ▸ hc.added, hpending ▸ hc.pending, hflying ▸ hcanceling ▸ hc.marked⟩
  | endCalls =>
    obtain ⟨hpending, hflying, hcanceling, hadded⟩ := run_refines hm (.inr rfl)
    exact ⟨hadded ▸ hc.added, hpending ▸ hc.pending, hflying ▸ hcanceling ▸ hc.marked⟩
  | endPass =>
    cases hm with
    | endedPass hp =>
      refine ⟨hc.added, hc.pending, ?_⟩
      intro t ht
      simp [flying, batch] at ht

/-! ## Starts -/

theorem awaiting_nil {s : TimerLoop} (h : s.todo = []) : s.awaiting = [] := by
  simp [awaiting, h]

/-- A step starts at most the callback at the head of the waiting ones; a
cancelled timer does not come to wait again. -/
theorem step_starts {s s' : TimerLoop} {x : ActiveTimer} (hc : Cancelled x s) (h : s.Inv)
    {m : TimerMove} (hm : s.Moves m s') :
    ∃ starts, s'.queue.ran = s.queue.ran ++ starts ∧
      starts.count x + s'.awaiting.count x = s.awaiting.count x := by
  have hc' := hc.step h hm
  have h' := step_inv h hm
  -- no callback starts, and none waits on either side
  have hquiet : s'.queue.ran = s.queue.ran → s.todo = [] → s'.awaiting.count x = 0 →
      ∃ starts, s'.queue.ran = s.queue.ran ++ starts ∧
        starts.count x + s'.awaiting.count x = s.awaiting.count x :=
    fun hran htodo hnone => ⟨[], by simp [hran], by simp [awaiting_nil htodo, hnone]⟩
  cases m with
  | act a =>
    have hsame : s'.awaiting = s.awaiting :=
      awaiting_congr (by cases hm <;> rfl) fun e he => act_heap h hm (h.suffix.subset he)
    refine ⟨[], ?_, by simp [hsame]⟩
    cases hm with
    | added =>
      rw [List.append_nil]
      unfold TimerQueue.added
      split <;> rfl
    | _ => exact (List.append_nil _).symm
  | beginPass now =>
    refine hquiet ?_ ?_ (List.count_eq_zero.mpr ?_)
    · cases hm
      exact TimerQueue.begun_ran _ _ _
    · cases hm with
      | begun hp => simp [TimerLoop.todo, hp]
    · intro hx
      obtain ⟨t, ht⟩ := h'.flying_of_awaiting hx
      rw [(begin_refines h hm).2, Pending.expired, hc.pending] at ht
      cases ht
  | run =>
    cases hm with
    | @ran now expired todo e t hp ht =>
      refine ⟨[⟨e.second, t.sequence⟩], rfl, ?_⟩
      simp [awaiting, TimerLoop.todo, hp, ht, List.count_cons, Nat.add_comm]
  | endCalls =>
    cases hm with
    | endedCalls hp => exact hquiet rfl (by simp [TimerLoop.todo, hp]) (by simp [awaiting, TimerLoop.todo])
  | reset clock =>
    cases hm with
    | restarted next hp =>
      refine hquiet ?_ (by simp [TimerLoop.todo, hp]) (by simp [awaiting, TimerLoop.todo])
      simp [TimerQueue.rearm_eq, TimerQueue.restarted, TimerQueue.inserted, TimerQueue.store]
    | deleted next hp =>
      refine hquiet ?_ (by simp [TimerLoop.todo, hp]) (by simp [awaiting, TimerLoop.todo])
      simp [TimerQueue.rearm_eq, TimerQueue.store]
  | endPass =>
    cases hm with
    | endedPass hp => exact hquiet rfl (by simp [TimerLoop.todo, hp]) (by simp [awaiting, TimerLoop.todo])

/-- From a cancellation on: the starts of the timer are those it waited for,
and after the calls of the pass it waits for none. -/
theorem run_starts {s t : TimerLoop} {x : ActiveTimer} {moves : List TimerMove} (h : s.Inv)
    (hc : Cancelled x s) (hrun : Run step s moves t) (hen : Along step Enabled s moves) :
    ∃ starts, t.queue.ran = s.queue.ran ++ starts ∧
      starts.count x + t.awaiting.count x = s.awaiting.count x ∧
      (.endCalls ∈ moves → x ∉ t.awaiting) := by
  induction hrun with
  | nil => exact ⟨[], by simp, by simp, by simp⟩
  | @cons s s' t m moves hs hrun ih =>
    have hm := moves_of_step h hen.1 hs
    obtain ⟨starts, hran, hcount⟩ := step_starts hc h hm
    obtain ⟨starts', hran', hcount', hend⟩ := ih (step_inv h hm) (hc.step h hm) (hen.2 _ hs)
    refine ⟨starts ++ starts', ?_, ?_, ?_⟩
    · rw [hran', hran, List.append_assoc]
    · rw [List.count_append]
      omega
    · intro hmem
      rcases List.mem_cons.mp hmem with rfl | hmem
      · -- the calls end when no callback waits
        have hnone : s'.awaiting = [] := by
          cases hm
          exact awaiting_nil rfl
        rw [hnone, List.count_nil] at hcount'
        exact List.count_eq_zero.mp (by omega)
      · exact hend hmem

/-- **Cancellation.** Once an added timer is cancelled its callback is not
started any more, unless the pass that runs has taken the timer out and not
started it yet: then it is started once, in this pass. -/
theorem cancelled_not_started (before after : List TimerMove) (x : ActiveTimer)
    (hmoves : Along step Enabled new (before ++ .act (.cancel x) :: after)) :
    ∃ s s' t, Run step new before s ∧ s.step (.act (.cancel x)) = .ok s' ∧ Run step s' after t ∧
      (x ∈ s.added → ∃ starts, t.queue.ran = s'.queue.ran ++ starts ∧
        (x ∉ s'.awaiting → x ∉ starts) ∧
        (x ∈ s'.awaiting → starts.count x + t.awaiting.count x = 1 ∧
          (.endCalls ∈ after → x ∉ t.awaiting))) := by
  obtain ⟨s, hbefore, h⟩ := exists_run new_inv hmoves.left
  have hen := hmoves.right hbefore
  obtain ⟨s', hs', hm⟩ := step_moves h hen.1
  have h' := step_inv h hm
  obtain ⟨t, hafter, -⟩ := exists_run h' (hen.2 s' hs')
  refine ⟨s, s', t, hbefore, hs', hafter, ?_⟩
  intro hx
  obtain ⟨starts, hran, hcount, hend⟩ :=
    run_starts h' (cancel_cancelled h hen.1 hm hx) hafter (hen.2 s' hs')
  refine ⟨starts, hran, fun hnot => ?_, fun hwait => ⟨?_, hend⟩⟩
  · rw [List.count_eq_zero.mpr hnot] at hcount
    exact List.count_eq_zero.mp (by omega)
  · rw [hcount, List.count_eq_one_of_mem h'.awaiting_nodup hwait]

/-- The callback of a repeating timer cancels its own timer. -/
theorem cancelled_not_started_sample :
    ∃ s s' t, Run step new [.act (.add 1 halfSecond 1000000), .act (.cancel ⟨7, 9⟩),
        .beginPass 2000000, .run, .act (.add 2 ⟨3000000, 0, false, 2⟩ 2000000)] s ∧
      s.step (.act (.cancel ⟨1, 1⟩)) = .ok s' ∧
      Run step s' [.endCalls, .reset 2000000, .endPass] t ∧
      (⟨1, 1⟩ ∈ s.added → ∃ starts, t.queue.ran = s'.queue.ran ++ starts ∧
        (⟨1, 1⟩ ∉ s'.awaiting → ⟨1, 1⟩ ∉ starts) ∧
        (⟨1, 1⟩ ∈ s'.awaiting → starts.count ⟨1, 1⟩ + t.awaiting.count ⟨1, 1⟩ = 1 ∧
          (TimerMove.endCalls ∈ [.endCalls, .reset 2000000, .endPass] → ⟨1, 1⟩ ∉ t.awaiting))) :=
  cancelled_not_started _ _ _ halfSecond_run

/-- A run in which `x` is cancelled and its callback is started later. -/
def StartsAfterCancel (x : ActiveTimer) (before after : List TimerMove) : Prop :=
  Along step Enabled new (before ++ .act (.cancel x) :: after) ∧
    ∃ s t, Run step new (before ++ [.act (.cancel x)]) s ∧ Run step s after t ∧
      ∃ starts, t.queue.ran = s.queue.ran ++ starts ∧ x ∈ starts

def first : Timer := ⟨1000000, 0, false, 1⟩
def second : Timer := ⟨1500000, 0, false, 2⟩

/-- Two timers that expire in one pass. -/
def twoExpired : TimerLoop where
  queue := (TimerQueue.new.added 1 first 500000).added 2 second 500000
  phase := .idle
  added := [⟨1, 1⟩, ⟨2, 2⟩]
  deleted := []

theorem twoExpired_timers : twoExpired.queue.timers = {⟨1500000, 2⟩, ⟨1000000, 1⟩} := by
  simp only [twoExpired, TimerQueue.added_timers]
  rfl

theorem twoExpired_entries :
    twoExpired.queue.expiredEntries 2000000 = [⟨1000000, 1⟩, ⟨1500000, 2⟩] := by
  have hexpired : twoExpired.queue.timers.filter (· < TimerQueue.sentry 2000000) =
      {⟨1000000, 1⟩, ⟨1500000, 2⟩} := by
    rw [twoExpired_timers]
    decide
  rw [TimerQueue.expiredEntries, hexpired, Finset.sort_insert (· ≤ ·) (by decide) (by decide),
    Finset.sort_singleton]

theorem twoExpired_run :
    Run step new [.act (.add 1 first 500000), .act (.add 2 second 500000)] twoExpired ∧
      twoExpired.Inv ∧
      Along step Enabled new [.act (.add 1 first 500000), .act (.add 2 second 500000)] := by
  have hen₁ : new.Enabled (.act (.add 1 first 500000)) :=
    ⟨by simp [new], ⟨rfl, by decide⟩, by simp [new]⟩
  have hen₂ : Enabled ⟨TimerQueue.new.added 1 first 500000, .idle, [⟨1, 1⟩], []⟩
      (.act (.add 2 second 500000)) :=
    ⟨by simp, ⟨by simp [TimerQueue.added_heap, TimerQueue.new], by decide⟩,
      by simp [Action.added, second]⟩
  obtain ⟨s₁, hs₁, hm₁⟩ := step_moves new_inv hen₁
  have h₁ := step_inv new_inv hm₁
  cases hm₁
  obtain ⟨s₂, hs₂, hm₂⟩ := step_moves h₁ hen₂
  have h₂ := step_inv h₁ hm₂
  cases hm₂
  exact ⟨.cons hs₁ (.cons hs₂ (.nil _)), h₂,
    (steps_cons_ok hs₁).mpr ⟨hen₁, (steps_cons_ok hs₂).mpr ⟨hen₂, trivial⟩⟩⟩

theorem enabled_cancel {s : TimerLoop} {now : TimeStamp} {expired todo : List Entry}
    (hp : s.phase = .calling now expired todo) (x : ActiveTimer) :
    s.Enabled (.act (.cancel x)) :=
  ⟨by simp [hp], trivial, by simp [Action.added]⟩

/-- The first timer is cancelled between its creation and `addTimerInLoop`. -/
theorem cancelled_early :
    StartsAfterCancel ⟨1, 1⟩ [] [.act (.add 1 first 500000), .beginPass 2000000, .run] := by
  have hen₁ : new.Enabled (.act (.cancel ⟨1, 1⟩)) :=
    ⟨by simp [new], trivial, by simp [Action.added]⟩
  have hen₂ : new.Enabled (.act (.add 1 first 500000)) :=
    ⟨by simp [new], ⟨rfl, by decide⟩, by simp [new]⟩
  have hs₁ : new.step (.act (.cancel ⟨1, 1⟩)) = .ok new := by
    obtain ⟨s₁, hs₁, hm₁⟩ := step_moves new_inv hen₁
    cases hm₁ with
    | canceled hx _ => simp [TimerQueue.lookup, new, TimerQueue.new] at hx
    | remembered _ hcall => simp [new, TimerQueue.new] at hcall
    | ignored _ _ => exact hs₁
  obtain ⟨s₂, hs₂, hm₂⟩ := step_moves new_inv hen₂
  have h₂ := step_inv new_inv hm₂
  cases hm₂
  obtain ⟨s₃, hs₃, hm₃⟩ := step_moves (m := .beginPass 2000000) h₂ rfl
  have h₃ := step_inv h₂ hm₃
  have hexpired : (TimerQueue.new.added 1 first 500000).expiredEntries 2000000 = [⟨1000000, 1⟩] := by
    have hfilter : (TimerQueue.new.added 1 first 500000).timers.filter
        (· < TimerQueue.sentry 2000000) = {⟨1000000, 1⟩} := by
      rw [TimerQueue.added_timers]
      decide
    rw [TimerQueue.expiredEntries, hfilter, Finset.sort_singleton]
  cases hm₃
  simp only [new, hexpired] at hs₃ h₃
  obtain ⟨s₄, hs₄, hm₄⟩ := step_moves (m := .run) h₃ ⟨_, _, _, _, rfl⟩
  cases hm₄ with
  | ran hp ht =>
    cases hp
    refine ⟨(steps_cons_ok hs₁).mpr ⟨hen₁, (steps_cons_ok hs₂).mpr ⟨hen₂,
      (steps_cons_ok hs₃).mpr ⟨rfl, (steps_cons_ok hs₄).mpr ⟨⟨_, _, _, _, rfl⟩, trivial⟩⟩⟩⟩,
      _, _, .cons hs₁ (.nil _), .cons hs₂ (.cons hs₃ (.cons hs₄ (.nil _))), [⟨1, 1⟩], ?_,
      List.mem_cons_self ..⟩
    have hfirst : (TimerQueue.new.added 1 first 500000).heap 1 = some first := by
      simp [TimerQueue.added_heap]
    simp only [TimerQueue.begun_heap, hfirst, Option.some.injEq] at ht
    rw [← ht]
    simp [first, TimerQueue.begun_ran]
    rfl

/-- The callback of the first cancels the second, which is started all the
same. -/
theorem cancelled_in_pass :
    StartsAfterCancel ⟨2, 2⟩ [.act (.add 1 first 500000), .act (.add 2 second 500000),
      .beginPass 2000000, .run] [.run] := by
  obtain ⟨hrun₂, h₂, hen₂⟩ := twoExpired_run
  obtain ⟨s₃, hs₃, hm₃⟩ := step_moves (m := .beginPass 2000000) h₂ rfl
  have h₃ := step_inv h₂ hm₃
  cases hm₃
  simp only [twoExpired_entries] at hs₃ h₃
  obtain ⟨s₄, hs₄, hm₄⟩ := step_moves (m := .run) h₃ ⟨_, _, _, _, rfl⟩
  have h₄ := step_inv h₃ hm₄
  cases hm₄ with
  | ran hp _ =>
    cases hp
    obtain ⟨s₅, hs₅, hm₅⟩ := step_moves h₄ (enabled_cancel rfl ⟨2, 2⟩)
    have h₅ := step_inv h₄ hm₅
    cases hm₅ with
    | canceled _ hmem => exact (h₄.flying.absent ⟨1500000, 2⟩ (by simp [batch]) _ hmem rfl).elim
    | ignored _ hcall => simp [TimerQueue.begun] at hcall
    | remembered _ _ =>
      obtain ⟨s₆, hs₆, hm₆⟩ := step_moves (m := .run) h₅ ⟨_, _, _, _, rfl⟩
      cases hm₆ with
      | ran hp ht =>
        cases hp
        refine ⟨?_, _, _, hrun₂.append (.cons hs₃ (.cons hs₄ (.cons hs₅ (.nil _)))),
          .cons hs₆ (.nil _), [⟨2, 2⟩], ?_, List.mem_cons_self ..⟩
        · refine hen₂.append hrun₂ ((steps_cons_ok hs₃).mpr ⟨rfl, (steps_cons_ok hs₄).mpr ⟨?_, ?_⟩⟩)
          · exact ⟨_, _, _, _, rfl⟩
          · exact (steps_cons_ok hs₅).mpr ⟨enabled_cancel rfl _, (steps_cons_ok hs₆).mpr
              ⟨⟨_, _, _, _, rfl⟩, trivial⟩⟩
        · have hsecond : twoExpired.queue.heap 2 = some second := by
            simp [twoExpired, TimerQueue.added_heap]
          simp only [TimerQueue.begun_heap, hsecond, Option.some.injEq] at ht
          rw [← ht]
          rfl

/-- A cancelled timer may start. -/
theorem cancelled_starts :
    (StartsAfterCancel ⟨2, 2⟩ [.act (.add 1 first 500000), .act (.add 2 second 500000),
      .beginPass 2000000, .run] [.run]) ∧
    StartsAfterCancel ⟨1, 1⟩ [] [.act (.add 1 first 500000), .beginPass 2000000, .run] :=
  ⟨cancelled_in_pass, cancelled_early⟩

end TimerLoop

end Muduo
