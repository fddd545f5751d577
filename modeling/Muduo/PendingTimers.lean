import Muduo.TimerPass

/-!
What a `TimerQueue` is for: a map of pending timers under their ids. Additions
and cancellations change one id. A pass takes the expired timers out, lets the
callbacks change the map, and puts the timers back that repeat and were not
cancelled.

* `Moves.pending`: every step of the queue is a step of the map;
* `refines_pending`: all runs, with the records of what was deleted.
-/

namespace Muduo

open Lib

deriving instance DecidableEq for TimerQueue.Action

open TimerQueue (Action)

/-! ## The map -/

/-- The timers that wait. -/
abbrev Pending := ActiveTimer → Option Timer

namespace Pending

def act (m : Pending) : Action → Pending
  | .add timer t _ => Function.update m ⟨timer, t.sequence⟩ (some t)
  | .cancel x => Function.update m x none

def later (m : Pending) (now : TimeStamp) : Pending := fun x => (m x).filter (now < ·.expiration)

def expired (m : Pending) (now : TimeStamp) : Pending := fun x => (m x).filter (·.expiration ≤ now)

/-- The expired timers that repeat and are not cancelled by `acts`, at
`now + interval`. -/
def restarted (m : Pending) (now : TimeStamp) (acts : List Action) : Pending := fun x =>
  if .cancel x ∈ acts then none
  else ((m.expired now x).filter (·.repeat_)).map (·.restart now)

/-- The map after a pass whose callbacks do `acts`. -/
def handleRead (m : Pending) (now : TimeStamp) (acts : List Action) : Pending := fun x =>
  (acts.foldl act (m.later now) x).or (m.restarted now acts x)

end Pending

/-! ## The map of a queue -/

namespace TimerQueue

def pending (q : TimerQueue) : Pending := fun x => if x ∈ q.activeTimers then q.lookup x else none

theorem Coherent.pending_eq_some {q : TimerQueue} (h : q.Coherent []) {x : ActiveTimer} {t : Timer} :
    q.pending x = some t ↔ q.lookup x = some t ∧ ⟨t.expiration, x.timer⟩ ∈ q.timers := by
  unfold pending
  constructor
  · intro ht
    split at ht
    · rename_i hx
      obtain ⟨t', ht', hmem⟩ := h.mem_active.mp hx
      obtain rfl : t' = t := Option.some.inj (ht'.symm.trans ht)
      exact ⟨ht, hmem⟩
    · cases ht
  · rintro ⟨ht, hmem⟩
    rw [if_pos (h.mem_active.mpr ⟨t, ht, hmem⟩), ht]

theorem Coherent.pending_eq {q : TimerQueue} (h : q.Coherent []) {m : Pending}
    (hm : ∀ x t, m x = some t ↔ q.lookup x = some t ∧ ⟨t.expiration, x.timer⟩ ∈ q.timers) :
    q.pending = m := by
  funext x
  apply Option.ext
  intro t
  exact h.pending_eq_some.trans (hm x t).symm

/-- Two ids of one address that both live are one id. -/
theorem lookup_unique {q : TimerQueue} {x y : ActiveTimer} {t u : Timer} (hx : q.lookup x = some t)
    (hy : q.lookup y = some u) (hptr : x.timer = y.timer) : x = y := by
  obtain ⟨hx, hxseq⟩ := lookup_eq_some.mp hx
  obtain ⟨hy, hyseq⟩ := lookup_eq_some.mp hy
  obtain rfl : t = u := Option.some.inj (hx.symm.trans (hptr ▸ hy))
  cases x
  cases y
  simp_all

/-- A timer is put into the set, and no other one lives at its address. -/
theorem Coherent.pending_insert {q q' : TimerQueue} (h : q.Coherent []) (h' : q'.Coherent [])
    {id : ActiveTimer} {t : Timer} (hlookup : q'.lookup = Function.update q.lookup id (some t))
    (htimers : q'.timers = Insert.insert ⟨t.expiration, id.timer⟩ q.timers)
    (hown : ∀ x u, q.lookup x = some u → x.timer = id.timer → x = id) :
    q'.pending = Function.update q.pending id (some t) := by
  apply h'.pending_eq
  intro x u
  rw [hlookup, htimers, Finset.mem_insert]
  by_cases hx : x = id
  · subst hx
    simp only [Function.update_self, Option.some.injEq]
    constructor
    · rintro rfl
      exact ⟨rfl, .inl rfl⟩
    · exact And.left
  · rw [Function.update_of_ne hx, Function.update_of_ne hx, h.pending_eq_some]
    refine and_congr_right fun hu => (or_iff_right_of_imp fun heq => ?_).symm
    exact absurd (hown x u hu (Entry.mk.inj heq).2) hx

theorem pending_added {q : TimerQueue} (h : q.Coherent []) {timer : Ptr} {t : Timer}
    {now : TimeStamp} (hfree : q.heap timer = none) (hb : timer < UINTPTR_MAX) :
    (q.added timer t now).pending = q.pending.act (.add timer t now) := by
  refine h.pending_insert (act_add h ⟨hfree, hb⟩).2 (added_lookup hfree t now)
    (added_timers q timer t now) ?_
  intro x u hu hptr
  simp [lookup, hptr, hfree] at hu

theorem pending_erased {q : TimerQueue} (h : q.Coherent []) {x : ActiveTimer} {t : Timer}
    (ht : q.lookup x = some t) : (q.erased x t).pending = q.pending.act (.cancel x) := by
  obtain ⟨hheap, hseq⟩ := lookup_eq_some.mp ht
  apply (h.erased hheap hseq).pending_eq
  intro y u
  rw [erased_lookup ht, Pending.act]
  by_cases hy : y = x
  · simp [hy]
  · rw [Function.update_of_ne hy, Function.update_of_ne hy, h.pending_eq_some]
    apply and_congr_right
    intro hu
    refine (Iff.trans Finset.mem_erase (and_iff_right ?_)).symm
    intro heq
    exact hy (lookup_unique hu ht (Entry.mk.inj heq).2)

/-- Cancelling an id that does not wait leaves the map alone. -/
theorem pending_act_cancel {q : TimerQueue} {x : ActiveTimer} (hx : x ∉ q.activeTimers) :
    q.pending.act (.cancel x) = q.pending := by
  funext y
  by_cases hy : y = x
  · simp [Pending.act, hy, pending, hx]
  · simp [Pending.act, hy]

/-- `cancelInLoop` succeeds for every id, and takes that id out of the map. -/
theorem cancelInLoop_refines {q : TimerQueue} (h : q.Coherent []) (x : ActiveTimer) :
    ∃ q', q.cancelInLoop x = .ok q' ∧ q'.Coherent [] ∧ q'.pending = q.pending.act (.cancel x) := by
  rcases cancelInLoop_spec h x with ⟨t, ht, hseq, -, hq⟩ | ⟨hnot, hq⟩
  · exact ⟨_, hq, h.erased ht hseq, pending_erased h (lookup_eq_some.mpr ⟨ht, hseq⟩)⟩
  · rw [pending_act_cancel hnot]
    refine ⟨_, hq, ?_, ?_⟩
    · split
      · exact ⟨h.live, h.bounded, h.active_iff⟩
      · exact h
    · split <;> rfl

theorem pending_begun {q : TimerQueue} (h : q.Coherent []) {now : TimeStamp}
    {active : Finset ActiveTimer} (hcoh : (q.begun now active).Coherent []) :
    (q.begun now active).pending = q.pending.later now := by
  apply hcoh.pending_eq
  intro x t
  rw [Pending.later, Option.filter_eq_some_iff, h.pending_eq_some, begun_lookup, begun_timers,
    Finset.mem_filter, and_assoc]
  simp

theorem pending_restarted {q : TimerQueue} (h : q.Coherent []) {timer : Ptr} {t : Timer}
    {now : TimeStamp} (ht : q.heap timer = some t) (hcoh : (q.restarted timer t now).Coherent []) :
    (q.restarted timer t now).pending =
      Function.update q.pending ⟨timer, t.sequence⟩ (some (t.restart now)) := by
  have hid : q.lookup ⟨timer, t.sequence⟩ = some t := lookup_eq_some.mpr ⟨ht, rfl⟩
  exact h.pending_insert hcoh (restarted_lookup ht now) rfl fun x u hu hptr =>
    lookup_unique hu hid hptr

theorem pending_deleted {q : TimerQueue} (h : q.Coherent []) {timer : Ptr} {t : Timer}
    (ht : q.heap timer = some t) (habs : q.Absent timer) : (q.store timer none).pending = q.pending := by
  apply (h.store habs none).pending_eq
  intro x u
  rw [deleted_lookup ht, h.pending_eq_some]
  apply and_congr_left
  intro hmem
  have hx : x ≠ ⟨timer, t.sequence⟩ := by
    rintro rfl
    exact habs _ hmem rfl
  rw [Function.update_of_ne hx]

theorem rearm_pending (q : TimerQueue) (now next : TimeStamp) :
    (q.rearm now next).pending = q.pending := by
  funext x
  rw [pending, rearm_lookup]
  simp [rearm_eq, pending]

end TimerQueue

/-! ## Steps -/

/-- What the loop thread asks of the queue in a step. -/
def TimerMove.action? : TimerMove → Option Action
  | .act a => some a
  | _ => none

namespace TimerLoop

/-- The timers that have expired in this pass and are not reset yet. -/
def flying (s : TimerLoop) : Pending := fun x =>
  if ∃ e ∈ s.batch, e.second = x.timer then s.queue.lookup x else none

theorem flying_eq_some {s : TimerLoop} {x : ActiveTimer} {t : Timer} :
    s.flying x = some t ↔ s.queue.lookup x = some t ∧ ∃ e ∈ s.batch, e.second = x.timer := by
  unfold flying
  split
  · rename_i h
    exact (and_iff_left h).symm
  · rename_i h
    simp [h]

theorem flying_eq {s : TimerLoop} {m : Pending}
    (hm : ∀ x t, m x = some t ↔ s.queue.lookup x = some t ∧ ∃ e ∈ s.batch, e.second = x.timer) :
    s.flying = m := by
  funext x
  apply Option.ext
  intro t
  exact flying_eq_some.trans (hm x t).symm

/-- A timer that has expired does not wait. -/
theorem Inv.pending_none {s : TimerLoop} (h : s.Inv) {x : ActiveTimer} {t : Timer}
    (ht : s.flying x = some t) : s.queue.pending x = none := by
  obtain ⟨-, e, he, hptr⟩ := flying_eq_some.mp ht
  cases hx : s.queue.pending x with
  | none => rfl
  | some u =>
    obtain ⟨-, hmem⟩ := h.coherent.pending_eq_some.mp hx
    exact absurd hptr.symm (h.flying.absent e he _ hmem)

theorem flying_congr {s s' : TimerLoop}
    (hheap : ∀ e ∈ s.batch, s'.queue.heap e.second = s.queue.heap e.second)
    (hbatch : s'.batch = s.batch) : s'.flying = s.flying := by
  apply flying_eq
  intro x t
  rw [flying_eq_some, hbatch]
  apply and_congr_left
  rintro ⟨e, he, hptr⟩
  rw [TimerQueue.lookup_eq_some, TimerQueue.lookup_eq_some, ← hptr, hheap e he]

/-- Additions and cancellations leave the expired timers alone. -/
theorem act_heap {s s' : TimerLoop} (h : s.Inv) {a : Action} (hm : s.Moves (.act a) s')
    {e : Entry} (he : e ∈ s.batch) : s'.queue.heap e.second = s.queue.heap e.second := by
  cases hm with
  | @added timer t now hfree _ _ =>
    obtain ⟨u, hu⟩ := h.flying.live e he
    rw [TimerQueue.added_heap, Function.update_of_ne]
    rintro rfl
    simp [hfree] at hu
  | canceled _ hmem => exact Function.update_of_ne (h.flying.absent e he _ hmem).symm _ _
  | remembered => rfl
  | ignored => rfl

/-- An addition or a cancellation changes the map at its id. -/
theorem act_refines {s s' : TimerLoop} (h : s.Inv) {a : Action} (hm : s.Moves (.act a) s') :
    s'.queue.pending = s.queue.pending.act a ∧ s'.flying = s.flying := by
  refine ⟨?_, flying_congr (fun e he => act_heap h hm he) (by cases hm <;> rfl)⟩
  cases hm with
  | added hfree hb _ => exact TimerQueue.pending_added h.coherent hfree hb
  | canceled ht _ => exact TimerQueue.pending_erased h.coherent ht
  | remembered hx _ => exact (TimerQueue.pending_act_cancel hx).symm
  | ignored hx _ => exact (TimerQueue.pending_act_cancel hx).symm

theorem begin_refines {s s' : TimerLoop} (h : s.Inv) {now : TimeStamp}
    (hm : s.Moves (.beginPass now) s') :
    s'.queue.pending = s.queue.pending.later now ∧ s'.flying = s.queue.pending.expired now := by
  cases hm with
  | @begun _ active hp hcoh hf =>
    refine ⟨TimerQueue.pending_begun h.coherent hcoh, flying_eq ?_⟩
    intro x t
    simp only [batch, TimerQueue.begun_lookup, Pending.expired, Option.filter_eq_some_iff,
      h.coherent.pending_eq_some, TimerQueue.mem_expiredEntries h.coherent, decide_eq_true_eq,
      and_assoc]
    refine and_congr_right fun ht => ⟨?_, ?_⟩
    · rintro ⟨hmem, hle⟩
      exact ⟨_, hmem, hle, rfl⟩
    rintro ⟨e, he, hle, hptr⟩
    have heq : (⟨t.expiration, x.timer⟩ : Entry) = e := by
      rw [← hptr]
      exact h.coherent.entry_eq (.inl he) (hptr ▸ (TimerQueue.lookup_eq_some.mp ht).1)
    rw [← heq] at he hle
    exact ⟨he, hle⟩

/-- The timer `x` is put back, or deleted. -/
structure Resets (s s' : TimerLoop) (now : TimeStamp) (x : ActiveTimer) (t : Timer) : Prop where
  before : ∃ nextExpire todo, s.phase = .resetting now nextExpire todo
  after : ∃ nextExpire todo, s'.phase = .resetting now nextExpire todo
  expired : s.flying x = some t
  flying : s'.flying = Function.update s.flying x none
  pending : t.repeat_ = true ∧ x ∉ s.queue.cancelingTimers ∧
      s'.queue.pending = Function.update s.queue.pending x (some (t.restart now)) ∨
    ¬ (t.repeat_ = true ∧ x ∉ s.queue.cancelingTimers) ∧ s'.queue.pending = s.queue.pending

theorem reset_refines {s s' : TimerLoop} (h : s.Inv) {clock : TimeStamp}
    (hm : s.Moves (.reset clock) s') : ∃ now x t, Resets s s' now x t := by
  -- the timers that are left are for other addresses
  have hleft : ∀ {now nextExpire e todo t} {q : TimerQueue} (next : TimeStamp) {o : Option Timer},
      s.phase = .resetting now nextExpire (e :: todo) → s.queue.heap e.second = some t →
      q.lookup = Function.update s.queue.lookup ⟨e.second, t.sequence⟩ o →
      flying { s with queue := q, phase := .resetting now next todo } =
        Function.update s.flying ⟨e.second, t.sequence⟩ none := by
    intro now nextExpire e todo t q next o hp ht hq
    obtain ⟨hb, hne⟩ := batch_tail h hp
    apply flying_eq
    intro y u
    by_cases hy : y = ⟨e.second, t.sequence⟩
    · subst hy
      simp only [Function.update_self, reduceCtorEq, false_iff, not_and]
      rintro - ⟨f, hf, hptr⟩
      exact hne f hf hptr
    · rw [Function.update_of_ne hy, flying_eq_some, hq, Function.update_of_ne hy, hb]
      refine and_congr_right fun hu => ⟨fun ⟨f, hf, hptr⟩ => ⟨f, ?_, hptr⟩,
        fun ⟨f, hf, hptr⟩ => ⟨f, List.mem_cons_of_mem e hf, hptr⟩⟩
      refine (List.mem_cons.mp hf).resolve_left ?_
      rintro rfl
      have hid : s.queue.lookup ⟨f.second, t.sequence⟩ = some t :=
        TimerQueue.lookup_eq_some.mpr ⟨ht, rfl⟩
      exact hy (TimerQueue.lookup_unique hu hid hptr.symm)
  cases hm with
  | @restarted now nextExpire _ e todo t next hp ht hrep hcoh =>
    have he : e ∈ s.batch := by simp [batch, hp]
    refine ⟨now, ⟨e.second, t.sequence⟩, t, ⟨_, _, hp⟩, ⟨_, _, rfl⟩,
      flying_eq_some.mpr ⟨TimerQueue.lookup_eq_some.mpr ⟨ht, rfl⟩, e, he, rfl⟩, ?_, ?_⟩
    · exact hleft _ hp ht ((TimerQueue.rearm_lookup _ _ _).trans (TimerQueue.restarted_lookup ht now))
    · exact .inl ⟨hrep.1, hrep.2,
        (TimerQueue.rearm_pending _ _ _).trans (TimerQueue.pending_restarted h.coherent ht hcoh)⟩
  | @deleted now nextExpire _ e todo t next hp ht hrep hcoh =>
    have he : e ∈ s.batch := by simp [batch, hp]
    refine ⟨now, ⟨e.second, t.sequence⟩, t, ⟨_, _, hp⟩, ⟨_, _, rfl⟩,
      flying_eq_some.mpr ⟨TimerQueue.lookup_eq_some.mpr ⟨ht, rfl⟩, e, he, rfl⟩, ?_, ?_⟩
    · exact (flying_congr (fun _ _ => rfl) rfl).trans (hleft next hp ht
        ((TimerQueue.rearm_lookup _ _ _).trans (TimerQueue.deleted_lookup ht)))
    · exact .inr ⟨hrep, (TimerQueue.rearm_pending _ _ _).trans
        (TimerQueue.pending_deleted h.coherent ht (h.flying.absent e he))⟩

/-- To start a callback and to end the calls changes no timer. -/
theorem run_refines {s s' : TimerLoop} {m : TimerMove} (hm : s.Moves m s')
    (hrun : m = .run ∨ m = .endCalls) :
    s'.queue.pending = s.queue.pending ∧ s'.flying = s.flying ∧
      s'.queue.cancelingTimers = s.queue.cancelingTimers ∧ s'.added = s.added := by
  cases hm with
  | ran hp _ => exact ⟨rfl, flying_congr (fun _ _ => rfl) (by simp [batch, hp]), rfl, rfl⟩
  | endedCalls hp => exact ⟨rfl, flying_congr (fun _ _ => rfl) (by simp [batch, hp]), rfl, rfl⟩
  | _ => simp at hrun

/-- While the callbacks run, an expired timer is remembered as cancelled
exactly if it was cancelled in this pass. -/
theorem act_canceling {s s' : TimerLoop} (h : s.Inv) {a : Action} (hm : s.Moves (.act a) s')
    (hcall : s.queue.callingExpiredTimers = true) {x : ActiveTimer} {t : Timer}
    (hx : s.flying x = some t) :
    x ∈ s'.queue.cancelingTimers ↔ x ∈ s.queue.cancelingTimers ∨ a = .cancel x := by
  cases hm with
  | @added timer t' now _ _ _ =>
    simp only [reduceCtorEq, or_false]
    unfold TimerQueue.added
    split <;> rfl
  | @canceled y _ hy hmem =>
    have hne : y ≠ x := by
      rintro rfl
      have hpend := h.coherent.pending_eq_some.mpr ⟨hy, hmem⟩
      simp [h.pending_none hx] at hpend
    simp [TimerQueue.erased, TimerQueue.store, hne]
  | @remembered y _ _ => simp [or_comm, eq_comm]
  | ignored _ hnot => simp [hnot] at hcall

theorem reset_canceling {s s' : TimerLoop} {clock : TimeStamp} (hm : s.Moves (.reset clock) s') :
    s'.queue.cancelingTimers = s.queue.cancelingTimers := by
  cases hm with
  | restarted => simp [TimerQueue.rearm_eq, TimerQueue.restarted, TimerQueue.inserted, TimerQueue.store]
  | deleted => simp [TimerQueue.rearm_eq, TimerQueue.store]

/-! ## Whole passes -/

/-- In a pass that started with the map `m`, behind the actions `acts`. -/
inductive DuringPass (m : Pending) (now : TimeStamp) (acts : List Action) (s : TimerLoop) : Prop
  | calling {expired todo : List Entry} : s.phase = .calling now expired todo →
      s.queue.pending = acts.foldl Pending.act (m.later now) → s.flying = m.expired now →
      (∀ x t, s.flying x = some t → (x ∈ s.queue.cancelingTimers ↔ Action.cancel x ∈ acts)) →
      DuringPass m now acts s
  | resetting {nextExpire : TimeStamp} {todo : List Entry} :
      s.phase = .resetting now nextExpire todo →
      s.queue.pending = (fun x => (acts.foldl Pending.act (m.later now) x).or
        (if (s.flying x).isSome then none else m.restarted now acts x)) →
      (∀ x t, s.flying x = some t → m.expired now x = some t) →
      (∀ x t, s.flying x = some t → (x ∈ s.queue.cancelingTimers ↔ Action.cancel x ∈ acts)) →
      DuringPass m now acts s

theorem begin_during {s s' : TimerLoop} (h : s.Inv) {now : TimeStamp}
    (hm : s.Moves (.beginPass now) s') : DuringPass s.queue.pending now [] s' := by
  obtain ⟨hpending, hflying⟩ := begin_refines h hm
  cases hm with
  | begun hp hcoh hf =>
    exact .calling rfl hpending hflying fun x t _ => by simp [TimerQueue.begun]

theorem Pending.restarted_none {m : Pending} {now : TimeStamp} {acts : List Action}
    {x : ActiveTimer} (h : m.expired now x = none) : m.restarted now acts x = none := by
  simp [Pending.restarted, h]

theorem step_during {s s' : TimerLoop} {m : Pending} {now : TimeStamp} {acts : List Action}
    (h : s.Inv) (hd : DuringPass m now acts s) {mv : TimerMove} (hen : s.Enabled mv)
    (hm : s.Moves mv s') (hmv : mv ≠ .endPass) : DuringPass m now (acts ++ mv.action?.toList) s' := by
  cases hd with
  | @calling expired todo hp hpending hflying hcancel =>
    cases mv with
    | act a =>
      have hcall : s.queue.callingExpiredTimers = true := h.calling.mpr ⟨_, _, _, hp⟩
      obtain ⟨hpending', hflying'⟩ := act_refines h hm
      have hphase : s'.phase = s.phase := by cases hm <;> rfl
      refine .calling (hphase.trans hp) ?_ (hflying'.trans hflying) ?_
      · rw [hpending', hpending]
        simp [TimerMove.action?, List.foldl_append]
      · intro x t hx
        rw [hflying'] at hx
        rw [act_canceling h hm hcall hx, hcancel x t hx]
        simp [TimerMove.action?, eq_comm]
    | run =>
      obtain ⟨hpending', hflying', hcanceling, -⟩ := run_refines hm (.inl rfl)
      obtain ⟨todo', hphase⟩ : ∃ todo', s'.phase = .calling now expired todo' := by
        cases hm with
        | ran hp' _ =>
          obtain ⟨rfl, rfl, -⟩ := PassPhase.calling.inj (hp.symm.trans hp')
          exact ⟨_, rfl⟩
      change DuringPass m now (acts ++ []) _
      rw [List.append_nil]
      refine .calling hphase (hpending'.trans hpending) (hflying'.trans hflying) ?_
      intro x t hx
      rw [hcanceling]
      exact hcancel x t (hflying' ▸ hx)
    | endCalls =>
      obtain ⟨hpending', hflying', hcanceling, -⟩ := run_refines hm (.inr rfl)
      have hphase : s'.phase = .resetting now 0 expired := by
        cases hm with
        | endedCalls hp' =>
          obtain ⟨rfl, rfl, -⟩ := PassPhase.calling.inj (hp.symm.trans hp')
          rfl
      change DuringPass m now (acts ++ []) _
      rw [List.append_nil]
      refine .resetting hphase ?_ ?_ ?_
      · -- what restarts is still in flight
        rw [hpending', hpending, hflying', hflying]
        funext x
        cases hx : m.expired now x with
        | none => simp [Pending.restarted_none hx]
        | some t => simp
      · intro x t hx
        rw [← hflying, ← hflying']
        exact hx
      · intro x t hx
        rw [hcanceling]
        exact hcancel x t (hflying' ▸ hx)
    | beginPass _ => simp [Enabled, hp] at hen
    | reset _ => simp [Enabled, hp] at hen
    | endPass => exact absurd rfl hmv
  | @resetting nextExpire todo hp hpending hexpired hcancel =>
    cases mv with
    | reset clock =>
      obtain ⟨now', x, t, ⟨_, _, hp'⟩, ⟨_, _, hphase⟩, hx, hflying', hcases⟩ := reset_refines h hm
      obtain ⟨rfl, -⟩ := PassPhase.resetting.inj (hp.symm.trans hp')
      have hsub : ∀ y u, s'.flying y = some u → s.flying y = some u := by
        intro y u hy
        rw [hflying'] at hy
        by_cases hyx : y = x
        · simp [hyx] at hy
        · rwa [Function.update_of_ne hyx] at hy
      change DuringPass m now (acts ++ []) _
      rw [List.append_nil]
      refine .resetting hphase ?_ (fun y u hy => hexpired y u (hsub y u hy)) fun y u hy => ?_
      · have hnone : acts.foldl Pending.act (m.later now) x = none := by
          have hpx := h.pending_none hx
          rw [hpending] at hpx
          simpa using (Option.or_eq_none_iff.mp hpx).1
        have hrestarted : m.restarted now acts x =
            if t.repeat_ = true ∧ x ∉ s.queue.cancelingTimers then some (t.restart now) else none := by
          simp only [Pending.restarted, hexpired x t hx, hcancel x t hx]
          by_cases hc : Action.cancel x ∈ acts <;> by_cases hr : t.repeat_ = true <;>
            simp [hc, hr, Option.filter]
        funext y
        by_cases hyx : y = x
        · subst hyx
          simp only [hflying', Function.update_self, hnone, Option.none_or, hrestarted]
          rcases hcases with ⟨hr, hc, hp'⟩ | ⟨hn, hp'⟩
          · simp [hp', hr, hc]
          · rw [hp', h.pending_none hx, if_neg hn]
            simp
        · rw [hflying', Function.update_of_ne hyx]
          rcases hcases with ⟨-, -, hp'⟩ | ⟨-, hp'⟩
          · rw [hp', Function.update_of_ne hyx, hpending]
          · rw [hp', hpending]
      · rw [reset_canceling hm]
        exact hcancel y u (hsub y u hy)
    | act _ => exact absurd hp (hen.1 _ _ _)
    | run => simp [Enabled, hp] at hen
    | endCalls => simp [Enabled, hp] at hen
    | beginPass _ => simp [Enabled, hp] at hen
    | endPass => exact absurd rfl hmv

/-! ## Runs -/

theorem moves_of_step {s s' : TimerLoop} (h : s.Inv) {m : TimerMove} (hen : s.Enabled m)
    (hs : s.step m = .ok s') : s.Moves m s' := by
  obtain ⟨s₁, hs₁, hm⟩ := step_moves h hen
  cases hs₁.symm.trans hs
  exact hm

/-- What the two sets, the heap and the records say of each other. -/
structure Faithful (s : TimerLoop) : Prop where
  timers_live : ∀ e ∈ s.queue.timers, ∃ t, s.queue.heap e.second = some t ∧
    t.expiration = e.first ∧ ⟨e.second, t.sequence⟩ ∈ s.queue.activeTimers
  active_live : ∀ x ∈ s.queue.activeTimers, ∃ t, s.queue.heap x.timer = some t ∧
    t.sequence = x.sequence ∧ ⟨t.expiration, x.timer⟩ ∈ s.queue.timers
  distinct : (s.added.map ActiveTimer.sequence).Nodup
  deleted_once : s.deleted.Nodup
  deleted_iff : ∀ x ∈ s.added, x ∈ s.deleted ↔ ¬ s.queue.Alive x
  deleted_out : ∀ x ∈ s.deleted, x ∈ s.added ∧ x ∉ s.queue.activeTimers ∧
    ∀ e ∈ s.queue.timers, ∀ t, s.queue.heap e.second = some t →
      (⟨e.second, t.sequence⟩ : ActiveTimer) ≠ x
  alive_home : ∀ x, s.queue.Alive x → x ∈ s.added ∧
    (x ∈ s.queue.activeTimers ∨ ∃ t, s.flying x = some t)

theorem Inv.faithful {s : TimerLoop} (h : s.Inv) : s.Faithful := by
  have hdead : ∀ x ∈ s.deleted, ¬ s.queue.Alive x := fun x hx ha =>
    ((h.ledger.alive_iff x).mp ha).2 hx
  refine ⟨fun e he => ?_, fun x hx => ?_, h.fresh, h.ledger.died_nodup,
    fun x hx => ⟨hdead x, fun hn => ?_⟩,
    fun x hx => ⟨h.ledger.died_subset hx, fun hactive => ?_, fun e he t ht heq => ?_⟩,
    fun x hx => ⟨((h.ledger.alive_iff x).mp hx).1, ?_⟩⟩
  · obtain ⟨t, ht, hexp⟩ := h.coherent.live e (.inl he)
    refine ⟨t, ht, hexp, (h.coherent.active_iff _).mpr ⟨t, ht, rfl, .inl ?_⟩⟩
    rw [hexp]
    exact he
  · obtain ⟨t, ht, hseq, hmem⟩ := (h.coherent.active_iff x).mp hx
    exact ⟨t, ht, hseq, by simpa using hmem⟩
  · by_contra hd
    exact hn ((h.ledger.alive_iff x).mpr ⟨hx, hd⟩)
  · obtain ⟨t, ht, -⟩ := h.coherent.mem_active.mp hactive
    exact hdead x hx ⟨t, ht⟩
  · exact hdead x hx ⟨t, heq ▸ TimerQueue.lookup_eq_some.mpr ⟨ht, rfl⟩⟩
  · obtain ⟨t, ht⟩ := hx
    rcases h.home x.timer t (TimerQueue.lookup_eq_some.mp ht).1 with hmem | hbatch
    · exact .inl (h.coherent.mem_active.mpr ⟨t, ht, hmem⟩)
    · exact .inr ⟨t, flying_eq_some.mpr ⟨ht, hbatch⟩⟩

/-- A step succeeds, keeps the sets and records faithful, and does to the map
what it is for. -/
def Refines (s : TimerLoop) (m : TimerMove) (o : Checked TimerLoop) : Prop :=
  ∃ s', o = .ok s' ∧ s'.Faithful ∧ match m with
    | .act a => s'.queue.pending = s.queue.pending.act a ∧ s'.flying = s.flying
    | .beginPass now => ∃ expired q, (s.queue.readTimerfd now).getExpired now = .ok (expired, q) ∧
        s'.phase = .calling now expired expired ∧
        expired.Nodup ∧ expired.Pairwise (fun e f => e.first ≤ f.first) ∧
        ∀ e, e ∈ expired ↔ e ∈ s.queue.timers ∧ e.first ≤ now
    | _ => True

theorem step_refines {s : TimerLoop} (h : s.Inv) {m : TimerMove} (hen : s.Enabled m) :
    Refines s m (s.step m) := by
  obtain ⟨s', hs, hm⟩ := step_moves h hen
  refine ⟨s', hs, (step_inv h hm).faithful, ?_⟩
  cases m with
  | act a => exact act_refines h hm
  | beginPass now =>
    obtain ⟨active, hq, -, -⟩ :=
      TimerQueue.getExpired_spec (TimerQueue.readTimerfd_coherent h.coherent now) now
    have hexp : (s.queue.readTimerfd now).expiredEntries now = s.queue.expiredEntries now := by
      simp [TimerQueue.expiredEntries]
    refine ⟨_, _, hq, ?_, Finset.sort_nodup _ _, ?_, ?_⟩
    · rw [hexp]
      cases hm
      rfl
    · exact (Finset.pairwise_sort _ _).imp Entry.first_le
    · intro e
      rw [hexp]
      exact TimerQueue.mem_expiredEntries h.coherent
  | _ => trivial

theorem during_run {s t : TimerLoop} {m : Pending} {now : TimeStamp} {body : List TimerMove}
    (hrun : Run step s body t) (hen : Along step Enabled s body) (hno : .endPass ∉ body)
    {acts : List Action} (h : s.Inv) (hd : DuringPass m now acts s) :
    t.Inv ∧ DuringPass m now (acts ++ body.filterMap TimerMove.action?) t := by
  induction hrun generalizing acts with
  | nil => simpa using ⟨h, hd⟩
  | @cons s s' t mv body hs hrun ih =>
    have hm := moves_of_step h hen.1 hs
    have hmv : mv ≠ .endPass := fun heq => hno (heq ▸ List.mem_cons_self ..)
    obtain ⟨ht, hd'⟩ := ih (hen.2 _ hs) (fun hmem => hno (List.mem_cons_of_mem mv hmem))
      (step_inv h hm) (step_during h hd hen.1 hm hmv)
    refine ⟨ht, ?_⟩
    rw [List.append_assoc] at hd'
    cases ha : mv.action? with
    | none => simpa [ha] using hd'
    | some a => simpa [ha] using hd'

theorem along_cons {s : TimerLoop} {m : TimerMove} {moves : List TimerMove} (h : s.Inv)
    (hen : s.Enabled m) (hrest : ∀ s', s'.Inv → s.Moves m s' → Along step Enabled s' moves) :
    Along step Enabled s (m :: moves) :=
  ⟨hen, fun s' hs => hrest s' (step_inv h (moves_of_step h hen hs)) (moves_of_step h hen hs)⟩

theorem exists_run {s : TimerLoop} {moves : List TimerMove} (h : s.Inv)
    (hen : Along step Enabled s moves) : ∃ t, Run step s moves t ∧ t.Inv := by
  refine Run.progress ?_ h hen
  intro s m h hm
  obtain ⟨s', hs, hm⟩ := step_moves h hm
  exact ⟨s', hs, step_inv h hm⟩

/-- A whole pass does to the map what it is for. -/
theorem pass_refines {s : TimerLoop} {now : TimeStamp} {body : List TimerMove} (h : s.Inv)
    (hen : Along step Enabled s (.beginPass now :: (body ++ [.endPass])))
    (hno : .endPass ∉ body) :
    ∃ t, Run step s (.beginPass now :: (body ++ [.endPass])) t ∧
      t.queue.pending = s.queue.pending.handleRead now (body.filterMap TimerMove.action?) := by
  obtain ⟨s₁, hs₁, hm₁⟩ := step_moves h hen.1
  have hen₁ := hen.2 s₁ hs₁
  obtain ⟨s₂, hrun₂, -⟩ := exists_run (step_inv h hm₁) hen₁.left
  obtain ⟨h₂, hd⟩ := during_run hrun₂ hen₁.left hno (step_inv h hm₁) (begin_during h hm₁)
  obtain ⟨t, ht, hm⟩ := step_moves h₂ (hen₁.right hrun₂).1
  refine ⟨t, .cons hs₁ (hrun₂.append (.cons ht (.nil t))), ?_⟩
  cases hm with
  | endedPass hp =>
    cases hd with
    | calling hp' => simp [hp] at hp'
    | resetting _ hpending =>
      have hnone : ∀ x, s₂.flying x = none := fun x => by simp [flying, batch, hp]
      simp only [hnone, Option.isSome_none, Bool.false_eq_true, if_false] at hpending
      exact hpending

/-- `handleRead` succeeds, and does to the map what it is for. -/
theorem handleRead_refines {s : TimerLoop} (h : s.Inv) {pass : TimerQueue.Pass}
    (hen : Along step Enabled s (passMoves pass (s.queue.expiredEntries pass.now))) :
    ∃ q, s.queue.handleRead pass = .ok q ∧ q.pending = s.queue.pending.handleRead pass.now
      ((s.queue.expiredEntries pass.now).flatMap pass.callback) := by
  obtain ⟨active, hbegin, -, -⟩ := TimerQueue.beginPass_spec h.coherent pass.now
  let acts (e : Entry) : List TimerMove := .run :: (pass.callback e).map .act
  let body : List TimerMove := (s.queue.expiredEntries pass.now).flatMap acts ++
    .endCalls :: (s.queue.expiredEntries pass.now).map fun e => .reset (pass.clock e)
  have hmoves : passMoves pass (s.queue.expiredEntries pass.now) =
      .beginPass pass.now :: (body ++ [.endPass]) := rfl
  have hno : .endPass ∉ body := by simp [body, acts]
  have hbody : body.filterMap TimerMove.action? =
      (s.queue.expiredEntries pass.now).flatMap pass.callback := by
    have hacts : ∀ e, (acts e).filterMap TimerMove.action? = pass.callback e := by
      intro e
      simp [acts, List.filterMap_cons, TimerMove.action?, List.filterMap_map, Function.comp_def]
    simp [body, List.filterMap_append, List.filterMap_flatMap, hacts, List.filterMap_cons,
      TimerMove.action?, List.filterMap_map, Function.comp_def]
  rw [hmoves] at hen
  obtain ⟨t, hrun, hpending⟩ := pass_refines h hen hno
  exact ⟨t.queue, handleRead_of_run hbegin (hmoves ▸ hrun), hbody ▸ hpending⟩

/-- **Refinement.** In every run of additions, cancellations of any ids, and
passes whose callbacks add and cancel timers: no assertion fails and no deleted
timer is used; the two sets hold the same live timers under their keys; every
timer is deleted once; and additions, cancellations and whole passes do to the
map of pending timers what they are for. -/
theorem refines_pending (moves : List TimerMove) (hmoves : Along step Enabled new moves) :
    Steps step Refines new moves ∧
    ∀ before now body after, moves = before ++ (.beginPass now :: (body ++ [.endPass]) ++ after) →
      .endPass ∉ body → ∃ s t, Run step new before s ∧
        Run step s (.beginPass now :: (body ++ [.endPass])) t ∧
        t.queue.pending = s.queue.pending.handleRead now (body.filterMap TimerMove.action?) := by
  constructor
  · exact Steps.of_invariant (fun s m h hen => step_refines h hen)
      (fun s m s' h hen hs => step_inv h (moves_of_step h hen hs)) new_inv hmoves
  · rintro before now body after rfl hno
    obtain ⟨s, hrun, h⟩ := exists_run new_inv hmoves.left
    obtain ⟨t, hpass, hpending⟩ := pass_refines h (hmoves.right hrun).left hno
    exact ⟨s, t, hrun, hpass, hpending⟩

/-- A timer due at two seconds that repeats after half a second. -/
def halfSecond : Timer := ⟨2000000, 500000, true, 1⟩

theorem halfSecond_expired (now : TimeStamp) :
    (TimerQueue.new.added 1 halfSecond now).expiredEntries 2000000 = [⟨2000000, 1⟩] := by
  have hexpired : (TimerQueue.new.added 1 halfSecond now).timers.filter
      (· < TimerQueue.sentry 2000000) = {⟨2000000, 1⟩} := by
    rw [TimerQueue.added_timers]
    decide
  rw [TimerQueue.expiredEntries, hexpired, Finset.sort_singleton]

/-- The callback adds another timer and cancels its own. -/
theorem halfSecond_run :
    Along step Enabled new
      ([.act (.add 1 halfSecond 1000000), .act (.cancel ⟨7, 9⟩)] ++
        (.beginPass 2000000 :: ([.run, .act (.add 2 ⟨3000000, 0, false, 2⟩ 2000000),
          .act (.cancel ⟨1, 1⟩), .endCalls, .reset 2000000] ++ [.endPass]) ++ [])) := by
  refine along_cons new_inv ⟨by simp [new], ⟨rfl, by decide⟩, by simp [new]⟩ ?_
  intro s₁ h₁ hm₁
  cases hm₁
  refine along_cons h₁ ⟨by simp [new], trivial, by simp [Action.added]⟩ ?_
  intro s₂ h₂ hm₂
  cases hm₂ with
  | canceled hx _ => simp [TimerQueue.lookup, TimerQueue.added_heap, new, TimerQueue.new] at hx
  | remembered _ hcall => exact absurd hcall (by decide)
  | ignored _ _ =>
    refine along_cons h₂ rfl ?_
    intro s₃ h₃ hm₃
    cases hm₃
    simp only [new, halfSecond_expired] at h₃ ⊢
    refine along_cons h₃ ⟨_, _, _, _, rfl⟩ ?_
    intro s₄ h₄ hm₄
    cases hm₄ with
    | ran hp _ =>
      cases hp
      refine along_cons h₄ ⟨by simp, ⟨?_, by decide⟩, by simp [Action.added, halfSecond]⟩
        fun s₅ h₅ hm₅ => ?_
      · simp [TimerQueue.added_heap, TimerQueue.new]
      cases hm₅
      refine along_cons h₅ ⟨by simp, trivial, by simp [Action.added]⟩ ?_
      intro s₆ h₆ hm₆
      have hp₆ : s₆.phase = .calling 2000000 [⟨2000000, 1⟩] [] := by cases hm₆ <;> rfl
      refine along_cons h₆ ⟨_, _, hp₆⟩ ?_
      intro s₇ h₇ hm₇
      cases hm₇ with
      | endedCalls hp =>
        cases hp₆.symm.trans hp
        refine along_cons h₇ ⟨_, _, _, _, rfl⟩ ?_
        intro s₈ h₈ hm₈
        have hp₈ : ∃ now next, s₈.phase = .resetting now next [] := by
          cases hm₈ with
          | restarted next hp =>
            cases hp
            exact ⟨_, _, rfl⟩
          | deleted next hp =>
            cases hp
            exact ⟨_, _, rfl⟩
        exact along_cons h₈ hp₈ fun _ _ _ => trivial

theorem refines_pending_sample :
    Steps step Refines new [.act (.add 1 halfSecond 1000000), .act (.cancel ⟨7, 9⟩),
      .beginPass 2000000, .run, .act (.add 2 ⟨3000000, 0, false, 2⟩ 2000000), .act (.cancel ⟨1, 1⟩),
      .endCalls, .reset 2000000, .endPass] ∧
    ∃ s t, Run step new [.act (.add 1 halfSecond 1000000), .act (.cancel ⟨7, 9⟩)] s ∧
      Run step s [.beginPass 2000000, .run, .act (.add 2 ⟨3000000, 0, false, 2⟩ 2000000),
        .act (.cancel ⟨1, 1⟩), .endCalls, .reset 2000000, .endPass] t ∧
      t.queue.pending = s.queue.pending.handleRead 2000000
        [.add 2 ⟨3000000, 0, false, 2⟩ 2000000, .cancel ⟨1, 1⟩] :=
  ⟨(refines_pending _ halfSecond_run).1,
    (refines_pending _ halfSecond_run).2 _ _ _ _ rfl (by simp)⟩

end TimerLoop

end Muduo
