import Muduo.Lib.Ledger
import Muduo.TimerInvariant

/-!
The life of a `TimerQueue` in its loop thread, one call at a time: additions,
cancellations and passes of `handleRead`, whose callbacks add and cancel
timers. `added` and `deleted` record the timers; each addition stands for one
`new Timer`, and so has a sequence of its own.

* `step_moves`: what each step does to the queue, said once;
* `step_inv`: the invariant of all reachable states;
* `handleRead_of_run`: the steps of a pass compute `handleRead`.
-/

namespace Muduo

open Lib

/-- Where the loop thread is in `handleRead`. -/
inductive PassPhase where
  | idle
  /-- the callbacks; those of `todo` have not started -/
  | calling (now : TimeStamp) (expired todo : List Entry)
  | resetting (now nextExpire : TimeStamp) (todo : List Entry)

structure TimerLoop where
  queue : TimerQueue
  phase : PassPhase
  added : List ActiveTimer
  deleted : List ActiveTimer

inductive TimerMove where
  /-- outside a pass, or by the running callback -/
  | act (a : TimerQueue.Action)
  | beginPass (now : TimeStamp)
  /-- the next callback starts -/
  | run
  | endCalls
  /-- the next iteration of `reset` -/
  | reset (clock : TimeStamp)
  | endPass

namespace TimerQueue

/-- The timer that an id stands for, if it lives. -/
def lookup (q : TimerQueue) (x : ActiveTimer) : Option Timer :=
  (q.heap x.timer).filter (·.sequence = x.sequence)

def Alive (q : TimerQueue) (x : ActiveTimer) : Prop := ∃ t, q.lookup x = some t

/-- The timer at an address, if it was deleted on the way to `q'`. -/
def ended (q q' : TimerQueue) (timer : Ptr) : List ActiveTimer :=
  match q.heap timer, q'.heap timer with
  | some t, none => [⟨timer, t.sequence⟩]
  | _, _ => []

def Action.timer : Action → Ptr
  | .add timer _ _ => timer
  | .cancel x => x.timer

def Action.added : Action → List ActiveTimer
  | .add timer t _ => [⟨timer, t.sequence⟩]
  | .cancel _ => []

/-! ## Ids -/

theorem lookup_eq_some {q : TimerQueue} {x : ActiveTimer} {t : Timer} :
    q.lookup x = some t ↔ q.heap x.timer = some t ∧ t.sequence = x.sequence := by
  simp [lookup, Option.filter_eq_some_iff]

/-- A change of one address, as seen by the ids. -/
theorem lookup_store {q : TimerQueue} {timer : Ptr} {n : Nat} {o : Option Timer}
    (h : ∀ t ∈ q.heap timer, t.sequence = n) (ho : ∀ t ∈ o, t.sequence = n) :
    (q.store timer o).lookup = Function.update q.lookup ⟨timer, n⟩ o := by
  funext x
  by_cases hx : x = ⟨timer, n⟩
  · subst hx
    rw [Function.update_self, lookup]
    simp only [store, Function.update_self]
    cases o with
    | none => rfl
    | some t => simp [Option.filter, ho t rfl]
  · rw [Function.update_of_ne hx]
    by_cases hp : x.timer = timer
    · -- the address is the same, the sequence is not
      have hseq : n ≠ x.sequence := by
        rintro rfl
        exact hx (by rw [← hp])
      have hnone : ∀ o' : Option Timer, (∀ t ∈ o', t.sequence = n) →
          o'.filter (·.sequence = x.sequence) = none := by
        intro o' h'
        cases o' with
        | none => rfl
        | some t => simp [Option.filter, h' t rfl, hseq]
      rw [lookup, lookup, hp, hnone _ h]
      simp only [store, Function.update_self]
      exact hnone o ho
    · simp only [lookup, store, Function.update_of_ne hp]

theorem alive_update_some {q q' : TimerQueue} {x : ActiveTimer} {t : Timer}
    (h : q'.lookup = Function.update q.lookup x (some t)) (y : ActiveTimer) :
    q'.Alive y ↔ y = x ∨ q.Alive y := by
  unfold Alive
  rw [h]
  by_cases hy : y = x
  · simp [hy]
  · simp [hy]

theorem alive_update_none {q q' : TimerQueue} {x : ActiveTimer}
    (h : q'.lookup = Function.update q.lookup x none) (y : ActiveTimer) :
    q'.Alive y ↔ y ≠ x ∧ q.Alive y := by
  unfold Alive
  rw [h]
  by_cases hy : y = x
  · simp [hy]
  · simp [hy]

theorem Coherent.mem_active {q : TimerQueue} (h : q.Coherent []) {x : ActiveTimer} :
    x ∈ q.activeTimers ↔ ∃ t, q.lookup x = some t ∧ ⟨t.expiration, x.timer⟩ ∈ q.timers := by
  simp [h.active_iff, lookup_eq_some, and_assoc]

@[simp] theorem begun_lookup (q : TimerQueue) (now : TimeStamp) (active : Finset ActiveTimer) :
    (q.begun now active).lookup = q.lookup := by
  funext x
  simp [lookup]

theorem lookup_congr {q q' : TimerQueue} (h : q'.heap = q.heap) : q'.lookup = q.lookup := by
  funext x
  simp [lookup, h]

theorem added_lookup {q : TimerQueue} {timer : Ptr} (h : q.heap timer = none) (t : Timer)
    (now : TimeStamp) :
    (q.added timer t now).lookup = Function.update q.lookup ⟨timer, t.sequence⟩ (some t) := by
  calc
    _ = (q.store timer (some t)).lookup := lookup_congr (added_heap q timer t now)
    _ = _ := lookup_store (by simp [h]) (by simp)

theorem erased_lookup {q : TimerQueue} {x : ActiveTimer} {t : Timer} (h : q.lookup x = some t) :
    (q.erased x t).lookup = Function.update q.lookup x none := by
  obtain ⟨ht, hseq⟩ := lookup_eq_some.mp h
  calc
    _ = (q.store x.timer none).lookup := lookup_congr rfl
    _ = _ := lookup_store (by simp [ht, hseq]) (by simp)

theorem restarted_lookup {q : TimerQueue} {timer : Ptr} {t : Timer} (h : q.heap timer = some t)
    (now : TimeStamp) :
    (q.restarted timer t now).lookup =
      Function.update q.lookup ⟨timer, t.sequence⟩ (some (t.restart now)) := by
  calc
    _ = (q.store timer (some (t.restart now))).lookup := lookup_congr rfl
    _ = _ := lookup_store (by simp [h]) (by simp [Timer.restart])

theorem deleted_lookup {q : TimerQueue} {timer : Ptr} {t : Timer} (h : q.heap timer = some t) :
    (q.store timer none).lookup = Function.update q.lookup ⟨timer, t.sequence⟩ none :=
  lookup_store (by simp [h]) (by simp)

@[simp] theorem rearm_heap (q : TimerQueue) (now next : TimeStamp) :
    (q.rearm now next).heap = q.heap := by
  simp [rearm_eq]

@[simp] theorem rearm_timers (q : TimerQueue) (now next : TimeStamp) :
    (q.rearm now next).timers = q.timers := by
  simp [rearm_eq]

@[simp] theorem rearm_lookup (q : TimerQueue) (now next : TimeStamp) :
    (q.rearm now next).lookup = q.lookup :=
  lookup_congr (rearm_heap q now next)

theorem Coherent.rearm {q : TimerQueue} (h : q.Coherent []) (now next : TimeStamp) :
    (q.rearm now next).Coherent [] := by
  rw [rearm_eq]
  exact ⟨h.live, h.bounded, h.active_iff⟩

theorem Flying.rearm {q : TimerQueue} {batch : List Entry} (h : q.Flying batch)
    (now next : TimeStamp) : (q.rearm now next).Flying batch := by
  rw [rearm_eq]
  exact ⟨h.live, h.absent, h.bounded⟩

end TimerQueue

open TimerQueue (Action CallStep Pass)

namespace TimerLoop

def new : TimerLoop := ⟨.new, .idle, [], []⟩

/-- The expired timers that are in neither set. -/
def batch (s : TimerLoop) : List Entry :=
  match s.phase with
  | .idle => []
  | .calling _ expired _ => expired
  | .resetting _ _ todo => todo

/-- The expired timers whose callbacks have not started. -/
def todo (s : TimerLoop) : List Entry :=
  match s.phase with
  | .calling _ _ todo => todo
  | _ => []

def step (s : TimerLoop) : TimerMove → Checked TimerLoop
  | .act a => do
    let q ← s.queue.act a
    return { s with
      queue := q
      added := s.added ++ a.added
      deleted := s.deleted ++ s.queue.ended q a.timer }
  | .beginPass now => do
    let (expired, q) ← s.queue.beginPass now
    return { s with queue := q, phase := .calling now expired expired }
  | .run =>
    match s.phase with
    | .calling now expired (e :: todo) => do
      let q ← s.queue.callStep (.run e.second)
      return { s with queue := q, phase := .calling now expired todo }
    | _ => return s
  | .endCalls =>
    match s.phase with
    | .calling now expired _ => return { s with
        queue := { s.queue with callingExpiredTimers := false }
        phase := .resetting now 0 expired }
    | _ => return s
  | .reset clock =>
    match s.phase with
    | .resetting now nextExpire (e :: todo) => do
      let (q, nextExpire) ←
        TimerQueue.resetStep ⟨now, fun _ => [], fun _ => clock⟩ (s.queue, nextExpire) e
      return { s with
        queue := q
        phase := .resetting now nextExpire todo
        deleted := s.deleted ++ s.queue.ended q e.second }
    | _ => return s
  | .endPass => return { s with phase := .idle }

/-- An addition gets a free address from `new`, and a sequence that no timer
had before. -/
def Enabled (s : TimerLoop) : TimerMove → Prop
  | .act a => (∀ now nextExpire todo, s.phase ≠ .resetting now nextExpire todo) ∧
      s.queue.ActAllowed a ∧ ∀ x ∈ a.added, ∀ y ∈ s.added, y.sequence ≠ x.sequence
  | .beginPass _ => s.phase = .idle
  | .run => ∃ now expired e todo, s.phase = .calling now expired (e :: todo)
  | .endCalls => ∃ now expired, s.phase = .calling now expired []
  | .reset _ => ∃ now nextExpire e todo, s.phase = .resetting now nextExpire (e :: todo)
  | .endPass => ∃ now nextExpire, s.phase = .resetting now nextExpire []

/-! ## What a step does -/

/-- The outcome of each step, with its guards. -/
inductive Moves (s : TimerLoop) : TimerMove → TimerLoop → Prop
  | added {timer : Ptr} {t : Timer} {now : TimeStamp} :
      s.queue.heap timer = none → timer < UINTPTR_MAX →
      (∀ y ∈ s.added, y.sequence ≠ t.sequence) →
      Moves s (.act (.add timer t now)) { s with
        queue := s.queue.added timer t now
        added := s.added ++ [⟨timer, t.sequence⟩] }
  | canceled {x : ActiveTimer} {t : Timer} :
      s.queue.lookup x = some t → ⟨t.expiration, x.timer⟩ ∈ s.queue.timers →
      Moves s (.act (.cancel x)) { s with
        queue := s.queue.erased x t
        deleted := s.deleted ++ [x] }
  | remembered {x : ActiveTimer} : x ∉ s.queue.activeTimers → s.queue.callingExpiredTimers = true →
      Moves s (.act (.cancel x)) { s with
        queue := { s.queue with cancelingTimers := Insert.insert x s.queue.cancelingTimers } }
  | ignored {x : ActiveTimer} : x ∉ s.queue.activeTimers → s.queue.callingExpiredTimers = false →
      Moves s (.act (.cancel x)) s
  | begun {now : TimeStamp} {active : Finset ActiveTimer} : s.phase = .idle →
      (s.queue.begun now active).Coherent [] →
      (s.queue.begun now active).Flying (s.queue.expiredEntries now) →
      Moves s (.beginPass now) { s with
        queue := s.queue.begun now active
        phase := .calling now (s.queue.expiredEntries now) (s.queue.expiredEntries now) }
  | ran {now : TimeStamp} {expired todo : List Entry} {e : Entry} {t : Timer} :
      s.phase = .calling now expired (e :: todo) → s.queue.heap e.second = some t →
      Moves s .run { s with
        queue := { s.queue with ran := s.queue.ran ++ [⟨e.second, t.sequence⟩] }
        phase := .calling now expired todo }
  | endedCalls {now : TimeStamp} {expired : List Entry} : s.phase = .calling now expired [] →
      Moves s .endCalls { s with
        queue := { s.queue with callingExpiredTimers := false }
        phase := .resetting now 0 expired }
  | restarted {now nextExpire clock : TimeStamp} {e : Entry} {todo : List Entry} {t : Timer}
      (next : TimeStamp) :
      s.phase = .resetting now nextExpire (e :: todo) → s.queue.heap e.second = some t →
      s.queue.Repeats e.second t → (s.queue.restarted e.second t now).Coherent [] →
      Moves s (.reset clock) { s with
        queue := (s.queue.restarted e.second t now).rearm clock next
        phase := .resetting now next todo }
  | deleted {now nextExpire clock : TimeStamp} {e : Entry} {todo : List Entry} {t : Timer}
      (next : TimeStamp) :
      s.phase = .resetting now nextExpire (e :: todo) → s.queue.heap e.second = some t →
      ¬ s.queue.Repeats e.second t → (s.queue.store e.second none).Coherent [] →
      Moves s (.reset clock) { s with
        queue := (s.queue.store e.second none).rearm clock next
        phase := .resetting now next todo
        deleted := s.deleted ++ [⟨e.second, t.sequence⟩] }
  | endedPass {now nextExpire : TimeStamp} : s.phase = .resetting now nextExpire [] →
      Moves s .endPass { s with phase := .idle }

/-! ## The invariant -/

structure Inv (s : TimerLoop) : Prop where
  coherent : s.queue.Coherent []
  flying : s.queue.Flying s.batch
  nodup : (s.batch.map Entry.second).Nodup
  suffix : s.todo <:+ s.batch
  calling : s.queue.callingExpiredTimers = true ↔
    ∃ now expired todo, s.phase = .calling now expired todo
  /-- a timer that lives waits, or has expired in this pass -/
  home : ∀ timer t, s.queue.heap timer = some t →
    ⟨t.expiration, timer⟩ ∈ s.queue.timers ∨ ∃ e ∈ s.batch, e.second = timer
  ledger : Ledger s.queue.Alive s.added s.deleted
  fresh : (s.added.map ActiveTimer.sequence).Nodup

theorem new_inv : new.Inv := by
  refine ⟨TimerQueue.new_coherent, ⟨?_, ?_, ?_⟩, List.nodup_nil, List.suffix_rfl, ?_, ?_,
    Ledger.empty ?_, List.nodup_nil⟩ <;>
    simp [new, batch, TimerQueue.new, TimerQueue.Alive, TimerQueue.lookup]

/-- Every allowed step succeeds. -/
theorem step_moves {s : TimerLoop} (h : s.Inv) {m : TimerMove} (hm : s.Enabled m) :
    ∃ s', s.step m = .ok s' ∧ s.Moves m s' := by
  cases m with
  | act a =>
    obtain ⟨-, hact, hfresh⟩ := hm
    cases a with
    | add timer t now =>
      have hq := (TimerQueue.act_add h.coherent hact).1
      have hended : s.queue.ended (s.queue.added timer t now) timer = [] := by
        simp [TimerQueue.ended, hact.1]
      refine ⟨_, ?_, .added hact.1 hact.2 (by simpa [Action.added] using hfresh)⟩
      simp only [step, hq, ok_bind, pure_eq_ok, Action.added, Action.timer, hended, List.append_nil]
    | cancel x =>
      rcases TimerQueue.cancelInLoop_spec h.coherent x with ⟨t, ht, hseq, hmem, hq⟩ | ⟨hnot, hq⟩
      · have hended : s.queue.ended (s.queue.erased x t) x.timer = [x] := by
          simp [TimerQueue.ended, TimerQueue.erased, TimerQueue.store, ht, hseq]
        refine ⟨_, ?_, .canceled (TimerQueue.lookup_eq_some.mpr ⟨ht, hseq⟩) hmem⟩
        simp only [step, TimerQueue.act, hq, ok_bind, pure_eq_ok, Action.added, Action.timer, hended,
          List.append_nil]
      · have hended : ∀ q', q'.heap = s.queue.heap → s.queue.ended q' x.timer = [] := by
          intro q' hheap
          simp only [TimerQueue.ended, hheap]
          cases s.queue.heap x.timer <;> rfl
        cases hcall : s.queue.callingExpiredTimers with
        | true =>
          refine ⟨_, ?_, .remembered hnot hcall⟩
          simp [step, TimerQueue.act, hq, hcall, Action.added, Action.timer, hended]
        | false =>
          refine ⟨_, ?_, .ignored hnot hcall⟩
          simp [step, TimerQueue.act, hq, hcall, Action.added, Action.timer, hended]
  | beginPass now =>
    obtain ⟨active, hq, hcoh, hf⟩ := TimerQueue.beginPass_spec h.coherent now
    refine ⟨_, ?_, .begun hm hcoh hf⟩
    simp only [step, hq, ok_bind, pure_eq_ok]
  | run =>
    obtain ⟨now, expired, e, todo, hp⟩ := hm
    have he : e ∈ s.batch := h.suffix.subset (by simp [TimerLoop.todo, hp])
    obtain ⟨t, ht⟩ := h.flying.live e he
    refine ⟨_, ?_, .ran hp ht⟩
    simp only [step, hp, TimerQueue.callStep, TimerQueue.deref_eq ht, ok_bind, pure_eq_ok]
  | endCalls =>
    obtain ⟨now, expired, hp⟩ := hm
    exact ⟨_, by simp only [step, hp, pure_eq_ok], .endedCalls hp⟩
  | reset clock =>
    obtain ⟨now, nextExpire, e, todo, hp⟩ := hm
    have he : e ∈ s.batch := by simp [batch, hp]
    obtain ⟨t, ht⟩ := h.flying.live e he
    rcases TimerQueue.resetTimer_cases h.coherent ht (h.flying.bounded e he) (h.flying.absent e he) now
      with ⟨hrep, hq, hcoh⟩ | ⟨hrep, hq, hcoh⟩
    · obtain ⟨next, hnext, -⟩ := TimerQueue.nextExpire_spec hcoh nextExpire
      have hended : s.queue.ended ((s.queue.restarted e.second t now).rearm clock next) e.second =
          [] := by
        simp [TimerQueue.ended, TimerQueue.restarted, TimerQueue.inserted, TimerQueue.store,
          TimerQueue.rearm_eq, ht]
      refine ⟨_, ?_, .restarted next hp ht hrep hcoh⟩
      simp only [step, hp, TimerQueue.resetStep, hq, hnext, ok_bind, pure_eq_ok, hended,
        List.append_nil]
    · obtain ⟨next, hnext, -⟩ := TimerQueue.nextExpire_spec hcoh nextExpire
      have hended : s.queue.ended ((s.queue.store e.second none).rearm clock next) e.second =
          [⟨e.second, t.sequence⟩] := by
        simp [TimerQueue.ended, TimerQueue.store, TimerQueue.rearm_eq, ht]
      refine ⟨_, ?_, .deleted next hp ht hrep hcoh⟩
      simp only [step, hp, TimerQueue.resetStep, hq, hnext, ok_bind, pure_eq_ok, hended]
  | endPass =>
    obtain ⟨now, nextExpire, hp⟩ := hm
    exact ⟨_, rfl, .endedPass hp⟩

/-- The batch of a pass without its first timer. -/
theorem batch_tail {s : TimerLoop} (h : s.Inv) {now nextExpire : TimeStamp} {e : Entry}
    {todo : List Entry} (hp : s.phase = .resetting now nextExpire (e :: todo)) :
    s.batch = e :: todo ∧ ∀ f ∈ todo, f.second ≠ e.second := by
  have hb : s.batch = e :: todo := by simp [batch, hp]
  have hnodup := h.nodup
  rw [hb] at hnodup
  exact ⟨hb, fun f hf heq => (List.nodup_cons.mp hnodup).1 (heq ▸ List.mem_map_of_mem hf)⟩

theorem not_calling_of_resetting {s : TimerLoop} (h : s.Inv) {now nextExpire : TimeStamp}
    {todo : List Entry} (hp : s.phase = .resetting now nextExpire todo) :
    s.queue.callingExpiredTimers = false := by
  have hcalling := h.calling
  simpa [hp] using hcalling

/-- An addition, in a pass or outside. -/
theorem added_inv {s : TimerLoop} (h : s.Inv) {timer : Ptr} {t : Timer} {now : TimeStamp}
    (hfree : s.queue.heap timer = none) (hb : timer < UINTPTR_MAX)
    (hfresh : ∀ y ∈ s.added, y.sequence ≠ t.sequence) :
    Inv { s with
      queue := s.queue.added timer t now
      added := s.added ++ [⟨timer, t.sequence⟩] } := by
  have hact : s.queue.ActAllowed (.add timer t now) := ⟨hfree, hb⟩
  have hheap := TimerQueue.added_heap s.queue timer t now
  refine ⟨(TimerQueue.act_add h.coherent hact).2, h.flying.added hfree t now, h.nodup, h.suffix, ?_,
    fun p u hu => ?_, ?_, ?_⟩
  · rw [← h.calling]
    unfold TimerQueue.added
    split <;> rfl
  · rw [TimerQueue.added_timers]
    simp only [hheap] at hu
    by_cases hp : p = timer
    · subst hp
      obtain rfl : t = u := by simpa using hu
      exact .inl (Finset.mem_insert_self _ _)
    · rw [Function.update_of_ne hp] at hu
      exact (h.home p u hu).imp_left Finset.mem_insert_of_mem
  · refine h.ledger.birth (fun hx => hfresh _ hx rfl) ?_
    exact TimerQueue.alive_update_some (TimerQueue.added_lookup hfree t now)
  · rw [List.map_append]
    refine h.fresh.append (List.nodup_singleton _) ?_
    simpa using fun y hy hseq => hfresh y hy hseq

/-- The cancellation of a timer that waits. -/
theorem canceled_inv {s : TimerLoop} (h : s.Inv) {x : ActiveTimer} {t : Timer}
    (ht : s.queue.lookup x = some t) (hmem : ⟨t.expiration, x.timer⟩ ∈ s.queue.timers) :
    Inv { s with
      queue := s.queue.erased x t
      deleted := s.deleted ++ [x] } := by
  obtain ⟨hheap, hseq⟩ := TimerQueue.lookup_eq_some.mp ht
  have hother : ∀ e ∈ s.batch, e.second ≠ x.timer := fun e he => (h.flying.absent e he _ hmem).symm
  refine ⟨h.coherent.erased hheap hseq, ⟨fun e he => ?_, fun e he f hf => ?_, h.flying.bounded⟩,
    h.nodup, h.suffix, h.calling, fun p u hu => ?_, ?_, h.fresh⟩
  · simpa [TimerQueue.erased, TimerQueue.store, Function.update_of_ne (hother e he)]
      using h.flying.live e he
  · exact h.flying.absent e he f (Finset.mem_of_mem_erase hf)
  · by_cases hp : p = x.timer
    · simp [TimerQueue.erased, TimerQueue.store, hp] at hu
    · have hu' : s.queue.heap p = some u := by
        simpa [TimerQueue.erased, TimerQueue.store, Function.update_of_ne hp] using hu
      refine (h.home p u hu').imp_left fun hm => Finset.mem_erase.mpr ⟨fun heq => ?_, hm⟩
      exact hp (Entry.mk.inj heq).2
  · exact h.ledger.death ⟨t, ht⟩ (TimerQueue.alive_update_none (TimerQueue.erased_lookup ht))

/-- A step that leaves the timers and the batch alone. -/
theorem Inv.congr {s s' : TimerLoop} (h : s.Inv) (hheap : s'.queue.heap = s.queue.heap)
    (htimers : s'.queue.timers = s.queue.timers)
    (hactive : s'.queue.activeTimers = s.queue.activeTimers) (hbatch : s'.batch = s.batch)
    (hsuffix : s'.todo <:+ s'.batch) (hcalling : s'.queue.callingExpiredTimers = true ↔
      ∃ now expired todo, s'.phase = .calling now expired todo)
    (hadded : s'.added = s.added) (hdeleted : s'.deleted = s.deleted) : s'.Inv := by
  obtain ⟨hc, hf, hn, -, -, hh, hl, hr⟩ := h
  refine ⟨⟨?_, ?_, ?_⟩, ⟨?_, ?_, ?_⟩, hbatch ▸ hn, hsuffix, hcalling, ?_, ?_, hadded ▸ hr⟩
  · simpa only [hheap, htimers] using hc.live
  · simpa only [htimers] using hc.bounded
  · simpa only [hheap, htimers, hactive] using hc.active_iff
  · simpa only [hheap, hbatch] using hf.live
  · simpa only [TimerQueue.Absent, htimers, hbatch] using hf.absent
  · simpa only [hbatch] using hf.bounded
  · simpa only [hheap, htimers, hbatch] using hh
  · rw [hadded, hdeleted]
    exact hl.congr fun x => by simp only [TimerQueue.Alive, TimerQueue.lookup_congr hheap]

/-- Every allowed step keeps the invariant. -/
theorem step_inv {s s' : TimerLoop} (h : s.Inv) {m : TimerMove} (hm : s.Moves m s') : s'.Inv := by
  cases hm with
  | added hfree hb hfresh => exact added_inv h hfree hb hfresh
  | canceled ht hmem => exact canceled_inv h ht hmem
  | remembered _ _ => exact h.congr rfl rfl rfl rfl h.suffix h.calling rfl rfl
  | ignored _ _ => exact h
  | @begun now active hp hcoh hf =>
    refine ⟨hcoh, hf, TimerQueue.expiredEntries_nodup h.coherent now, List.suffix_rfl,
      iff_of_true rfl ⟨_, _, _, rfl⟩, fun p t ht => ?_, ?_, h.fresh⟩
    · have hhome := h.home p t (by simpa using ht)
      simp only [batch, hp, List.not_mem_nil, false_and, exists_false, or_false] at hhome
      simp only [batch, TimerQueue.begun_timers, Finset.mem_filter]
      by_cases hle : t.expiration ≤ now
      · exact .inr ⟨_, (TimerQueue.mem_expiredEntries h.coherent).mpr ⟨hhome, hle⟩, rfl⟩
      · exact .inl ⟨hhome, not_le.mp hle⟩
    · exact h.ledger.congr fun x => by simp [TimerQueue.Alive]
  | @ran now expired todo e t hp _ =>
    have hsuffix := h.suffix
    simp only [TimerLoop.todo, batch, hp] at hsuffix
    refine h.congr rfl rfl rfl (by simp [batch, hp]) ((List.suffix_cons e todo).trans hsuffix) ?_
      rfl rfl
    exact iff_of_true (h.calling.mpr ⟨_, _, _, hp⟩) ⟨_, _, _, rfl⟩
  | endedCalls hp =>
    exact h.congr rfl rfl rfl (by simp [batch, hp]) (List.nil_suffix) (by simp) rfl rfl
  | @restarted now nextExpire clock e todo t next hp ht hrep hcoh =>
    obtain ⟨hb, hne⟩ := batch_tail h hp
    have hnodup := h.nodup
    rw [hb] at hnodup
    have hf : (s.queue.restarted e.second t now).Flying todo := by
      refine ⟨?_, ?_, fun f hf => h.flying.bounded f (by simp [hb, hf])⟩
      · intro f hf
        simpa [TimerQueue.restarted, TimerQueue.inserted, TimerQueue.store,
          Function.update_of_ne (hne f hf)] using h.flying.live f (by simp [hb, hf])
      · intro f hf g hg
        rcases Finset.mem_insert.mp hg with rfl | hg
        · exact (hne f hf).symm
        · exact h.flying.absent f (by simp [hb, hf]) g hg
    refine ⟨hcoh.rearm clock next, hf.rearm clock next, (List.nodup_cons.mp hnodup).2,
      List.nil_suffix, ?_, fun p u hu => ?_, ?_, h.fresh⟩
    · simpa [TimerQueue.rearm_eq, TimerQueue.restarted, TimerQueue.inserted, TimerQueue.store]
        using not_calling_of_resetting h hp
    · simp only [TimerQueue.rearm_heap, TimerQueue.rearm_timers, batch] at hu ⊢
      by_cases hpe : p = e.second
      · subst hpe
        obtain rfl : t.restart now = u := by
          simpa [TimerQueue.restarted, TimerQueue.inserted, TimerQueue.store] using hu
        exact .inl (Finset.mem_insert_self _ _)
      · have hu' : s.queue.heap p = some u := by
          simpa [TimerQueue.restarted, TimerQueue.inserted, TimerQueue.store,
            Function.update_of_ne hpe] using hu
        rcases h.home p u hu' with hm | ⟨f, hf, rfl⟩
        · exact .inl (Finset.mem_insert_of_mem hm)
        · rw [hb] at hf
          exact .inr ⟨f, (List.mem_cons.mp hf).resolve_left (by rintro rfl; exact hpe rfl), rfl⟩
    · apply h.ledger.congr
      intro y
      rw [TimerQueue.alive_update_some
        ((TimerQueue.rearm_lookup _ clock next).trans (TimerQueue.restarted_lookup ht now))]
      refine or_iff_right_of_imp ?_
      rintro rfl
      exact ⟨t, TimerQueue.lookup_eq_some.mpr ⟨ht, rfl⟩⟩
  | @deleted now nextExpire clock e todo t next hp ht hrep hcoh =>
    obtain ⟨hb, hne⟩ := batch_tail h hp
    have hnodup := h.nodup
    rw [hb] at hnodup
    have hf : (s.queue.store e.second none).Flying todo := by
      refine ⟨?_, ?_, fun f hf => h.flying.bounded f (by simp [hb, hf])⟩
      · intro f hf
        simpa [TimerQueue.store, Function.update_of_ne (hne f hf)]
          using h.flying.live f (by simp [hb, hf])
      · intro f hf g hg
        exact h.flying.absent f (by simp [hb, hf]) g hg
    refine ⟨hcoh.rearm clock next, hf.rearm clock next, (List.nodup_cons.mp hnodup).2,
      List.nil_suffix, ?_, fun p u hu => ?_, ?_, h.fresh⟩
    · simpa [TimerQueue.rearm_eq, TimerQueue.store] using not_calling_of_resetting h hp
    · simp only [TimerQueue.rearm_heap, TimerQueue.rearm_timers, batch] at hu ⊢
      by_cases hpe : p = e.second
      · simp [TimerQueue.store, hpe] at hu
      · have hu' : s.queue.heap p = some u := by
          simpa [TimerQueue.store, Function.update_of_ne hpe] using hu
        rcases h.home p u hu' with hm | ⟨f, hf, rfl⟩
        · exact .inl hm
        · rw [hb] at hf
          exact .inr ⟨f, (List.mem_cons.mp hf).resolve_left (by rintro rfl; exact hpe rfl), rfl⟩
    · refine h.ledger.death ⟨t, TimerQueue.lookup_eq_some.mpr ⟨ht, rfl⟩⟩ ?_
      exact TimerQueue.alive_update_none
        ((TimerQueue.rearm_lookup _ clock next).trans (TimerQueue.deleted_lookup ht))
  | @endedPass now nextExpire hp =>
    refine h.congr rfl rfl rfl (by simp [batch, hp]) List.nil_suffix ?_ rfl rfl
    simpa using not_calling_of_resetting h hp

/-! ## `handleRead` as a run -/

/-- The steps of one pass. -/
def passMoves (pass : Pass) (expired : List Entry) : List TimerMove :=
  .beginPass pass.now :: (expired.flatMap fun e => .run :: (pass.callback e).map .act) ++
    .endCalls :: expired.map (fun e => .reset (pass.clock e)) ++ [.endPass]

theorem acts_run {s s' : TimerLoop} {acts : List Action} (h : Run step s (acts.map .act) s') :
    (acts.map CallStep.act).foldlM TimerQueue.callStep s.queue = .ok s'.queue ∧
      s'.phase = s.phase := by
  induction acts generalizing s with
  | nil =>
    cases h
    exact ⟨rfl, rfl⟩
  | cons a acts ih =>
    cases h with
    | cons hs hrun =>
      obtain ⟨q, hq, hs⟩ := bind_eq_ok.mp hs
      cases hs
      obtain ⟨hfold, hp⟩ := ih hrun
      refine ⟨?_, hp⟩
      rw [List.map_cons, List.foldlM_cons, show s.queue.callStep (.act a) = .ok q from hq, ok_bind]
      exact hfold

theorem calls_run {s s' : TimerLoop} {now : TimeStamp} {expired todo : List Entry} {pass : Pass}
    (hp : s.phase = .calling now expired todo)
    (h : Run step s (todo.flatMap fun e => .run :: (pass.callback e).map .act) s') :
    (pass.calls todo).foldlM TimerQueue.callStep s.queue = .ok s'.queue ∧
      s'.phase = .calling now expired [] := by
  induction todo generalizing s with
  | nil =>
    cases h
    exact ⟨rfl, hp⟩
  | cons e todo ih =>
    have hcalls : pass.calls (e :: todo) =
        .run e.second :: ((pass.callback e).map CallStep.act ++ pass.calls todo) := by
      simp [Pass.calls]
    rw [List.flatMap_cons, List.cons_append] at h
    cases h with
    | cons hs hrun =>
      simp only [step, hp] at hs
      obtain ⟨q, hq, hs⟩ := bind_eq_ok.mp hs
      cases hs
      obtain ⟨s₁, hacts, htodo⟩ := hrun.split
      obtain ⟨hfold₁, hp₁⟩ := acts_run hacts
      obtain ⟨hfold, hp'⟩ := ih hp₁ htodo
      refine ⟨?_, hp'⟩
      rw [hcalls, List.foldlM_cons, hq, ok_bind, List.foldlM_append]
      exact bind_eq_ok.mpr ⟨_, hfold₁, hfold⟩

theorem resets_run {s s' : TimerLoop} {pass : Pass} {nextExpire : TimeStamp} {todo : List Entry}
    (hp : s.phase = .resetting pass.now nextExpire todo)
    (h : Run step s (todo.map fun e => .reset (pass.clock e)) s') :
    ∃ next, todo.foldlM (TimerQueue.resetStep pass) (s.queue, nextExpire) = .ok (s'.queue, next) := by
  induction todo generalizing s nextExpire with
  | nil =>
    cases h
    exact ⟨nextExpire, rfl⟩
  | cons e todo ih =>
    cases h with
    | cons hs hrun =>
      simp only [step, hp] at hs
      obtain ⟨⟨q, next⟩, hq, hs⟩ := bind_eq_ok.mp hs
      cases hs
      obtain ⟨next', hfold⟩ := ih rfl hrun
      refine ⟨next', ?_⟩
      rw [List.foldlM_cons]
      exact bind_eq_ok.mpr ⟨_, hq, hfold⟩

/-- The steps of a pass compute `handleRead`. -/
theorem handleRead_of_run {s s' : TimerLoop} {pass : Pass} {expired : List Entry} {q : TimerQueue}
    (hbegin : s.queue.beginPass pass.now = .ok (expired, q))
    (h : Run step s (passMoves pass expired) s') : s.queue.handleRead pass = .ok s'.queue := by
  rw [passMoves, List.append_assoc] at h
  cases h with
  | cons hs hrun =>
    simp only [step, hbegin, ok_bind, pure_eq_ok, Except.ok.injEq] at hs
    subst hs
    obtain ⟨s₂, hcalls, hrun⟩ := hrun.split
    obtain ⟨hfold, hp⟩ := calls_run rfl hcalls
    cases hrun with
    | cons hs hrun =>
      simp only [step, hp, pure_eq_ok, Except.ok.injEq] at hs
      subst hs
      obtain ⟨s₄, hresets, hrun⟩ := hrun.split
      obtain ⟨next, hreset⟩ := resets_run rfl hresets
      cases hrun with
      | cons hs hrun =>
        cases hs
        cases hrun
        refine bind_eq_ok.mpr ⟨_, hbegin, bind_eq_ok.mpr ⟨_, hfold, ?_⟩⟩
        exact bind_eq_ok.mpr ⟨_, hreset, rfl⟩

end TimerLoop

end Muduo
