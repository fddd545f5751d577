import Muduo.TimerQueue

/-!
What holds of a `TimerQueue` at every step. `timers_` and `activeTimers_` hold
the same live timers, each under its current expiration and its sequence; while
the callbacks of a pass run, the expired timers are alive and in neither set.

* `act_spec`: `addTimerInLoop` and `cancelInLoop`;
* `beginPass_spec`, `calls_spec`, `reset_loop`: the three parts of a pass.
-/

namespace Muduo

open Lib

namespace TimerQueue

/-- The two sets agree with the heap; `activeTimers_` also has the entries
`pending`, which `getExpired` has taken from `timers_` already. -/
structure Coherent (q : TimerQueue) (pending : List Entry) : Prop where
  live : ∀ e, e ∈ q.timers ∨ e ∈ pending →
    ∃ t, q.heap e.second = some t ∧ t.expiration = e.first
  bounded : ∀ e, e ∈ q.timers ∨ e ∈ pending → e.second < UINTPTR_MAX
  active_iff : ∀ x, x ∈ q.activeTimers ↔ ∃ t, q.heap x.timer = some t ∧ t.sequence = x.sequence ∧
    (⟨t.expiration, x.timer⟩ ∈ q.timers ∨ ⟨t.expiration, x.timer⟩ ∈ pending)

/-- No entry of `timers_` is for this address. -/
def Absent (q : TimerQueue) (timer : Ptr) : Prop := ∀ e ∈ q.timers, e.second ≠ timer

/-- The expired timers of a pass, while it runs. -/
structure Flying (q : TimerQueue) (batch : List Entry) : Prop where
  live : ∀ e ∈ batch, ∃ t, q.heap e.second = some t
  absent : ∀ e ∈ batch, q.Absent e.second
  bounded : ∀ e ∈ batch, e.second < UINTPTR_MAX

theorem new_coherent : new.Coherent [] := by
  refine ⟨?_, ?_, ?_⟩ <;> simp [new]

theorem deref_eq {q : TimerQueue} {timer : Ptr} {t : Timer} (h : q.heap timer = some t) :
    q.deref timer = .ok t := by
  rw [deref, h]

/-- An entry is determined by its address. -/
theorem Coherent.entry_eq {q : TimerQueue} {pending : List Entry} (h : q.Coherent pending)
    {e : Entry} (he : e ∈ q.timers ∨ e ∈ pending) {t : Timer} (ht : q.heap e.second = some t) :
    ⟨t.expiration, e.second⟩ = e := by
  obtain ⟨t', ht', hexp⟩ := h.live e he
  rw [ht] at ht'
  cases ht'
  rw [hexp]

theorem Coherent.sizes {q : TimerQueue} (h : q.Coherent []) :
    q.timers.card = q.activeTimers.card := by
  let id (e : Entry) : ActiveTimer := ⟨e.second, ((q.heap e.second).map Timer.sequence).getD 0⟩
  refine Finset.card_bij (fun e _ => id e) ?_ ?_ ?_
  · intro e he
    obtain ⟨t, ht, hexp⟩ := h.live e (.inl he)
    refine (h.active_iff _).mpr ⟨t, ht, by simp [id, ht], .inl ?_⟩
    rw [show (id e).timer = e.second from rfl, h.entry_eq (.inl he) ht]
    exact he
  · intro e he f hf hid
    obtain ⟨t, ht, _⟩ := h.live e (.inl he)
    have hptr : e.second = f.second := congrArg ActiveTimer.timer hid
    rw [← h.entry_eq (.inl he) ht, ← h.entry_eq (.inl hf) (hptr ▸ ht), hptr]
  · intro x hx
    obtain ⟨t, ht, hseq, hmem⟩ := (h.active_iff x).mp hx
    refine ⟨⟨t.expiration, x.timer⟩, by simpa using hmem, ?_⟩
    simp [id, ht, hseq]

theorem Coherent.checkSizes {q : TimerQueue} (h : q.Coherent []) (a : Assertion) :
    q.checkSizes a = .ok () :=
  check_pos h.sizes a

/-- Allocating or deleting a timer outside the two sets. -/
theorem Coherent.store {q : TimerQueue} (h : q.Coherent []) {timer : Ptr}
    (habs : q.Absent timer) (t : Option Timer) : (q.store timer t).Coherent [] := by
  have hother : ∀ e ∈ q.timers, (q.store timer t).heap e.second = q.heap e.second :=
    fun e he => Function.update_of_ne (habs e he) _ _
  refine ⟨?_, h.bounded, ?_⟩
  · intro e he
    rw [hother e (by simpa [TimerQueue.store] using he)]
    exact h.live e he
  · intro x
    constructor
    · intro hx
      obtain ⟨t', ht', hseq, hmem⟩ := (h.active_iff x).mp hx
      have he : (⟨t'.expiration, x.timer⟩ : Entry) ∈ q.timers := by simpa using hmem
      exact ⟨t', (hother _ he).trans ht', hseq, hmem⟩
    · rintro ⟨t', ht', hseq, hmem⟩
      have he : (⟨t'.expiration, x.timer⟩ : Entry) ∈ q.timers := by
        simpa [TimerQueue.store] using hmem
      exact (h.active_iff x).mpr ⟨t', (hother _ he).symm.trans ht', hseq, hmem⟩

/-! ## Insertion and removal -/

/-- The queue with a timer in both sets. -/
def inserted (q : TimerQueue) (timer : Ptr) (t : Timer) : TimerQueue :=
  { q with
    timers := Insert.insert ⟨t.expiration, timer⟩ q.timers
    activeTimers := Insert.insert ⟨timer, t.sequence⟩ q.activeTimers }

theorem Coherent.inserted {q : TimerQueue} (h : q.Coherent []) {timer : Ptr} {t : Timer}
    (ht : q.heap timer = some t) (hb : timer < UINTPTR_MAX) :
    (q.inserted timer t).Coherent [] := by
  refine ⟨?_, ?_, ?_⟩
  · intro e he
    rcases he with he | he
    · rcases Finset.mem_insert.mp he with rfl | he
      · exact ⟨t, ht, rfl⟩
      · exact h.live e (.inl he)
    · simp at he
  · intro e he
    rcases he with he | he
    · rcases Finset.mem_insert.mp he with rfl | he
      · exact hb
      · exact h.bounded e (.inl he)
    · simp at he
  · intro x
    constructor
    · intro hx
      rcases Finset.mem_insert.mp hx with rfl | hx
      · exact ⟨t, ht, rfl, .inl (Finset.mem_insert_self _ _)⟩
      · obtain ⟨t', ht', hseq, hmem⟩ := (h.active_iff x).mp hx
        exact ⟨t', ht', hseq, .inl (Finset.mem_insert_of_mem (by simpa using hmem))⟩
    · rintro ⟨t', ht', hseq, hmem⟩
      have hmem : (⟨t'.expiration, x.timer⟩ : Entry) ∈ (q.inserted timer t).timers := by
        simpa using hmem
      rcases Finset.mem_insert.mp hmem with heq | hmem
      · obtain ⟨-, rfl⟩ := Entry.mk.inj heq
        obtain rfl : t' = t := Option.some.inj (ht'.symm.trans ht)
        rw [show x = ⟨x.timer, t'.sequence⟩ by rw [hseq]]
        exact Finset.mem_insert_self _ _
      · exact Finset.mem_insert_of_mem ((h.active_iff x).mpr ⟨t', ht', hseq, .inl hmem⟩)

/-- A live timer that is in neither set can be inserted. -/
theorem insert_spec {q : TimerQueue} (h : q.Coherent []) {timer : Ptr} {t : Timer}
    (ht : q.heap timer = some t) (hb : timer < UINTPTR_MAX) (habs : q.Absent timer) :
    q.insert timer = .ok (q.inserted timer t, decide (q.begin? = none)) := by
  have htimers : (⟨t.expiration, timer⟩ : Entry) ∉ q.timers := fun he => habs _ he rfl
  have hactive : (⟨timer, t.sequence⟩ : ActiveTimer) ∉ q.activeTimers := by
    intro hx
    obtain ⟨t', -, -, hmem⟩ := (h.active_iff _).mp hx
    exact habs ⟨t'.expiration, timer⟩ (by simpa using hmem) rfl
  have hsizes := (h.inserted ht hb).checkSizes .timerInsert
  unfold insert
  rw [h.checkSizes, ok_bind, deref_eq ht, ok_bind, check_pos htimers, check_pos hactive, ok_bind,
    ok_bind]
  exact congrArg (· >>= fun _ => pure (q.inserted timer t, decide (q.begin? = none))) hsizes

/-- The queue without a timer. -/
def erased (q : TimerQueue) (timer : ActiveTimer) (t : Timer) : TimerQueue :=
  { q.store timer.timer none with
    timers := q.timers.erase ⟨t.expiration, timer.timer⟩
    activeTimers := q.activeTimers.erase timer }

theorem Coherent.erased {q : TimerQueue} (h : q.Coherent []) {timer : ActiveTimer} {t : Timer}
    (ht : q.heap timer.timer = some t) (hseq : t.sequence = timer.sequence) :
    (q.erased timer t).Coherent [] := by
  -- an entry that stays is for another address
  have hother : ∀ e ∈ q.timers, e ≠ ⟨t.expiration, timer.timer⟩ → e.second ≠ timer.timer := by
    intro e he hne hptr
    exact hne (by rw [← h.entry_eq (.inl he) (hptr ▸ ht), hptr])
  have hheap : ∀ p, p ≠ timer.timer → (q.erased timer t).heap p = q.heap p :=
    fun p hp => Function.update_of_ne hp _ _
  refine ⟨?_, ?_, ?_⟩
  · intro e he
    obtain ⟨hne, he⟩ := Finset.mem_erase.mp (he.resolve_right List.not_mem_nil)
    rw [hheap _ (hother e he hne)]
    exact h.live e (.inl he)
  · intro e he
    obtain ⟨-, he⟩ := Finset.mem_erase.mp (he.resolve_right List.not_mem_nil)
    exact h.bounded e (.inl he)
  · intro x
    constructor
    · intro hx
      obtain ⟨hne, hx⟩ := Finset.mem_erase.mp hx
      obtain ⟨t', ht', hseq', hmem⟩ := (h.active_iff x).mp hx
      have hptr : x.timer ≠ timer.timer := by
        intro hptr
        rw [hptr, ht] at ht'
        cases ht'
        refine hne ?_
        cases x
        cases timer
        simp_all
      refine ⟨t', (hheap _ hptr).trans ht', hseq', .inl (Finset.mem_erase.mpr ⟨?_, by simpa using hmem⟩)⟩
      intro heq
      exact hptr (Entry.mk.inj heq).2
    · rintro ⟨t', ht', hseq', hmem⟩
      obtain ⟨hne, hmem⟩ := Finset.mem_erase.mp (hmem.resolve_right List.not_mem_nil)
      have hptr := hother _ hmem hne
      rw [hheap _ hptr] at ht'
      refine Finset.mem_erase.mpr ⟨?_, (h.active_iff x).mpr ⟨t', ht', hseq', .inl hmem⟩⟩
      rintro rfl
      exact hptr rfl

/-- `cancelInLoop` deletes a pending timer, and remembers any other id while
callbacks run. -/
theorem cancelInLoop_spec {q : TimerQueue} (h : q.Coherent []) (timer : ActiveTimer) :
    (∃ t, q.heap timer.timer = some t ∧ t.sequence = timer.sequence ∧
      ⟨t.expiration, timer.timer⟩ ∈ q.timers ∧ q.cancelInLoop timer = .ok (q.erased timer t)) ∨
    timer ∉ q.activeTimers ∧ q.cancelInLoop timer = .ok (if q.callingExpiredTimers then
      { q with cancelingTimers := Insert.insert timer q.cancelingTimers } else q) := by
  by_cases hx : timer ∈ q.activeTimers
  · obtain ⟨t, ht, hseq, hmem⟩ := (h.active_iff timer).mp hx
    have hmem : (⟨t.expiration, timer.timer⟩ : Entry) ∈ q.timers := by simpa using hmem
    have hsizes := (h.erased ht hseq).checkSizes .cancelInLoop
    refine .inl ⟨t, ht, hseq, hmem, ?_⟩
    unfold cancelInLoop
    rw [h.checkSizes, ok_bind, if_pos hx, deref_eq ht, ok_bind, check_pos hmem, ok_bind]
    exact congrArg (· >>= fun _ => pure (q.erased timer t)) hsizes
  · refine .inr ⟨hx, ?_⟩
    have hsame : ∀ b : Bool, (if b then
        { q with cancelingTimers := Insert.insert timer q.cancelingTimers } else q).Coherent [] := by
      intro b
      cases b <;> exact ⟨h.live, h.bounded, h.active_iff⟩
    unfold cancelInLoop
    rw [h.checkSizes, ok_bind, if_neg hx]
    simp only [(hsame q.callingExpiredTimers).checkSizes, ok_bind, pure_eq_ok]

theorem begin?_eq_none {q : TimerQueue} : q.begin? = none ↔ q.timers = ∅ := by
  unfold begin?
  split
  · rename_i h
    simpa using h.ne_empty
  · rename_i h
    simpa using h

/-- The queue behind `addTimerInLoop` for a new timer. -/
def added (q : TimerQueue) (timer : Ptr) (t : Timer) (now : TimeStamp) : TimerQueue :=
  if q.timers = ∅ then ((q.store timer (some t)).inserted timer t).resetTimerfd now t.expiration
  else (q.store timer (some t)).inserted timer t

theorem added_timers (q : TimerQueue) (timer : Ptr) (t : Timer) (now : TimeStamp) :
    (q.added timer t now).timers = Insert.insert ⟨t.expiration, timer⟩ q.timers := by
  unfold added
  split <;> rfl

theorem added_heap (q : TimerQueue) (timer : Ptr) (t : Timer) (now : TimeStamp) :
    (q.added timer t now).heap = Function.update q.heap timer (some t) := by
  unfold added
  split <;> rfl

/-- The address of a new timer is not in use. -/
def ActAllowed (q : TimerQueue) : Action → Prop
  | .add timer _ _ => q.heap timer = none ∧ timer < UINTPTR_MAX
  | .cancel _ => True

theorem Coherent.absent {q : TimerQueue} (h : q.Coherent []) {timer : Ptr}
    (ht : q.heap timer = none) : q.Absent timer := by
  rintro e he rfl
  obtain ⟨t, ht', _⟩ := h.live e (.inl he)
  simp [ht] at ht'

theorem act_add {q : TimerQueue} (h : q.Coherent []) {timer : Ptr} {t : Timer} {now : TimeStamp}
    (ha : q.ActAllowed (.add timer t now)) :
    q.act (.add timer t now) = .ok (q.added timer t now) ∧ (q.added timer t now).Coherent [] := by
  have habs := h.absent ha.1
  have ht : (q.store timer (some t)).heap timer = some t := Function.update_self _ _ _
  have hstore := h.store habs (some t)
  have hins := hstore.inserted ht ha.2
  constructor
  · have hbegin : (q.store timer (some t)).begin? = none ↔ q.timers = ∅ := begin?_eq_none
    change (q.store timer (some t)).addTimerInLoop timer now = _
    rw [addTimerInLoop, insert_spec hstore ht ha.2 habs, ok_bind]
    simp only [deref_eq (show ((q.store timer (some t)).inserted timer t).heap timer = some t from ht),
      ok_bind, pure_eq_ok, decide_eq_true_eq, hbegin, added]
  · unfold added
    split
    · exact ⟨hins.live, hins.bounded, hins.active_iff⟩
    · exact hins

theorem Flying.added {q : TimerQueue} {batch : List Entry} (hf : q.Flying batch) {timer : Ptr}
    (ht : q.heap timer = none) (t : Timer) (now : TimeStamp) : (q.added timer t now).Flying batch := by
  have hne : ∀ e ∈ batch, e.second ≠ timer := by
    rintro e he rfl
    obtain ⟨t', ht'⟩ := hf.live e he
    simp [ht] at ht'
  refine ⟨?_, ?_, hf.bounded⟩
  · intro e he
    rw [added_heap, Function.update_of_ne (hne e he)]
    exact hf.live e he
  · intro e he f hmem
    rw [added_timers] at hmem
    rcases Finset.mem_insert.mp hmem with rfl | hmem
    · exact (hne e he).symm
    · exact hf.absent e he f hmem

/-- Adding and cancelling never fail, and do not touch the timers of a running
pass. -/
theorem act_spec {q : TimerQueue} (h : q.Coherent []) {a : Action} (ha : q.ActAllowed a) :
    ∃ q', q.act a = .ok q' ∧ q'.Coherent [] ∧ ∀ batch, q.Flying batch → q'.Flying batch := by
  cases a with
  | add timer t now =>
    obtain ⟨hq, hcoh⟩ := act_add h ha
    exact ⟨_, hq, hcoh, fun _ hf => hf.added ha.1 t now⟩
  | cancel timer =>
    rcases cancelInLoop_spec h timer with ⟨t, ht, hseq, hmem, hq⟩ | ⟨-, hq⟩
    · refine ⟨_, hq, h.erased ht hseq, fun batch hf => ⟨fun e he => ?_, fun e he f hf' => ?_, hf.bounded⟩⟩
      · have hne : e.second ≠ timer.timer := (hf.absent e he _ hmem).symm
        simpa [TimerQueue.erased, TimerQueue.store, Function.update_of_ne hne] using hf.live e he
      · exact hf.absent e he f (Finset.mem_of_mem_erase hf')
    · refine ⟨_, hq, ?_, ?_⟩
      · split <;> exact ⟨h.live, h.bounded, h.active_iff⟩
      · intro batch hf
        split <;> exact ⟨hf.live, hf.absent, hf.bounded⟩

/-! ## The start of a pass -/

theorem lt_sentry {e : Entry} (h : e.second < UINTPTR_MAX) (now : TimeStamp) :
    e < sentry now ↔ e.first ≤ now := by
  rw [Entry.lt_iff]
  simp only [sentry, h, and_true]
  exact le_iff_lt_or_eq.symm

theorem readTimerfd_coherent {q : TimerQueue} (h : q.Coherent []) (now : TimeStamp) :
    (q.readTimerfd now).Coherent [] := by
  unfold readTimerfd
  split
  · split
    · exact ⟨h.live, h.bounded, h.active_iff⟩
    · exact h
  · exact h

@[simp] theorem readTimerfd_timers (q : TimerQueue) (now : TimeStamp) :
    (q.readTimerfd now).timers = q.timers := by
  unfold readTimerfd
  split
  · split <;> rfl
  · rfl

@[simp] theorem readTimerfd_heap (q : TimerQueue) (now : TimeStamp) :
    (q.readTimerfd now).heap = q.heap := by
  unfold readTimerfd
  split
  · split <;> rfl
  · rfl

@[simp] theorem readTimerfd_ran (q : TimerQueue) (now : TimeStamp) :
    (q.readTimerfd now).ran = q.ran := by
  unfold readTimerfd
  split
  · split <;> rfl
  · rfl

/-- The expired timers are those whose time has come, in order. -/
theorem mem_expiredEntries {q : TimerQueue} (h : q.Coherent []) {now : TimeStamp} {e : Entry} :
    e ∈ q.expiredEntries now ↔ e ∈ q.timers ∧ e.first ≤ now := by
  unfold expiredEntries
  rw [Finset.mem_sort, Finset.mem_filter, and_congr_right_iff]
  intro he
  exact lt_sentry (h.bounded e (.inl he)) now

/-- One iteration of the loop in `getExpired`. -/
theorem eraseActive_spec {q : TimerQueue} {e : Entry} {pending : List Entry}
    (h : q.Coherent (e :: pending)) (hnot : e ∉ pending) (htimers : e ∉ q.timers) :
    ∃ active, q.eraseActive e = .ok { q with activeTimers := active } ∧
      Coherent { q with activeTimers := active } pending := by
  have hmem : e ∈ e :: pending := List.mem_cons_self ..
  obtain ⟨t, ht, hexp⟩ := h.live e (.inr hmem)
  have he : (⟨t.expiration, e.second⟩ : Entry) = e := by rw [hexp]
  have hactive : (⟨e.second, t.sequence⟩ : ActiveTimer) ∈ q.activeTimers :=
    (h.active_iff _).mpr ⟨t, ht, rfl, .inr (he.symm ▸ hmem)⟩
  refine ⟨q.activeTimers.erase ⟨e.second, t.sequence⟩, ?_, ?_, ?_, ?_⟩
  · rw [eraseActive, deref_eq ht, ok_bind, check_pos hactive, ok_bind, pure_eq_ok]
  · exact fun f hf => h.live f (hf.imp_right (List.mem_cons_of_mem e))
  · exact fun f hf => h.bounded f (hf.imp_right (List.mem_cons_of_mem e))
  · intro x
    constructor
    · intro hx
      obtain ⟨hne, hx⟩ := Finset.mem_erase.mp hx
      obtain ⟨t', ht', hseq, hin⟩ := (h.active_iff x).mp hx
      refine ⟨t', ht', hseq, hin.imp_right ?_⟩
      intro hin
      rcases List.mem_cons.mp hin with heq | hin
      · have hptr : x.timer = e.second := congrArg Entry.second heq
        rw [hptr, ht] at ht'
        cases ht'
        exact absurd (show x = ⟨e.second, t.sequence⟩ by rw [← hptr, hseq]) hne
      · exact hin
    · rintro ⟨t', ht', hseq, hin⟩
      refine Finset.mem_erase.mpr ⟨?_, (h.active_iff x).mpr
        ⟨t', ht', hseq, hin.imp_right (List.mem_cons_of_mem e)⟩⟩
      rintro rfl
      obtain rfl : t = t' := Option.some.inj (ht.symm.trans ht')
      rw [he] at hin
      exact hin.elim htimers hnot

theorem eraseActive_all {q : TimerQueue} {pending : List Entry} (h : q.Coherent pending)
    (hnodup : pending.Nodup) (htimers : ∀ e ∈ pending, e ∉ q.timers) :
    ∃ active, pending.foldlM eraseActive q = .ok { q with activeTimers := active } ∧
      Coherent { q with activeTimers := active } [] := by
  induction pending generalizing q with
  | nil => exact ⟨q.activeTimers, rfl, h⟩
  | cons e pending ih =>
    obtain ⟨hnot, hnodup⟩ := List.nodup_cons.mp hnodup
    obtain ⟨active, hq, hcoh⟩ := eraseActive_spec h hnot (htimers e (List.mem_cons_self ..))
    obtain ⟨active', hq', hcoh'⟩ := ih hcoh hnodup fun f hf => htimers f (List.mem_cons_of_mem e hf)
    exact ⟨active', by rw [List.foldlM_cons, hq, ok_bind, hq'], hcoh'⟩

/-- The queue without its expired timers. -/
def unexpired (q : TimerQueue) (now : TimeStamp) (active : Finset ActiveTimer) : TimerQueue :=
  { q with timers := q.timers.filter (now < ·.first), activeTimers := active }

/-- `getExpired` returns the expired timers; they are alive, and in neither set
any more. -/
theorem getExpired_spec {q : TimerQueue} (h : q.Coherent []) (now : TimeStamp) :
    ∃ active, q.getExpired now = .ok (q.expiredEntries now, q.unexpired now active) ∧
      (q.unexpired now active).Coherent [] ∧
      (q.unexpired now active).Flying (q.expiredEntries now) := by
  let rest : TimerQueue := { q with timers := q.timers.filter (sentry now ≤ ·) }
  have hrest : ∀ e, e ∈ rest.timers ↔ e ∈ q.timers ∧ now < e.first := by
    intro e
    rw [show rest.timers = q.timers.filter (sentry now ≤ ·) from rfl, Finset.mem_filter,
      and_congr_right_iff]
    intro he
    rw [← not_lt, lt_sentry (h.bounded e (.inl he)), not_le]
  have hsplit : ∀ e, (e ∈ rest.timers ∨ e ∈ q.expiredEntries now) ↔ e ∈ q.timers := by
    intro e
    rw [hrest, mem_expiredEntries h, ← and_or_left, and_iff_left (lt_or_ge now e.first)]
  have hcoh : rest.Coherent (q.expiredEntries now) := by
    refine ⟨fun e he => h.live e (.inl ((hsplit e).mp he)),
      fun e he => h.bounded e (.inl ((hsplit e).mp he)), fun x => (h.active_iff x).trans ?_⟩
    simp only [List.not_mem_nil, or_false, ← hsplit]
    rfl
  have hapart : ∀ e ∈ q.expiredEntries now, e ∉ rest.timers := by
    intro e he hr
    exact absurd ((mem_expiredEntries h).mp he).2 (not_le.mpr ((hrest e).mp hr).2)
  obtain ⟨active, hq, hcoh'⟩ := eraseActive_all hcoh (Finset.sort_nodup _ _) hapart
  have htimers : rest.timers = q.timers.filter (now < ·.first) := by
    ext e
    exact (hrest e).trans (by simp)
  have heq : { rest with activeTimers := active } = q.unexpired now active := by
    simp only [unexpired, ← htimers, rest]
  refine ⟨active, ?_⟩
  rw [← heq]
  refine ⟨?_, hcoh', ?_⟩
  · have hbegin : ∀ e ∈ rest.begin?, now < e.first := by
      intro e he
      unfold begin? at he
      split at he
      · obtain rfl : rest.timers.min' ‹_› = e := by simpa using he
        exact ((hrest _).mp (Finset.min'_mem _ _)).2
      · simp at he
    unfold getExpired
    rw [h.checkSizes, ok_bind]
    simp only [check_pos hbegin, ok_bind, rest, hq, hcoh'.checkSizes, pure_eq_ok]
  · refine ⟨?_, ?_, ?_⟩
    · intro e he
      obtain ⟨t, ht, _⟩ := h.live e (.inl ((mem_expiredEntries h).mp he).1)
      exact ⟨t, ht⟩
    · intro e he f hf hptr
      have he' := ((mem_expiredEntries h).mp he)
      have hf' := (hrest f).mp hf
      obtain ⟨t, ht, _⟩ := h.live e (.inl he'.1)
      have hef : e = f := by
        rw [← h.entry_eq (.inl he'.1) ht, ← h.entry_eq (.inl hf'.1) (hptr ▸ ht), hptr]
      exact hapart e he (hef ▸ hf)
    · intro e he
      exact h.bounded e (.inl ((mem_expiredEntries h).mp he).1)

/-- Two expired timers have two addresses. -/
theorem expiredEntries_nodup {q : TimerQueue} (h : q.Coherent []) (now : TimeStamp) :
    ((q.expiredEntries now).map Entry.second).Nodup := by
  refine (Finset.sort_nodup _ _).map_on ?_
  intro e he f hf hptr
  have he' := ((mem_expiredEntries h).mp he).1
  have hf' := ((mem_expiredEntries h).mp hf).1
  obtain ⟨t, ht, _⟩ := h.live e (.inl he')
  rw [← h.entry_eq (.inl he') ht, ← h.entry_eq (.inl hf') (hptr ▸ ht), hptr]

/-- The queue when the callbacks of a pass start. -/
def begun (q : TimerQueue) (now : TimeStamp) (active : Finset ActiveTimer) : TimerQueue :=
  { (q.readTimerfd now).unexpired now active with
    callingExpiredTimers := true
    cancelingTimers := ∅ }

/-- A pass starts with the expired timers taken out. -/
theorem beginPass_spec {q : TimerQueue} (h : q.Coherent []) (now : TimeStamp) :
    ∃ active, q.beginPass now = .ok (q.expiredEntries now, q.begun now active) ∧
      (q.begun now active).Coherent [] ∧ (q.begun now active).Flying (q.expiredEntries now) := by
  obtain ⟨active, hq, hcoh, hf⟩ := getExpired_spec (readTimerfd_coherent h now) now
  have hexp : (q.readTimerfd now).expiredEntries now = q.expiredEntries now := by
    simp [expiredEntries]
  rw [hexp] at hq hf
  refine ⟨active, ?_, ⟨hcoh.live, hcoh.bounded, hcoh.active_iff⟩, ⟨hf.live, hf.absent, hf.bounded⟩⟩
  simp only [beginPass, hq, ok_bind, pure_eq_ok, begun]

@[simp] theorem begun_timers (q : TimerQueue) (now : TimeStamp) (active : Finset ActiveTimer) :
    (q.begun now active).timers = q.timers.filter (now < ·.first) := by
  simp [begun, unexpired]

@[simp] theorem begun_heap (q : TimerQueue) (now : TimeStamp) (active : Finset ActiveTimer) :
    (q.begun now active).heap = q.heap := by
  simp [begun, unexpired]

@[simp] theorem begun_ran (q : TimerQueue) (now : TimeStamp) (active : Finset ActiveTimer) :
    (q.begun now active).ran = q.ran := by
  simp [begun, unexpired]

/-! ## The callbacks -/

def CallAllowed (q : TimerQueue) : CallStep → Prop
  | .run _ => True
  | .act a => q.ActAllowed a

theorem run_mem_calls {pass : Pass} {expired : List Entry} {timer : Ptr}
    (h : CallStep.run timer ∈ pass.calls expired) : ∃ e ∈ expired, e.second = timer := by
  obtain ⟨e, he, hmem⟩ := List.mem_flatMap.mp h
  rcases List.mem_cons.mp hmem with heq | hmem
  · exact ⟨e, he, (CallStep.run.inj heq).symm⟩
  · simp at hmem

theorem callStep_coherent {q q' : TimerQueue} (h : q.Coherent []) {a : CallStep}
    (ha : q.CallAllowed a) (hs : q.callStep a = .ok q') : q'.Coherent [] := by
  cases a with
  | run timer =>
    obtain ⟨t, -, hq⟩ := bind_eq_ok.mp hs
    cases hq
    exact ⟨h.live, h.bounded, h.active_iff⟩
  | act a =>
    obtain ⟨q₁, hq, hcoh, -⟩ := act_spec h ha
    cases hq.symm.trans hs
    exact hcoh

/-- Callbacks that add timers at free addresses and cancel any ids do not
fail, and leave the expired timers alone. -/
theorem calls_spec {q : TimerQueue} {batch : List Entry} (h : q.Coherent []) (hf : q.Flying batch)
    {pass : Pass} (hcalls : Along callStep CallAllowed q (pass.calls batch)) :
    ∃ q', Run callStep q (pass.calls batch) q' ∧ q'.Coherent [] ∧ q'.Flying batch := by
  have hruns : Along callStep (fun _ a => ∀ timer, a = .run timer → ∃ e ∈ batch, e.second = timer) q
      (pass.calls batch) :=
    Steps.of_forall fun a ha timer heq => run_mem_calls (heq ▸ ha)
  refine Run.progress (I := fun q : TimerQueue => q.Coherent [] ∧ q.Flying batch)
    (E := fun q a => q.CallAllowed a ∧
      ∀ timer, a = CallStep.run timer → ∃ e ∈ batch, e.second = timer)
    ?_ ⟨h, hf⟩ (hcalls.and hruns)
  rintro q a ⟨h, hf⟩ ⟨ha, hrun⟩
  cases a with
  | run timer =>
    obtain ⟨e, he, rfl⟩ := hrun timer rfl
    obtain ⟨t, ht⟩ := hf.live e he
    refine ⟨{ q with ran := q.ran ++ [⟨e.second, t.sequence⟩] }, ?_,
      ⟨h.live, h.bounded, h.active_iff⟩, ⟨hf.live, hf.absent, hf.bounded⟩⟩
    simp only [callStep, deref_eq ht, ok_bind, pure_eq_ok]
  | act a =>
    obtain ⟨q', hq, hcoh, hfly⟩ := act_spec h ha
    exact ⟨q', hq, hcoh, hfly batch hf⟩

/-! ## The end of a pass -/

theorem deadline_eq (now expiration : Int) :
    now + ((howMuchTimeFromNow now expiration).sec * TimeStamp.KMicronSecondsPerSecond +
      (howMuchTimeFromNow now expiration).nsec / 1000) = max expiration (now + 100) := by
  have hsum : ∀ m : Int, m / (1000 * 1000) * (1000 * 1000) + m % (1000 * 1000) * 1000 / 1000 = m := by
    omega
  simp only [howMuchTimeFromNow, TimeStamp.KMicronSecondsPerSecond, hsum]
  split <;> omega

/-- The descriptor is set for the expiration, or for 100 microseconds from now. -/
theorem resetTimerfd_eq (q : TimerQueue) (now expiration : TimeStamp) :
    q.resetTimerfd now expiration =
      { q with timerfd := some ⟨max expiration (now + 100), now⟩ } := by
  rw [← deadline_eq]
  rfl

/-- What an iteration of `reset` does to the sets. -/
structure ResetBy (now : TimeStamp) (q q' : TimerQueue) : Prop where
  coherent : q'.Coherent []
  subset : q.timers ⊆ q'.timers
  new_ge : ∀ f ∈ q'.timers, f ∈ q.timers ∨ now ≤ f.first

theorem ResetBy.trans {now : TimeStamp} {q q' q'' : TimerQueue} (h : ResetBy now q q')
    (h' : ResetBy now q' q'') : ResetBy now q q'' :=
  ⟨h'.coherent, h.subset.trans h'.subset, fun f hf => (h'.new_ge f hf).elim (h.new_ge f) .inr⟩

/-- An expired timer that repeats and was not cancelled in the pass. -/
def Repeats (q : TimerQueue) (timer : Ptr) (t : Timer) : Prop :=
  t.repeat_ = true ∧ ⟨timer, t.sequence⟩ ∉ q.cancelingTimers

/-- The queue with an expired timer inserted again. -/
def restarted (q : TimerQueue) (timer : Ptr) (t : Timer) (now : TimeStamp) : TimerQueue :=
  (q.store timer (some (t.restart now))).inserted timer (t.restart now)

/-- An expired timer is inserted again, or deleted. -/
theorem resetTimer_cases {q : TimerQueue} (h : q.Coherent []) {timer : Ptr} {t : Timer}
    (ht : q.heap timer = some t) (hb : timer < UINTPTR_MAX) (habs : q.Absent timer)
    (now : TimeStamp) :
    q.Repeats timer t ∧ q.resetTimer now timer = .ok (q.restarted timer t now) ∧
        (q.restarted timer t now).Coherent [] ∨
      ¬ q.Repeats timer t ∧ q.resetTimer now timer = .ok (q.store timer none) ∧
        (q.store timer none).Coherent [] := by
  have hif : (t.repeat_ && decide (⟨timer, t.sequence⟩ ∉ q.cancelingTimers)) = true ↔
      q.Repeats timer t := by simp [Repeats]
  by_cases hrep : q.Repeats timer t
  · have ht' : (q.store timer (some (t.restart now))).heap timer = some (t.restart now) :=
      Function.update_self _ _ _
    have hcoh := h.store habs (some (t.restart now))
    refine .inl ⟨hrep, ?_, hcoh.inserted ht' hb⟩
    rw [resetTimer, deref_eq ht, ok_bind, if_pos (hif.mpr hrep), insert_spec hcoh ht' hb habs]
    rfl
  · refine .inr ⟨hrep, ?_, h.store habs none⟩
    rw [resetTimer, deref_eq ht, ok_bind, if_neg (mt hif.mp hrep), pure_eq_ok]

theorem le_restart {t : Timer} (h : t.repeat_ = true) (now : TimeStamp) :
    now ≤ (t.restart now).expiration := by
  rw [Timer.restart, if_pos h]
  exact Int.le_add_of_nonneg_right (Int.natCast_nonneg _)

/-- An iteration of `reset` leaves the other expired timers alone. -/
theorem resetTimer_spec {q : TimerQueue} {e : Entry} {rest : List Entry} (h : q.Coherent [])
    (hf : q.Flying (e :: rest)) (hnodup : ((e :: rest).map Entry.second).Nodup) (now : TimeStamp) :
    ∃ q', q.resetTimer now e.second = .ok q' ∧ ResetBy now q q' ∧ q'.Flying rest ∧
      q'.timerfd = q.timerfd := by
  have he : e ∈ e :: rest := List.mem_cons_self ..
  obtain ⟨t, ht⟩ := hf.live e he
  have hptr : ∀ f ∈ rest, f.second ≠ e.second := fun f hf' heq =>
    (List.nodup_cons.mp hnodup).1 (heq ▸ List.mem_map_of_mem hf')
  have hstore : ∀ o, (q.store e.second o).Flying rest := by
    intro o
    refine ⟨fun f hf' => ?_, fun f hf' => hf.absent f (List.mem_cons_of_mem e hf'),
      fun f hf' => hf.bounded f (List.mem_cons_of_mem e hf')⟩
    rw [show (q.store e.second o).heap f.second = q.heap f.second from
      Function.update_of_ne (hptr f hf') _ _]
    exact hf.live f (List.mem_cons_of_mem e hf')
  rcases resetTimer_cases h ht (hf.bounded e he) (hf.absent e he) now with
    ⟨hrep, hq, hcoh⟩ | ⟨-, hq, hcoh⟩
  · refine ⟨_, hq, ⟨hcoh, Finset.subset_insert _ _, fun f hf' => ?_⟩,
      ⟨(hstore (some (t.restart now))).live, fun f hf' g hg => ?_, (hstore none).bounded⟩, rfl⟩
    · rcases Finset.mem_insert.mp hf' with rfl | hf'
      · exact .inr (le_restart hrep.1 now)
      · exact .inl hf'
    · rcases Finset.mem_insert.mp hg with rfl | hg
      · exact (hptr f hf').symm
      · exact (hstore (some (t.restart now))).absent f hf' g hg
  · exact ⟨_, hq, ⟨hcoh, Finset.Subset.refl _, fun f hf' => .inl hf'⟩, hstore none, rfl⟩

theorem begin?_mem {q : TimerQueue} {b : Entry} (h : b ∈ q.begin?) :
    b ∈ q.timers ∧ ∀ e ∈ q.timers, b.first ≤ e.first := by
  unfold begin? at h
  split at h
  · rename_i hne
    obtain rfl : q.timers.min' hne = b := by simpa using h
    refine ⟨Finset.min'_mem _ _, ?_⟩
    intro e he
    exact Entry.first_le (Finset.min'_le _ e he)
  · simp at h

theorem exists_begin? {q : TimerQueue} {e : Entry} (h : e ∈ q.timers) : ∃ b, b ∈ q.begin? := by
  have hne : q.begin? ≠ none := fun hnone => by simp [begin?_eq_none.mp hnone] at h
  exact Option.ne_none_iff_exists'.mp hne

theorem nextExpire_spec {q : TimerQueue} (h : q.Coherent []) (old : TimeStamp) :
    ∃ next, q.nextExpire old = .ok next ∧ ∀ b ∈ q.begin?, next = b.first := by
  unfold nextExpire
  cases hb : q.begin? with
  | none => exact ⟨old, rfl, by simp⟩
  | some b =>
    obtain ⟨t, ht, hexp⟩ := h.live b (.inl (begin?_mem hb).1)
    exact ⟨t.expiration, by simp only [deref_eq ht, ok_bind, pure_eq_ok], by simp [hexp]⟩

/-- The descriptor behind an iteration of `reset`: set for the earliest timer,
if that has a valid expiration, and not touched else. -/
structure Rearmed (q q' : TimerQueue) : Prop where
  valid : ∀ b ∈ q'.begin?, 0 < b.first →
    ∃ now, q'.timerfd = some ⟨max b.first (now + 100), now⟩
  invalid : (∃ f ∈ q.timers, f.first ≤ 0) → q'.timerfd = q.timerfd

theorem rearm_eq (q : TimerQueue) (now next : TimeStamp) :
    q.rearm now next = { q with timerfd := if 0 < next then some ⟨max next (now + 100), now⟩
      else q.timerfd } := by
  unfold rearm TimeStamp.valid
  by_cases h : 0 < next
  · simp [h, resetTimerfd_eq]
  · simp [h]

theorem resetStep_spec {q : TimerQueue} {e : Entry} {rest : List Entry} (h : q.Coherent [])
    (hf : q.Flying (e :: rest)) (hnodup : ((e :: rest).map Entry.second).Nodup) (pass : Pass)
    (old : TimeStamp) :
    ∃ q' next, resetStep pass (q, old) e = .ok (q', next) ∧ ResetBy pass.now q q' ∧
      q'.Flying rest ∧ Rearmed q q' := by
  obtain ⟨q₁, hq, hby, hfly, hfd⟩ := resetTimer_spec h hf hnodup pass.now
  obtain ⟨next, hnext, hbegin⟩ := nextExpire_spec hby.coherent old
  have hrearm := rearm_eq q₁ (pass.clock e) next
  refine ⟨q₁.rearm (pass.clock e) next, next, ?_, ?_, ?_, ?_⟩
  · simp only [resetStep, hq, ok_bind, hnext, pure_eq_ok]
  · rw [hrearm]
    exact ⟨⟨hby.coherent.live, hby.coherent.bounded, hby.coherent.active_iff⟩, hby.subset, hby.new_ge⟩
  · rw [hrearm]
    exact ⟨hfly.live, hfly.absent, hfly.bounded⟩
  · rw [hrearm]
    constructor
    · intro b hb hpos
      have hb' : next = b.first := hbegin b hb
      exact ⟨pass.clock e, by simp [hb', hpos]⟩
    · rintro ⟨f, hf', hle⟩
      -- an earliest timer that is not valid stays the earliest
      obtain ⟨b, hb⟩ := exists_begin? (hby.subset hf')
      have hnot : ¬ 0 < next := by
        rw [hbegin b hb, not_lt]
        exact ((begin?_mem hb).2 f (hby.subset hf')).trans hle
      simp [hnot, hfd]

/-- The loop of `reset`: the descriptor is set by its last iteration. -/
theorem reset_loop {q : TimerQueue} {batch : List Entry} (h : q.Coherent [])
    (hf : q.Flying batch) (hnodup : (batch.map Entry.second).Nodup) (pass : Pass)
    (old : TimeStamp) (hne : batch ≠ []) :
    ∃ q' next, batch.foldlM (resetStep pass) (q, old) = .ok (q', next) ∧ ResetBy pass.now q q' ∧
      Rearmed q q' := by
  induction batch generalizing q old with
  | nil => exact absurd rfl hne
  | cons e rest ih =>
    obtain ⟨q₁, next, hq, hby, hfly, harm⟩ := resetStep_spec h hf hnodup pass old
    by_cases hrest : rest = []
    · subst hrest
      exact ⟨q₁, next, by rw [List.foldlM_cons, hq, ok_bind, List.foldlM_nil, pure_eq_ok], hby, harm⟩
    · obtain ⟨q₂, next', hq', hby', harm'⟩ :=
        ih hby.coherent hfly (List.nodup_cons.mp hnodup).2 next hrest
      refine ⟨q₂, next', by rw [List.foldlM_cons, hq, ok_bind, hq'], hby.trans hby', harm'.valid, ?_⟩
      rintro ⟨f, hf', hle⟩
      rw [harm'.invalid ⟨f, hby.subset hf', hle⟩, harm.invalid ⟨f, hf', hle⟩]

/-! ## A whole pass -/

/-- What `P` says of the callbacks of a pass. -/
def DuringCalls (P : TimerQueue → CallStep → Prop) (q : TimerQueue) (pass : Pass) : Prop :=
  ∀ expired q', q.beginPass pass.now = .ok (expired, q') → Along callStep P q' (pass.calls expired)

/-- A pass at which no timer has expired only reads the descriptor. -/
theorem handleRead_none {q : TimerQueue} (h : q.Coherent []) {pass : Pass}
    (hnone : q.expiredEntries pass.now = []) :
    ∃ q', q.handleRead pass = .ok q' ∧ q'.Coherent [] ∧ q'.timers = q.timers ∧
      q'.timerfd = (q.readTimerfd pass.now).timerfd := by
  obtain ⟨active, hq, hcoh, -⟩ := beginPass_spec h pass.now
  rw [hnone] at hq
  refine ⟨{ q.begun pass.now active with callingExpiredTimers := false }, ?_,
    ⟨hcoh.live, hcoh.bounded, hcoh.active_iff⟩, ?_, rfl⟩
  · simp [handleRead, hq, Pass.calls, reset]
  · change (q.begun pass.now active).timers = q.timers
    rw [begun_timers, Finset.filter_eq_self]
    intro e he
    by_contra hle
    have : e ∈ q.expiredEntries pass.now := (mem_expiredEntries h).mpr ⟨he, not_lt.mp hle⟩
    simp [hnone] at this

/-- A pass at which some timer has expired: it takes the expired timers out,
runs the callbacks, and resets. -/
theorem handleRead_spec {q : TimerQueue} (h : q.Coherent []) {pass : Pass}
    (hsome : q.expiredEntries pass.now ≠ []) (hcalls : DuringCalls CallAllowed q pass) :
    ∃ q₁ q₂ q', q.beginPass pass.now = .ok (q.expiredEntries pass.now, q₁) ∧
      q₁.Coherent [] ∧ q₁.timers = q.timers.filter (pass.now < ·.first) ∧
      Run callStep q₁ (pass.calls (q.expiredEntries pass.now)) q₂ ∧
      q.handleRead pass = .ok q' ∧ ResetBy pass.now q₂ q' ∧ Rearmed q₂ q' := by
  obtain ⟨active, hq, hcoh, hf⟩ := beginPass_spec h pass.now
  obtain ⟨q₂, hrun, hcoh₂, hf₂⟩ := calls_spec hcoh hf (hcalls _ _ hq)
  let q₃ : TimerQueue := { q₂ with callingExpiredTimers := false }
  have hcoh₃ : q₃.Coherent [] := ⟨hcoh₂.live, hcoh₂.bounded, hcoh₂.active_iff⟩
  have hf₃ : q₃.Flying (q.expiredEntries pass.now) := ⟨hf₂.live, hf₂.absent, hf₂.bounded⟩
  obtain ⟨q', next, hreset, hby, harm⟩ :=
    reset_loop hcoh₃ hf₃ (expiredEntries_nodup h pass.now) pass 0 hsome
  refine ⟨q.begun pass.now active, q₂, q', hq, hcoh, begun_timers q pass.now active, hrun, ?_,
    ⟨hby.coherent, hby.subset, hby.new_ge⟩,
    harm.valid, harm.invalid⟩
  simp only [handleRead, hq, ok_bind, run_iff_foldlM.mp hrun]
  change (q₃.reset pass _) = _
  simp only [reset, hreset, ok_bind, pure_eq_ok]

end TimerQueue

end Muduo
