import Muduo.TimerInvariant

/-!
When the `timerfd` is set. `insert` reports a new earliest timer only for an
empty `timers_`, and `reset` sets the descriptor inside its loop over the
expired timers.

* `timerfd_in_time_iff`: additions and passes keep the descriptor early enough
  exactly when every addition finds it early enough, or an empty `timers_`;
* `pass_rearms_iff`: a pass sets the descriptor for the earliest timer exactly
  when `timers_` was empty or some timer had expired.
-/

namespace Muduo

open Lib

/-- The descriptor expires no later than the timer, or 100 microseconds after
it was set. -/
def Armed.InTime (a : Armed) (t : TimeStamp) : Prop := a.deadline ≤ max t (a.armedAt + 100)

/-- The descriptor was set for this expiration. -/
def Armed.For (a : Armed) (t : TimeStamp) : Prop := a.deadline = max t (a.armedAt + 100)

instance (a : Armed) (t : TimeStamp) : Decidable (a.InTime t) := inferInstanceAs (Decidable (_ ≤ _))

instance (a : Armed) (t : TimeStamp) : Decidable (a.For t) := inferInstanceAs (Decidable (_ = _))

theorem Armed.InTime.mono {a : Armed} {t t' : TimeStamp} (h : a.InTime t) (ht : t ≤ t') :
    a.InTime t' :=
  h.trans (max_le_max_right _ ht)

inductive QueueStep where
  | act (a : TimerQueue.Action)
  | handleRead (pass : TimerQueue.Pass)

namespace TimerQueue

def queueStep (q : TimerQueue) : QueueStep → Checked TimerQueue
  | .act a => q.act a
  | .handleRead pass => q.handleRead pass

/-- The descriptor is set early enough for a timer. -/
def Covers (q : TimerQueue) (t : TimeStamp) : Prop := ∃ a ∈ q.timerfd, a.InTime t

/-- The descriptor is set early enough for the earliest timer. -/
def InTime (q : TimerQueue) : Prop := ∀ b ∈ q.begin?, q.Covers b.first

/-- What is early enough for the earliest timer is so for every timer. -/
theorem inTime_iff {q : TimerQueue} : q.InTime ↔ ∀ e ∈ q.timers, q.Covers e.first := by
  constructor
  · intro h e he
    obtain ⟨b, hb⟩ := exists_begin? he
    obtain ⟨a, ha, hin⟩ := h b hb
    exact ⟨a, ha, hin.mono ((begin?_mem hb).2 e he)⟩
  · exact fun h b hb => h b (begin?_mem hb).1

/-! ## Additions -/

/-- The addition sets the descriptor, or need not. -/
def Punctual (q : TimerQueue) (t : TimeStamp) : Prop := q.timers = ∅ ∨ q.Covers t

theorem covers_added (q : TimerQueue) (timer : Ptr) (t : Timer) (now expiration : TimeStamp) :
    (q.added timer t now).Covers expiration ↔
      if q.timers = ∅ then Armed.InTime ⟨max t.expiration (now + 100), now⟩ expiration
      else q.Covers expiration := by
  unfold added Covers
  split
  · simp [resetTimerfd_eq]
  · rfl

/-- Of the timers in a set of timestamps, an addition leaves none uncovered
exactly when none was and the new one is punctual, if it is in the set. -/
theorem added_covers_iff (q : TimerQueue) (P : TimeStamp → Prop) (timer : Ptr) (t : Timer)
    (now : TimeStamp) :
    (∀ e ∈ (q.added timer t now).timers, P e.first → (q.added timer t now).Covers e.first) ↔
      (∀ e ∈ q.timers, P e.first → q.Covers e.first) ∧ (P t.expiration → q.Punctual t.expiration) := by
  simp only [added_timers, covers_added, Finset.forall_mem_insert]
  by_cases hempty : q.timers = ∅
  · simp [hempty, Punctual, Armed.InTime]
  · simp only [hempty, if_false, Punctual, false_or]
    exact and_comm

theorem added_inTime_iff (q : TimerQueue) (timer : Ptr) (t : Timer) (now : TimeStamp) :
    (q.added timer t now).InTime ↔ q.InTime ∧ q.Punctual t.expiration := by
  simpa [inTime_iff] using added_covers_iff q (fun _ => True) timer t now

/-! ## Passes -/

/-- The timers without a valid expiration are covered. `reset` does not see to
them. -/
def InvalidCovered (q : TimerQueue) : Prop := ∀ e ∈ q.timers, e.first ≤ 0 → q.Covers e.first

def CallStep.Adds : CallStep → Prop
  | .act (.cancel _) => False
  | _ => True

/-- An addition that a callback makes: `reset` sets the descriptor for it, or
need not. -/
def PunctualCall (q : TimerQueue) : CallStep → Prop
  | .act (.add _ t _) => 0 < t.expiration ∨ q.Punctual t.expiration
  | _ => True

theorem callStep_invalidCovered_iff {q q' : TimerQueue} (h : q.Coherent []) {a : CallStep}
    (ha : q.CallAllowed a ∧ a.Adds) (hs : q.callStep a = .ok q') :
    q'.InvalidCovered ↔ q.InvalidCovered ∧ q.PunctualCall a := by
  cases a with
  | run timer =>
    obtain ⟨t, -, hq⟩ := bind_eq_ok.mp hs
    cases hq
    exact (and_iff_left trivial).symm
  | act a =>
    cases a with
    | cancel timer => exact ha.2.elim
    | add timer t now =>
      obtain rfl : q.added timer t now = q' := Except.ok.inj ((act_add h ha.1).1.symm.trans hs)
      refine (added_covers_iff q (· ≤ 0) timer t now).trans (and_congr_right fun _ => ?_)
      rw [PunctualCall, ← not_le, imp_iff_not_or]

/-- Behind `reset`, the descriptor is early enough exactly when it was for the
timers without a valid expiration. -/
theorem reset_inTime_iff {q q' : TimerQueue} {now : TimeStamp} (hnow : 0 < now)
    (hby : ResetBy now q q') (harm : Rearmed q q') : q'.InTime ↔ q.InvalidCovered := by
  constructor
  · intro h e he hle
    obtain ⟨a, ha, hin⟩ := inTime_iff.mp h e (hby.subset he)
    exact ⟨a, harm.invalid ⟨e, he, hle⟩ ▸ ha, hin⟩
  · intro h b hb
    by_cases hpos : 0 < b.first
    · obtain ⟨clock, hfd⟩ := harm.valid b hb hpos
      exact ⟨_, hfd, le_refl _⟩
    · rcases hby.new_ge b (begin?_mem hb).1 with he | hge
      · obtain ⟨a, ha, hin⟩ := h b he (not_lt.mp hpos)
        exact ⟨a, (harm.invalid ⟨b, he, not_lt.mp hpos⟩).symm ▸ ha, hin⟩
      · exact absurd (hnow.trans_le hge) hpos

theorem handleRead_inTime_iff {q : TimerQueue} (h : q.Coherent []) {pass : Pass}
    (hnow : 0 < pass.now) (hsome : ∃ e ∈ q.timers, e.first ≤ pass.now)
    (hcalls : DuringCalls (fun q a => q.CallAllowed a ∧ a.Adds) q pass) :
    ∃ q', q.handleRead pass = .ok q' ∧ q'.Coherent [] ∧
      (q'.InTime ↔ DuringCalls PunctualCall q pass) := by
  have hne : q.expiredEntries pass.now ≠ [] := by
    obtain ⟨e, he, hle⟩ := hsome
    exact List.ne_nil_of_mem ((mem_expiredEntries h).mpr ⟨he, hle⟩)
  obtain ⟨q₁, q₂, q', hbegin, hcoh, ht, hrun, hq, hby, harm⟩ :=
    handleRead_spec h hne fun _ _ hb => (hcalls _ _ hb).mono fun _ _ _ hc => hc.1
  refine ⟨q', hq, hby.coherent, (reset_inTime_iff hnow hby harm).trans ?_⟩
  have hstart : q₁.InvalidCovered := by
    intro e he hle
    rw [ht] at he
    exact absurd ((hnow.trans (Finset.mem_filter.mp he).2).trans_le hle) (lt_irrefl _)
  have hduring : DuringCalls PunctualCall q pass ↔
      Along callStep PunctualCall q₁ (pass.calls (q.expiredEntries pass.now)) := by
    constructor
    · exact fun hd => hd _ _ hbegin
    · intro hd expired q'' hb
      cases hbegin.symm.trans hb
      exact hd
  have hiff : q₂.InvalidCovered ↔ q₁.InvalidCovered ∧
      Along callStep PunctualCall q₁ (pass.calls (q.expiredEntries pass.now)) :=
    hrun.holds_iff (I := fun q => q.Coherent []) (hcalls _ _ hbegin) hcoh
      (fun q a q' h ha hs => callStep_coherent h ha.1 hs)
      (fun q a q' h ha hs => callStep_invalidCovered_iff h ha hs)
  rw [hduring, hiff, and_iff_right hstart]

/-! ## Runs of additions and passes -/

/-- Additions at free addresses, and passes at which some timer has expired,
with callbacks that add timers. The clock reads a valid time. -/
def AddingAllowed (q : TimerQueue) : QueueStep → Prop
  | .act (.add timer t now) => q.ActAllowed (.add timer t now)
  | .act (.cancel _) => False
  | .handleRead pass => 0 < pass.now ∧ (∃ e ∈ q.timers, e.first ≤ pass.now) ∧
      DuringCalls (fun q a => q.CallAllowed a ∧ a.Adds) q pass

/-- Every addition finds `timers_` empty or the descriptor early enough; in a
pass it may have a valid expiration instead. -/
def PunctualStep (q : TimerQueue) : QueueStep → Prop
  | .act (.add _ t _) => q.Punctual t.expiration
  | .act (.cancel _) => True
  | .handleRead pass => DuringCalls PunctualCall q pass

/-- No assertion fails, and the descriptor is early enough. -/
def StaysInTime (_ : TimerQueue) (_ : QueueStep) (o : Checked TimerQueue) : Prop :=
  ∃ q', o = .ok q' ∧ q'.InTime

theorem queueStep_inTime_iff {q : TimerQueue} (h : q.Coherent []) (hin : q.InTime) {a : QueueStep}
    (ha : q.AddingAllowed a) :
    ∃ q', q.queueStep a = .ok q' ∧ q'.Coherent [] ∧ (q'.InTime ↔ q.PunctualStep a) := by
  cases a with
  | act a =>
    cases a with
    | cancel timer => exact ha.elim
    | add timer t now =>
      obtain ⟨hq, hcoh⟩ := act_add h ha
      exact ⟨_, hq, hcoh, (added_inTime_iff q timer t now).trans (and_iff_right hin)⟩
  | handleRead pass => exact handleRead_inTime_iff h ha.1 ha.2.1 ha.2.2

/-- **Early arming.** In a run of additions and expiry passes the descriptor is
early enough in every state, and no assertion fails, exactly when every
addition of the run is punctual. -/
theorem timerfd_in_time_iff {q : TimerQueue} (h : q.Coherent []) (hin : q.InTime)
    (steps : List QueueStep) (hsteps : Along queueStep AddingAllowed q steps) :
    Steps queueStep StaysInTime q steps ↔ Along queueStep PunctualStep q steps := by
  refine steps_iff (I := fun q => q.Coherent [] ∧ q.InTime) ?_ ?_ ⟨h, hin⟩ hsteps
  · rintro q a ⟨h, hin⟩ ha
    obtain ⟨q', hq, -, hiff⟩ := queueStep_inTime_iff h hin ha
    rw [← hiff, hq]
    constructor
    · rintro ⟨q'', heq, hin'⟩
      cases heq
      exact hin'
    · exact fun hin' => ⟨q', rfl, hin'⟩
  · rintro q a q'' ⟨h, hin⟩ ha hp hs
    obtain ⟨q', hq, hcoh, hiff⟩ := queueStep_inTime_iff h hin ha
    cases hq.symm.trans hs
    exact ⟨hcoh, hiff.mpr hp⟩

theorem new_inTime : new.InTime := by
  simp [inTime_iff, new]

/-- The queue with one timer, due a second after the clock read one second. -/
def oneTimer : TimerQueue := new.added 1 ⟨2000000, 0, false, 1⟩ 1000000

theorem oneTimer_eq : new.queueStep (.act (.add 1 ⟨2000000, 0, false, 1⟩ 1000000)) = .ok oneTimer :=
  (act_add new_coherent ⟨rfl, by decide⟩).1

theorem oneTimer_coherent : oneTimer.Coherent [] := (act_add new_coherent ⟨rfl, by decide⟩).2

/-- What only runs callbacks that do nothing is allowed and punctual. -/
theorem idle_calls {P : TimerQueue → CallStep → Prop} (hP : ∀ q timer, P q (.run timer))
    (q : TimerQueue) (now : TimeStamp) (clock : Entry → TimeStamp) :
    DuringCalls P q ⟨now, fun _ => [], clock⟩ := by
  intro expired q' _
  refine (Steps.of_forall (P := fun a => ∃ timer, a = CallStep.run timer) ?_).mono ?_
  · intro a ha
    obtain ⟨e, -, he⟩ := List.mem_flatMap.mp ha
    exact ⟨e.second, by simpa using he⟩
  · rintro q a _ ⟨timer, rfl⟩
    exact hP q timer

/-- One timer is added and expires. -/
theorem timerfd_in_time_iff_sample :
    Steps queueStep StaysInTime new
      [.act (.add 1 ⟨2000000, 0, false, 1⟩ 1000000),
       .handleRead ⟨2000000, fun _ => [], fun _ => 2000000⟩] := by
  refine (timerfd_in_time_iff new_coherent new_inTime _ ?_).mpr ?_
  · refine (steps_cons_ok oneTimer_eq).mpr ⟨⟨rfl, by decide⟩, ⟨by decide, ?_, ?_⟩, fun _ _ => trivial⟩
    · exact ⟨⟨2000000, 1⟩, by simp [oneTimer, added_timers], by decide⟩
    · exact idle_calls (fun _ _ => ⟨trivial, trivial⟩) _ _ _
  · refine (steps_cons_ok oneTimer_eq).mpr ⟨.inl rfl, ?_, fun _ _ => trivial⟩
    exact idle_calls (fun _ _ => trivial) _ _ _

/-- A second timer that expires before the first one: the descriptor stays set
for the first. -/
theorem earlier_timer_late :
    new.Coherent [] ∧ new.InTime ∧
    (Along queueStep AddingAllowed new
      [.act (.add 1 ⟨2000000, 0, false, 1⟩ 1000000), .act (.add 2 ⟨1500000, 0, false, 2⟩ 1000000)]) ∧
    ¬ Steps queueStep StaysInTime new
      [.act (.add 1 ⟨2000000, 0, false, 1⟩ 1000000), .act (.add 2 ⟨1500000, 0, false, 2⟩ 1000000)] := by
  have hallowed : oneTimer.ActAllowed (.add 2 ⟨1500000, 0, false, 2⟩ 1000000) := ⟨rfl, by decide⟩
  refine ⟨new_coherent, new_inTime, ?_, ?_⟩
  · exact (steps_cons_ok oneTimer_eq).mpr ⟨⟨rfl, by decide⟩, hallowed, fun _ _ => trivial⟩
  · intro hsteps
    obtain ⟨⟨q, hq, hin⟩, -⟩ := ((steps_cons_ok oneTimer_eq).mp hsteps).2
    obtain rfl : oneTimer.added 2 ⟨1500000, 0, false, 2⟩ 1000000 = q :=
      Except.ok.inj ((act_add oneTimer_coherent hallowed).1.symm.trans hq)
    obtain hempty | ⟨a, ha, hlate⟩ := ((added_inTime_iff ..).mp hin).2
    · simp [oneTimer, added_timers] at hempty
    · obtain rfl : (⟨2000000, 1000000⟩ : Armed) = a := Option.some.inj ha
      exact absurd hlate (by decide)

/-! ## Cancellation -/

/-- The descriptor is set for the earliest timer. -/
def ArmedForEarliest (q : TimerQueue) : Prop := ∀ b ∈ q.begin?, ∃ a ∈ q.timerfd, a.For b.first

def CallStep.Valid : CallStep → Prop
  | .act (.add _ t _) => 0 < t.expiration
  | _ => True

/-- Additions at free addresses, cancellations of any ids, and passes at which
the descriptor has expired; callbacks add timers with valid expirations only. -/
def CancelAllowed (q : TimerQueue) : QueueStep → Prop
  | .act a => q.ActAllowed a
  | .handleRead pass => 0 < pass.now ∧ (∃ a ∈ q.timerfd, a.deadline ≤ pass.now) ∧
      DuringCalls (fun q a => q.CallAllowed a ∧ a.Valid) q pass

/-- No assertion fails, and a pass leaves the descriptor set for the earliest
timer. -/
def PassRearms (_ : TimerQueue) (a : QueueStep) (o : Checked TimerQueue) : Prop :=
  ∃ q', o = .ok q' ∧ match a with
    | .act _ => True
    | .handleRead _ => q'.ArmedForEarliest

/-- A pass finds no timer at all, or one that has expired. -/
def SomeExpired (q : TimerQueue) : QueueStep → Prop
  | .act _ => True
  | .handleRead pass => q.timers = ∅ ∨ ∃ e ∈ q.timers, e.first ≤ pass.now

theorem callStep_positive {q q' : TimerQueue} (h : q.Coherent []) {a : CallStep}
    (ha : q.CallAllowed a ∧ a.Valid) (hpos : ∀ e ∈ q.timers, 0 < e.first)
    (hs : q.callStep a = .ok q') : ∀ e ∈ q'.timers, 0 < e.first := by
  cases a with
  | run timer =>
    obtain ⟨t, -, hq⟩ := bind_eq_ok.mp hs
    cases hq
    exact hpos
  | act a =>
    cases a with
    | add timer t now =>
      obtain rfl : q.added timer t now = q' := Except.ok.inj ((act_add h ha.1).1.symm.trans hs)
      intro e he
      rw [added_timers] at he
      rcases Finset.mem_insert.mp he with rfl | he
      · exact ha.2
      · exact hpos e he
    | cancel timer =>
      rcases cancelInLoop_spec h timer with ⟨t, -, -, -, hq⟩ | ⟨-, hq⟩
      · cases hq.symm.trans hs
        exact fun e he => hpos e (Finset.mem_of_mem_erase he)
      · cases hq.symm.trans hs
        split <;> exact hpos

theorem handleRead_rearms_iff {q : TimerQueue} (h : q.Coherent []) {pass : Pass}
    (hnow : 0 < pass.now) (hfired : ∃ a ∈ q.timerfd, a.deadline ≤ pass.now)
    (hcalls : DuringCalls (fun q a => q.CallAllowed a ∧ a.Valid) q pass) :
    ∃ q', q.handleRead pass = .ok q' ∧ q'.Coherent [] ∧
      (q'.ArmedForEarliest ↔ q.timers = ∅ ∨ ∃ e ∈ q.timers, e.first ≤ pass.now) := by
  by_cases hnone : q.expiredEntries pass.now = []
  · -- nothing has expired: the descriptor was read and is not set again
    obtain ⟨q', hq, hcoh, ht, hfd⟩ := handleRead_none h hnone
    have hread : (q.readTimerfd pass.now).timerfd = none := by
      obtain ⟨a, ha, hle⟩ := hfired
      simp [readTimerfd, Option.mem_def.mp ha, hle]
    have hno : ¬ ∃ e ∈ q.timers, e.first ≤ pass.now := by
      rintro ⟨e, he, hle⟩
      simpa [hnone] using (mem_expiredEntries h).mpr ⟨he, hle⟩
    refine ⟨q', hq, hcoh, ?_⟩
    rw [or_iff_left hno, ← ht, ← begin?_eq_none]
    constructor
    · intro harmed
      by_contra hb
      obtain ⟨b, hb⟩ := Option.ne_none_iff_exists'.mp hb
      obtain ⟨a, ha, -⟩ := harmed b hb
      simp [hfd, hread] at ha
    · intro hb b hb'
      simp [hb] at hb'
  · obtain ⟨q₁, q₂, q', hbegin, hcoh, ht, hrun, hq, hby, harm⟩ :=
      handleRead_spec h hnone fun _ _ hb => (hcalls _ _ hb).mono fun _ _ _ hc => hc.1
    have hsome : ∃ e ∈ q.timers, e.first ≤ pass.now := by
      obtain ⟨e, he⟩ := List.exists_mem_of_ne_nil _ hnone
      exact ⟨e, (mem_expiredEntries h).mp he⟩
    refine ⟨q', hq, hby.coherent, iff_of_true ?_ (.inr hsome)⟩
    intro b hb
    have hstart : ∀ e ∈ q₁.timers, 0 < e.first := by
      intro e he
      rw [ht] at he
      exact hnow.trans (Finset.mem_filter.mp he).2
    have hend := hrun.invariant (I := fun q => q.Coherent [] ∧ ∀ e ∈ q.timers, 0 < e.first)
      (hcalls _ _ hbegin) ⟨hcoh, hstart⟩
      fun q a q' ⟨h, hpos⟩ ha hs => ⟨callStep_coherent h ha.1 hs, callStep_positive h ha hpos hs⟩
    have hpos : 0 < b.first :=
      (hby.new_ge b (begin?_mem hb).1).elim (hend.2 b) fun hge => hnow.trans_le hge
    obtain ⟨clock, hfd⟩ := harm.valid b hb hpos
    exact ⟨_, hfd, rfl⟩

/-- **Re-arming.** In a run of additions, cancellations and passes at which the
descriptor has expired, every pass leaves the descriptor set for the earliest
timer, and no assertion fails, exactly when every pass finds `timers_` empty or
some timer that has expired. -/
theorem pass_rearms_iff {q : TimerQueue} (h : q.Coherent []) (steps : List QueueStep)
    (hsteps : Along queueStep CancelAllowed q steps) :
    Steps queueStep PassRearms q steps ↔ Along queueStep SomeExpired q steps := by
  have hstep : ∀ q a, q.Coherent [] → q.CancelAllowed a →
      ∃ q', q.queueStep a = .ok q' ∧ q'.Coherent [] ∧
        (PassRearms q a (.ok q') ↔ q.SomeExpired a) := by
    intro q a h ha
    cases a with
    | act a =>
      obtain ⟨q', hq, hcoh, -⟩ := act_spec h ha
      exact ⟨q', hq, hcoh, iff_of_true ⟨q', rfl, trivial⟩ trivial⟩
    | handleRead pass =>
      obtain ⟨q', hq, hcoh, hiff⟩ := handleRead_rearms_iff h ha.1 ha.2.1 ha.2.2
      refine ⟨q', hq, hcoh, Iff.trans ⟨?_, fun harmed => ⟨q', rfl, harmed⟩⟩ hiff⟩
      rintro ⟨q'', heq, harmed⟩
      cases heq
      exact harmed
  refine steps_iff (I := fun q => q.Coherent []) ?_ ?_ h hsteps
  · intro q a h ha
    obtain ⟨q', hq, -, hiff⟩ := hstep q a h ha
    rw [hq]
    exact hiff
  · intro q a q'' h ha _ hs
    obtain ⟨q', hq, hcoh, -⟩ := hstep q a h ha
    cases hq.symm.trans hs
    exact hcoh

/-- A timer due at one second past the clock, and another a second later. -/
def twoTimers : TimerQueue := oneTimer.added 2 ⟨3000000, 0, false, 2⟩ 1000000

theorem twoTimers_eq :
    oneTimer.queueStep (.act (.add 2 ⟨3000000, 0, false, 2⟩ 1000000)) = .ok twoTimers ∧
      twoTimers.Coherent [] :=
  act_add oneTimer_coherent ⟨rfl, by decide⟩

/-- The descriptor fires for the first of two timers. -/
theorem pass_rearms_iff_sample :
    Steps queueStep PassRearms twoTimers [.handleRead ⟨2000000, fun _ => [], fun _ => 2000000⟩] := by
  refine (pass_rearms_iff twoTimers_eq.2 _ ?_).mpr ?_
  · refine ⟨⟨by decide, ⟨⟨2000000, 1000000⟩, rfl, by decide⟩, ?_⟩, fun _ _ => trivial⟩
    exact idle_calls (fun _ _ => ⟨trivial, trivial⟩) _ _ _
  · exact ⟨.inr ⟨⟨2000000, 1⟩, by decide, by decide⟩, fun _ _ => trivial⟩

/-- The first of two timers is cancelled; the pass for which the descriptor was
set finds nothing to do, and the second timer is never run. -/
theorem cancel_disarms :
    twoTimers.Coherent [] ∧ twoTimers.ArmedForEarliest ∧
    (Along queueStep CancelAllowed twoTimers
      [.act (.cancel ⟨1, 1⟩), .handleRead ⟨2000000, fun _ => [], fun _ => 2000000⟩]) ∧
    ¬ Steps queueStep PassRearms twoTimers
      [.act (.cancel ⟨1, 1⟩), .handleRead ⟨2000000, fun _ => [], fun _ => 2000000⟩] := by
  let q := twoTimers.erased ⟨1, 1⟩ ⟨2000000, 0, false, 1⟩
  have hcancel : twoTimers.queueStep (.act (.cancel ⟨1, 1⟩)) = .ok q := by
    rcases cancelInLoop_spec twoTimers_eq.2 ⟨1, 1⟩ with ⟨t, ht, -, -, hq⟩ | ⟨hnot, -⟩
    · obtain rfl : (⟨2000000, 0, false, 1⟩ : Timer) = t := Option.some.inj ht
      exact hq
    · exact absurd (by decide) hnot
  have hq : q.Coherent [] := twoTimers_eq.2.erased (t := ⟨2000000, 0, false, 1⟩) rfl rfl
  have hnow : (0 : TimeStamp) < 2000000 := by decide
  have hfired : ∃ a ∈ q.timerfd, a.deadline ≤ 2000000 := ⟨⟨2000000, 1000000⟩, rfl, by decide⟩
  have hcalls : DuringCalls (fun q a => q.CallAllowed a ∧ a.Valid) q
      ⟨2000000, fun _ => [], fun _ => 2000000⟩ := idle_calls (fun _ _ => ⟨trivial, trivial⟩) _ _ _
  refine ⟨twoTimers_eq.2, ?_, ?_, ?_⟩
  · intro b hb
    obtain rfl : (⟨2000000, 1⟩ : Entry) = b := Option.some.inj hb
    exact ⟨⟨2000000, 1000000⟩, rfl, by decide⟩
  · exact (steps_cons_ok hcancel).mpr ⟨trivial, ⟨hnow, hfired, hcalls⟩, fun _ _ => trivial⟩
  · intro hsteps
    obtain ⟨⟨q', hq', harmed⟩, -⟩ := ((steps_cons_ok hcancel).mp hsteps).2
    obtain ⟨q'', hq'', -, hiff⟩ := handleRead_rearms_iff hq hnow hfired hcalls
    cases hq''.symm.trans hq'
    exact absurd (hiff.mp harmed) (by decide)

end TimerQueue

end Muduo
