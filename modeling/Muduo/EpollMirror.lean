import Muduo.Epoller

/-!
The epoll set against the interest of the channels. `updateChannel` deletes a
watched channel when its interest is empty, but adds an unwatched one without
looking at its interest. `epoll_mirrors_iff`: the set mirrors the interest
exactly as long as no such channel is updated to, or left with, an empty one.
-/

namespace Muduo

open Lib Events

namespace Channel

/-- The kernel watches the channel exactly if it is in `channels_` and wants
events, and then for these. -/
def Mirrored (ch : Channel) : Prop :=
  ch.registered = if ch.mapped = true ∧ ch.events ≠ kNoneEvent then some ch.events else none

/-- `index_` tells the same of a channel that has never been added without an
interest. -/
structure Exact (ch : Channel) : Prop where
  coherent : ch.Coherent
  registered : ch.registered = if ch.index = .kAdded then some ch.events else none
  interest : ch.index = .kAdded ↔ ch.events ≠ kNoneEvent

theorem Exact.mirrored {ch : Channel} (h : ch.Exact) : ch.Mirrored := by
  rw [Mirrored, h.registered]
  by_cases hi : ch.index = .kAdded
  · have hm : ch.mapped = true := h.coherent.mapped_iff.mpr (by simp [hi])
    rw [if_pos hi, if_pos ⟨hm, h.interest.mp hi⟩]
  · rw [if_neg hi, if_neg fun hp => hi (h.interest.mpr hp.2)]

theorem new_exact : new.Exact := ⟨new_coherent, rfl, by simp [new]⟩

/-- An update with an empty interest of a channel that is not watched is the
one that goes wrong. -/
theorem update_exact {ch : Channel} (h : ch.Exact) (events : Events) :
    ∃ ch', update { ch with events } = .ok ch' ∧
      if ch.index ≠ .kAdded ∧ events = kNoneEvent then ¬ ch'.Mirrored else ch'.Exact := by
  by_cases hi : ch.index = .kAdded
  · have hm : ch.mapped = true := h.coherent.mapped_iff.mpr (by simp [hi])
    have hreg : ch.registered = some ch.events := by rw [h.registered, if_pos hi]
    have hcond : ¬ (ch.index ≠ .kAdded ∧ events = kNoneEvent) := fun hc => hc.1 hi
    by_cases hnone : events = kNoneEvent
    · refine ⟨{ ch with events, addedToLoop := true, registered := none, index := .kDeleted }, ?_, ?_⟩
      · simp [update, updateChannel, hi, hm, check_pos, isNoneEvent, hnone, epollCtl]
      · rw [if_neg hcond]
        exact ⟨⟨by simp [hm], by simp⟩, by simp, by simp [hnone]⟩
    · refine ⟨{ ch with events, addedToLoop := true, registered := some events }, ?_, ?_⟩
      · simp [update, updateChannel, hi, hm, check_pos, isNoneEvent, hnone, epollCtl, hreg]
      · rw [if_neg hcond]
        exact ⟨⟨by simp [hm, hi], by simp [hi]⟩, by simp [hi], by simp [hi, hnone]⟩
  · have hreg : ch.registered = none := by rw [h.registered, if_neg hi]
    refine ⟨{ ch with
      events, addedToLoop := true, mapped := true, index := .kAdded, registered := some events }, ?_, ?_⟩
    · cases hidx : ch.index with
      | kAdded => exact absurd hidx hi
      | kNew | kDeleted => simp [update, updateChannel, epollCtl, hreg]
    · by_cases hnone : events = kNoneEvent
      · rw [if_pos ⟨hi, hnone⟩]
        simp [Mirrored, hnone]
      · rw [if_neg fun hc => hnone hc.2]
        exact ⟨⟨by simp, by simp⟩, by simp, by simp [hnone]⟩

theorem remove_exact {ch : Channel} (h : ch.Exact) (hnone : ch.events = kNoneEvent)
    (hi : ch.index ≠ .kNew) : ∃ ch', ch.remove = .ok ch' ∧ ch'.Exact := by
  have hm : ch.mapped = true := h.coherent.mapped_iff.mpr hi
  have hdel : ch.index = .kDeleted := by
    cases hidx : ch.index with
    | kNew => exact absurd hidx hi
    | kAdded => exact absurd hnone (h.interest.mp hidx)
    | kDeleted => rfl
  have hreg : ch.registered = none := by rw [h.registered, if_neg (by simp [hdel])]
  refine ⟨{ ch with addedToLoop := false, mapped := false, index := .kNew }, ?_,
    ⟨by simp, by simp⟩, by simp [hreg], by simp [hnone]⟩
  simp [remove, removeChannel, isNoneEvent, hnone, hm, hdel, check_pos]

/-- The call adds a channel without an interest. -/
def AddsEmpty (ch : Channel) (call : ChannelCall) : Prop :=
  call ≠ .remove ∧ ch.index ≠ .kAdded ∧ call.interest ch.events = kNoneEvent

instance (ch : Channel) (call : ChannelCall) : Decidable (ch.AddsEmpty call) :=
  inferInstanceAs (Decidable (_ ∧ _))

theorem call_eq_update (ch : Channel) {call : ChannelCall} (h : call ≠ .remove) :
    ch.call call = update { ch with events := call.interest ch.events } := by
  cases call with
  | remove => exact absurd rfl h
  | _ => rfl

theorem call_exact {ch : Channel} (h : ch.Exact) {call : ChannelCall}
    (hcall : call = .remove → ch.events = kNoneEvent ∧ ch.index ≠ .kNew) :
    ∃ ch', ch.call call = .ok ch' ∧ if ch.AddsEmpty call then ¬ ch'.Mirrored else ch'.Exact := by
  by_cases hr : call = .remove
  · obtain ⟨hnone, hi⟩ := hcall hr
    obtain ⟨ch', hok, hexact⟩ := remove_exact h hnone hi
    subst hr
    exact ⟨ch', hok, by rw [if_neg fun ha => ha.1 rfl]; exact hexact⟩
  · obtain ⟨ch', hok, hspec⟩ := update_exact h (call.interest ch.events)
    refine ⟨ch', (call_eq_update ch hr).trans hok, ?_⟩
    simpa only [AddsEmpty, ne_eq, hr, not_false_eq_true, true_and] using hspec

end Channel

namespace Epoller

variable {κ : Type} (fd : κ → Nat)

/-- The epoll set holds a descriptor exactly if its channel is in `channels_`
and wants events, and then with these events and this channel. -/
def Mirrors (s : Epoller κ) : Prop :=
  ∀ f m c, s.epollSet f = some (m, c) ↔
    fd c = f ∧ s.channels f = some c ∧ (s.channel c).events ≠ kNoneEvent ∧ m = (s.channel c).events

/-- `epoll_wait` may report what was asked for, and an error or a hangup in any
case. -/
def Reports (s : Epoller κ) (c : κ) (revents : Events) : Prop :=
  ∃ f m, s.epollSet f = some (m, c) ∧ revents &&& ~~~(m ||| POLLERR ||| POLLHUP) = 0

/-- Nothing is reported to a channel that wants nothing. -/
def Silent (s : Epoller κ) : Prop :=
  ∀ c revents, s.Reports c revents → (s.channel c).events ≠ kNoneEvent

def StaysMirrored (_ : Epoller κ) (_ : κ × ChannelCall) (o : Checked (Epoller κ)) : Prop :=
  ∃ s', o = .ok s' ∧ s'.Mirrors fd ∧ s'.Silent

/-- A channel that is not watched is updated to a nonempty interest only. -/
def Watches (s : Epoller κ) : κ × ChannelCall → Prop
  | (c, call) => call ≠ .remove → (s.channel c).index ≠ .kAdded →
      call.interest (s.channel c).events ≠ kNoneEvent

instance (s : Epoller κ) (a : κ × ChannelCall) : Decidable (s.Watches a) :=
  inferInstanceAs (Decidable (_ → _ → _))

instance (s : Epoller κ) : (a : κ × ChannelCall) → Decidable (s.Enabled a)
  | (_, .remove) => inferInstanceAs (Decidable (_ ∧ _))
  | (_, .enableReading) | (_, .disableReading) | (_, .enableWriting) | (_, .disableWriting)
  | (_, .disableAll) => isTrue trivial

variable {fd}

theorem Mirrors.silent {s : Epoller κ} (h : s.Mirrors fd) : s.Silent := by
  rintro c revents ⟨f, m, hentry, -⟩
  exact ((h f m c).mp hentry).2.2.1

variable [DecidableEq κ]

theorem mirrors_iff (hfd : Function.Injective fd) {s : Epoller κ} (h : s.Owned fd) :
    s.Mirrors fd ↔ ∀ c, (s.alone fd c).Mirrored := by
  have hmapped : ∀ c, (s.alone fd c).mapped = true ↔ s.channels (fd c) = some c := by
    simp [alone]
  constructor
  · intro hm c
    by_cases hcond : s.channels (fd c) = some c ∧ (s.channel c).events ≠ kNoneEvent
    · have hentry := (hm (fd c) _ c).mpr ⟨rfl, hcond.1, hcond.2, rfl⟩
      rw [Channel.Mirrored, if_pos ⟨(hmapped c).mpr hcond.1, hcond.2⟩]
      simp [alone, hentry]
    · rw [Channel.Mirrored, if_neg fun hp => hcond ⟨(hmapped c).mp hp.1, hp.2⟩]
      cases hentry : s.epollSet (fd c) with
      | none => simp [alone, hentry]
      | some e =>
        obtain rfl : e.2 = c := hfd (h.epollSet hentry)
        obtain ⟨-, hmap, hne, -⟩ := (hm _ e.1 e.2).mp hentry
        exact absurd ⟨hmap, hne⟩ hcond
  · intro hall f m c
    constructor
    · intro hentry
      obtain rfl : fd c = f := h.epollSet hentry
      have hreg : (s.alone fd c).registered = some m := by simp [alone, hentry]
      have hmir := hall c
      rw [Channel.Mirrored, hreg] at hmir
      split at hmir
      · rename_i hp
        exact ⟨rfl, (hmapped c).mp hp.1, hp.2, Option.some.inj hmir⟩
      · cases hmir
    · rintro ⟨rfl, hmap, hne, rfl⟩
      have hmir := hall c
      rw [Channel.Mirrored, if_pos ⟨(hmapped c).mpr hmap, hne⟩] at hmir
      obtain ⟨e, hentry, hevents⟩ := Option.map_eq_some_iff.mp hmir
      have hc : e.2 = c := hfd (h.epollSet hentry)
      rw [hentry]
      exact congrArg some (Prod.ext hevents hc)

/-! ## Runs -/

structure Inv (fd : κ → Nat) (s : Epoller κ) : Prop where
  owned : s.Owned fd
  exact : ∀ c, (s.alone fd c).Exact

theorem new_inv : (new : Epoller κ).Inv fd :=
  ⟨⟨fun h => (Option.some_ne_none _ h.symm).elim, fun h => (Option.some_ne_none _ h.symm).elim⟩,
    fun _ => Channel.new_exact⟩

/-- What a call makes of the channels, and when it goes wrong. -/
theorem step_inv (hfd : Function.Injective fd) {s : Epoller κ} (h : s.Inv fd)
    {a : κ × ChannelCall} (ha : s.Enabled a) :
    ∃ s', s.step fd a = .ok s' ∧ s'.Owned fd ∧ (s.Watches a → s'.Inv fd) ∧
      (¬ s.Watches a → ¬ s'.Mirrors fd) := by
  obtain ⟨c, call⟩ := a
  have hcall : call = .remove →
      (s.alone fd c).events = kNoneEvent ∧ (s.alone fd c).index ≠ .kNew := by
    rintro rfl
    exact ha
  have hwatches : s.Watches (c, call) ↔ ¬ (s.alone fd c).AddsEmpty call := by
    simp only [Watches, Channel.AddsEmpty, not_and]
    rfl
  obtain ⟨ch, hok, hspec⟩ := Channel.call_exact (h.exact c) hcall
  have hacts := step_acts hfd h.owned c call
  rw [hok] at hacts
  generalize s.step fd (c, call) = o at hacts
  cases hacts with
  | @ok s' _ hl =>
    refine ⟨s', rfl, hl.owned, fun hw => ⟨hl.owned, ?_⟩, ?_⟩
    · intro d
      rw [if_neg (hwatches.mp hw)] at hspec
      by_cases hd : d = c
      · rw [hd, hl.alone]
        exact hspec
      · rw [hl.frame d hd]
        exact h.exact d
    · intro hw hm
      rw [if_pos (not_not.mp (hwatches.not.mp hw))] at hspec
      have hmir := (mirrors_iff hfd hl.owned).mp hm c
      rw [hl.alone] at hmir
      exact hspec hmir

theorem Inv.mirrors (hfd : Function.Injective fd) {s : Epoller κ} (h : s.Inv fd) : s.Mirrors fd :=
  (mirrors_iff hfd h.owned).mpr fun c => (h.exact c).mirrored

/-- **The epoll set.** For any number of channels with distinct descriptors, the
epoll set mirrors their interest behind every call, and nothing is reported to a
channel that wants nothing, exactly when no call leaves a channel that the
kernel did not watch without an interest. -/
theorem epoll_mirrors_iff (hfd : Function.Injective fd) (steps : List (κ × ChannelCall))
    (hsteps : Along (step fd) Enabled new steps) :
    Steps (step fd) (StaysMirrored fd) new steps ↔ Along (step fd) Watches new steps := by
  refine steps_iff (I := Inv fd) ?_ ?_ new_inv hsteps
  · intro s a h ha
    obtain ⟨s', hs, -, hgood, hbad⟩ := step_inv hfd h ha
    constructor
    · rintro ⟨s₁, hs₁, hmir, -⟩
      cases hs.symm.trans hs₁
      by_contra hw
      exact hbad hw hmir
    · intro hw
      have hmir := (hgood hw).mirrors hfd
      exact ⟨s', hs, hmir, hmir.silent⟩
  · intro s a s' h ha hw hs
    obtain ⟨s₁, hs₁, -, hgood, -⟩ := step_inv hfd h ha
    cases hs₁.symm.trans hs
    exact hgood hw

/-- Two channels; the first stops and starts again, and is removed. -/
theorem epoll_mirrors_iff_sample :
    Steps (step id) (StaysMirrored id) new [(0, .enableReading), (1, .enableWriting),
      (0, .disableReading), (0, .enableReading), (0, .disableAll), (0, .remove)] :=
  (epoll_mirrors_iff Function.injective_id _ (by decide)).mpr (by decide)

/-- A channel that stops reading and is then disabled is added again, and a
hangup is reported to it. -/
theorem disabled_channel_watched :
    (Along (step id) Enabled (new : Epoller Nat)
      [(0, .enableReading), (0, .disableReading), (0, .disableAll)]) ∧
    (¬ Steps (step id) (StaysMirrored id) (new : Epoller Nat)
      [(0, .enableReading), (0, .disableReading), (0, .disableAll)]) ∧
    ∃ s, Run (step id) (new : Epoller Nat)
        [(0, .enableReading), (0, .disableReading), (0, .disableAll)] s ∧
      (s.channel 0).events = kNoneEvent ∧ s.Reports 0 POLLHUP := by
  refine ⟨by decide, fun h => ?_, _, .cons rfl (.cons rfl (.cons rfl (.nil _))), rfl,
    0, kNoneEvent, rfl, by decide⟩
  obtain ⟨s, hs, -, hsilent⟩ := ((h.2 _ rfl).2 _ rfl).1
  cases hs
  exact hsilent 0 POLLHUP ⟨0, kNoneEvent, rfl, by decide⟩ rfl

end Epoller

end Muduo
