import Muduo.EpollMirror

/-!
The bookkeeping of the poller: `index_` of every channel, `channels_` and the
epoll set, with `poll` and with the calls of `epoll_ctl` on record.

* `Booked`: what the three say about a channel goes together;
* `call_epoller`: the record aside, a call is that of `Epoller`;
* `bookkeeping_coherent`: along every run no call of `epoll_ctl` is refused, and
  what the kernel reports is found in `channels_`.
-/

namespace Muduo

open Lib Events

/-! ## One channel -/

namespace Channel

/-- The kernel watches the channel exactly if `index_` says so. -/
structure Booked (ch : Channel) : Prop where
  coherent : ch.Coherent
  registered : ch.registered.isSome = true ↔ ch.index = .kAdded

theorem new_booked : new.Booked := ⟨new_coherent, by simp [new]⟩

theorem update_booked {ch : Channel} (h : ch.Booked) (events : Events) :
    ∃ ch', update { ch with events } = .ok ch' ∧ ch'.Booked := by
  obtain ⟨ch', hok, hupdated⟩ := update_spec h.coherent events
  refine ⟨ch', hok, hupdated.coherent, ?_⟩
  unfold update updateChannel at hok
  cases hi : ch.index with
  | kAdded =>
    obtain ⟨m, hm⟩ := Option.isSome_iff_exists.mp (h.registered.mpr hi)
    simp only [hi] at hok
    obtain ⟨_, -, hok⟩ := bind_eq_ok.mp hok
    split at hok <;> cases hok <;> simp [epollCtl, hm]
  | kNew | kDeleted =>
    have hreg : ch.registered = none := by
      cases hr : ch.registered with
      | none => rfl
      | some m => exact absurd (h.registered.mp (by simp [hr])) (by simp [hi])
    simp only [hi] at hok
    cases hok
    simp [epollCtl, hreg]

theorem remove_booked {ch : Channel} (h : ch.Booked) (hnone : ch.events = kNoneEvent)
    (hi : ch.index ≠ .kNew) : ∃ ch', ch.remove = .ok ch' ∧ ch'.Booked ∧ ch'.index = .kNew := by
  obtain ⟨ch', hok, hcoherent, -, hidx, -⟩ := remove_spec h.coherent hnone hi
  refine ⟨ch', hok, ⟨hcoherent, ?_⟩, hidx⟩
  obtain ⟨_, -, hok⟩ := bind_eq_ok.mp hok
  obtain ⟨_, -, hok⟩ := bind_eq_ok.mp hok
  obtain ⟨_, -, hok⟩ := bind_eq_ok.mp hok
  obtain ⟨_, -, hok⟩ := bind_eq_ok.mp hok
  cases hok
  by_cases hadded : ch.index = .kAdded
  · simp [hadded, epollCtl]
  · have hreg : ¬ ch.registered.isSome = true := h.registered.not.mpr hadded
    simpa [hadded] using hreg

theorem call_booked {ch : Channel} (h : ch.Booked) {call : ChannelCall}
    (hcall : call = .remove → ch.events = kNoneEvent ∧ ch.index ≠ .kNew) :
    ∃ ch', ch.call call = .ok ch' ∧ ch'.Booked ∧ (call = .remove → ch'.index = .kNew) := by
  by_cases hr : call = .remove
  · obtain ⟨hnone, hi⟩ := hcall hr
    obtain ⟨ch', hok, hbooked, hidx⟩ := remove_booked h hnone hi
    subst hr
    exact ⟨ch', hok, hbooked, fun _ => hidx⟩
  · obtain ⟨ch', hok, hbooked⟩ := update_booked h (call.interest ch.events)
    exact ⟨ch', (call_eq_update ch hr).trans hok, hbooked, fun h => absurd h hr⟩

end Channel

/-! ## The poller -/

/-- `Poller::hasChannel`. -/
def Epoller.hasChannel {κ : Type} [DecidableEq κ] (s : Epoller κ) (fd : κ → Nat) (c : κ) : Bool :=
  s.channels (fd c) == some c

/-- A call of `epoll_ctl`, and whether it found its descriptor in the epoll set. -/
structure EpollCtl (κ : Type) where
  operation : EpollOp
  channel : κ
  registered : Bool

/-- The kernel adds a descriptor that is not there, and changes or deletes one
that is. -/
def EpollCtl.Valid {κ : Type} (ctl : EpollCtl κ) : Prop :=
  ctl.operation = .add ↔ ctl.registered = false

/-- The poller of a loop, with the calls of `epoll_ctl` that it has made. -/
structure LoopPoller (κ : Type) where
  epoller : Epoller κ
  /-- `revents_` of the channels -/
  revents : κ → Events
  /-- the size of `events_` -/
  events_ : Nat
  /-- `activeChannels_` of the loop -/
  activeChannels : List κ
  issued : List (EpollCtl κ)

namespace LoopPoller

variable {κ : Type}

def kInitEventListSize : Nat := 16

def new : LoopPoller κ := ⟨.new, fun _ => 0, kInitEventListSize, [], []⟩

inductive Label (κ : Type) where
  | call (c : κ) (call : ChannelCall)
  /-- `epoll_wait` returns with these events, each with its `data.ptr` -/
  | poll (events : List (Events × κ))

variable [DecidableEq κ] (fd : κ → Nat)

def update (s : LoopPoller κ) (operation : EpollOp) (c : κ) : LoopPoller κ :=
  { s with
    epoller := s.epoller.update fd operation c
    issued := s.issued ++ [⟨operation, c, (s.epoller.epollSet (fd c)).isSome⟩] }

def updateChannel (s : LoopPoller κ) (c : κ) : Checked (LoopPoller κ) :=
  match (s.epoller.channel c).index with
  | .kNew | .kDeleted => do
    let epoller ← s.epoller.enterChannel fd c
    return update fd { s with epoller := epoller.setIndex c .kAdded } .add c
  | .kAdded => do
    check (s.epoller.channels (fd c) = some c) .updateChannel
    if (s.epoller.channel c).events = kNoneEvent then
      let s := s.update fd .del c
      return { s with epoller := s.epoller.setIndex c .kDeleted }
    else
      return s.update fd .mod c

def removeChannel (s : LoopPoller κ) (c : κ) : Checked (LoopPoller κ) := do
  check (s.epoller.channels (fd c) = some c) .removeChannel
  check ((s.epoller.channel c).events = kNoneEvent) .removeChannel
  let index := (s.epoller.channel c).index
  check (index = .kAdded ∨ index = .kDeleted) .removeChannel
  let s := { s with epoller := s.epoller.setMapped fd c none }
  let s := if index = .kAdded then s.update fd .del c else s
  return { s with epoller := s.epoller.setIndex c .kNew }

/-- `Channel::remove`, or `Channel::update` behind the change of `events_`. -/
def call (s : LoopPoller κ) (c : κ) : ChannelCall → Checked (LoopPoller κ)
  | .remove => do
    check ((s.epoller.channel c).events = kNoneEvent) .channelRemove
    let epoller := s.epoller.setFields c fun ch => { ch with addedToLoop := false }
    removeChannel fd { s with epoller } c
  | call =>
    let epoller := s.epoller.setFields c fun ch =>
      { ch with events := call.interest ch.events, addedToLoop := true }
    updateChannel fd { s with epoller } c

def fillActiveChannels (s : LoopPoller κ) : List (Events × κ) → Checked (LoopPoller κ)
  | [] => return s
  | (revents, c) :: events => do
    check (s.epoller.channels (fd c) ≠ none) .fillActiveChannels
    check (s.epoller.channels (fd c) = some c) .fillActiveChannels
    fillActiveChannels { s with
      revents := Function.update s.revents c revents
      activeChannels := s.activeChannels ++ [c] } events

/-- The loop has cleared `activeChannels_`. -/
def poll (s : LoopPoller κ) (events : List (Events × κ)) : Checked (LoopPoller κ) := do
  let s := { s with activeChannels := [] }
  if 0 < events.length then
    check (events.length ≤ s.events_) .fillActiveChannels
    let s ← s.fillActiveChannels fd events
    return if events.length = s.events_ then { s with events_ := s.events_ * 2 } else s
  else
    return s

def step (s : LoopPoller κ) : Label κ → Checked (LoopPoller κ)
  | .call c call => s.call fd c call
  | .poll events => s.poll fd events

/-- `remove` is for a channel without interest that is in the poller, and
`epoll_wait` has room for so many events of what is in the epoll set. -/
def Enabled (s : LoopPoller κ) : Label κ → Prop
  | .call c .remove => (s.epoller.channel c).events = kNoneEvent ∧ s.epoller.hasChannel fd c = true
  | .call _ _ => True
  | .poll events => events.length ≤ s.events_ ∧ ∀ e ∈ events, s.epoller.Reports e.2 e.1

/-- `index_`, `channels_` and the epoll set tell the same, and the kernel has
refused nothing. -/
structure InOrder (s : LoopPoller κ) : Prop where
  channels : ∀ f c, s.epoller.channels f = some c ↔ fd c = f ∧
    ((s.epoller.channel c).index = .kAdded ∨ (s.epoller.channel c).index = .kDeleted)
  epollSet : ∀ f c, (∃ m, s.epoller.epollSet f = some (m, c)) ↔
    fd c = f ∧ (s.epoller.channel c).index = .kAdded
  issued : ∀ ctl ∈ s.issued, ctl.Valid

/-- The step does not fail and leaves things in order, and nothing of a channel
that is removed. -/
def Orderly (_ : LoopPoller κ) (a : Label κ) (o : Checked (LoopPoller κ)) : Prop :=
  ∃ s', o = .ok s' ∧ s'.InOrder fd ∧
    ∀ c, a = .call c .remove →
      s'.epoller.channels (fd c) = none ∧ s'.epoller.epollSet (fd c) = none

/-! ## The record aside -/

variable {fd}

theorem updateChannel_epoller (s : LoopPoller κ) (c : κ) :
    (s.updateChannel fd c).map epoller = s.epoller.updateChannel fd c := by
  unfold updateChannel Epoller.updateChannel
  cases (s.epoller.channel c).index with
  | kAdded =>
    dsimp only
    by_cases hm : s.epoller.channels (fd c) = some c
    · rw [check_pos hm, ok_bind]
      split <;> rfl
    · rw [check_neg hm]
      rfl
  | kNew | kDeleted =>
    dsimp only
    cases s.epoller.enterChannel fd c <;> rfl

theorem removeChannel_epoller (s : LoopPoller κ) (c : κ) :
    (s.removeChannel fd c).map epoller = s.epoller.removeChannel fd c := by
  unfold removeChannel Epoller.removeChannel
  by_cases hm : s.epoller.channels (fd c) = some c
  · by_cases hnone : (s.epoller.channel c).events = kNoneEvent
    · by_cases hi : (s.epoller.channel c).index = .kAdded ∨ (s.epoller.channel c).index = .kDeleted
      · simp only [check_pos hm, check_pos hnone, check_pos hi, ok_bind]
        split <;> rfl
      · simp only [check_pos hm, check_pos hnone, check_neg hi, ok_bind]
        rfl
    · rw [check_pos hm, check_neg hnone]
      rfl
  · rw [check_neg hm]
    rfl

/-- **The record aside** a call is that of `Epoller`. -/
theorem call_epoller (s : LoopPoller κ) (c : κ) (call : ChannelCall) :
    (s.call fd c call).map epoller = s.epoller.step fd (c, call) := by
  cases call with
  | remove =>
    simp only [LoopPoller.call, Epoller.step, Epoller.remove]
    by_cases hnone : (s.epoller.channel c).events = kNoneEvent
    · rw [check_pos hnone, ok_bind, ok_bind]
      exact removeChannel_epoller _ c
    · rw [check_neg hnone]
      rfl
  | _ => exact updateChannel_epoller _ c

/-! ## The calls of `epoll_ctl` -/

/-- From `s` to `s'` each call that was made is valid. -/
def Issues (s s' : LoopPoller κ) : Prop :=
  ∃ ctls : List (EpollCtl κ), s'.issued = s.issued ++ ctls ∧ ∀ ctl ∈ ctls, ctl.Valid

omit [DecidableEq κ] in
theorem update_issues {s : LoopPoller κ} (operation : EpollOp) {c : κ}
    (h : operation = .add ↔ (s.epoller.epollSet (fd c)).isSome = false) :
    Issues s (s.update fd operation c) :=
  ⟨[_], rfl, fun _ hctl => by rw [List.mem_singleton.mp hctl]; exact h⟩

theorem enterChannel_epollSet {s s' : Epoller κ} {c : κ} (h : s.enterChannel fd c = .ok s') :
    s'.epollSet = s.epollSet := by
  unfold Epoller.enterChannel at h
  split at h
  · cases h
    rfl
  · obtain ⟨_, -, h⟩ := bind_eq_ok.mp h
    cases h
    rfl

theorem updateChannel_issues {s s' : LoopPoller κ} {c : κ}
    (h : (s.epoller.epollSet (fd c)).isSome = true ↔ (s.epoller.channel c).index = .kAdded)
    (hs : s.updateChannel fd c = .ok s') : Issues s s' := by
  unfold updateChannel at hs
  cases hi : (s.epoller.channel c).index with
  | kAdded =>
    have hreg : (s.epoller.epollSet (fd c)).isSome = true := h.mpr hi
    simp only [hi] at hs
    obtain ⟨_, -, hs⟩ := bind_eq_ok.mp hs
    split at hs <;> cases hs
    · exact update_issues .del (by simp [hreg])
    · exact update_issues _ (by simp [hreg])
  | kNew | kDeleted =>
    have hreg : (s.epoller.epollSet (fd c)).isSome = false := by
      rw [← Bool.not_eq_true, h, hi]
      simp
    simp only [hi] at hs
    obtain ⟨epoller, henter, hs⟩ := bind_eq_ok.mp hs
    cases hs
    have hset : epoller.epollSet = s.epoller.epollSet := enterChannel_epollSet henter
    exact update_issues (s := { s with epoller := epoller.setIndex c .kAdded }) _
      (by simp [Epoller.setIndex, Epoller.setFields, hset, hreg])

theorem removeChannel_issues {s s' : LoopPoller κ} {c : κ}
    (h : (s.epoller.epollSet (fd c)).isSome = true ↔ (s.epoller.channel c).index = .kAdded)
    (hs : s.removeChannel fd c = .ok s') : Issues s s' := by
  obtain ⟨_, -, hs⟩ := bind_eq_ok.mp hs
  obtain ⟨_, -, hs⟩ := bind_eq_ok.mp hs
  obtain ⟨_, -, hs⟩ := bind_eq_ok.mp hs
  cases hs
  by_cases hi : (s.epoller.channel c).index = .kAdded
  · rw [if_pos hi]
    have hreg : (s.epoller.epollSet (fd c)).isSome = true := h.mpr hi
    exact update_issues (s := { s with epoller := s.epoller.setMapped fd c none }) .del
      (by simp [Epoller.setMapped, hreg])
  · rw [if_neg hi]
    exact ⟨[], by simp, by simp⟩

theorem call_issues {s s' : LoopPoller κ} {c : κ} {call : ChannelCall}
    (h : (s.epoller.epollSet (fd c)).isSome = true ↔ (s.epoller.channel c).index = .kAdded)
    (hs : s.call fd c call = .ok s') : Issues s s' := by
  -- the fields that change first are not those of the poller
  have hfields (f : ChannelFields → ChannelFields) (hf : ∀ ch, (f ch).index = ch.index) :
      ((s.epoller.setFields c f).epollSet (fd c)).isSome = true ↔
        ((s.epoller.setFields c f).channel c).index = .kAdded := by
    simpa [Epoller.setFields, hf] using h
  by_cases hr : call = .remove
  · subst hr
    obtain ⟨_, -, hs⟩ := bind_eq_ok.mp hs
    have hissues := removeChannel_issues
      (hfields (fun ch => { ch with addedToLoop := false }) fun _ => rfl) hs
    exact hissues
  · let f (ch : ChannelFields) : ChannelFields :=
      { ch with events := call.interest ch.events, addedToLoop := true }
    have hcall : s.call fd c call = updateChannel fd { s with epoller := s.epoller.setFields c f } c := by
      cases call with
      | remove => exact absurd rfl hr
      | _ => rfl
    rw [hcall] at hs
    have hissues := updateChannel_issues (hfields f fun _ => rfl) hs
    exact hissues

/-! ## Runs -/

structure Inv (fd : κ → Nat) (s : LoopPoller κ) : Prop where
  owned : s.epoller.Owned fd
  booked : ∀ c, (s.epoller.alone fd c).Booked
  issued : ∀ ctl ∈ s.issued, ctl.Valid

theorem Inv.new : Inv fd (new : LoopPoller κ) where
  owned := Epoller.new_inv.owned
  booked := fun _ => Channel.new_booked
  issued := nofun

theorem Inv.mapped_iff {s : LoopPoller κ} (h : Inv fd s) (c : κ) :
    s.epoller.channels (fd c) = some c ↔ (s.epoller.channel c).index ≠ .kNew := by
  have hmapped := (h.booked c).coherent.mapped_iff
  simpa [Epoller.alone] using hmapped

theorem Inv.registered_iff {s : LoopPoller κ} (h : Inv fd s) (c : κ) :
    (s.epoller.epollSet (fd c)).isSome = true ↔ (s.epoller.channel c).index = .kAdded := by
  have hregistered := (h.booked c).registered
  simpa [Epoller.alone] using hregistered

theorem Inv.inOrder (hfd : Function.Injective fd) {s : LoopPoller κ} (h : Inv fd s) :
    s.InOrder fd where
  channels := by
    intro f c
    have hindex : (s.epoller.channel c).index ≠ .kNew ↔
        (s.epoller.channel c).index = .kAdded ∨ (s.epoller.channel c).index = .kDeleted := by
      cases (s.epoller.channel c).index <;> simp
    rw [← hindex, ← h.mapped_iff]
    constructor
    · intro hf
      have hc : fd c = f := h.owned.channels hf
      exact ⟨hc, hc ▸ hf⟩
    · rintro ⟨rfl, hf⟩
      exact hf
  epollSet := by
    intro f c
    rw [← h.registered_iff]
    constructor
    · rintro ⟨m, hf⟩
      have hc : fd c = f := h.owned.epollSet hf
      refine ⟨hc, ?_⟩
      rw [hc, hf]
      rfl
    · rintro ⟨rfl, hf⟩
      obtain ⟨⟨m, d⟩, hf⟩ := Option.isSome_iff_exists.mp hf
      obtain rfl : d = c := hfd (h.owned.epollSet hf)
      exact ⟨m, hf⟩
  issued := h.issued

theorem Inv.call (hfd : Function.Injective fd) {s : LoopPoller κ} (h : Inv fd s) {c : κ}
    {call : ChannelCall} (ha : s.Enabled fd (.call c call)) :
    ∃ s', s.call fd c call = .ok s' ∧ Inv fd s' ∧
      (call = .remove → (s'.epoller.channel c).index = .kNew) := by
  have hcall : call = .remove →
      (s.epoller.alone fd c).events = kNoneEvent ∧ (s.epoller.alone fd c).index ≠ .kNew := by
    rintro rfl
    obtain ⟨hnone, hhas⟩ := ha
    exact ⟨hnone, (h.mapped_iff c).mp (by simpa [Epoller.hasChannel] using hhas)⟩
  obtain ⟨ch, hok, hbooked, hnew⟩ := Channel.call_booked (h.booked c) hcall
  have hacts := Epoller.step_acts hfd h.owned c call
  rw [hok, ← call_epoller] at hacts
  cases hs : s.call fd c call with
  | error e =>
    rw [hs] at hacts
    cases hacts
  | ok s' =>
    rw [hs] at hacts
    cases hacts with
    | ok hl =>
      obtain ⟨ctls, hissued, hvalid⟩ := call_issues (h.registered_iff c) hs
      refine ⟨s', rfl, ⟨hl.owned, ?_, ?_⟩, ?_⟩
      · intro d
        by_cases hd : d = c
        · rw [hd, hl.alone]
          exact hbooked
        · rw [hl.frame d hd]
          exact h.booked d
      · intro ctl hctl
        rw [hissued] at hctl
        exact (List.mem_append.mp hctl).elim (h.issued ctl) (hvalid ctl)
      · intro hr
        rw [← hnew hr, ← hl.alone]
        rfl

theorem fillActiveChannels_ok {s : LoopPoller κ} {events : List (Events × κ)}
    (h : ∀ e ∈ events, s.epoller.channels (fd e.2) = some e.2) :
    ∃ s', s.fillActiveChannels fd events = .ok s' ∧ s'.epoller = s.epoller ∧ s'.issued = s.issued := by
  induction events generalizing s with
  | nil => exact ⟨s, rfl, rfl, rfl⟩
  | cons e events ih =>
    obtain ⟨revents, c⟩ := e
    have hc : s.epoller.channels (fd c) = some c := h _ (List.mem_cons_self ..)
    obtain ⟨s', hs', hepoller, hissued⟩ := ih
      (s := { s with
        revents := Function.update s.revents c revents
        activeChannels := s.activeChannels ++ [c] })
      fun e he => h e (List.mem_cons_of_mem _ he)
    refine ⟨s', ?_, hepoller, hissued⟩
    rw [fillActiveChannels, check_pos (by simp [hc]), check_pos hc]
    exact hs'

theorem Inv.poll {s : LoopPoller κ} (h : Inv fd s) {events : List (Events × κ)}
    (ha : s.Enabled fd (.poll events)) :
    ∃ s', s.poll fd events = .ok s' ∧ Inv fd s' := by
  obtain ⟨hroom, hreports⟩ := ha
  have hmapped : ∀ e ∈ events, s.epoller.channels (fd e.2) = some e.2 := by
    intro e he
    obtain ⟨f, m, hf, -⟩ := hreports e he
    rw [h.mapped_iff, (h.registered_iff e.2).mp]
    · exact nofun
    · rw [h.owned.epollSet hf, hf]
      rfl
  unfold LoopPoller.poll
  dsimp only
  split
  · rw [check_pos hroom, ok_bind]
    obtain ⟨s', hs', hepoller, hissued⟩ :=
      fillActiveChannels_ok (s := { s with activeChannels := [] }) hmapped
    have hinv : Inv fd s' :=
      ⟨hepoller ▸ h.owned, hepoller ▸ h.booked, hissued ▸ h.issued⟩
    rw [hs', ok_bind]
    split
    · exact ⟨_, rfl, hinv.owned, hinv.booked, hinv.issued⟩
    · exact ⟨_, rfl, hinv⟩
  · exact ⟨_, rfl, h.owned, h.booked, h.issued⟩

theorem Inv.step (hfd : Function.Injective fd) {s : LoopPoller κ} (h : Inv fd s) {a : Label κ}
    (ha : s.Enabled fd a) :
    ∃ s', s.step fd a = .ok s' ∧ Inv fd s' ∧
      ∀ c, a = .call c .remove → (s'.epoller.channel c).index = .kNew := by
  cases a with
  | call c call =>
    obtain ⟨s', hs, hinv, hnew⟩ := h.call hfd ha
    refine ⟨s', hs, hinv, ?_⟩
    rintro _ ⟨⟩
    exact hnew rfl
  | poll events =>
    obtain ⟨s', hs, hinv⟩ := h.poll ha
    exact ⟨s', hs, hinv, nofun⟩

/-- **The poller is in order.** For any number of channels with distinct
descriptors and along every run of their calls and of `poll`, no assertion
fails, every call of `epoll_ctl` is valid, `channels_` and the epoll set hold
what `index_` says, and nothing is left of a channel that is removed. -/
theorem bookkeeping_coherent (hfd : Function.Injective fd) (steps : List (Label κ))
    (hsteps : Along (step fd) (Enabled fd) new steps) :
    Steps (step fd) (Orderly fd) new steps := by
  refine Steps.of_invariant (I := Inv fd) ?_ ?_ .new hsteps
  · intro s a h ha
    obtain ⟨s', hs, hinv, hnew⟩ := h.step hfd ha
    refine ⟨s', hs, hinv.inOrder hfd, ?_⟩
    intro c hc
    have hindex := hnew c hc
    constructor
    · cases hm : s'.epoller.channels (fd c) with
      | none => rfl
      | some d =>
        obtain rfl : d = c := hfd (hinv.owned.channels hm)
        exact absurd hindex ((hinv.mapped_iff d).mp hm)
    · rw [← Option.not_isSome_iff_eq_none, hinv.registered_iff, hindex]
      exact nofun
  · intro s a s' h ha hs
    obtain ⟨s₁, hs₁, hinv, -⟩ := h.step hfd ha
    cases hs₁.symm.trans hs
    exact hinv

/-- Two channels; the first stops and starts again, and an event of it is
reported. The second is disabled before it is removed, and comes back. -/
def twoChannels : List (Label Nat) :=
  [.call 0 .enableReading, .call 1 .enableWriting, .call 0 .disableReading,
    .call 0 .enableReading, .poll [(POLLHUP, 0)], .call 1 .disableAll, .call 1 .remove,
    .call 1 .enableReading]

theorem bookkeeping_coherent_twoChannels : Steps (step id) (Orderly id) new twoChannels := by
  apply bookkeeping_coherent Function.injective_id
  refine (steps_cons_ok rfl).mpr ⟨trivial, ?_⟩
  refine (steps_cons_ok rfl).mpr ⟨trivial, ?_⟩
  refine (steps_cons_ok rfl).mpr ⟨trivial, ?_⟩
  refine (steps_cons_ok rfl).mpr ⟨trivial, ?_⟩
  refine (steps_cons_ok rfl).mpr ⟨⟨by decide, ?_⟩, ?_⟩
  · intro e he
    rw [List.mem_singleton.mp he]
    exact ⟨0, kReadEvent, rfl, by decide⟩
  refine (steps_cons_ok rfl).mpr ⟨trivial, ?_⟩
  refine (steps_cons_ok rfl).mpr ⟨⟨rfl, rfl⟩, ?_⟩
  exact ⟨trivial, fun _ _ => trivial⟩

end LoopPoller

end Muduo
