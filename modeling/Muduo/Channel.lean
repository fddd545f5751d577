import Muduo.Assertion

/-!
`net/Channel.cpp` over `net/Epoller.cpp`. Channels of one loop have distinct
descriptors, so the part of the poller a channel touches is its own: whether
`channels_[fd]` is this channel, and the mask under which the kernel watches
the descriptor. Both are kept in the channel.
-/

namespace Muduo

open Lib

/-! ## Event masks -/

/-- The `int` masks of `poll(2)`. -/
abbrev Events := BitVec 32

namespace Events

def POLLIN : Events := 0x001
def POLLPRI : Events := 0x002
def POLLOUT : Events := 0x004
def POLLERR : Events := 0x008
def POLLHUP : Events := 0x010
def POLLNVAL : Events := 0x020
def POLLRDHUP : Events := 0x2000

def kNoneEvent : Events := 0
def kReadEvent : Events := POLLIN ||| POLLPRI
def kWriteEvent : Events := POLLOUT

/-- The condition `events & mask`. -/
def has (events mask : Events) : Bool := events &&& mask != 0

@[simp] theorem none_has (mask : Events) : has kNoneEvent mask = false := by
  simp [has, kNoneEvent]

theorem has_or_self (events : Events) {mask : Events} (h : mask ≠ 0) :
    has (events ||| mask) mask = true := by
  simpa [has, BitVec.and_or_distrib_right, BitVec.or_eq_zero_iff] using fun _ => h

end Events

open Events

/-! ## Interest and registration -/

/-- `index_`: `KNew`, `KAdded` and `KDeleted`. -/
inductive Index where
  | kNew
  | kAdded
  | kDeleted
  deriving DecidableEq, Repr

structure Channel where
  events : Events
  index : Index
  eventHandling : Bool
  addedToLoop : Bool
  /-- `channels_[fd]` of the poller is this channel -/
  mapped : Bool
  /-- the mask in the kernel's epoll set -/
  registered : Option Events
  deriving DecidableEq, Repr

inductive EpollOp where
  | add
  | mod
  | del

namespace Channel

/-- The constructor. -/
def new : Channel := ⟨kNoneEvent, .kNew, false, false, false, none⟩

def isNoneEvent (ch : Channel) : Bool := ch.events == kNoneEvent
def isWriting (ch : Channel) : Bool := ch.events.has kWriteEvent
def isReading (ch : Channel) : Bool := ch.events.has kReadEvent

/-- `Epoller::update`. The kernel refuses to add a descriptor twice and to
change or delete an absent one; the error is only logged. -/
def epollCtl (ch : Channel) (op : EpollOp) : Channel :=
  match op, ch.registered with
  | .add, none => { ch with registered := some ch.events }
  | .add, some _ => ch
  | .mod, some _ => { ch with registered := some ch.events }
  | .mod, none => ch
  | .del, _ => { ch with registered := none }

/-- `Epoller::updateChannel`. -/
def updateChannel (ch : Channel) : Checked Channel := do
  match ch.index with
  | .kNew | .kDeleted =>
    return ({ ch with mapped := true, index := .kAdded }).epollCtl .add
  | .kAdded =>
    check (ch.mapped = true) .updateChannel
    if ch.isNoneEvent then
      return { ch.epollCtl .del with index := .kDeleted }
    else
      return ch.epollCtl .mod

/-- `Epoller::removeChannel`. -/
def removeChannel (ch : Channel) : Checked Channel := do
  check (ch.mapped = true) .removeChannel
  check (ch.isNoneEvent = true) .removeChannel
  check (ch.index = .kAdded ∨ ch.index = .kDeleted) .removeChannel
  let ch' := { ch with mapped := false }
  let ch' := if ch.index = .kAdded then ch'.epollCtl .del else ch'
  return { ch' with index := .kNew }

def update (ch : Channel) : Checked Channel :=
  updateChannel { ch with addedToLoop := true }

def remove (ch : Channel) : Checked Channel := do
  check (ch.isNoneEvent = true) .channelRemove
  removeChannel { ch with addedToLoop := false }

def enableReading (ch : Channel) : Checked Channel :=
  update { ch with events := ch.events ||| kReadEvent }

def disableReading (ch : Channel) : Checked Channel :=
  update { ch with events := ch.events &&& ~~~kReadEvent }

def enableWriting (ch : Channel) : Checked Channel :=
  update { ch with events := ch.events ||| kWriteEvent }

def disableWriting (ch : Channel) : Checked Channel :=
  update { ch with events := ch.events &&& ~~~kWriteEvent }

def disableAll (ch : Channel) : Checked Channel :=
  update { ch with events := kNoneEvent }

/-- `~Channel`. -/
def dtor (ch : Channel) : Checked Unit := do
  check (ch.eventHandling = false) .channelDtor
  check (ch.addedToLoop = false) .channelDtor

/-! ## Dispatch -/

/-- The four callbacks, acting on the object that owns the channel. -/
structure Callbacks (σ : Type) where
  close : Option (σ → Checked σ)
  error : Option (σ → Checked σ)
  read : Option (σ → Checked σ)
  write : Option (σ → Checked σ)

/-- `if (cb) cb();` -/
def invoke {σ : Type} (cb : Option (σ → Checked σ)) (s : σ) : Checked σ :=
  match cb with
  | some f => f s
  | none => return s

def handleEventWithGuard {σ : Type} (cbs : Callbacks σ) (revents : Events) (s : σ) :
    Checked σ := do
  let s ← if revents.has POLLHUP && !revents.has POLLIN then invoke cbs.close s else pure s
  let s ← if revents.has (POLLERR ||| POLLNVAL) then invoke cbs.error s else pure s
  let s ← if revents.has (POLLIN ||| POLLPRI ||| POLLRDHUP) then invoke cbs.read s else pure s
  if revents.has POLLOUT then invoke cbs.write s else pure s

/-- Every callback that is set preserves `I`. -/
structure Callbacks.Preserve {σ : Type} (cbs : Callbacks σ) (I : σ → Prop) : Prop where
  close : ∀ f ∈ cbs.close, ∀ s s', I s → f s = .ok s' → I s'
  error : ∀ f ∈ cbs.error, ∀ s s', I s → f s = .ok s' → I s'
  read : ∀ f ∈ cbs.read, ∀ s s', I s → f s = .ok s' → I s'
  write : ∀ f ∈ cbs.write, ∀ s s', I s → f s = .ok s' → I s'

theorem invoke_invariant {σ : Type} {I : σ → Prop} {cb : Option (σ → Checked σ)}
    (hcb : ∀ f ∈ cb, ∀ s s', I s → f s = .ok s' → I s') {s s' : σ} (hs : I s)
    (h : invoke cb s = .ok s') : I s' := by
  cases cb with
  | none =>
    cases h
    exact hs
  | some f => exact hcb f rfl s s' hs h

/-- One of the guarded calls, and what follows it. -/
theorem guarded_invariant {σ : Type} {I : σ → Prop} {cb : Option (σ → Checked σ)}
    (hcb : ∀ f ∈ cb, ∀ s s', I s → f s = .ok s' → I s') {b : Bool} {s s' : σ}
    {rest : σ → Checked σ} (hs : I s) (hrest : ∀ s₁, I s₁ → rest s₁ = .ok s' → I s')
    (h : (if b = true then invoke cb s >>= rest else rest s) = .ok s') : I s' := by
  split at h
  · obtain ⟨s₁, h₁, h⟩ := bind_eq_ok.mp h
    exact hrest s₁ (invoke_invariant hcb hs h₁) h
  · exact hrest s hs h

/-- A dispatch preserves what its callbacks preserve. -/
theorem handleEventWithGuard_invariant {σ : Type} {I : σ → Prop} {cbs : Callbacks σ}
    (hcbs : cbs.Preserve I) {revents : Events} {s s' : σ} (hs : I s)
    (h : handleEventWithGuard cbs revents s = .ok s') : I s' := by
  unfold handleEventWithGuard at h
  dsimp only at h
  refine guarded_invariant hcbs.close hs ?_ h
  intro s₁ hs₁ h
  refine guarded_invariant hcbs.error hs₁ ?_ h
  intro s₂ hs₂ h
  refine guarded_invariant hcbs.read hs₂ ?_ h
  intro s₃ hs₃ h
  split at h
  · exact invoke_invariant hcbs.write hs₃ h
  · cases h
    exact hs₃

/-! ## What the operations do -/

/-- The index, `addedToLoop_` and the poller's map agree. -/
structure Coherent (ch : Channel) : Prop where
  mapped_iff : ch.mapped = true ↔ ch.index ≠ .kNew
  added_iff : ch.addedToLoop = true ↔ ch.index ≠ .kNew

theorem new_coherent : Coherent new := ⟨by simp [new], by simp [new]⟩

@[simp] theorem epollCtl_events (ch : Channel) (op : EpollOp) :
    (ch.epollCtl op).events = ch.events := by
  unfold epollCtl; split <;> rfl

@[simp] theorem epollCtl_index (ch : Channel) (op : EpollOp) :
    (ch.epollCtl op).index = ch.index := by
  unfold epollCtl; split <;> rfl

@[simp] theorem epollCtl_mapped (ch : Channel) (op : EpollOp) :
    (ch.epollCtl op).mapped = ch.mapped := by
  unfold epollCtl; split <;> rfl

@[simp] theorem epollCtl_addedToLoop (ch : Channel) (op : EpollOp) :
    (ch.epollCtl op).addedToLoop = ch.addedToLoop := by
  unfold epollCtl; split <;> rfl

@[simp] theorem epollCtl_eventHandling (ch : Channel) (op : EpollOp) :
    (ch.epollCtl op).eventHandling = ch.eventHandling := by
  unfold epollCtl; split <;> rfl

/-- `ch'` is `ch` after an update with the interest set `events`. -/
structure Updated (ch ch' : Channel) (events : Events) : Prop where
  coherent : Coherent ch'
  events : ch'.events = events
  known : ch'.index ≠ .kNew
  eventHandling : ch'.eventHandling = ch.eventHandling

theorem update_spec {ch : Channel} (h : ch.Coherent) (events : Events) :
    ∃ ch', update { ch with events } = .ok ch' ∧ Updated ch ch' events := by
  unfold update updateChannel
  cases hi : ch.index with
  | kNew => exact ⟨_, rfl, ⟨by simp, by simp⟩, by simp, by simp, by simp⟩
  | kDeleted => exact ⟨_, rfl, ⟨by simp, by simp⟩, by simp, by simp, by simp⟩
  | kAdded =>
    have hm : ch.mapped = true := h.mapped_iff.mpr (by simp [hi])
    simp only [hm, check_pos, ok_bind]
    split
    · exact ⟨_, rfl, ⟨by simp, by simp⟩, by simp, by simp, by simp⟩
    · exact ⟨_, rfl, ⟨by simp, by simp⟩, by simp, by simp, by simp⟩

/-- A channel without interest that the poller knows can be removed. -/
theorem remove_spec {ch : Channel} (h : ch.Coherent) (hnone : ch.events = kNoneEvent)
    (hi : ch.index ≠ .kNew) :
    ∃ ch', ch.remove = .ok ch' ∧ Coherent ch' ∧ ch'.events = kNoneEvent ∧ ch'.index = .kNew ∧
      ch'.eventHandling = ch.eventHandling := by
  have hm : ch.mapped = true := h.mapped_iff.mpr hi
  unfold remove removeChannel isNoneEvent
  cases hidx : ch.index with
  | kNew => exact absurd hidx hi
  | kAdded =>
    simp only [hnone, hm, beq_self_eq_true, check_pos, ok_bind, true_or, ↓reduceIte, pure_eq_ok]
    exact ⟨_, rfl, ⟨by simp, by simp⟩, by simp, rfl, by simp⟩
  | kDeleted =>
    simp only [hnone, hm, beq_self_eq_true, check_pos, ok_bind, or_true, ↓reduceIte, pure_eq_ok,
      reduceCtorEq]
    exact ⟨_, rfl, ⟨by simp, by simp⟩, by simp, rfl, by simp⟩

/-- A removal that does not fail. -/
theorem remove_ok {ch ch' : Channel} (h : ch.Coherent) (hok : ch.remove = .ok ch') :
    Coherent ch' ∧ ch'.index = .kNew ∧ ch'.eventHandling = ch.eventHandling := by
  obtain ⟨_, hnone, hok'⟩ := bind_eq_ok.mp hok
  obtain ⟨_, hmapped, _⟩ := bind_eq_ok.mp hok'
  have hnone' : ch.events = kNoneEvent := by simpa [isNoneEvent] using hnone
  have hi : ch.index ≠ .kNew := h.mapped_iff.mp (by simpa using hmapped)
  obtain ⟨ch₁, h₁, hcoh, -, hidx, hhand⟩ := remove_spec h hnone' hi
  obtain rfl : ch' = ch₁ := Except.ok.inj (hok.symm.trans h₁)
  exact ⟨hcoh, hidx, hhand⟩

/-- A channel that is removed has no interest, and is left without one. -/
theorem remove_none {ch ch' : Channel} (h : ch.Coherent) (hok : ch.remove = .ok ch') :
    ch.events = kNoneEvent ∧ ch'.events = kNoneEvent := by
  obtain ⟨_, hnone, hok'⟩ := bind_eq_ok.mp hok
  obtain ⟨_, hmapped, -⟩ := bind_eq_ok.mp hok'
  have hnone' : ch.events = kNoneEvent := by simpa [isNoneEvent] using hnone
  have hi : ch.index ≠ .kNew := h.mapped_iff.mp (by simpa using hmapped)
  obtain ⟨ch₁, h₁, -, hnone₁, -⟩ := remove_spec h hnone' hi
  obtain rfl : ch' = ch₁ := Except.ok.inj (hok.symm.trans h₁)
  exact ⟨hnone', hnone₁⟩

theorem remove_fails {ch : Channel} {e : Assertion} (h : ch.remove = .error e) :
    e = .channelRemove ∨ e = .removeChannel := by
  rcases bind_eq_error.mp h with h | ⟨_, -, h⟩
  · exact .inl (eq_of_check_eq_error h)
  right
  rcases bind_eq_error.mp h with h | ⟨_, -, h⟩
  · exact eq_of_check_eq_error h
  rcases bind_eq_error.mp h with h | ⟨_, -, h⟩
  · exact eq_of_check_eq_error h
  rcases bind_eq_error.mp h with h | ⟨_, -, h⟩
  · exact eq_of_check_eq_error h
  · cases h

theorem dtor_fails {ch : Channel} {e : Assertion} (h : ch.dtor = .error e) : e = .channelDtor := by
  rcases bind_eq_error.mp h with h | ⟨_, -, h⟩
  · exact eq_of_check_eq_error h
  · exact eq_of_check_eq_error h

end Channel

end Muduo
