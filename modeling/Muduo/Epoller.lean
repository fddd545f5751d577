import Mathlib.Logic.Function.Basic
import Muduo.Channel

/-!
`net/Epoller.cpp` with all the channels of a loop: their fields, `channels_`,
and the epoll set in the kernel. Descriptors are distinct, so what a call on one
channel does, `Channel` says alone: `step_acts` shows that the poller acts on
each channel as `Channel` does and leaves the others as they are.
-/

namespace Muduo

open Lib Events

/-- The fields of a `Channel` object that change. -/
structure ChannelFields where
  events : Events
  index : Index
  eventHandling : Bool
  addedToLoop : Bool
  deriving DecidableEq, Repr

/-- `κ` are the addresses of the channels. -/
structure Epoller (κ : Type) where
  /-- the objects -/
  channel : κ → ChannelFields
  /-- `channels_` -/
  channels : Nat → Option κ
  /-- the epoll set: for a descriptor its mask and `data.ptr` -/
  epollSet : Nat → Option (Events × κ)

namespace Epoller

variable {κ : Type}

/-- No channel has been used. -/
def new : Epoller κ := ⟨fun _ => ⟨kNoneEvent, .kNew, false, false⟩, fun _ => none, fun _ => none⟩

variable [DecidableEq κ] (fd : κ → Nat)

def setFields (s : Epoller κ) (c : κ) (f : ChannelFields → ChannelFields) : Epoller κ :=
  { s with channel := Function.update s.channel c (f (s.channel c)) }

def setIndex (s : Epoller κ) (c : κ) (index : Index) : Epoller κ :=
  s.setFields c fun f => { f with index }

/-- The entry of the epoll set for the descriptor of `c`. -/
def setEntry (s : Epoller κ) (c : κ) (entry : Option (Events × κ)) : Epoller κ :=
  { s with epollSet := Function.update s.epollSet (fd c) entry }

/-- The entry of `channels_` for the descriptor of `c`. -/
def setMapped (s : Epoller κ) (c : κ) (entry : Option κ) : Epoller κ :=
  { s with channels := Function.update s.channels (fd c) entry }

/-- `::epoll_ctl`. A descriptor is added only once, and changed only when it is
there; an error is only logged. -/
def update (s : Epoller κ) (operation : EpollOp) (c : κ) : Epoller κ :=
  let event := ((s.channel c).events, c)
  match operation, s.epollSet (fd c) with
  | .add, none => s.setEntry fd c (some event)
  | .add, some _ => s
  | .mod, some _ => s.setEntry fd c (some event)
  | .mod, none => s
  | .del, _ => s.setEntry fd c none

/-- The entry of `channels_` is made, or checked. -/
def enterChannel (s : Epoller κ) (c : κ) : Checked (Epoller κ) :=
  if s.channels (fd c) = none then
    return s.setMapped fd c (some c)
  else do
    check (s.channels (fd c) = some c) .updateChannel
    return s

def updateChannel (s : Epoller κ) (c : κ) : Checked (Epoller κ) :=
  match (s.channel c).index with
  | .kNew | .kDeleted => do
    let s ← s.enterChannel fd c
    return (s.setIndex c .kAdded).update fd .add c
  | .kAdded => do
    check (s.channels (fd c) = some c) .updateChannel
    if (s.channel c).events = kNoneEvent then
      return (s.update fd .del c).setIndex c .kDeleted
    else
      return s.update fd .mod c

def removeChannel (s : Epoller κ) (c : κ) : Checked (Epoller κ) := do
  check (s.channels (fd c) = some c) .removeChannel
  check ((s.channel c).events = kNoneEvent) .removeChannel
  let index := (s.channel c).index
  check (index = .kAdded ∨ index = .kDeleted) .removeChannel
  let s := s.setMapped fd c none
  let s := if index = .kAdded then s.update fd .del c else s
  return s.setIndex c .kNew

/-! ## The calls of a channel -/

/-- `Channel::update`, behind a change of `events_`. -/
def setEvents (s : Epoller κ) (c : κ) (f : Events → Events) : Checked (Epoller κ) :=
  (s.setFields c fun ch => { ch with events := f ch.events, addedToLoop := true }).updateChannel fd c

def enableReading (s : Epoller κ) (c : κ) : Checked (Epoller κ) :=
  s.setEvents fd c (· ||| kReadEvent)

def disableReading (s : Epoller κ) (c : κ) : Checked (Epoller κ) :=
  s.setEvents fd c (· &&& ~~~kReadEvent)

def enableWriting (s : Epoller κ) (c : κ) : Checked (Epoller κ) :=
  s.setEvents fd c (· ||| kWriteEvent)

def disableWriting (s : Epoller κ) (c : κ) : Checked (Epoller κ) :=
  s.setEvents fd c (· &&& ~~~kWriteEvent)

def disableAll (s : Epoller κ) (c : κ) : Checked (Epoller κ) :=
  s.setEvents fd c fun _ => kNoneEvent

/-- `Channel::remove`. -/
def remove (s : Epoller κ) (c : κ) : Checked (Epoller κ) := do
  check ((s.channel c).events = kNoneEvent) .channelRemove
  (s.setFields c fun ch => { ch with addedToLoop := false }).removeChannel fd c

end Epoller

inductive ChannelCall where
  | enableReading
  | disableReading
  | enableWriting
  | disableWriting
  | disableAll
  | remove
  deriving DecidableEq, Repr

/-- What the call makes of `events_`. -/
def ChannelCall.interest (events : Events) : ChannelCall → Events
  | .enableReading => events ||| kReadEvent
  | .disableReading => events &&& ~~~kReadEvent
  | .enableWriting => events ||| kWriteEvent
  | .disableWriting => events &&& ~~~kWriteEvent
  | .disableAll => kNoneEvent
  | .remove => events

/-- The call on one channel alone. -/
def Channel.call (ch : Channel) : ChannelCall → Checked Channel
  | .enableReading => ch.enableReading
  | .disableReading => ch.disableReading
  | .enableWriting => ch.enableWriting
  | .disableWriting => ch.disableWriting
  | .disableAll => ch.disableAll
  | .remove => ch.remove

namespace Epoller

variable {κ : Type} [DecidableEq κ] (fd : κ → Nat)

/-- A label is a channel and the call on it. -/
def step (s : Epoller κ) : κ × ChannelCall → Checked (Epoller κ)
  | (c, .enableReading) => s.enableReading fd c
  | (c, .disableReading) => s.disableReading fd c
  | (c, .enableWriting) => s.enableWriting fd c
  | (c, .disableWriting) => s.disableWriting fd c
  | (c, .disableAll) => s.disableAll fd c
  | (c, .remove) => s.remove fd c

/-- `remove` is for a channel without interest that the poller knows. -/
def Enabled (s : Epoller κ) : κ × ChannelCall → Prop
  | (c, .remove) => (s.channel c).events = kNoneEvent ∧ (s.channel c).index ≠ .kNew
  | _ => True

/-! ## One channel of many -/

/-- The part of the poller that is the channel's own. -/
def alone (s : Epoller κ) (c : κ) : Channel where
  events := (s.channel c).events
  index := (s.channel c).index
  eventHandling := (s.channel c).eventHandling
  addedToLoop := (s.channel c).addedToLoop
  mapped := decide (s.channels (fd c) = some c)
  registered := (s.epollSet (fd c)).map Prod.fst

/-- What is kept under a descriptor is the channel that has it. -/
structure Owned (s : Epoller κ) : Prop where
  channels : ∀ {f c}, s.channels f = some c → fd c = f
  epollSet : ∀ {f m c}, s.epollSet f = some (m, c) → fd c = f

/-- From `s` to `s'` only the channel `c` has changed, into `ch`. -/
structure Local (c : κ) (s s' : Epoller κ) (ch : Channel) : Prop where
  owned : s'.Owned fd
  alone : s'.alone fd c = ch
  frame : ∀ d ≠ c, s'.alone fd d = s.alone fd d

variable {fd}

theorem Local.trans {c : κ} {s s' s'' : Epoller κ} {ch ch' : Channel} (h : Local fd c s s' ch)
    (h' : Local fd c s' s'' ch') : Local fd c s s'' ch' :=
  ⟨h'.owned, h'.alone, fun d hd => (h'.frame d hd).trans (h.frame d hd)⟩

theorem alone_congr {s s' : Epoller κ} {d : κ} (hc : s'.channel d = s.channel d)
    (hm : s'.channels (fd d) = s.channels (fd d)) (he : s'.epollSet (fd d) = s.epollSet (fd d)) :
    s'.alone fd d = s.alone fd d := by
  rw [alone, hc, hm, he]
  rfl

theorem setFields_local {s : Epoller κ} (h : s.Owned fd) (c : κ)
    (f : ChannelFields → ChannelFields) :
    Local fd c s (s.setFields c f) { s.alone fd c with
      events := (f (s.channel c)).events
      index := (f (s.channel c)).index
      eventHandling := (f (s.channel c)).eventHandling
      addedToLoop := (f (s.channel c)).addedToLoop } := by
  refine ⟨⟨h.channels, h.epollSet⟩, ?_, ?_⟩
  · rw [alone, show (s.setFields c f).channel c = f (s.channel c) from Function.update_self ..]
    rfl
  · intro d hd
    exact alone_congr (Function.update_of_ne hd _ _) rfl rfl

theorem setIndex_local {s : Epoller κ} (h : s.Owned fd) (c : κ) (index : Index) :
    Local fd c s (s.setIndex c index) { s.alone fd c with index } :=
  setFields_local h c fun f => { f with index }

theorem setEntry_local (hfd : Function.Injective fd) {s : Epoller κ} (h : s.Owned fd) (c : κ)
    {entry : Option (Events × κ)} (hentry : ∀ m d, entry = some (m, d) → d = c) :
    Local fd c s (s.setEntry fd c entry)
      { s.alone fd c with registered := entry.map Prod.fst } := by
  refine ⟨⟨h.channels, fun {f m d} hf => ?_⟩, ?_, fun d hd => ?_⟩
  · unfold setEntry at hf
    by_cases heq : f = fd c
    · subst heq
      rw [hentry m d (by simpa using hf)]
    · exact h.epollSet (by simpa [Function.update_of_ne heq] using hf)
  · simp only [alone, setEntry, Function.update_self]
    rfl
  · exact alone_congr rfl rfl (Function.update_of_ne (hfd.ne hd) _ _)

theorem setMapped_local (hfd : Function.Injective fd) {s : Epoller κ} (h : s.Owned fd) (c : κ)
    {e : Option κ} (he : ∀ d, e = some d → d = c) :
    Local fd c s (s.setMapped fd c e)
      { s.alone fd c with mapped := decide (e = some c) } := by
  refine ⟨⟨fun {f d} hf => ?_, h.epollSet⟩, ?_, fun d hd => ?_⟩
  · unfold setMapped at hf
    by_cases heq : f = fd c
    · subst heq
      rw [he d (by simpa using hf)]
    · exact h.channels (by simpa [Function.update_of_ne heq] using hf)
  · simp only [alone, setMapped, Function.update_self]
  · exact alone_congr rfl (Function.update_of_ne (hfd.ne hd) _ _) rfl

theorem update_local (hfd : Function.Injective fd) {s : Epoller κ} (h : s.Owned fd)
    (operation : EpollOp) (c : κ) :
    Local fd c s (s.update fd operation c) ((s.alone fd c).epollCtl operation) := by
  have hself : Local fd c s s (s.alone fd c) := ⟨h, rfl, fun _ _ => rfl⟩
  have hset : Local fd c s (s.setEntry fd c (some ((s.channel c).events, c)))
      { s.alone fd c with registered := some (s.alone fd c).events } :=
    setEntry_local hfd h c fun m d hd => by cases hd; rfl
  cases hentry : s.epollSet (fd c) with
  | none =>
    have hreg : (s.alone fd c).registered = none := by simp [alone, hentry]
    cases operation with
    | add => simpa only [update, hentry, Channel.epollCtl, hreg] using hset
    | mod => simpa only [update, hentry, Channel.epollCtl, hreg] using hself
    | del => exact setEntry_local hfd h c fun m d hd => by cases hd
  | some entry =>
    have hreg : (s.alone fd c).registered = some entry.1 := by simp [alone, hentry]
    cases operation with
    | add => simpa only [update, hentry, Channel.epollCtl, hreg] using hself
    | mod => simpa only [update, hentry, Channel.epollCtl, hreg] using hset
    | del => exact setEntry_local hfd h c fun m d hd => by cases hd

/-! ## The calls -/

/-- The poller does to the channel `c` what `o'` is alone, and leaves the others
as they are in `s`. -/
inductive Acts (fd : κ → Nat) (c : κ) (s : Epoller κ) :
    Checked (Epoller κ) → Checked Channel → Prop
  | ok {s' : Epoller κ} {ch : Channel} (h : Local fd c s s' ch) : Acts fd c s (.ok s') (.ok ch)
  | error (e : Assertion) : Acts fd c s (.error e) (.error e)

theorem Acts.behind {c : κ} {s s' : Epoller κ} {ch : Channel} {o : Checked (Epoller κ)}
    {o' : Checked Channel} (h : Acts fd c s' o o') (hl : Local fd c s s' ch) : Acts fd c s o o' := by
  cases h with
  | ok h => exact .ok (hl.trans h)
  | error e => exact .error e

/-- The same assertion on both sides. -/
theorem Acts.checked {c : κ} {s : Epoller κ} {p p' : Prop} [Decidable p] [Decidable p']
    {e : Assertion} {o : Checked (Epoller κ)} {o' : Checked Channel} (hp : p ↔ p')
    (h : p → Acts fd c s o o') :
    Acts fd c s (check p e >>= fun _ => o) (check p' e >>= fun _ => o') := by
  by_cases hpos : p
  · rw [check_pos hpos, check_pos (hp.mp hpos)]
    exact h hpos
  · rw [check_neg hpos, check_neg (hp.not.mp hpos)]
    exact .error e

/-- An entry for the descriptor of `c` can only be `c`. -/
theorem enterChannel_local (hfd : Function.Injective fd) {s : Epoller κ} (h : s.Owned fd) (c : κ) :
    ∃ s', s.enterChannel fd c = .ok s' ∧ Local fd c s s' { s.alone fd c with mapped := true } := by
  unfold enterChannel
  cases hm : s.channels (fd c) with
  | none =>
    refine ⟨_, if_pos rfl, ?_⟩
    simpa using setMapped_local hfd h c (e := some c) fun d hd => (Option.some.inj hd).symm
  | some d =>
    obtain rfl : d = c := hfd (h.channels hm)
    refine ⟨s, by simp [check_pos], h, ?_, fun _ _ => rfl⟩
    simp [alone, hm]

/-- A channel that the kernel does not watch is added, whatever its interest. -/
theorem addChannel_acts (hfd : Function.Injective fd) {s : Epoller κ} (h : s.Owned fd) (c : κ) :
    Acts fd c s (s.enterChannel fd c >>= fun s => pure ((s.setIndex c .kAdded).update fd .add c))
      (pure ({ s.alone fd c with mapped := true, index := .kAdded }.epollCtl .add)) := by
  obtain ⟨s₁, h₁, hl⟩ := enterChannel_local hfd h c
  have hindex := setIndex_local hl.owned c .kAdded
  rw [hl.alone] at hindex
  have hadd := update_local hfd hindex.owned .add c
  rw [hindex.alone] at hadd
  rw [h₁, ok_bind]
  exact .ok (hl.trans (hindex.trans hadd))

theorem updateChannel_acts (hfd : Function.Injective fd) {s : Epoller κ} (h : s.Owned fd) (c : κ) :
    Acts fd c s (s.updateChannel fd c) (s.alone fd c).updateChannel := by
  unfold updateChannel Channel.updateChannel
  cases hi : (s.channel c).index with
  | kNew =>
    rw [show (s.alone fd c).index = .kNew from hi]
    exact addChannel_acts hfd h c
  | kDeleted =>
    rw [show (s.alone fd c).index = .kDeleted from hi]
    exact addChannel_acts hfd h c
  | kAdded =>
    rw [show (s.alone fd c).index = .kAdded from hi]
    refine .checked (by simp [alone]) fun _ => ?_
    by_cases hnone : (s.channel c).events = kNoneEvent
    · have hnone' : (s.alone fd c).isNoneEvent = true := by simp [alone, Channel.isNoneEvent, hnone]
      rw [if_pos hnone, if_pos hnone']
      have hdel := update_local hfd h .del c
      have hindex := setIndex_local hdel.owned c .kDeleted
      rw [hdel.alone] at hindex
      exact .ok (hdel.trans hindex)
    · have hnone' : ¬ (s.alone fd c).isNoneEvent = true := by
        simp [alone, Channel.isNoneEvent, hnone]
      rw [if_neg hnone, if_neg hnone']
      exact .ok (update_local hfd h .mod c)

theorem removeChannel_acts (hfd : Function.Injective fd) {s : Epoller κ} (h : s.Owned fd) (c : κ) :
    Acts fd c s (s.removeChannel fd c) (s.alone fd c).removeChannel := by
  unfold removeChannel Channel.removeChannel
  refine .checked (by simp [alone]) fun _ => ?_
  refine .checked (by simp [alone, Channel.isNoneEvent]) fun _ => ?_
  refine .checked Iff.rfl fun _ => ?_
  dsimp only
  have herase := setMapped_local hfd h c (e := none) fun d hd => by cases hd
  by_cases hi : (s.channel c).index = .kAdded
  · have hdel := update_local hfd herase.owned .del c
    rw [herase.alone] at hdel
    have hindex := setIndex_local hdel.owned c .kNew
    rw [hdel.alone] at hindex
    rw [if_pos hi, if_pos (show (s.alone fd c).index = .kAdded from hi)]
    exact .ok (herase.trans (hdel.trans hindex))
  · have hindex := setIndex_local herase.owned c .kNew
    rw [herase.alone] at hindex
    rw [if_neg hi, if_neg (show ¬ (s.alone fd c).index = .kAdded from hi)]
    exact .ok (herase.trans hindex)

theorem setEvents_acts (hfd : Function.Injective fd) {s : Epoller κ} (h : s.Owned fd) (c : κ)
    (f : Events → Events) :
    Acts fd c s (s.setEvents fd c f) { s.alone fd c with events := f (s.channel c).events }.update := by
  have hset := setFields_local h c fun ch => { ch with events := f ch.events, addedToLoop := true }
  have hupd := updateChannel_acts hfd hset.owned c
  rw [hset.alone] at hupd
  exact hupd.behind hset

/-- **One channel of many.** A call on a channel does to it what `Channel` says,
and nothing to the others. -/
theorem step_acts (hfd : Function.Injective fd) {s : Epoller κ} (h : s.Owned fd) (c : κ)
    (call : ChannelCall) : Acts fd c s (s.step fd (c, call)) ((s.alone fd c).call call) := by
  cases call with
  | remove =>
    refine .checked (by simp [alone, Channel.isNoneEvent]) fun _ => ?_
    have hset := setFields_local h c fun ch => { ch with addedToLoop := false }
    have hrem := removeChannel_acts hfd hset.owned c
    rw [hset.alone] at hrem
    exact hrem.behind hset
  | enableReading => exact setEvents_acts hfd h c (· ||| kReadEvent)
  | disableReading => exact setEvents_acts hfd h c (· &&& ~~~kReadEvent)
  | enableWriting => exact setEvents_acts hfd h c (· ||| kWriteEvent)
  | disableWriting => exact setEvents_acts hfd h c (· &&& ~~~kWriteEvent)
  | disableAll => exact setEvents_acts hfd h c fun _ => kNoneEvent

end Epoller

end Muduo
