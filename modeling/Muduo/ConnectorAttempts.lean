import Mathlib.Order.Basic
import Mathlib.Tactic.Tauto
import Muduo.Connector

/-!
One connection attempt at a time. A connector is idle, or has a channel that
waits for one socket, or has a channel that is removed and waits for
`resetChannel`. `startInLoop` looks at neither `state_` nor `channel_`, so a
second attempt may begin too early; `single_attempt_iff` says when it does harm.
-/

namespace Muduo

open Lib Events

/-- The loop knows the channel and the kernel watches its descriptor. -/
def Channel.Registered (ch : Channel) : Prop :=
  ch.addedToLoop = true ∧ ch.mapped = true ∧ ch.registered ≠ none

namespace Connector

/-- The socket was handed to `connecting` and has neither been closed nor handed
over. -/
def Outstanding (c : Connector) (sockfd : Nat) : Prop :=
  sockfd ∈ c.attempts ∧ sockfd ∉ c.closes ∧ sockfd ∉ c.connections

/-- At most one socket is outstanding, and `state_` is `kConnecting` exactly
when `channel_` is the registered channel of such a socket. -/
structure SingleAttempt (c : Connector) : Prop where
  unique : ∀ s s', c.Outstanding s → c.Outstanding s' → s = s'
  connecting_iff : c.state = .kConnecting ↔
    ∃ a ∈ c.channel, c.Outstanding a.sockfd ∧ a.channel.Registered

/-! ## The phases of a connector -/

/-- A channel that waits until its socket is writable. -/
def writing (eventHandling : Bool) : Channel :=
  ⟨kWriteEvent, .kAdded, eventHandling, true, true, some kWriteEvent⟩

/-- A channel that has been removed. -/
def removed (eventHandling : Bool) : Channel :=
  ⟨kNoneEvent, .kNew, eventHandling, false, false, none⟩

/-- The number of `resetChannel` functors in the queue. -/
def resets (c : Connector) : Nat := c.functors.count .resetChannel

/-- The flag is `eventHandling_` of the channel, if there is one. -/
inductive Phase (b : Bool) (c : Connector) : Prop
  | idle : c.state ≠ .kConnecting → c.channel = none → c.resets = 0 →
      (∀ x, ¬ c.Outstanding x) → Phase b c
  | connecting (s : Nat) : c.state = .kConnecting → c.channel = some ⟨s, writing b⟩ →
      c.resets = 0 → (∀ x, c.Outstanding x ↔ x = s) → Phase b c
  | resetting (s : Nat) : c.state ≠ .kConnecting → c.channel = some ⟨s, removed b⟩ →
      c.resets = 1 → (∀ x, ¬ c.Outstanding x) → Phase b c

/-- Sockets not yet created are not used. -/
def Fresh (c : Connector) : Prop :=
  ∀ x, x ∈ c.attempts ∨ x ∈ c.closes ∨ x ∈ c.connections → x < c.created

theorem Phase.congr {b : Bool} {c c' : Connector} (h : Phase b c) (hs : c'.state = c.state)
    (hch : c'.channel = c.channel) (hr : c'.resets = c.resets)
    (ho : ∀ x, c'.Outstanding x ↔ c.Outstanding x) : Phase b c' := by
  cases h with
  | idle h₁ h₂ h₃ h₄ => exact .idle (hs ▸ h₁) (hch ▸ h₂) (hr ▸ h₃) fun x => (ho x).not.mpr (h₄ x)
  | connecting s h₁ h₂ h₃ h₄ =>
    exact .connecting s (hs ▸ h₁) (hch ▸ h₂) (hr ▸ h₃) fun x => (ho x).trans (h₄ x)
  | resetting s h₁ h₂ h₃ h₄ =>
    exact .resetting s (hs ▸ h₁) (hch ▸ h₂) (hr ▸ h₃) fun x => (ho x).not.mpr (h₄ x)

theorem Phase.single {b : Bool} {c : Connector} (h : Phase b c) : c.SingleAttempt := by
  cases h with
  | idle h₁ h₂ _ h₄ =>
    exact ⟨fun s _ hs => absurd hs (h₄ s), iff_of_false h₁ (by simp [h₂])⟩
  | connecting s h₁ h₂ _ h₄ =>
    refine ⟨fun x y hx hy => ((h₄ x).mp hx).trans ((h₄ y).mp hy).symm, iff_of_true h₁ ?_⟩
    exact ⟨⟨s, writing b⟩, h₂, (h₄ s).mpr rfl, rfl, rfl, by simp [writing]⟩
  | resetting s h₁ h₂ _ h₄ =>
    refine ⟨fun x _ hx => absurd hx (h₄ x), iff_of_false h₁ ?_⟩
    rintro ⟨a, -, ho, -⟩
    exact h₄ _ ho

/-- A registered channel that `state_` has forgotten. -/
theorem not_single {b : Bool} {c : Connector} {s : Nat} (hs : c.state ≠ .kConnecting)
    (hch : c.channel = some ⟨s, writing b⟩) (ho : c.Outstanding s) : ¬ c.SingleAttempt := by
  intro h
  exact hs (h.connecting_iff.mpr ⟨⟨s, writing b⟩, hch, ho, rfl, rfl, by simp [writing]⟩)

/-! ## The end of an attempt -/

/-- `c'` is `c` after the socket `s` was closed or handed over. -/
structure Settles (s : Nat) (c c' : Connector) : Prop where
  state : c'.state ≠ .kConnecting
  channel : c'.channel = c.channel
  functors : c'.functors = c.functors
  created : c'.created = c.created
  attempts : c'.attempts = c.attempts
  gone : ∀ x, x ∈ c'.closes ∨ x ∈ c'.connections ↔ (x ∈ c.closes ∨ x ∈ c.connections) ∨ x = s

theorem Settles.outstanding {s : Nat} {c c' : Connector} (h : Settles s c c') (x : Nat) :
    c'.Outstanding x ↔ c.Outstanding x ∧ x ≠ s := by
  have hgone := h.gone x
  simp only [Outstanding, h.attempts, ← not_or, hgone]
  rw [not_or, and_assoc]

theorem Settles.fresh {s : Nat} {c c' : Connector} (h : Settles s c c') (hf : c.Fresh)
    (hs : s < c.created) : c'.Fresh := by
  intro x hx
  rw [h.attempts, h.gone] at hx
  rw [h.created]
  rcases hx with hx | hx | rfl
  · exact hf x (.inl hx)
  · exact hf x (.inr hx)
  · exact hs

theorem retry_settles (c : Connector) (s : Nat) : Settles s c (c.retry s) := by
  unfold retry
  dsimp only
  split <;> exact ⟨by simp [setState], rfl, rfl, rfl, rfl, fun x => by
    simp [setState, close, or_right_comm]⟩

theorem retry_state (c : Connector) (s : Nat) : (c.retry s).state = .kDisconnected := by
  unfold retry
  dsimp only
  split <;> rfl

/-- The end of a successful attempt. -/
theorem connected_settles (c : Connector) (s : Nat) :
    Settles s c ((c.setState .kConnected).newConnectionCallback s) ∧
      Settles s c ((c.setState .kConnected).close s) := by
  constructor
  · exact ⟨by simp [newConnectionCallback, setState], rfl, rfl, rfl, rfl, fun x => by
      simp [newConnectionCallback, setState, or_assoc]⟩
  · exact ⟨by simp [close, setState], rfl, rfl, rfl, rfl, fun x => by
      simp [close, setState, or_right_comm]⟩

/-- A socket that was never handed to `connecting` may be closed in any phase
but the connecting one. -/
theorem Settles.phase {b : Bool} {s : Nat} {c c' : Connector} (h : Settles s c c')
    (hp : Phase b c) (hstate : c.state ≠ .kConnecting) : Phase b c' := by
  have ho : ∀ x, ¬ c.Outstanding x → ¬ c'.Outstanding x := fun x hx hx' =>
    hx ((h.outstanding x).mp hx').1
  have hr : c'.resets = c.resets := by rw [resets, h.functors, resets]
  cases hp with
  | idle _ h₂ h₃ h₄ => exact .idle h.state (h.channel.trans h₂) (hr.trans h₃) fun x => ho x (h₄ x)
  | connecting _ h₁ => exact absurd h₁ hstate
  | resetting s h₁ h₂ h₃ h₄ =>
    exact .resetting s h.state (h.channel.trans h₂) (hr.trans h₃) fun x => ho x (h₄ x)

theorem removeAndResetChannel_eq {b : Bool} {c : Connector} {s : Nat}
    (h : c.channel = some ⟨s, writing b⟩) :
    c.removeAndResetChannel =
      .ok ({ c with channel := some ⟨s, removed b⟩ }.queneInLoop .resetChannel, s) := by
  have hch : ((writing b).disableAll >>= Channel.remove) = .ok (removed b) := by
    cases b <;> rfl
  obtain ⟨ch, hdis, hrem⟩ := bind_eq_ok.mp hch
  simp only [removeAndResetChannel, h, hdis, ok_bind, hrem, pure_eq_ok]

/-- The channel is removed and its socket settled. -/
theorem Phase.settled {b : Bool} {c c' : Connector} {s : Nat} (hr : c.resets = 0)
    (ho : ∀ x, c.Outstanding x ↔ x = s) (hf : c.Fresh)
    (h : Settles s ({ c with channel := some ⟨s, removed b⟩ }.queneInLoop .resetChannel) c') :
    Phase b c' ∧ c'.Fresh := by
  have hs : s < c.created := hf s (.inl ((ho s).mpr rfl).1)
  refine ⟨.resetting s h.state h.channel ?_ ?_, h.fresh hf hs⟩
  · rw [resets] at hr ⊢
    simp [h.functors, queneInLoop, hr]
  · intro x hx
    obtain ⟨hx, hne⟩ := (h.outstanding x).mp hx
    exact hne ((ho x).mp hx)

theorem handleError_spec {b : Bool} {c : Connector} {s : Nat} (hs : c.state = .kConnecting)
    (hch : c.channel = some ⟨s, writing b⟩) (hr : c.resets = 0)
    (ho : ∀ x, c.Outstanding x ↔ x = s) (hf : c.Fresh) :
    ∃ c', c.handleError = .ok c' ∧ c'.state = .kDisconnected ∧ Phase b c' ∧ c'.Fresh := by
  refine ⟨_, ?_, retry_state _ _, Phase.settled hr ho hf (retry_settles _ _)⟩
  simp only [handleError, hs, ↓reduceIte, removeAndResetChannel_eq hch, ok_bind, pure_eq_ok]

theorem handleWrite_spec {b : Bool} {c : Connector} {s : Nat} (hs : c.state = .kConnecting)
    (hch : c.channel = some ⟨s, writing b⟩) (hr : c.resets = 0)
    (ho : ∀ x, c.Outstanding x ↔ x = s) (hf : c.Fresh) (err : Nat) (selfConnect : Bool) :
    ∃ c', c.handleWrite err selfConnect = .ok c' ∧ Phase b c' ∧ c'.Fresh := by
  simp only [handleWrite, hs, ↓reduceIte, removeAndResetChannel_eq hch, ok_bind]
  split
  · exact ⟨_, rfl, Phase.settled hr ho hf (retry_settles _ _)⟩
  split
  · exact ⟨_, rfl, Phase.settled hr ho hf (retry_settles _ _)⟩
  · split
    · exact ⟨_, rfl, Phase.settled hr ho hf (connected_settles _ _).1⟩
    · exact ⟨_, rfl, Phase.settled hr ho hf (connected_settles _ _).2⟩

/-! ## Dispatch -/

theorem Phase.setEventHandling {b : Bool} {c : Connector} (h : Phase b c) (b' : Bool) :
    Phase b' (c.setEventHandling b') := by
  cases h with
  | idle h₁ h₂ h₃ h₄ => exact .idle h₁ (by simp [Connector.setEventHandling, h₂]) h₃ h₄
  | connecting s h₁ h₂ h₃ h₄ =>
    exact .connecting s h₁ (by simp [Connector.setEventHandling, h₂, writing]) h₃ h₄
  | resetting s h₁ h₂ h₃ h₄ =>
    exact .resetting s h₁ (by simp [Connector.setEventHandling, h₂, removed]) h₃ h₄

theorem Fresh.congr {c c' : Connector} (h : c.Fresh) (hc : c.created ≤ c'.created)
    (ha : c'.attempts = c.attempts) (hcl : c'.closes = c.closes)
    (hco : c'.connections = c.connections) : c'.Fresh := by
  intro x hx
  rw [ha, hcl, hco] at hx
  exact Nat.lt_of_lt_of_le (h x hx) hc

/-- A dispatch runs the error callback, or the write callback, or neither; the
write callback finds nothing to do behind the error callback. -/
theorem handleEvent_spec {c : Connector} (hp : Phase false c) (hf : c.Fresh)
    (hreg : ∃ a ∈ c.channel, a.channel.registered ≠ none) (revents : Events) (err : Nat)
    (selfConnect : Bool) :
    ∃ c', c.handleEvent revents err selfConnect = .ok c' ∧ Phase false c' ∧ c'.Fresh := by
  obtain ⟨a, ha, hreg⟩ := hreg
  cases hp with
  | idle _ h₂ => simp [h₂] at ha
  | resetting s _ h₂ =>
    obtain rfl : (⟨s, removed false⟩ : SocketChannel) = a := by simpa [h₂] using ha
    simp [removed] at hreg
  | connecting s h₁ h₂ h₃ h₄ =>
    have hch : (c.setEventHandling true).channel = some ⟨s, writing true⟩ := by
      simp [setEventHandling, h₂, writing]
    have hdone : ∀ c', Phase true c' ∧ c'.Fresh →
        Phase false (c'.setEventHandling false) ∧ (c'.setEventHandling false).Fresh :=
      fun c' h => ⟨h.1.setEventHandling false, h.2⟩
    have hstart : Phase true (c.setEventHandling true) := .connecting s h₁ hch h₃ h₄
    by_cases herr : revents.has (POLLERR ||| POLLNVAL) = true
    · obtain ⟨c₁, hc₁, hs₁, hp₁⟩ := handleError_spec (c := c.setEventHandling true) h₁ hch h₃ h₄ hf
      have hwrite : c₁.handleWrite err selfConnect = .ok c₁ := by
        simp [handleWrite, hs₁, check_pos]
      refine ⟨c₁.setEventHandling false, ?_, hdone c₁ hp₁⟩
      by_cases hout : revents.has POLLOUT = true
      · simp [handleEvent, Channel.handleEventWithGuard, callbacks, Channel.invoke, herr, hout, hc₁,
          hwrite]
      · simp [handleEvent, Channel.handleEventWithGuard, callbacks, Channel.invoke, herr, hout, hc₁]
    · by_cases hout : revents.has POLLOUT = true
      · obtain ⟨c₁, hc₁, hp₁⟩ := handleWrite_spec (c := c.setEventHandling true) h₁ hch h₃ h₄ hf err
          selfConnect
        refine ⟨c₁.setEventHandling false, ?_, hdone c₁ hp₁⟩
        simp [handleEvent, Channel.handleEventWithGuard, callbacks, Channel.invoke, herr, hout, hc₁]
      · refine ⟨(c.setEventHandling true).setEventHandling false, ?_, hdone _ ⟨hstart, hf⟩⟩
        simp [handleEvent, Channel.handleEventWithGuard, callbacks, Channel.invoke, herr, hout]

/-! ## The beginning of an attempt -/

/-- The attempt does no harm: it begins with `channel_` null, or it fails at
once and there is no other one to be forgotten. -/
def ConnectHarmless (c : Connector) (savedErrno : Option Errno) : Prop :=
  match branch savedErrno with
  | .connecting => c.channel = none
  | .retry => c.state ≠ .kConnecting
  | .close => True

theorem connect_spec {c : Connector} (hp : Phase false c) (hf : c.Fresh) {savedErrno : Option Errno}
    (h : c.ConnectHarmless savedErrno) :
    ∃ c', c.connect savedErrno = .ok c' ∧ Phase false c' ∧ c'.Fresh := by
  let c₁ : Connector := { c with created := c.created + 1 }
  have hp₁ : Phase false c₁ := hp.congr rfl rfl rfl fun _ => Iff.rfl
  have hf₁ : c₁.Fresh := hf.congr (Nat.le_succ _) rfl rfl rfl
  have hnew : ¬ (c.created ∈ c.closes ∨ c.created ∈ c.connections) :=
    fun hx => absurd (hf c.created (.inr hx)) (Nat.lt_irrefl _)
  unfold ConnectHarmless at h
  unfold connect
  cases hb : branch savedErrno with
  | retry =>
    rw [hb] at h
    have hset := retry_settles c₁ c.created
    exact ⟨_, rfl, hset.phase hp₁ h, hset.fresh hf₁ (Nat.lt_succ_self _)⟩
  | close =>
    refine ⟨c₁.close c.created, rfl, hp₁.congr rfl rfl rfl ?_, ?_⟩
    · intro x
      have hne : x ∈ c.attempts → x ≠ c.created := fun hx => Nat.ne_of_lt (hf x (.inl hx))
      simp only [Outstanding, close, List.mem_append, List.mem_singleton, c₁]
      tauto
    · intro x hx
      rcases hx with hx | hx | hx
      · exact hf₁ x (.inl hx)
      · rcases List.mem_append.mp hx with hx | hx
        · exact hf₁ x (.inr (.inl hx))
        · obtain rfl := List.mem_singleton.mp hx
          exact Nat.lt_succ_self _
      · exact hf₁ x (.inr (.inr hx))
  | connecting =>
    rw [hb] at h
    cases hp with
    | connecting _ _ h₂ => simp [h] at h₂
    | resetting _ _ h₂ => simp [h] at h₂
    | idle h₁ h₂ h₃ h₄ =>
      have hch : Channel.new.enableWriting = .ok (writing false) := rfl
      refine ⟨{ c₁.setState .kConnecting with
        channel := some ⟨c.created, writing false⟩
        attempts := c.attempts ++ [c.created] }, ?_, .connecting c.created rfl rfl h₃ fun x => ?_,
        fun x hx => ?_⟩
      · simp only [connecting, setState, h, check_pos, ok_bind, hch, pure_eq_ok, c₁]
      · have hx := h₄ x
        simp only [Outstanding, List.mem_append, List.mem_singleton, setState, c₁] at hx ⊢
        constructor
        · tauto
        · rintro rfl
          exact ⟨.inr rfl, not_or.mp hnew⟩
      · rcases hx with hx | hx
        · rcases List.mem_append.mp hx with hx | hx
          · exact hf₁ x (.inl hx)
          · obtain rfl := List.mem_singleton.mp hx
            exact Nat.lt_succ_self _
        · exact hf₁ x (.inr hx)

/-- An attempt behind the back of another one that is under way fails the
assertion of `connecting`, forgets the registered channel, or does nothing. -/
theorem connect_harmful {c : Connector} {s : Nat} (hch : c.channel = some ⟨s, writing false⟩)
    (ho : c.Outstanding s) (hf : c.Fresh) (savedErrno : Option Errno) :
    match branch savedErrno with
    | .connecting => c.connect savedErrno = .error .connecting
    | .retry => ∃ c', c.connect savedErrno = .ok c' ∧ ¬ c'.SingleAttempt
    | .close => ∃ c', c.connect savedErrno = .ok c' ∧ c'.state = c.state ∧
        c'.channel = some ⟨s, writing false⟩ ∧ c'.Outstanding s := by
  let c₁ : Connector := { c with created := c.created + 1 }
  have hne : s ≠ c.created := Nat.ne_of_lt (hf s (.inl ho.1))
  unfold connect
  cases hb : branch savedErrno with
  | connecting => simp [connecting, setState, hch, check_neg]
  | retry =>
    have hset := retry_settles c₁ c.created
    exact ⟨_, rfl, not_single hset.state (hset.channel.trans hch) ((hset.outstanding s).mpr ⟨ho, hne⟩)⟩
  | close =>
    refine ⟨c₁.close c.created, rfl, rfl, hch, ho.1, ?_, ho.2.2⟩
    intro hs
    rcases List.mem_append.mp hs with hs | hs
    · exact ho.2.1 hs
    · exact hne (List.mem_singleton.mp hs)

/-! ## Runs -/

/-- A step ends with a single attempt; the assertion of `connecting` does not
fail. -/
def StaysSingle (_ : Connector) (_ : Step) : Checked Connector → Prop
  | .ok c => c.SingleAttempt
  | .error a => a ≠ .connecting

/-- Every call of `connect` that the step comes to is harmless, and `restart`
does not forget an attempt under way. -/
def Harmless (c : Connector) : Step → Prop
  | .start inLoop savedErrno => inLoop = true → c.ConnectHarmless savedErrno
  | .restart savedErrno => c.state ≠ .kConnecting ∧ c.ConnectHarmless savedErrno
  | .timer _ savedErrno => c.connect_ = true → c.ConnectHarmless savedErrno
  | .functor savedErrno =>
    c.functors.head? = some .startInLoop → c.connect_ = true → c.ConnectHarmless savedErrno
  | _ => True

/-- The invariant of harmless runs. -/
def Good (c : Connector) : Prop := Phase false c ∧ c.Fresh

theorem new_good : new.Good :=
  ⟨.idle (by simp [new]) rfl rfl (by simp [Outstanding, new]), by simp [Fresh, new]⟩

/-- The condition decides about the outcome: under it a good state is reached,
and without it the property is broken. -/
def Decided (p : Prop) (o : Checked Connector) : Prop :=
  (∃ c', o = .ok c' ∧ c'.Good) ∧ p ∨ (∀ c a, ¬ StaysSingle c a o) ∧ ¬ p

theorem connect_step {c : Connector} (h : c.Good) (savedErrno : Option Errno) :
    Decided (c.ConnectHarmless savedErrno) (c.connect savedErrno) := by
  by_cases hh : c.ConnectHarmless savedErrno
  · exact .inl ⟨connect_spec h.1 h.2 hh, hh⟩
  · refine .inr ⟨fun _ _ => ?_, hh⟩
    unfold ConnectHarmless at hh
    obtain ⟨hp, hf⟩ := h
    cases hp with
    | connecting s _ h₂ _ h₄ =>
      have hharm := connect_harmful h₂ ((h₄ s).mpr rfl) hf savedErrno
      cases hb : branch savedErrno with
      | connecting => simp [hb] at hharm; simp [hharm, StaysSingle]
      | retry =>
        rw [hb] at hharm
        obtain ⟨c', hc', hnot⟩ := hharm
        rw [hc']
        exact hnot
      | close => simp [hb] at hh
    | idle h₁ h₂ => cases hb : branch savedErrno <;> simp [hb, h₁, h₂] at hh
    | resetting s h₁ h₂ =>
      cases hb : branch savedErrno with
      | connecting => simp [connect, hb, connecting, setState, h₂, check_neg, StaysSingle]
      | retry => simp [hb, h₁] at hh
      | close => simp [hb] at hh

theorem startInLoop_step {c : Connector} (h : c.Good) (savedErrno : Option Errno) :
    Decided (c.connect_ = true → c.ConnectHarmless savedErrno) (c.startInLoop savedErrno) := by
  unfold startInLoop
  by_cases hc : c.connect_ = true
  · simpa [hc] using connect_step h savedErrno
  · exact .inl ⟨⟨c, by simp [hc], h⟩, fun hc' => absurd hc' hc⟩

theorem quene_good {c : Connector} (h : c.Good) {f : ConnectorFunctor} (hf : f ≠ .resetChannel)
    (connect_ : Bool) : ({ c with connect_ }.queneInLoop f).Good := by
  refine ⟨h.1.congr rfl rfl ?_ fun _ => Iff.rfl, h.2⟩
  simp [resets, queneInLoop, hf]

theorem start_step {c : Connector} (h : c.Good) (inLoop : Bool) (savedErrno : Option Errno) :
    Decided (inLoop = true → c.ConnectHarmless savedErrno) (c.start inLoop savedErrno) := by
  let c₁ : Connector := { c with connect_ := true }
  have hc₁ : c₁.Good := ⟨h.1.congr rfl rfl rfl fun _ => Iff.rfl, h.2⟩
  cases inLoop with
  | true => simpa [start, startInLoop, c₁, ConnectHarmless] using connect_step hc₁ savedErrno
  | false => exact .inl ⟨⟨_, rfl, quene_good h (by decide) true⟩, by simp⟩

theorem restart_step {c : Connector} (h : c.Good) (savedErrno : Option Errno) :
    Decided (c.state ≠ .kConnecting ∧ c.ConnectHarmless savedErrno) (c.restart savedErrno) := by
  let c₁ : Connector :=
    { c.setState .kDisconnected with retryDelayMs := kInitRetryDelayMs, connect_ := true }
  have heq : c.restart savedErrno = c₁.connect savedErrno := rfl
  obtain ⟨hp, hf⟩ := h
  by_cases hs : c.state = .kConnecting
  · -- the attempt under way is forgotten, whatever comes of the new one
    refine .inr ⟨fun _ _ => ?_, fun hn => hn.1 hs⟩
    cases hp with
    | idle h₁ => exact absurd hs h₁
    | resetting _ h₁ => exact absurd hs h₁
    | connecting s _ h₂ _ h₄ =>
      have hharm := connect_harmful (c := c₁) h₂ ((h₄ s).mpr rfl) hf savedErrno
      rw [heq]
      cases hb : branch savedErrno with
      | connecting =>
        rw [hb] at hharm
        simp [hharm, StaysSingle]
      | retry =>
        rw [hb] at hharm
        obtain ⟨c', hc', hnot⟩ := hharm
        rw [hc']
        exact hnot
      | close =>
        rw [hb] at hharm
        obtain ⟨c', hc', hs', hch, ho⟩ := hharm
        rw [hc']
        exact not_single (by simp [hs', c₁, setState]) hch ho
  · have hc₁ : c₁.Good := by
      refine ⟨?_, hf⟩
      cases hp with
      | idle h₁ h₂ h₃ h₄ => exact .idle (by simp [c₁, setState]) h₂ h₃ h₄
      | connecting _ h₁ => exact absurd h₁ hs
      | resetting s h₁ h₂ h₃ h₄ => exact .resetting s (by simp [c₁, setState]) h₂ h₃ h₄
    have hiff : c₁.ConnectHarmless savedErrno ↔ c.ConnectHarmless savedErrno := by
      unfold ConnectHarmless
      cases branch savedErrno <;> simp [c₁, setState, hs]
    rw [heq, and_iff_right hs, ← hiff]
    exact connect_step hc₁ savedErrno

theorem stopInLoop_spec {c : Connector} (h : c.Good) : ∃ c', c.stopInLoop = .ok c' ∧ c'.Good := by
  obtain ⟨hp, hf⟩ := h
  by_cases hs : c.state = .kConnecting
  · cases hp with
    | idle h₁ => exact absurd hs h₁
    | resetting _ h₁ => exact absurd hs h₁
    | connecting s _ h₂ h₃ h₄ =>
      have hrem := removeAndResetChannel_eq (c := c.setState .kDisconnected) h₂
      refine ⟨_, ?_, Phase.settled (c := c.setState .kDisconnected) h₃ h₄ hf (retry_settles _ s)⟩
      simp only [stopInLoop, hs, ↓reduceIte, hrem, ok_bind, pure_eq_ok]
  · exact ⟨c, by simp [stopInLoop, hs], hp, hf⟩

theorem functor_step {c : Connector} (h : c.Good) (savedErrno : Option Errno) :
    Decided (c.Harmless (.functor savedErrno)) (c.step (.functor savedErrno)) := by
  cases hfs : c.functors with
  | nil => exact .inl ⟨⟨c, by simp [step, hfs], h⟩, by simp [Harmless, hfs]⟩
  | cons f functors =>
    let c₁ : Connector := { c with functors }
    have hstep : c.step (.functor savedErrno) = c₁.runFunctor savedErrno f := by
      simp only [step, hfs, c₁]
    rw [hstep]
    cases f with
    | startInLoop =>
      have hc₁ : c₁.Good := ⟨h.1.congr rfl rfl (by simp [resets, hfs, c₁]) fun _ => Iff.rfl, h.2⟩
      simpa [Harmless, hfs, runFunctor, c₁, ConnectHarmless] using startInLoop_step hc₁ savedErrno
    | stopInLoop =>
      have hc₁ : c₁.Good := ⟨h.1.congr rfl rfl (by simp [resets, hfs, c₁]) fun _ => Iff.rfl, h.2⟩
      exact .inl ⟨stopInLoop_spec hc₁, by simp [Harmless, hfs]⟩
    | resetChannel =>
      refine .inl ⟨?_, by simp [Harmless, hfs]⟩
      obtain ⟨hp, hf⟩ := h
      cases hp with
      | idle _ _ h₃ => simp [resets, hfs] at h₃
      | connecting _ _ _ h₃ => simp [resets, hfs] at h₃
      | resetting s h₁ h₂ h₃ h₄ =>
        have hdtor : (removed false).dtor = .ok () := rfl
        refine ⟨{ c₁ with channel := none }, ?_, .idle h₁ rfl ?_ h₄, hf⟩
        · simp [runFunctor, resetChannel, c₁, h₂, hdtor]
        · simpa [resets, hfs] using h₃

/-- A step from a good state either is harmless and ends in a good state, or is
not and breaks the property. -/
theorem step_spec {c : Connector} (h : c.Good) {a : Step} (ha : c.Allowed a) :
    Decided (c.Harmless a) (c.step a) := by
  cases a with
  | start inLoop savedErrno => exact start_step h inLoop savedErrno
  | stop => exact .inl ⟨⟨_, rfl, quene_good h (by decide) false⟩, trivial⟩
  | restart savedErrno => exact restart_step h savedErrno
  | timer i savedErrno =>
    have hc₁ : { c with retryTimers := c.retryTimers.eraseIdx i }.Good :=
      ⟨h.1.congr rfl rfl rfl fun _ => Iff.rfl, h.2⟩
    exact startInLoop_step hc₁ savedErrno
  | dispatch revents err selfConnect =>
    obtain ⟨c', hc', hgood⟩ := handleEvent_spec h.1 h.2 ha revents err selfConnect
    exact .inl ⟨⟨c', hc', hgood⟩, trivial⟩
  | functor savedErrno => exact functor_step h savedErrno

/-- **One attempt at a time.** In every run of a connector there is never more
than one attempt, and the assertion of `connecting` does not fail, exactly when
every step of the run is harmless. -/
theorem single_attempt_iff (steps : List Step) (hsteps : Along step Allowed new steps) :
    Steps step StaysSingle new steps ↔ Along step Harmless new steps := by
  refine steps_iff (I := Good) ?_ ?_ new_good hsteps
  · intro c a h ha
    rcases step_spec h ha with ⟨⟨c', hc', hgood⟩, hh⟩ | ⟨hnot, hh⟩
    · rw [hc']
      exact iff_of_true hgood.1.single hh
    · exact iff_of_false (hnot c a) hh
  · intro c a c' h ha hh hs
    rcases step_spec h ha with ⟨⟨c₁, hc₁, hgood⟩, -⟩ | ⟨-, hnot⟩
    · cases hc₁.symm.trans hs
      exact hgood
    · exact absurd hh hnot

instance (c : Connector) (savedErrno : Option Errno) : Decidable (c.ConnectHarmless savedErrno) := by
  unfold ConnectHarmless
  cases branch savedErrno <;> infer_instance

instance (c : Connector) (a : Step) : Decidable (c.Allowed a) := by
  cases a <;> unfold Allowed <;> infer_instance

instance (c : Connector) (a : Step) : Decidable (c.Harmless a) := by
  cases a <;> unfold Harmless <;> infer_instance

/-- An attempt that succeeds. -/
theorem single_attempt_iff_sample :
    Steps step StaysSingle new
      [.start true (some .EINPROGRESS), .dispatch POLLOUT 0 false, .functor none] :=
  (single_attempt_iff _ (by decide)).mpr (by decide)

/-- A second `start` while the first attempt is under way. -/
theorem second_start_fails :
    (Along step Allowed new [.start true (some .EINPROGRESS), .start true (some .EINPROGRESS)]) ∧
    (¬ Steps step StaysSingle new
      [.start true (some .EINPROGRESS), .start true (some .EINPROGRESS)]) ∧
    ∃ c, Run step new [.start true (some .EINPROGRESS)] c ∧
      c.step (.start true (some .EINPROGRESS)) = .error .connecting := by
  obtain ⟨c, hc⟩ : ∃ c, new.step (.start true (some .EINPROGRESS)) = .ok c := ⟨_, rfl⟩
  have hfail : c.step (.start true (some .EINPROGRESS)) = .error .connecting := by
    cases hc
    rfl
  refine ⟨by decide, ?_, c, .cons hc (.nil c), hfail⟩
  intro hsteps
  have hsingle := ((steps_cons_ok hc).mp hsteps).2.1
  rw [hfail] at hsingle
  exact hsingle rfl

end Connector

end Muduo
