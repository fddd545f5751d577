import Muduo.ConnectorAttempts

/-!
Where the sockets of a connector go: each is held by `channel_` while `state_`
is `kConnecting`, or was closed once, or was handed over once. As `startInLoop`
does not look at `state_`, the socket of an attempt under way may be lost:
`sockets_accounted_iff` says when.
-/

namespace Muduo

open Lib Events

namespace Connector

/-- The socket of the attempt under way. -/
def Held (c : Connector) (x : Nat) : Prop := c.state = .kConnecting ∧ ∃ a ∈ c.channel, a.sockfd = x

instance (c : Connector) (x : Nat) : Decidable (c.Held x) := inferInstanceAs (Decidable (_ ∧ _))

/-- How often the socket was closed or handed over. -/
def ended (c : Connector) (x : Nat) : Nat := c.closes.count x + c.connections.count x

/-- Every socket created, and no other, is held, or was closed or handed over
once. -/
def Balanced (c : Connector) : Prop :=
  ∀ x, (if c.Held x then 1 else 0) + c.ended x = if x < c.created then 1 else 0

/-- What `Balanced` says, but for `s`, of which nobody has disposed yet. -/
def Lacking (s : Nat) (c : Connector) : Prop :=
  ∀ x, (if x = s then 1 else 0) + c.ended x = if x < c.created then 1 else 0

/-- The sockets are balanced, and no socket that was closed or handed over is
used by a channel in the poller. -/
structure Accounted (c : Connector) : Prop where
  balanced : c.Balanced
  unused : ∀ a ∈ c.channel, a.channel.registered ≠ none →
    a.sockfd ∉ c.closes ∧ a.sockfd ∉ c.connections

theorem Phase.connecting_of {b : Bool} {c : Connector} (h : Phase b c)
    (hstate : c.state = .kConnecting) :
    ∃ s, c.channel = some ⟨s, writing b⟩ ∧ c.resets = 0 ∧ c.Outstanding s := by
  cases h with
  | idle h₁ => exact absurd hstate h₁
  | connecting s _ h₂ h₃ h₄ => exact ⟨s, h₂, h₃, (h₄ s).mpr rfl⟩
  | resetting _ h₁ => exact absurd hstate h₁

theorem new_balanced : new.Balanced := by
  intro x
  simp [Held, ended, new]

/-! ## The end of a socket -/

theorem close_ended (c : Connector) (s x : Nat) :
    (c.close s).ended x = (if x = s then 1 else 0) + c.ended x := by
  simp only [ended, close, List.count_append, List.count_singleton, beq_iff_eq, eq_comm (a := s)]
  omega

theorem newConnectionCallback_ended (c : Connector) (s x : Nat) :
    (c.newConnectionCallback s).ended x = (if x = s then 1 else 0) + c.ended x := by
  simp only [ended, newConnectionCallback, List.count_append, List.count_singleton, beq_iff_eq,
    eq_comm (a := s)]
  omega

theorem retry_ended (c : Connector) (s x : Nat) :
    (c.retry s).ended x = (if x = s then 1 else 0) + c.ended x := by
  rw [← close_ended]
  unfold retry
  dsimp only
  split <;> rfl

/-- Nothing is held outside `kConnecting`. -/
theorem not_held {c : Connector} (h : c.state ≠ .kConnecting) (x : Nat) : ¬ c.Held x :=
  fun hx => h hx.1

theorem Lacking.settled {s : Nat} {c c' : Connector} (h : Lacking s c)
    (hstate : c'.state ≠ .kConnecting) (hcreated : c'.created = c.created)
    (hended : ∀ x, c'.ended x = (if x = s then 1 else 0) + c.ended x) : c'.Balanced := by
  intro x
  rw [if_neg (not_held hstate x), hended, hcreated, Nat.zero_add]
  exact h x

theorem Lacking.held {s : Nat} {c c' : Connector} (h : Lacking s c)
    (hheld : ∀ x, c'.Held x ↔ x = s) (hcreated : c'.created = c.created)
    (hended : ∀ x, c'.ended x = c.ended x) : c'.Balanced := by
  intro x
  simp only [hheld, hcreated, hended]
  exact h x

theorem Lacking.retry {s : Nat} {c : Connector} (h : Lacking s c) : (c.retry s).Balanced :=
  h.settled (retry_settles c s).state (retry_settles c s).created (retry_ended c s)

/-- The socket of an attempt that has ended is the one to be disposed of. -/
theorem Balanced.lacking {c : Connector} (h : c.Balanced) (hstate : c.state = .kConnecting)
    {a : SocketChannel} (ha : c.channel = some a) : Lacking a.sockfd c := by
  intro x
  have hheld : c.Held x ↔ x = a.sockfd := by simp [Held, hstate, ha, eq_comm]
  have hx := h x
  simp only [hheld] at hx
  exact hx

/-- So is a socket that has just been created. -/
theorem Balanced.create {c : Connector} (h : c.Balanced) (hheld : ∀ x, ¬ c.Held x) :
    Lacking c.created { c with created := c.created + 1 } := by
  intro x
  have hx := h x
  rw [if_neg (hheld x)] at hx
  have hended : ({ c with created := c.created + 1 } : Connector).ended x = c.ended x := rfl
  rw [hended]
  dsimp only
  split_ifs at hx ⊢ <;> omega

/-- A socket is created and closed at once. -/
theorem Balanced.dispose {c c' : Connector} (h : c.Balanced) (hheld : ∀ x, c'.Held x ↔ c.Held x)
    (hcreated : c'.created = c.created + 1)
    (hended : ∀ x, c'.ended x = (if x = c.created then 1 else 0) + c.ended x) : c'.Balanced := by
  intro x
  have hx := h x
  simp only [hheld, hcreated, hended]
  split_ifs at hx ⊢ <;> omega

theorem removeAndResetChannel_ok {c c' : Connector} {s : Nat}
    (h : c.removeAndResetChannel = .ok (c', s)) :
    ∃ a channel, c.channel = some a ∧ s = a.sockfd ∧
      c' = { c with channel := some { a with channel } }.queneInLoop .resetChannel := by
  unfold removeAndResetChannel at h
  split at h
  · cases h
  · rename_i a ha
    obtain ⟨_, _, h⟩ := bind_eq_ok.mp h
    obtain ⟨channel, _, h⟩ := bind_eq_ok.mp h
    cases h
    exact ⟨a, channel, ha, rfl, rfl⟩

theorem Balanced.handleError {c c' : Connector} (h : c.Balanced) (hc : c.handleError = .ok c') :
    c'.Balanced := by
  unfold Connector.handleError at hc
  split at hc
  · rename_i hstate
    obtain ⟨⟨c₁, s⟩, hrem, hc⟩ := bind_eq_ok.mp hc
    cases hc
    obtain ⟨a, channel, ha, rfl, rfl⟩ := removeAndResetChannel_ok hrem
    have hlacking : Lacking a.sockfd c := h.lacking hstate ha
    exact Lacking.retry hlacking
  · cases hc
    exact h

theorem Balanced.handleWrite {c c' : Connector} (h : c.Balanced) {err : Nat} {selfConnect : Bool}
    (hc : c.handleWrite err selfConnect = .ok c') : c'.Balanced := by
  unfold Connector.handleWrite at hc
  split at hc
  · rename_i hstate
    obtain ⟨⟨c₁, s⟩, hrem, hc⟩ := bind_eq_ok.mp hc
    obtain ⟨a, channel, ha, rfl, rfl⟩ := removeAndResetChannel_ok hrem
    have hlacking : Lacking a.sockfd c := h.lacking hstate ha
    dsimp only at hc
    split at hc
    · cases hc
      exact Lacking.retry hlacking
    split at hc
    · cases hc
      exact Lacking.retry hlacking
    · cases hc
      split
      · exact Lacking.settled hlacking (by simp [newConnectionCallback, setState]) rfl
          fun x => newConnectionCallback_ended _ _ x
      · exact Lacking.settled hlacking (by simp [close, setState]) rfl fun x => close_ended _ _ x
  · obtain ⟨_, _, hc⟩ := bind_eq_ok.mp hc
    cases hc
    exact h

theorem Balanced.stopInLoop {c c' : Connector} (h : c.Balanced) (hc : c.stopInLoop = .ok c') :
    c'.Balanced := by
  unfold Connector.stopInLoop at hc
  split at hc
  · rename_i hstate
    obtain ⟨⟨c₁, s⟩, hrem, hc⟩ := bind_eq_ok.mp hc
    cases hc
    obtain ⟨a, channel, ha, rfl, rfl⟩ := removeAndResetChannel_ok hrem
    have hlacking : Lacking a.sockfd c := h.lacking hstate ha
    exact Lacking.retry hlacking
  · cases hc
    exact h

theorem held_setEventHandling (c : Connector) (b : Bool) (x : Nat) :
    (c.setEventHandling b).Held x ↔ c.Held x := by
  simp [Held, setEventHandling, Option.map_eq_some_iff]

theorem balanced_setEventHandling (c : Connector) (b : Bool) :
    (c.setEventHandling b).Balanced ↔ c.Balanced := by
  have hended : (c.setEventHandling b).ended = c.ended := rfl
  simp only [Balanced, held_setEventHandling, hended]
  rfl

theorem Balanced.handleEvent {c c' : Connector} (h : c.Balanced) {revents : Events} {err : Nat}
    {selfConnect : Bool} (hc : c.handleEvent revents err selfConnect = .ok c') : c'.Balanced := by
  refine handleEvent_invariant (I := Balanced) ?_ ?_ ?_ h hc
  · intro c b hb
    exact (balanced_setEventHandling c b).mpr hb
  · intro c c' hb hc
    exact hb.handleError hc
  · intro c c' hb hc
    exact hb.handleWrite hc

/-! ## The beginning of a socket -/

/-- `connect` does not come to `retry` while another attempt is under way. -/
def ConnectKeeps (c : Connector) (savedErrno : Option Errno) : Prop :=
  branch savedErrno = .retry → c.state ≠ .kConnecting

/-- The step loses no socket. A `restart` during an attempt gets no further than
the assertion of `connecting`. -/
def Leakless (c : Connector) : Step → Prop
  | .start inLoop savedErrno => inLoop = true → c.ConnectKeeps savedErrno
  | .restart savedErrno => c.state = .kConnecting → branch savedErrno = .connecting
  | .timer _ savedErrno => c.connect_ = true → c.ConnectKeeps savedErrno
  | .functor savedErrno =>
    c.functors.head? = some .startInLoop → c.connect_ = true → c.ConnectKeeps savedErrno
  | _ => True

theorem connecting_ok {c c' : Connector} {s : Nat} (h : c.connecting s = .ok c') :
    c.channel = none ∧ ∃ channel, c' = { c.setState .kConnecting with
      channel := some ⟨s, channel⟩, attempts := c.attempts ++ [s] } := by
  obtain ⟨_, hcheck, h⟩ := bind_eq_ok.mp h
  obtain ⟨channel, -, h⟩ := bind_eq_ok.mp h
  cases h
  exact ⟨(check_eq_ok ..).mp hcheck, channel, rfl⟩

theorem Balanced.connect {c c' : Connector} (h : c.Balanced) {savedErrno : Option Errno}
    (hk : c.ConnectKeeps savedErrno) (hc : c.connect savedErrno = .ok c') : c'.Balanced := by
  unfold Connector.connect at hc
  cases hb : branch savedErrno with
  | connecting =>
    rw [hb] at hc
    obtain ⟨hnone, channel, rfl⟩ := connecting_ok hc
    have hnone' : c.channel = none := hnone
    have hlacking := h.create fun x hx => by simp [Held, hnone'] at hx
    exact hlacking.held (fun x => by simp [Held, setState, eq_comm]) rfl fun _ => rfl
  | retry =>
    rw [hb] at hc
    cases hc
    exact (h.create (not_held (hk hb))).retry
  | close =>
    rw [hb] at hc
    cases hc
    exact h.dispose (fun _ => Iff.rfl) rfl fun x => close_ended _ _ x

theorem Balanced.startInLoop {c c' : Connector} (h : c.Balanced) {savedErrno : Option Errno}
    (hk : c.connect_ = true → c.ConnectKeeps savedErrno)
    (hc : c.startInLoop savedErrno = .ok c') : c'.Balanced := by
  unfold Connector.startInLoop at hc
  split at hc
  · rename_i hconnect
    exact h.connect (hk hconnect) hc
  · cases hc
    exact h

/-- A socket that is neither held nor ended. -/
theorem not_balanced {c : Connector} {s : Nat} (hstate : c.state ≠ .kConnecting)
    (hs : s < c.created) (hended : c.ended s = 0) : ¬ c.Balanced := by
  intro h
  have hx := h s
  rw [if_neg (not_held hstate s), if_pos hs, hended] at hx
  cases hx

theorem Outstanding.ended {c : Connector} {s : Nat} (h : c.Outstanding s) : c.ended s = 0 := by
  rw [Connector.ended, List.count_eq_zero_of_not_mem h.2.1, List.count_eq_zero_of_not_mem h.2.2]

/-- There is a channel that no functor and no attempt will ever remove. -/
structure Forgotten (c : Connector) : Prop where
  state : c.state ≠ .kConnecting
  channel : c.channel ≠ none
  resets : c.resets = 0

/-- The new attempt fails, and with it goes the one under way. -/
theorem connect_loses {c : Connector} {s : Nat} (hch : c.channel ≠ none) (hr : c.resets = 0)
    (ho : c.Outstanding s) (hf : c.Fresh) {savedErrno : Option Errno}
    (hb : branch savedErrno = .retry ∨ branch savedErrno = .close ∧ c.state ≠ .kConnecting) :
    ∃ c', c.connect savedErrno = .ok c' ∧ c'.Forgotten ∧ ¬ c'.Balanced := by
  have hs : s < c.created := hf s (.inl ho.1)
  have hne : s ≠ c.created := Nat.ne_of_lt hs
  let c₁ : Connector := { c with created := c.created + 1 }
  have hended : c₁.ended s = 0 := ho.ended
  rcases hb with hb | ⟨hb, hstate⟩
  · have hset : Settles c.created c₁ (c₁.retry c.created) := retry_settles c₁ c.created
    have hs' : s < (c₁.retry c.created).created := by
      rw [hset.created]
      exact Nat.lt_succ_of_lt hs
    have hforgotten : (c₁.retry c.created).Forgotten := by
      refine ⟨hset.state, ?_, ?_⟩
      · rw [hset.channel]
        exact hch
      · rw [resets, hset.functors]
        exact hr
    have hzero : (c₁.retry c.created).ended s = 0 := by rw [retry_ended, if_neg hne, hended]
    exact ⟨c₁.retry c.created, by simp only [connect, hb]; rfl, hforgotten,
      not_balanced hset.state hs' hzero⟩
  · have hstate' : (c₁.close c.created).state ≠ .kConnecting := hstate
    have hs' : s < (c₁.close c.created).created := Nat.lt_succ_of_lt hs
    have hzero : (c₁.close c.created).ended s = 0 := by rw [close_ended, if_neg hne, hended]
    exact ⟨c₁.close c.created, by simp only [connect, hb]; rfl, ⟨hstate', hch, hr⟩,
      not_balanced hstate' hs' hzero⟩

/-! ## Runs -/

/-- A step that comes to its end leaves every socket accounted for. -/
def StaysAccounted (_ : Connector) (_ : Step) : Checked Connector → Prop
  | .ok c => c.Accounted
  | .error _ => True

theorem connect_harmless {c c' : Connector} {savedErrno : Option Errno}
    (hk : c.ConnectKeeps savedErrno) (hc : c.connect savedErrno = .ok c') :
    c.ConnectHarmless savedErrno := by
  unfold ConnectHarmless
  unfold connect at hc
  cases hb : branch savedErrno with
  | connecting =>
    rw [hb] at hc
    exact (connecting_ok hc).1
  | retry => exact hk hb
  | close => trivial

/-- A step that loses no socket and does not fail is harmless. -/
theorem Leakless.harmless {c c' : Connector} (hgood : c.Good) {a : Step} (h : c.Leakless a)
    (hs : c.step a = .ok c') : c.Harmless a := by
  cases a with
  | start inLoop savedErrno =>
    rintro rfl
    have hconnect : ({ c with connect_ := true } : Connector).connect savedErrno = .ok c' := hs
    exact connect_harmless (c := { c with connect_ := true }) (h rfl) hconnect
  | stop => trivial
  | restart savedErrno =>
    let c₁ : Connector :=
      { c.setState .kDisconnected with retryDelayMs := kInitRetryDelayMs, connect_ := true }
    have hconnect : c₁.connect savedErrno = .ok c' := hs
    have hstate : c.state ≠ .kConnecting := by
      intro hstate
      obtain ⟨s, hch, -, -⟩ := hgood.1.connecting_of hstate
      simp only [connect, h hstate] at hconnect
      have hnone : c.channel = none := (connecting_ok hconnect).1
      simp [hch] at hnone
    have hharmless : c₁.ConnectHarmless savedErrno :=
      connect_harmless (fun _ => by simp [c₁, setState]) hconnect
    refine ⟨hstate, ?_⟩
    unfold ConnectHarmless at hharmless ⊢
    cases hb : branch savedErrno <;> simp_all [c₁, setState]
  | timer i savedErrno =>
    intro hconnect
    have hs' : ({ c with retryTimers := c.retryTimers.eraseIdx i } : Connector).connect savedErrno =
        .ok c' := by simpa [step, startInLoop, hconnect] using hs
    exact connect_harmless (c := { c with retryTimers := c.retryTimers.eraseIdx i }) (h hconnect) hs'
  | dispatch revents err selfConnect => trivial
  | functor savedErrno =>
    intro hhead hconnect
    obtain ⟨functors, hfs⟩ : ∃ functors, c.functors = .startInLoop :: functors := by
      cases hfs : c.functors with
      | nil => simp [hfs] at hhead
      | cons f functors =>
        obtain rfl : f = .startInLoop := by simpa [hfs] using hhead
        exact ⟨functors, rfl⟩
    have hs' : ({ c with functors } : Connector).connect savedErrno = .ok c' := by
      simpa [step, hfs, runFunctor, startInLoop, hconnect] using hs
    exact connect_harmless (c := { c with functors }) (h hhead hconnect) hs'

theorem Balanced.resetChannel {c c' : Connector} (h : c.Balanced) (hstate : c.state ≠ .kConnecting)
    (hc : c.resetChannel = .ok c') : c'.Balanced := by
  have hbalanced : ({ c with channel := none } : Connector).Balanced := by
    intro x
    rw [if_neg (not_held (c := { c with channel := none }) hstate x)]
    have hx := h x
    rwa [if_neg (not_held hstate x)] at hx
  unfold Connector.resetChannel at hc
  split at hc
  · cases hc
    exact h
  · obtain ⟨_, -, hc⟩ := bind_eq_ok.mp hc
    cases hc
    exact hbalanced

theorem Balanced.step {c c' : Connector} (h : c.Balanced) (hgood : c.Good) {a : Step}
    (hl : c.Leakless a) (hs : c.step a = .ok c') : c'.Balanced := by
  cases a with
  | start inLoop savedErrno =>
    have hb : ({ c with connect_ := true } : Connector).Balanced := h
    cases inLoop with
    | true => exact hb.startInLoop (fun _ => hl rfl) hs
    | false =>
      cases hs
      exact hb
  | stop =>
    cases hs
    exact h
  | restart savedErrno =>
    have hharmless := hl.harmless hgood hs
    let c₁ : Connector :=
      { c.setState .kDisconnected with retryDelayMs := kInitRetryDelayMs, connect_ := true }
    have hb : c₁.Balanced := by
      intro x
      rw [if_neg (not_held (c := c₁) (by simp [c₁, setState]) x)]
      have hx := h x
      rwa [if_neg (not_held hharmless.1 x)] at hx
    exact hb.startInLoop (fun _ _ => by simp [c₁, setState]) hs
  | timer i savedErrno =>
    have hb : ({ c with retryTimers := c.retryTimers.eraseIdx i } : Connector).Balanced := h
    exact hb.startInLoop hl hs
  | dispatch revents err selfConnect => exact h.handleEvent hs
  | functor savedErrno =>
    cases hfs : c.functors with
    | nil =>
      simp only [Connector.step, hfs] at hs
      cases hs
      exact h
    | cons f functors =>
      have hb : ({ c with functors } : Connector).Balanced := h
      simp only [Connector.step, hfs] at hs
      cases f with
      | startInLoop => exact hb.startInLoop (fun hconnect => hl (by simp [hfs]) hconnect) hs
      | stopInLoop => exact hb.stopInLoop hs
      | resetChannel =>
        have hstate : c.state ≠ .kConnecting := by
          intro hstate
          obtain ⟨_, -, hr, -⟩ := hgood.1.connecting_of hstate
          simp [resets, hfs] at hr
        exact hb.resetChannel hstate hs

theorem Good.unused {c : Connector} (h : c.Good) :
    ∀ a ∈ c.channel, a.channel.registered ≠ none →
      a.sockfd ∉ c.closes ∧ a.sockfd ∉ c.connections := by
  intro a ha hreg
  cases h.1 with
  | idle _ h₂ => simp [h₂] at ha
  | connecting s _ h₂ _ h₄ =>
    obtain rfl : (⟨s, writing false⟩ : SocketChannel) = a := by simpa [h₂] using ha
    exact ((h₄ s).mpr rfl).2
  | resetting s _ h₂ =>
    obtain rfl : (⟨s, removed false⟩ : SocketChannel) = a := by simpa [h₂] using ha
    simp [removed] at hreg

/-- The retry forgets the attempt that is under way. -/
theorem connect_forgets {c : Connector} (h : c.Good) {savedErrno : Option Errno}
    (hk : ¬ c.ConnectKeeps savedErrno) :
    ∃ c', c.connect savedErrno = .ok c' ∧ c'.Forgotten ∧ ¬ c'.Balanced := by
  have hk' : branch savedErrno = .retry ∧ c.state = .kConnecting := by
    simpa [ConnectKeeps] using hk
  obtain ⟨hb, hstate⟩ := hk'
  obtain ⟨s, hch, hr, ho⟩ := h.1.connecting_of hstate
  exact connect_loses (by simp [hch]) hr ho h.2 (.inl hb)

/-- A step that is not leakless loses the socket of the attempt under way. -/
theorem step_loses {c : Connector} (h : c.Good) {a : Step} (hl : ¬ c.Leakless a) :
    ∃ c', c.step a = .ok c' ∧ c'.Forgotten ∧ ¬ c'.Balanced := by
  cases a with
  | start inLoop savedErrno =>
    obtain ⟨rfl, hk⟩ : inLoop = true ∧ ¬ c.ConnectKeeps savedErrno := Classical.not_imp.mp hl
    have hgood : ({ c with connect_ := true } : Connector).Good :=
      ⟨h.1.congr rfl rfl rfl fun _ => Iff.rfl, h.2⟩
    exact connect_forgets hgood hk
  | stop => exact absurd trivial hl
  | restart savedErrno =>
    obtain ⟨hstate, hb⟩ : c.state = .kConnecting ∧ ¬ branch savedErrno = .connecting :=
      Classical.not_imp.mp hl
    obtain ⟨s, hch, hr, ho⟩ := h.1.connecting_of hstate
    let c₁ : Connector :=
      { c.setState .kDisconnected with retryDelayMs := kInitRetryDelayMs, connect_ := true }
    have hch₁ : c₁.channel = some ⟨s, writing false⟩ := hch
    have ho₁ : c₁.Outstanding s := ho
    apply connect_loses (c := c₁) (by simp [hch₁]) hr ho₁ h.2
    cases hb' : branch savedErrno with
    | connecting => exact absurd hb' hb
    | retry => exact .inl rfl
    | close => exact .inr ⟨rfl, by simp [c₁, setState]⟩
  | timer i savedErrno =>
    obtain ⟨hconnect, hk⟩ : c.connect_ = true ∧ ¬ c.ConnectKeeps savedErrno :=
      Classical.not_imp.mp hl
    have hgood : ({ c with retryTimers := c.retryTimers.eraseIdx i } : Connector).Good :=
      ⟨h.1.congr rfl rfl rfl fun _ => Iff.rfl, h.2⟩
    simpa [step, startInLoop, hconnect] using connect_forgets hgood hk
  | dispatch revents err selfConnect => exact absurd trivial hl
  | functor savedErrno =>
    obtain ⟨hhead, hl⟩ := Classical.not_imp.mp hl
    obtain ⟨hconnect, hk⟩ := Classical.not_imp.mp hl
    obtain ⟨functors, hfs⟩ := List.head?_eq_some_iff.mp hhead
    have hgood : ({ c with functors } : Connector).Good :=
      ⟨h.1.congr rfl rfl (by simp [resets, hfs]) fun _ => Iff.rfl, h.2⟩
    simpa [step, hfs, runFunctor, startInLoop, hconnect] using connect_forgets hgood hk

theorem keeps_step {c c' : Connector} (h : c.Good ∧ c.Balanced) {a : Step} (ha : c.Allowed a)
    (hl : c.Leakless a) (hs : c.step a = .ok c') : c'.Good ∧ c'.Balanced := by
  have hharmless : c.Harmless a := hl.harmless h.1 hs
  rcases step_spec h.1 ha with ⟨⟨c₁, hc₁, hgood⟩, -⟩ | ⟨-, hnot⟩
  · cases hc₁.symm.trans hs
    exact ⟨hgood, h.2.step h.1 hl hs⟩
  · exact absurd hharmless hnot

/-- **No socket is lost.** In every run of a connector all sockets are accounted
for after every step exactly when no step loses one. -/
theorem sockets_accounted_iff (steps : List Step) (hsteps : Along step Allowed new steps) :
    Steps step StaysAccounted new steps ↔ Along step Leakless new steps := by
  refine steps_iff (I := fun c => c.Good ∧ c.Balanced) ?_ (fun _ _ _ h => keeps_step h)
    ⟨new_good, new_balanced⟩ hsteps
  intro c a h ha
  constructor
  · intro hr
    by_contra hl
    obtain ⟨c', hs, -, hnot⟩ := step_loses h.1 hl
    rw [hs] at hr
    exact hnot hr.balanced
  · intro hl
    cases hs : c.step a with
    | error e => trivial
    | ok c' =>
      obtain ⟨hgood, hbalanced⟩ := keeps_step h ha hl hs
      exact ⟨hbalanced, hgood.unused⟩

/-- A failed attempt, its retry, and one that succeeds. -/
theorem sockets_accounted_iff_sample :
    Steps step StaysAccounted new
      [.start true (some .ECONNREFUSED), .timer 0 none, .dispatch POLLOUT 0 false,
        .functor none] :=
  (sockets_accounted_iff _ (by decide)).mpr (by
    apply (steps_cons_ok rfl).mpr ⟨fun _ _ => (by decide), _⟩
    apply (steps_cons_ok rfl).mpr ⟨fun _ h => (by cases h), _⟩
    apply (steps_cons_ok rfl).mpr ⟨trivial, _⟩
    exact ⟨fun h => (by cases h), fun _ _ => trivial⟩)

/-- A second `start`, refused at once, while the first attempt is under way. -/
def refusedStart : List Step :=
  [.start true (some .EINPROGRESS), .start true (some .ECONNREFUSED)]

theorem first_socket_lost :
    Along step Allowed new refusedStart ∧ ¬ Steps step StaysAccounted new refusedStart ∧
    ∃ c, Run step new refusedStart c ∧ c.created = 2 ∧ ¬ c.Held 0 ∧ c.ended 0 = 0 := by
  have hrun : ∃ c, Run step new refusedStart c ∧ c.created = 2 ∧ ¬ c.Held 0 ∧ c.ended 0 = 0 :=
    ⟨_, run_iff_foldlM.mpr rfl, rfl, by decide, rfl⟩
  refine ⟨by decide, ?_, hrun⟩
  obtain ⟨c₁, h₁⟩ : ∃ c, new.step (.start true (some .EINPROGRESS)) = .ok c := ⟨_, rfl⟩
  obtain ⟨c₂, h₂⟩ : ∃ c, c₁.step (.start true (some .ECONNREFUSED)) = .ok c := by
    cases h₁
    exact ⟨_, rfl⟩
  intro hsteps
  have hlast := ((steps_cons_ok h₂).mp ((steps_cons_ok h₁).mp hsteps).2).1
  obtain ⟨c, hc, hcreated, hheld, hended⟩ := hrun
  have hc₂ : c = c₂ := by
    have hfold := run_iff_foldlM.mp (Run.cons h₁ (Run.cons h₂ (.nil c₂)))
    exact Except.ok.inj ((run_iff_foldlM.mp hc).symm.trans hfold)
  subst hc₂
  have hzero := hlast.balanced 0
  rw [if_neg hheld, hended, hcreated] at hzero
  cases hzero

end Connector

end Muduo
