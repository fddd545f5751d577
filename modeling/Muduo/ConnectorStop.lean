import Muduo.ConnectorSockets
import Muduo.Lib.Fifo

/-!
What `stop` leaves to happen. With `connect_` cleared nothing creates a socket
or hands one over, and an attempt under way ends when `stopInLoop` runs, if no
event has ended it before. Its channel is reset by a functor that is queued by
whatever ends the attempt: `stop_final`.
-/

namespace Muduo

open Lib Events

namespace Connector

/-- The calls that set `connect_`. -/
def Step.Starts : Step → Prop
  | .start .. | .restart _ => True
  | _ => False

def Step.isFunctor : Step → Bool
  | .functor _ => true
  | _ => false

/-- `c'` is what a stopped connector has become: nothing has begun. -/
structure Fades (c c' : Connector) : Prop where
  connect_ : c'.connect_ = false
  created : c'.created = c.created
  connections : c'.connections = c.connections
  functors : c.functors <+: c'.functors
  state : c'.state = .kConnecting → c.state = .kConnecting
  channel : c.state ≠ .kConnecting → c'.channel ≠ none → c.channel ≠ none

theorem Fades.refl {c : Connector} (h : c.connect_ = false) : Fades c c :=
  ⟨h, rfl, rfl, List.prefix_refl _, id, fun _ => id⟩

theorem Fades.trans {c c' c'' : Connector} (h : Fades c c') (h' : Fades c' c'') : Fades c c'' where
  connect_ := h'.connect_
  created := h'.created.trans h.created
  connections := h'.connections.trans h.connections
  functors := h.functors.trans h'.functors
  state := fun hs => h.state (h'.state hs)
  channel := fun hs hch => h.channel hs (h'.channel (fun hs' => hs (h.state hs')) hch)

theorem startInLoop_off {c : Connector} (h : c.connect_ = false) (savedErrno : Option Errno) :
    c.startInLoop savedErrno = .ok c := by
  rw [startInLoop, if_neg (by simp [h]), pure_eq_ok]

/-- The attempt under way ends, and its socket is closed. -/
theorem fades_retry {c : Connector} (h : c.connect_ = false) (hstate : c.state = .kConnecting)
    (a : SocketChannel) (s : Nat) :
    Fades c (({ c with channel := some a }.queneInLoop .resetChannel).retry s) := by
  have heq : ({ c with channel := some a }.queneInLoop .resetChannel).retry s =
      (({ c with channel := some a }.queneInLoop .resetChannel).close s).setState .kDisconnected := by
    simp [retry, queneInLoop, close, setState, h]
  rw [heq]
  exact ⟨h, rfl, rfl, List.prefix_append _ _, (by intro hs; cases hs), fun hs => absurd hstate hs⟩

theorem handleError_fades {c c' : Connector} (h : c.connect_ = false)
    (hc : c.handleError = .ok c') : Fades c c' := by
  unfold handleError at hc
  split at hc
  · rename_i hstate
    obtain ⟨⟨c₁, s⟩, hrem, hc⟩ := bind_eq_ok.mp hc
    cases hc
    obtain ⟨a, channel, -, rfl, rfl⟩ := removeAndResetChannel_ok hrem
    exact fades_retry h hstate { a with channel } a.sockfd
  · cases hc
    exact .refl h

theorem handleWrite_fades {c c' : Connector} (h : c.connect_ = false) {err : Nat}
    {selfConnect : Bool} (hc : c.handleWrite err selfConnect = .ok c') : Fades c c' := by
  unfold handleWrite at hc
  split at hc
  · rename_i hstate
    obtain ⟨⟨c₁, s⟩, hrem, hc⟩ := bind_eq_ok.mp hc
    obtain ⟨a, channel, -, rfl, rfl⟩ := removeAndResetChannel_ok hrem
    dsimp only at hc
    split at hc
    · cases hc
      exact fades_retry h hstate { a with channel } a.sockfd
    split at hc
    · cases hc
      exact fades_retry h hstate { a with channel } a.sockfd
    · -- the socket that has been connected is closed
      cases hc
      rw [if_neg (by simp [setState, queneInLoop, h])]
      exact ⟨h, rfl, rfl, List.prefix_append _ _, (by intro hs; cases hs), fun hs => absurd hstate hs⟩
  · obtain ⟨_, _, hc⟩ := bind_eq_ok.mp hc
    cases hc
    exact .refl h

theorem stopInLoop_fades {c c' : Connector} (h : c.connect_ = false)
    (hc : c.stopInLoop = .ok c') : Fades c c' ∧ c'.state ≠ .kConnecting := by
  unfold stopInLoop at hc
  split at hc
  · rename_i hstate
    obtain ⟨⟨c₁, s⟩, hrem, hc⟩ := bind_eq_ok.mp hc
    cases hc
    obtain ⟨a, channel, -, rfl, rfl⟩ := removeAndResetChannel_ok hrem
    have hfades : Fades c ((({ c.setState .kDisconnected with
        channel := some { a with channel } } : Connector).queneInLoop .resetChannel).retry a.sockfd) := by
      have heq : (({ c.setState .kDisconnected with
          channel := some { a with channel } } : Connector).queneInLoop .resetChannel).retry a.sockfd =
          ({ c with channel := some { a with channel } }.queneInLoop .resetChannel).retry a.sockfd := by
        simp [retry, queneInLoop, close, setState, h]
      rw [heq]
      exact fades_retry h hstate { a with channel } a.sockfd
    exact ⟨hfades, (retry_settles _ _).state⟩
  · rename_i hstate
    cases hc
    exact ⟨.refl h, hstate⟩

theorem resetChannel_fades {c c' : Connector} (h : c.connect_ = false)
    (hc : c.resetChannel = .ok c') : Fades c c' ∧ c'.channel = none := by
  unfold resetChannel at hc
  split at hc
  · rename_i hch
    cases hc
    exact ⟨.refl h, hch⟩
  · obtain ⟨_, -, hc⟩ := bind_eq_ok.mp hc
    cases hc
    exact ⟨⟨h, rfl, rfl, List.prefix_refl _, id, fun _ hne => absurd rfl hne⟩, rfl⟩

theorem handleEvent_fades {c c' : Connector} (h : c.connect_ = false) {revents : Events} {err : Nat}
    {selfConnect : Bool} (hc : c.handleEvent revents err selfConnect = .ok c') : Fades c c' := by
  refine handleEvent_invariant (I := Fades c) ?_ ?_ ?_ (.refl h) hc
  · intro c₁ b hf
    have hset : Fades c₁ (c₁.setEventHandling b) :=
      ⟨hf.connect_, rfl, rfl, List.prefix_refl _, id, fun _ => by simp [setEventHandling]⟩
    exact hf.trans hset
  · intro c₁ c₂ hf hc
    exact hf.trans (handleError_fades hf.connect_ hc)
  · intro c₁ c₂ hf hc
    exact hf.trans (handleWrite_fades hf.connect_ hc)

/-! ## Steps behind `stop` -/

/-- `c` without the functor that the step runs. -/
def popped (c : Connector) (a : Step) : Connector :=
  if a.isFunctor then { c with functors := c.functors.tail } else c

@[simp] theorem popped_state (c : Connector) (a : Step) : (c.popped a).state = c.state := by
  unfold popped
  split <;> rfl

@[simp] theorem popped_channel (c : Connector) (a : Step) : (c.popped a).channel = c.channel := by
  unfold popped
  split <;> rfl

@[simp] theorem popped_created (c : Connector) (a : Step) : (c.popped a).created = c.created := by
  unfold popped
  split <;> rfl

@[simp] theorem popped_connections (c : Connector) (a : Step) :
    (c.popped a).connections = c.connections := by
  unfold popped
  split <;> rfl

theorem popped_functors (c : Connector) (a : Step) :
    (c.popped a).functors = if a.isFunctor then c.functors.tail else c.functors := by
  unfold popped
  split <;> rfl

theorem step_fades {c c' : Connector} (h : c.connect_ = false) {a : Step} (ha : ¬ a.Starts)
    (hs : c.step a = .ok c') : Fades (c.popped a) c' := by
  cases a with
  | start inLoop savedErrno => exact absurd trivial ha
  | restart savedErrno => exact absurd trivial ha
  | stop =>
    cases hs
    exact ⟨rfl, rfl, rfl, List.prefix_append _ _, id, fun _ => id⟩
  | timer i savedErrno =>
    have hoff : ({ c with retryTimers := c.retryTimers.eraseIdx i } : Connector).connect_ = false := h
    cases (startInLoop_off hoff savedErrno).symm.trans hs
    exact ⟨h, rfl, rfl, List.prefix_refl _, id, fun _ => id⟩
  | dispatch revents err selfConnect => exact handleEvent_fades h hs
  | functor savedErrno =>
    have hpopped : (c.popped (.functor savedErrno)).connect_ = false := h
    cases hfs : c.functors with
    | nil =>
      simp only [step, hfs] at hs
      cases hs
      have hfunctors : (c.popped (.functor savedErrno)).functors = c.functors.tail := rfl
      exact ⟨h, rfl, rfl, by simp [hfunctors, hfs], id, fun _ => id⟩
    | cons f functors =>
      have heq : c.popped (.functor savedErrno) = { c with functors } := by
        simp [popped, Step.isFunctor, hfs]
      simp only [step, hfs] at hs
      rw [heq] at hpopped ⊢
      cases f with
      | startInLoop =>
        cases (startInLoop_off hpopped savedErrno).symm.trans hs
        exact .refl hpopped
      | stopInLoop => exact (stopInLoop_fades hpopped hs).1
      | resetChannel => exact (resetChannel_fades hpopped hs).1

/-- What `stop` and what ends an attempt have queued does its work. -/
theorem functor_serves {c c' : Connector} (h : c.connect_ = false) {a : Step}
    (ha : a.isFunctor = true) (hs : c.step a = .ok c') {f : ConnectorFunctor}
    {functors : List ConnectorFunctor} (hfs : c.functors = f :: functors) :
    (f = .stopInLoop → c'.state ≠ .kConnecting) ∧ (f = .resetChannel → c'.channel = none) := by
  cases a with
  | functor savedErrno =>
    simp only [step, hfs] at hs
    constructor
    · rintro rfl
      exact (stopInLoop_fades (c := { c with functors }) h hs).2
    · rintro rfl
      exact (resetChannel_fades (c := { c with functors }) h hs).2
  | _ => cases ha

/-! ## The runs before `stop` -/

/-- Outside these states no run of a connector comes. -/
def Known (c : Connector) : Prop := c.Good ∧ c.Balanced ∨ c.Forgotten

theorem Forgotten.connect {c c' : Connector} (h : c.Forgotten) {savedErrno : Option Errno}
    (hc : c.connect savedErrno = .ok c') : c'.Forgotten := by
  unfold Connector.connect at hc
  cases hb : branch savedErrno with
  | connecting =>
    rw [hb] at hc
    exact absurd (connecting_ok hc).1 h.channel
  | retry =>
    rw [hb] at hc
    cases hc
    have hset := retry_settles { c with created := c.created + 1 } c.created
    refine ⟨hset.state, ?_, ?_⟩
    · rw [hset.channel]
      exact h.channel
    · rw [Connector.resets, hset.functors]
      exact h.resets
  | close =>
    rw [hb] at hc
    cases hc
    exact ⟨h.state, h.channel, h.resets⟩

theorem Forgotten.startInLoop {c c' : Connector} (h : c.Forgotten) {savedErrno : Option Errno}
    (hc : c.startInLoop savedErrno = .ok c') : c'.Forgotten := by
  unfold Connector.startInLoop at hc
  split at hc
  · exact h.connect hc
  · cases hc
    exact h

theorem handleError_idle {c c' : Connector} (h : c.state ≠ .kConnecting)
    (hc : c.handleError = .ok c') : c' = c := by
  rw [handleError, if_neg h] at hc
  exact (Except.ok.inj hc).symm

theorem handleWrite_idle {c c' : Connector} (h : c.state ≠ .kConnecting) {err : Nat}
    {selfConnect : Bool} (hc : c.handleWrite err selfConnect = .ok c') : c' = c := by
  unfold handleWrite at hc
  rw [if_neg h] at hc
  obtain ⟨_, _, hc⟩ := bind_eq_ok.mp hc
  exact (Except.ok.inj hc).symm

theorem Forgotten.handleEvent {c c' : Connector} (h : c.Forgotten) {revents : Events} {err : Nat}
    {selfConnect : Bool} (hc : c.handleEvent revents err selfConnect = .ok c') : c'.Forgotten := by
  refine handleEvent_invariant (I := Forgotten) ?_ ?_ ?_ h hc
  · intro c b hf
    exact ⟨hf.state, by simpa [setEventHandling] using hf.channel, hf.resets⟩
  · intro c₁ c₂ hf hc
    rw [handleError_idle hf.state hc]
    exact hf
  · intro c₁ c₂ hf hc
    rw [handleWrite_idle hf.state hc]
    exact hf

theorem Forgotten.step {c c' : Connector} (h : c.Forgotten) {a : Step} (hs : c.step a = .ok c') :
    c'.Forgotten := by
  cases a with
  | start inLoop savedErrno =>
    have hc : ({ c with connect_ := true } : Connector).Forgotten := ⟨h.state, h.channel, h.resets⟩
    cases inLoop with
    | true => exact hc.startInLoop hs
    | false =>
      cases hs
      exact ⟨h.state, h.channel, by simpa [Connector.resets, queneInLoop] using h.resets⟩
  | stop =>
    cases hs
    exact ⟨h.state, h.channel, by simpa [Connector.resets, Connector.stop, queneInLoop] using h.resets⟩
  | restart savedErrno =>
    let c₁ : Connector :=
      { c.setState .kDisconnected with retryDelayMs := kInitRetryDelayMs, connect_ := true }
    have hc : c₁.Forgotten := ⟨by simp [c₁, setState], h.channel, h.resets⟩
    exact hc.startInLoop hs
  | timer i savedErrno =>
    have hc : ({ c with retryTimers := c.retryTimers.eraseIdx i } : Connector).Forgotten :=
      ⟨h.state, h.channel, h.resets⟩
    exact hc.startInLoop hs
  | dispatch revents err selfConnect => exact h.handleEvent hs
  | functor savedErrno =>
    cases hfs : c.functors with
    | nil =>
      simp only [Connector.step, hfs] at hs
      cases hs
      exact h
    | cons f functors =>
      have hr : (f :: functors).count .resetChannel = 0 := by rw [← hfs]; exact h.resets
      have hne : f ≠ .resetChannel := by
        rintro rfl
        simp at hr
      have hc : ({ c with functors } : Connector).Forgotten :=
        ⟨h.state, h.channel, by simpa [Connector.resets, hne] using hr⟩
      simp only [Connector.step, hfs] at hs
      cases f with
      | startInLoop => exact hc.startInLoop hs
      | stopInLoop =>
        simp only [runFunctor, stopInLoop, if_neg hc.state] at hs
        cases hs
        exact hc
      | resetChannel => exact absurd rfl hne

theorem Known.step {c c' : Connector} (h : c.Known) {a : Step} (ha : c.Allowed a)
    (hs : c.step a = .ok c') : c'.Known := by
  rcases h with h | h
  · by_cases hl : c.Leakless a
    · exact .inl (keeps_step h ha hl hs)
    · obtain ⟨c₁, hc₁, hforgotten, -⟩ := step_loses h.1 hl
      cases hc₁.symm.trans hs
      exact .inr hforgotten
  · exact .inr (h.step hs)

theorem known_of_run {c : Connector} {steps : List Step} (hrun : Run step new steps c)
    (hsteps : Along step Allowed new steps) : c.Known :=
  hrun.invariant hsteps (.inl ⟨new_good, new_balanced⟩) fun _ _ _ h ha hs => h.step ha hs

/-! ## Behind `stop` -/

/-- A stopped connector that came from a known state which is not forgotten. -/
structure Stopped (c : Connector) : Prop where
  connect_ : c.connect_ = false
  good : c.Good
  balanced : c.Balanced

theorem Stopped.leakless {c : Connector} (h : c.connect_ = false) {a : Step} (ha : ¬ a.Starts) :
    c.Leakless a := by
  cases a with
  | start inLoop savedErrno => exact absurd trivial ha
  | restart savedErrno => exact absurd trivial ha
  | stop => trivial
  | timer i savedErrno => exact fun hc => by simp [h] at hc
  | dispatch revents err selfConnect => trivial
  | functor savedErrno => exact fun _ hc => by simp [h] at hc

theorem Stopped.step {c c' : Connector} (h : c.Stopped) {a : Step}
    (ha : c.Allowed a ∧ ¬ a.Starts) (hs : c.step a = .ok c') : c'.Stopped := by
  have hkept := keeps_step ⟨h.good, h.balanced⟩ ha.1 (Stopped.leakless h.connect_ ha.2) hs
  exact ⟨(step_fades h.connect_ ha.2 hs).connect_, hkept.1, hkept.2⟩

theorem Stopped.stop {c : Connector} (h : c.Good ∧ c.Balanced) : c.stop.Stopped :=
  ⟨rfl, quene_good h.1 (by decide) false, h.2⟩

/-- A step behind `stop` that is allowed and is no `start` or `restart`. -/
def Quiet (c : Connector) (a : Step) : Prop := c.Allowed a ∧ ¬ a.Starts

theorem fades_of_run {c c' : Connector} {steps : List Step} (hrun : Run step c steps c')
    (hsteps : Along step Quiet c steps) (h : c.connect_ = false) :
    c'.connect_ = false ∧ c'.created = c.created ∧ c'.connections = c.connections := by
  apply hrun.invariant hsteps (I := fun c' =>
    c'.connect_ = false ∧ c'.created = c.created ∧ c'.connections = c.connections) ⟨h, rfl, rfl⟩
  rintro c₁ a c₂ ⟨hoff, hcreated, hconnections⟩ ha hs
  have hf := step_fades hoff ha.2 hs
  refine ⟨hf.connect_, ?_, ?_⟩
  · rw [hf.created, popped_created, hcreated]
  · rw [hf.connections, popped_connections, hconnections]

/-- Nothing but the front leaves the queue. -/
theorem functors_kept {c c' : Connector} (h : c.Stopped) {a : Step} (ha : c.Quiet a)
    (hs : c.step a = .ok c') : (if a.isFunctor then c.functors.tail else c.functors) <+: c'.functors := by
  rw [← popped_functors]
  exact (step_fades h.connect_ ha.2 hs).functors

/-- The attempt under way ends at the latest with `stopInLoop`. -/
theorem attempt_ends {c c' : Connector} {steps : List Step} (h : c.Stopped)
    (hrun : Run step c steps c') (hsteps : Along step Quiet c steps) {k : Nat}
    (hk : k ≤ steps.countP Step.isFunctor) (hmem : ConnectorFunctor.stopInLoop ∈ c.functors.take k) :
    c'.state ≠ .kConnecting := by
  apply hrun.served (I := Stopped) (P := fun c => c.state ≠ .kConnecting) (b := ConnectorFunctor.stopInLoop) hsteps h
    (fun _ _ _ h ha hs => h.step ha hs) _ _ _ hk (.inr hmem)
  · intro c a c' h ha hs hstate hstate'
    exact hstate (by simpa using (step_fades h.connect_ ha.2 hs).state hstate')
  · intro c a c' h ha hs hpops
    have hkept := functors_kept h ha hs
    rw [if_neg (by simp [hpops])] at hkept
    exact .inr hkept
  · intro c a c' h ha hs hpops f functors hfs
    have hkept := functors_kept h ha hs
    rw [if_pos hpops, hfs, List.tail_cons] at hkept
    by_cases hf : f = .stopInLoop
    · exact .inl ((functor_serves h.connect_ hpops hs hfs).1 hf)
    · exact .inr ⟨hf, hkept⟩

/-- Its channel is gone when the functors that are then queued have run. -/
theorem channel_resets {c c' : Connector} {steps : List Step} (h : c.Stopped)
    (hstate : c.state ≠ .kConnecting) (hrun : Run step c steps c')
    (hsteps : Along step Quiet c steps)
    (hk : c.functors.length ≤ steps.countP Step.isFunctor) : c'.channel = none := by
  have hmem : c.channel = none ∨ ConnectorFunctor.resetChannel ∈ c.functors.take c.functors.length := by
    rw [List.take_length]
    cases h.good.1 with
    | idle _ h₂ => exact .inl h₂
    | connecting _ h₁ => exact absurd h₁ hstate
    | resetting _ _ _ h₃ =>
      have hpos : 0 < c.functors.count .resetChannel := by
        rw [← resets, h₃]
        exact Nat.one_pos
      exact .inr (List.count_pos_iff.mp hpos)
  apply hrun.served (I := fun c => c.Stopped ∧ c.state ≠ .kConnecting) (P := fun c => c.channel = none)
    (b := ConnectorFunctor.resetChannel) hsteps ⟨h, hstate⟩ _ _ _ _ hk hmem
  · rintro c a c' ⟨h, hstate⟩ ha hs
    refine ⟨h.step ha hs, fun hstate' => hstate ?_⟩
    simpa using (step_fades h.connect_ ha.2 hs).state hstate'
  · rintro c a c' ⟨h, hstate⟩ ha hs hch
    by_contra hch'
    have hne := (step_fades h.connect_ ha.2 hs).channel (by simpa using hstate) hch'
    exact hne (by simpa using hch)
  · rintro c a c' ⟨h, -⟩ ha hs hpops
    have hkept := functors_kept h ha hs
    rw [if_neg (by simp [hpops])] at hkept
    exact .inr hkept
  · rintro c a c' ⟨h, -⟩ ha hs hpops f functors hfs
    have hkept := functors_kept h ha hs
    rw [if_pos hpops, hfs, List.tail_cons] at hkept
    by_cases hf : f = .resetChannel
    · exact .inl ((functor_serves h.connect_ hpops hs hfs).2 hf)
    · exact .inr ⟨hf, hkept⟩

/-- What is neither held nor handed over has been closed. -/
theorem Stopped.closed_once {c : Connector} (h : c.Stopped) (hstate : c.state ≠ .kConnecting)
    {s : Nat} (hs : s < c.created) (hconn : s ∉ c.connections) : c.closes.count s = 1 := by
  have hone := h.balanced s
  rw [if_neg (not_held hstate s), if_pos hs, ended, List.count_eq_zero_of_not_mem hconn] at hone
  omega

/-- **`stop` is final.** Behind it, in every run without `start` and `restart`, no
socket is created or handed over. The socket of an attempt under way is closed
once when the functors then queued have run, and `channel_` is null when those
have run that are in the queue at that point. -/
theorem stop_final {c c₁ : Connector} {before steps : List Step} (hbefore : Run step new before c)
    (hallowed : Along step Allowed new before) (hrun : Run step c.stop steps c₁)
    (hquiet : Along step Quiet c.stop steps) :
    c₁.created = c.created ∧ c₁.connections = c.connections ∧
      (c.state = .kConnecting → ∃ a, c.channel = some a ∧
        (c.stop.functors.length ≤ steps.countP Step.isFunctor →
          c₁.closes.count a.sockfd = 1 ∧
          ∀ rest c₂, Run step c₁ rest c₂ → Along step Quiet c₁ rest →
            c₁.functors.length ≤ rest.countP Step.isFunctor →
            c₂.channel = none ∧ c₂.closes.count a.sockfd = 1)) := by
  obtain ⟨-, hcreated, hconnections⟩ := fades_of_run hrun hquiet rfl
  refine ⟨hcreated, hconnections, fun hstate => ?_⟩
  have hknown : c.Good ∧ c.Balanced := by
    rcases known_of_run hbefore hallowed with h | h
    · exact h
    · exact absurd hstate h.state
  obtain ⟨s, hch, -, ho⟩ := hknown.1.1.connecting_of hstate
  refine ⟨⟨s, writing false⟩, hch, fun hk => ?_⟩
  have hstopped : ∀ steps c', Run step c.stop steps c' → Along step Quiet c.stop steps → c'.Stopped :=
    fun _ _ hrun hquiet =>
      hrun.invariant hquiet (Stopped.stop hknown) fun _ _ _ h ha hs => h.step ha hs
  have hmem : ConnectorFunctor.stopInLoop ∈ c.stop.functors.take c.stop.functors.length := by
    rw [List.take_length]
    exact List.mem_append_right _ (List.mem_singleton.mpr rfl)
  have hclosed : ∀ steps c', Run step c.stop steps c' → Along step Quiet c.stop steps →
      c.stop.functors.length ≤ steps.countP Step.isFunctor →
      c'.state ≠ .kConnecting ∧ c'.closes.count s = 1 := by
    intro steps c' hrun hquiet hk
    have hstate' := attempt_ends (Stopped.stop hknown) hrun hquiet hk hmem
    obtain ⟨-, hcreated, hconnections⟩ := fades_of_run hrun hquiet rfl
    have hs : s < c'.created := hcreated ▸ hknown.1.2 s (.inl ho.1)
    exact ⟨hstate', (hstopped _ _ hrun hquiet).closed_once hstate' hs (hconnections ▸ ho.2.2)⟩
  obtain ⟨hstate₁, hclosed₁⟩ := hclosed steps c₁ hrun hquiet hk
  refine ⟨hclosed₁, fun rest c₂ hrest hquiet' hk' => ?_⟩
  have hall := hrun.append hrest
  have hquietall := hquiet.append hrun hquiet'
  have hcount : c.stop.functors.length ≤ (steps ++ rest).countP Step.isFunctor := by
    rw [List.countP_append]
    omega
  exact ⟨channel_resets (hstopped _ _ hrun hquiet) hstate₁ hrest hquiet' hk',
    (hclosed _ _ hall hquietall hcount).2⟩

/-- A first attempt, in progress. -/
def underway : Connector where
  connect_ := true
  state := .kConnecting
  channel := some ⟨0, writing false⟩
  retryDelayMs := kInitRetryDelayMs
  functors := []
  retryTimers := []
  created := 1
  attempts := [0]
  closes := []
  connections := []

/-- The socket is connected between `stop` and `stopInLoop`. -/
def lateEvent : List Step := [.dispatch POLLOUT 0 false, .functor none]

theorem underway_reached : Run step new [.start true (some .EINPROGRESS)] underway :=
  run_iff_foldlM.mpr rfl

theorem stop_final_lateEvent :
    ∃ c₁ c₂, Run step underway.stop lateEvent c₁ ∧ c₁.closes.count 0 = 1 ∧
      Run step c₁ [.functor none] c₂ ∧ c₂.channel = none ∧ c₂.closes.count 0 = 1 := by
  have hquiet : Along step Quiet underway.stop lateEvent := by
    apply (steps_cons_ok rfl).mpr ⟨⟨by decide, id⟩, _⟩
    exact ⟨⟨trivial, id⟩, fun _ _ => trivial⟩
  obtain ⟨c₁, hc₁⟩ : ∃ c₁, Run step underway.stop lateEvent c₁ := ⟨_, run_iff_foldlM.mpr rfl⟩
  have hfinal := stop_final underway_reached (by decide) hc₁ hquiet
  obtain ⟨a, ha, hends⟩ := hfinal.2.2 rfl
  cases ha
  obtain ⟨hclosed, hrest⟩ := hends (by decide)
  have hc₁' : c₁.functors.length ≤ 1 ∧ ∃ c₂, Run step c₁ [.functor none] c₂ := by
    cases run_iff_foldlM.mp hc₁
    exact ⟨by decide, _, run_iff_foldlM.mpr rfl⟩
  obtain ⟨hlen, c₂, hc₂⟩ := hc₁'
  exact ⟨c₁, c₂, hc₁, hclosed, hc₂, hrest _ c₂ hc₂ ⟨⟨trivial, id⟩, fun _ _ => trivial⟩ hlen⟩

/-- `stopInLoop` was alone in the queue, has run and queued nothing, and
`channel_` is not null: the event has queued `resetChannel` behind it. -/
theorem channel_outlives_stopInLoop :
    Run step new [.start true (some .EINPROGRESS)] underway ∧
    underway.stop.functors = [.stopInLoop] ∧
    ∃ c₁ c₂, Run step underway.stop [.dispatch POLLOUT 0 false] c₁ ∧
      c₁.functors = [.stopInLoop, .resetChannel] ∧ Run step c₁ [.functor none] c₂ ∧
      c₂.functors = [.resetChannel] ∧ c₂.channel ≠ none :=
  ⟨underway_reached, rfl, _, _, run_iff_foldlM.mpr rfl, rfl, run_iff_foldlM.mpr rfl, rfl, by decide⟩

end Connector

end Muduo
