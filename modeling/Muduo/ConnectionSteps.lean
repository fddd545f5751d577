import Muduo.ConnectionLife

/-!
The steps of a connection as its owner sees them. `connectEstablished` and
`connectDestroyed` frame its life; any other step that does not fail `Lives`:
it leaves the connection open, or closes it and invokes `closeCallback_` once.

* `handleEvent_passes`, `runFunctor_passes`, `call_passes`: a dispatch, a
  functor, a call;
* `connectEstablished_spec`, `connectDestroyed_ok`: the two ends.
-/

namespace Muduo

open Lib Events

/-- The functor holds a `shared_ptr` to its connection; the others are bound to
`this`. -/
def Functor.holds : Functor → Bool
  | .sendInLoop _ | .shutdownInLoop | .startReadInLoop | .stopReadInLoop => false
  | _ => true

/-- What the owner of a connection lives to see. -/
inductive Milestone where
  | connectEstablished
  | dispatched
  | removeConnectionInLoop
  | connectDestroyed
  | destructed
  deriving DecidableEq, Repr

/-- The milestone that a functor is. -/
def Functor.milestones : Functor → List Milestone
  | .connectEstablished => [.connectEstablished]
  | .connectDestroyed => [.connectDestroyed]
  | _ => []

theorem Functor.milestones_of_minor {f : Functor} (h : (Effect.quene f).minor = true) :
    f.milestones = [] := by
  cases f <;> first | rfl | simp [Effect.minor] at h

namespace TcpConnection

/-- The connection at the start of a step. -/
def rested (c : TcpConnection) : TcpConnection := { c with effects := [] }

theorem Sound.rested {c : TcpConnection} (h : c.Sound) : c.rested.Sound :=
  ⟨h.input, h.output, h.coherent⟩

/-- A step between the two ends. -/
inductive Lives (c c' : TcpConnection) : Prop
  | stays (c₁ : TcpConnection) (shuts : Shuts c c₁) (calm : Calm c₁ c')
  | closes (live : c.Live) (c₁ : TcpConnection) (closes : Closes c c₁) (calm : Calm c₁ c')

theorem Calm.lives {c c' : TcpConnection} (h : Calm c c') : Lives c c' := .stays c .same h

theorem Closes.lives {c c' : TcpConnection} (hlive : c.Live) (h : Closes c c') : Lives c c' :=
  .closes hlive c' h (.refl h.sound)

/-- The outcome of such a step: of the assertions only that of `handleClose` can
fail. -/
def Passes (c : TcpConnection) : Checked TcpConnection → Prop
  | .ok c' => Lives c c'
  | .error e => e = .handleClose

/-- A dispatch that would close a connection that is not open fails. -/
theorem handleEvent_dead {c : TcpConnection} (h : c.Sound) (hdead : ¬ c.Live) {revents : Events}
    {read : ReadResult} (write : WriteResult)
    (hclosing : closing revents = true ∨ atEof revents read) :
    c.handleEvent revents read write = .error .handleClose := by
  have hs := h.handling true
  have hdead' : ¬ (c.setEventHandling true).Live := hdead
  by_cases hclose : closing revents = true
  · rw [handleEvent_eq, closeBranch, if_pos hclose, handleClose_error hdead']
    rfl
  · obtain ⟨hr, rfl⟩ := hclosing.resolve_left hclose
    obtain ⟨c₁, hcalm, heof⟩ := handleRead_nil hs
    have hdead₁ : ¬ c₁.Live := by
      rw [Live, hcalm.state]
      exact hdead
    rw [handleEvent_eq, closeBranch_open hclose]
    simp [readBranch, hr, heof, handleClose_error hdead₁]

theorem handleEvent_passes {c : TcpConnection} (h : c.Sound) (hh : c.Unhandled) (revents : Events)
    (read : ReadResult) {write : WriteResult} (hw : write.Fits c.outputBuffer.readableBytes) :
    c.Passes (c.handleEvent revents read write) := by
  by_cases hclosing : closing revents = true ∨ atEof revents read
  swap
  · obtain ⟨hclose, heof⟩ := not_or.mp hclosing
    obtain ⟨c', hc', hcalm, -⟩ := handleEvent_calm h hh hw hclose heof
    rw [hc']
    exact hcalm.lives
  by_cases hlive : c.Live
  swap
  · rw [handleEvent_dead h hlive write hclosing]
    exact rfl
  by_cases hlate : late revents read = true
  · rcases handleEvent_late h hlive hh write hlate with he | ⟨c₁, c', hc', hcl, hcalm, -⟩
    · rw [he]
      exact rfl
    · rw [hc']
      exact .closes hlive c₁ hcl hcalm
  · obtain ⟨c', hc', hspec⟩ := handleEvent_spec h hlive hh hw (by simpa using hlate)
    rw [hc']
    exact hspec.elim Calm.lives (Closes.lives hlive)

theorem runFunctor_passes {c : TcpConnection} (h : c.Sound) {f : Functor}
    (hf : (Effect.quene f).minor = true) (write : WriteResult) : c.Passes (c.runFunctor f write) := by
  obtain ⟨c', hc', hspec⟩ := runFunctor_spec h hf write
  rw [hc']
  exact hspec.elim Calm.lives fun ⟨_, hlive, hcl⟩ => hcl.lives hlive

theorem call_passes {c : TcpConnection} (h : c.Sound) {k : Call} (hk : k.WF) (inLoop : Bool)
    (write : WriteResult) : c.Passes (c.call inLoop write k) := by
  obtain ⟨c₁, c', hc', hs, hcalm⟩ := call_spec h hk inLoop write
  rw [hc']
  exact .stays c₁ hs hcalm

/-! ## What a step leaves behind -/

theorem Shuts.fields {c c' : TcpConnection} (h : Shuts c c') :
    c'.channel = c.channel ∧ c'.effects = c.effects := by
  cases h <;> exact ⟨rfl, rfl⟩

theorem Lives.sound {c c' : TcpConnection} (h : Lives c c') : c'.Sound := by
  cases h with
  | stays _ _ hcalm => exact hcalm.sound
  | closes _ _ _ hcalm => exact hcalm.sound

theorem Lives.unhandled {c c' : TcpConnection} (h : Lives c c') (hh : c.Unhandled) :
    c'.Unhandled := by
  cases h with
  | stays c₁ hs hcalm => exact hcalm.handling.trans (hs.fields.1 ▸ hh)
  | closes _ c₁ hcl hcalm => exact hcalm.handling.trans (hcl.handling.trans hh)

/-- How a step that starts without effects ends. -/
inductive Ends (c c' : TcpConnection) : Prop
  | stays (state : c'.state = c.state ∨ c.Live ∧ c'.Live) (minor : ∀ e ∈ c'.effects, e.minor = true)
  | closes (live : c.Live) (state : c'.state = .kDisconnected) (es es' : List Effect)
      (effects : c'.effects = es ++ [.connectionCallback, .closeCallback] ++ es')
      (minor : ∀ e ∈ es, e.minor = true) (minor' : ∀ e ∈ es', e.minor = true)

theorem Lives.ends {c c' : TcpConnection} (h : Lives c c') (hc : c.effects = []) : Ends c c' := by
  cases h with
  | stays c₁ hs hcalm =>
    obtain ⟨es, he, hes⟩ := hcalm.effects
    rw [hs.fields.2, hc, List.nil_append] at he
    refine .stays ?_ (he ▸ hes)
    cases hs with
    | same => exact .inl hcalm.state
    | disconnecting hlive => exact .inr ⟨hlive, .inr hcalm.state⟩
  | closes hlive c₁ hcl hcalm =>
    obtain ⟨es, he, hes⟩ := hcl.effects
    obtain ⟨es', he', hes'⟩ := hcalm.effects
    rw [he, hc, List.nil_append] at he'
    exact .closes hlive (hcalm.state.trans hcl.state) es es' he' hes hes'

/-! ## The two ends -/

theorem new_sound (w : Bool) : (new w).Sound :=
  ⟨Buffer.fresh_WF _, Buffer.fresh_WF _, Channel.new_coherent⟩

theorem connectEstablished_spec {c : TcpConnection} (h : c.Sound) (hs : c.state = .kConnecting) :
    ∃ c', c.connectEstablished = .ok c' ∧ c'.Sound ∧ c'.state = .kConnected ∧ c'.Known ∧
      c'.channel.eventHandling = c.channel.eventHandling ∧
      c'.effects = c.effects ++ [.connectionCallback] := by
  obtain ⟨ch, hch, hup⟩ := Channel.update_spec h.coherent (c.channel.events ||| kReadEvent)
  refine ⟨{ c.setState .kConnected with channel := ch }.emit .connectionCallback, ?_,
    ⟨h.input, h.output, hup.coherent⟩, rfl, ?_, hup.eventHandling, rfl⟩
  · simp [connectEstablished, check_pos hs, Channel.enableReading, hch]
  · exact hup.known

/-- On a connection that is not `kConnected` only the channel is removed. -/
theorem connectDestroyed_ok {c c' : TcpConnection} (h : c.Sound) (hs : c.state ≠ .kConnected)
    (hok : c.connectDestroyed = .ok c') :
    c'.Sound ∧ c'.state = c.state ∧ ¬ c'.Known ∧
      c'.channel.eventHandling = c.channel.eventHandling ∧ c'.effects = c.effects := by
  simp only [connectDestroyed, if_neg hs, pure_eq_ok, ok_bind] at hok
  obtain ⟨ch, hch, hok⟩ := bind_eq_ok.mp hok
  cases hok
  obtain ⟨hcoh, hidx, hhand⟩ := Channel.remove_ok h.coherent hch
  exact ⟨⟨h.input, h.output, hcoh⟩, rfl, by simp [Known, hidx], hhand, rfl⟩

theorem connectDestroyed_error {c : TcpConnection} (hs : c.state ≠ .kConnected) {e : Assertion}
    (herr : c.connectDestroyed = .error e) : e = .channelRemove ∨ e = .removeChannel := by
  simp only [connectDestroyed, if_neg hs, pure_eq_ok, ok_bind] at herr
  cases hch : c.channel.remove with
  | ok ch => simp [hch] at herr
  | error e' =>
    rw [hch] at herr
    cases herr
    exact Channel.remove_fails hch

end TcpConnection

end Muduo
