import Muduo.WriteInterest

/-!
The two bits of `events_` of a live connection. The one for writes is that of
`Matched`; the one for reads goes with `reading_`: `startReadInLoop` and
`stopReadInLoop` change both, `handleClose` ends the life, and everything else
keeps both (`Aside`).

* `loopStep_heeded`: a step of the loop thread;
* `interest_reflects`: every run from `connectEstablished` on.
-/

namespace Muduo

open Lib Events

theorem Events.has_read_or_write (events : Events) :
    (events ||| kWriteEvent).has kReadEvent = events.has kReadEvent := by
  have hwrite : kWriteEvent &&& kReadEvent = 0 := by decide
  simp [has, BitVec.and_or_distrib_right, hwrite]

theorem Events.has_read_and_not_write (events : Events) :
    (events &&& ~~~kWriteEvent).has kReadEvent = events.has kReadEvent := by
  have hwrite : ~~~kWriteEvent &&& kReadEvent = kReadEvent := by decide
  simp [has, BitVec.and_assoc, hwrite]

theorem Events.has_read_and_not_read (events : Events) :
    (events &&& ~~~kReadEvent).has kReadEvent = false := by
  have hread : ~~~kReadEvent &&& kReadEvent = 0 := by decide
  simp [has, BitVec.and_assoc, hread]

theorem Channel.update_events {ch ch' : Channel} (h : ch.update = .ok ch') : ch'.events = ch.events := by
  unfold update updateChannel at h
  split at h
  · cases h
    simp
  · cases h
    simp
  · obtain ⟨_, -, h⟩ := bind_eq_ok.mp h
    split at h <;> cases h <;> simp

namespace TcpConnection

/-- While the connection is live, its channel waits for reads exactly if
`reading_` is set. -/
def Heeded (c : TcpConnection) : Prop := c.Live → (c.channel.isReading = true ↔ c.reading = true)

/-- What has no part in reading. -/
structure Aside (c c' : TcpConnection) : Prop where
  live : c'.Live → c.Live
  isReading : c'.channel.isReading = c.channel.isReading
  reading : c'.reading = c.reading

theorem Aside.refl (c : TcpConnection) : Aside c c := ⟨id, rfl, rfl⟩

theorem Aside.trans {c c' c'' : TcpConnection} (h : Aside c c') (h' : Aside c' c'') : Aside c c'' :=
  ⟨h.live ∘ h'.live, h'.isReading.trans h.isReading, h'.reading.trans h.reading⟩

theorem Heeded.aside {c c' : TcpConnection} (h : c.Heeded) (ha : Aside c c') : c'.Heeded := by
  intro hlive
  rw [ha.isReading, ha.reading]
  exact h (ha.live hlive)

theorem heeded_of_dead {c : TcpConnection} (h : c.state = .kDisconnected) : c.Heeded := by
  intro hlive
  simp [Live, h] at hlive

/-! ## Writing -/

theorem startWriting_aside {c c' : TcpConnection} (hok : c.startWriting = .ok c') : Aside c c' := by
  unfold startWriting at hok
  split at hok
  · cases hok
    exact .refl c
  · obtain ⟨ch, hch, hok⟩ := bind_eq_ok.mp hok
    cases hok
    refine ⟨id, ?_, rfl⟩
    simp only [Channel.isReading, Channel.update_events hch, has_read_or_write]

theorem sendRemaining_aside {c c' : TcpConnection} {m : Message} {nwrote : Nat}
    (hok : c.sendRemaining m nwrote = .ok c') : Aside c c' := by
  obtain ⟨b, -, hok⟩ := bind_eq_ok.mp hok
  have hmark : Aside c { c.queneHighWaterMark m.len with outputBuffer := b } := ⟨id, rfl, rfl⟩
  exact hmark.trans (startWriting_aside hok)

theorem sendInLoop_aside {c c' : TcpConnection} {m : Message} {r : WriteResult}
    (hok : c.sendInLoop m r = .ok c') : Aside c c' := by
  unfold sendInLoop at hok
  split at hok
  · cases hok
    exact .refl c
  split at hok
  · have hdirect : Aside c (if r = .written 0 then (c.transmit (m.bytes.take r.taken)).queneWriteComplete
        else c.transmit (m.bytes.take r.taken)) := by
      split <;> exact ⟨id, rfl, rfl⟩
    dsimp only at hok
    split at hok
    · exact hdirect.trans (sendRemaining_aside hok)
    · cases hok
      exact hdirect
  · cases hok
    exact .refl c

theorem shutdownInLoop_aside (c : TcpConnection) : Aside c c.shutdownInLoop := by
  unfold shutdownInLoop
  split <;> exact ⟨id, rfl, rfl⟩

theorem written_aside {c c' : TcpConnection} {n : Nat} (hok : c.written n = .ok c') : Aside c c' := by
  obtain ⟨b, -, hok⟩ := bind_eq_ok.mp hok
  split at hok
  · obtain ⟨ch, hch, hok⟩ := bind_eq_ok.mp hok
    have hdrained : Aside c
        { c.transmit ((bytesAt c.outputBuffer.peek c.outputBuffer.readableBytes).take n) with
          outputBuffer := b, channel := ch }.queneWriteComplete := by
      refine ⟨id, ?_, rfl⟩
      simp [queneWriteComplete, Channel.isReading, Channel.update_events hch, has_read_and_not_write]
    cases hok
    split
    · exact hdrained.trans (shutdownInLoop_aside _)
    · exact hdrained
  · cases hok
    exact ⟨id, rfl, rfl⟩

theorem handleWrite_aside {c c' : TcpConnection} {r : WriteResult} (hok : c.handleWrite r = .ok c') :
    Aside c c' := by
  unfold handleWrite at hok
  split at hok
  · split at hok
    · exact written_aside hok
    · cases hok
      split
      · exact shutdownInLoop_aside c
      · exact .refl c
  · cases hok
    exact .refl c

/-! ## Reading and closing -/

/-- Reads are asked for and `reading_` is set, or both were so before. -/
theorem startReadInLoop_heeded {c c' : TcpConnection} (h : c.Heeded)
    (hok : c.startReadInLoop = .ok c') : c'.Heeded := by
  unfold startReadInLoop at hok
  split at hok
  · obtain ⟨ch, hch, hok⟩ := bind_eq_ok.mp hok
    cases hok
    refine fun _ => iff_of_true ?_ rfl
    simp only [Channel.isReading, Channel.update_events hch]
    exact has_or_self _ (by decide)
  · cases hok
    exact h

theorem stopReadInLoop_heeded {c c' : TcpConnection} (h : c.Heeded)
    (hok : c.stopReadInLoop = .ok c') : c'.Heeded := by
  unfold stopReadInLoop at hok
  split at hok
  · obtain ⟨ch, hch, hok⟩ := bind_eq_ok.mp hok
    cases hok
    refine fun _ => iff_of_false ?_ (by simp)
    simp only [Channel.isReading, Channel.update_events hch, has_read_and_not_read]
    simp
  · cases hok
    exact h

theorem handleClose_heeded {c c' : TcpConnection} (hok : c.handleClose = .ok c') : c'.Heeded := by
  obtain ⟨_, -, hok⟩ := bind_eq_ok.mp hok
  obtain ⟨ch, -, hok⟩ := bind_eq_ok.mp hok
  cases hok
  exact heeded_of_dead rfl

theorem forceCloseInLoop_heeded {c c' : TcpConnection} (h : c.Heeded)
    (hok : c.forceCloseInLoop = .ok c') : c'.Heeded := by
  unfold forceCloseInLoop at hok
  split at hok
  · exact handleClose_heeded hok
  · cases hok
    exact h

theorem handleRead_heeded {c c' : TcpConnection} (h : c.Heeded) {r : ReadResult}
    (hok : c.handleRead r = .ok c') : c'.Heeded := by
  obtain ⟨b, -, hok⟩ := bind_eq_ok.mp hok
  have hread : Aside c { c with inputBuffer := b } := ⟨id, rfl, rfl⟩
  split at hok
  · cases hok
    exact h.aside (hread.trans ⟨id, rfl, rfl⟩)
  · exact handleClose_heeded hok
  · cases hok
    exact h.aside hread

/-- A channel that is removed waits for nothing, and a connection that is not
`kConnected` is left in its state. -/
theorem connectDestroyed_heeded {c c' : TcpConnection} (hsound : c.Sound) (h : c.Heeded)
    (hok : c.connectDestroyed = .ok c') : c'.Heeded := by
  by_cases hs : c.state = .kConnected
  · obtain ⟨ch, hch, -⟩ := Channel.update_spec hsound.coherent kNoneEvent
    simp only [connectDestroyed, if_pos hs, Channel.disableAll, hch, ok_bind, pure_eq_ok] at hok
    obtain ⟨ch', -, hok⟩ := bind_eq_ok.mp hok
    cases hok
    exact heeded_of_dead rfl
  · simp only [connectDestroyed, if_neg hs, ok_bind, pure_eq_ok] at hok
    obtain ⟨ch, hch, hok⟩ := bind_eq_ok.mp hok
    obtain ⟨hnone, hnone'⟩ := Channel.remove_none hsound.coherent hch
    cases hok
    exact h.aside ⟨id, by simp [Channel.isReading, hnone, hnone'], rfl⟩

/-! ## Steps of the loop thread -/

theorem runFunctor_heeded {c c' : TcpConnection} (hsound : c.Sound) (h : c.Heeded) {f : Functor}
    (hf : f ≠ .connectEstablished) {write : WriteResult} (hok : c.runFunctor f write = .ok c') :
    c'.Heeded := by
  cases f with
  | connectEstablished => exact absurd rfl hf
  | connectDestroyed => exact connectDestroyed_heeded hsound h hok
  | sendInLoop m => exact h.aside (sendInLoop_aside hok)
  | shutdownInLoop =>
    cases hok
    exact h.aside (shutdownInLoop_aside c)
  | forceCloseInLoop => exact forceCloseInLoop_heeded h hok
  | startReadInLoop => exact startReadInLoop_heeded h hok
  | stopReadInLoop => exact stopReadInLoop_heeded h hok
  | writeCompleteCallback | highWaterMarkCallback size =>
    cases hok
    exact h.aside ⟨id, rfl, rfl⟩

theorem call_heeded {c c' : TcpConnection} (h : c.Heeded) {k : Call} {write : WriteResult}
    (hok : c.call true write k = .ok c') : c'.Heeded := by
  cases k with
  | sendPointer m => exact h.aside (sendInLoop_aside hok)
  | sendString message =>
    simp only [call, sendString] at hok
    split at hok
    · exact h.aside (sendInLoop_aside hok)
    · cases hok
      exact h
  | sendBuffer message =>
    obtain ⟨⟨c₁, b⟩, hsend, hok⟩ := bind_eq_ok.mp hok
    cases hok
    unfold sendBuffer at hsend
    split at hsend
    · obtain ⟨c₂, hc₂, hsend⟩ := bind_eq_ok.mp hsend
      cases hsend
      exact h.aside (sendInLoop_aside hc₂)
    · cases hsend
      exact h
  | shutdown =>
    simp only [call, shutdown] at hok
    split at hok
    · rename_i hs
      have hset : Aside c (c.setState .kDisconnecting) := ⟨fun _ => .inl hs, rfl, rfl⟩
      cases hok
      exact h.aside (hset.trans (shutdownInLoop_aside _))
    · cases hok
      exact h
  | forceClose =>
    simp only [call, forceClose] at hok
    split at hok
    · rename_i hlive
      cases hok
      exact h.aside ⟨fun _ => hlive, rfl, rfl⟩
    · cases hok
      exact h
  | startRead => exact startReadInLoop_heeded h hok
  | stopRead => exact stopReadInLoop_heeded h hok

theorem handleEvent_heeded {c c' : TcpConnection} (h : c.Heeded) {revents : Events}
    {read : ReadResult} {write : WriteResult} (hok : c.handleEvent revents read write = .ok c') :
    c'.Heeded := by
  rw [handleEvent_eq] at hok
  obtain ⟨c₃, hok, hend⟩ := bind_eq_ok.mp hok
  obtain ⟨c₂, hok, hwrite⟩ := bind_eq_ok.mp hok
  obtain ⟨c₁, hclose, hread⟩ := bind_eq_ok.mp hok
  have h₁ : c₁.Heeded := by
    unfold closeBranch at hclose
    split at hclose
    · exact handleClose_heeded hclose
    · cases hclose
      exact h.aside ⟨id, rfl, rfl⟩
  have h₂ : c₂.Heeded := by
    unfold readBranch at hread
    split at hread
    · exact handleRead_heeded h₁ hread
    · cases hread
      exact h₁
  have h₃ : c₃.Heeded := by
    unfold writeBranch at hwrite
    split at hwrite
    · exact h₂.aside (handleWrite_aside hwrite)
    · cases hwrite
      exact h₂
  cases hend
  exact h₃.aside ⟨id, rfl, rfl⟩

end TcpConnection

open TcpConnection

theorem loopStep_heeded {c c' : TcpConnection} (hsound : c.Sound) (h : c.Heeded) {a : LoopStep}
    (ha : LoopAllowed c a) (hok : loopStep c a = .ok c') : c'.Heeded := by
  cases a with
  | dispatch revents read write => exact handleEvent_heeded h hok
  | call k write => exact call_heeded h hok
  | functor f write =>
    refine runFunctor_heeded hsound h ?_ hok
    rintro rfl
    exact ha

/-- A connection as it is constructed, whatever its callbacks and its mark. -/
structure Fresh (c : TcpConnection) : Prop where
  state : c.state = .kConnecting
  reading : c.reading = true
  channel : c.channel = Channel.new
  input : c.inputBuffer.WF
  output : c.outputBuffer.WF
  drained : c.outputBuffer.readableBytes = 0

theorem new_fresh (writeComplete highWater : Bool) (mark : Nat) :
    Fresh { new writeComplete with highWaterMarkCallback := highWater, highWaterMark := mark } :=
  ⟨rfl, rfl, rfl, Buffer.fresh_WF _, Buffer.fresh_WF _, rfl⟩

/-- `connectEstablished` asks for reads and nothing else. -/
theorem Fresh.connectEstablished {c c' : TcpConnection} (h : Fresh c)
    (hok : c.connectEstablished = .ok c') : c'.Sound ∧ c'.Matched ∧ c'.Heeded := by
  have hch : Channel.new.enableReading = .ok readingChannel := by decide
  have hwriting : ¬ readingChannel.isWriting = true := by decide
  have hreading : readingChannel.isReading = true := by decide
  obtain ⟨_, -, hok⟩ := bind_eq_ok.mp hok
  rw [h.channel, hch] at hok
  cases hok
  refine ⟨⟨h.input, h.output, established_coherent true⟩, ?_, ?_⟩
  · exact fun _ => iff_of_false hwriting (Nat.not_lt.mpr (Nat.le_of_eq h.drained))
  · exact fun _ => iff_of_true hreading h.reading

/-- **The interest of a live connection.** In every state that an established
connection comes to, by any dispatches, calls in its loop and functors, the
channel waits for writes exactly while there is something to write, and for
reads exactly while `reading_` is set. -/
theorem interest_reflects {c₀ c₁ c : TcpConnection} {steps : List LoopStep} (hfresh : Fresh c₀)
    (hest : c₀.connectEstablished = .ok c₁) (hsteps : Along loopStep LoopAllowed c₁ steps)
    (hrun : Run loopStep c₁ steps c) (hlive : c.state = .kConnected ∨ c.state = .kDisconnecting) :
    (c.channel.isWriting = true ↔ 0 < c.outputBuffer.readableBytes) ∧
      (c.channel.isReading = true ↔ c.reading = true) := by
  have hend : c.Sound ∧ c.Matched ∧ c.Heeded := by
    apply hrun.invariant hsteps (hfresh.connectEstablished hest)
    rintro c a c' ⟨hsound, hmatched, hheeded⟩ ha hok
    obtain ⟨hsound', hmatched'⟩ := loopStep_matched ⟨hsound, hmatched⟩ ha hok
    exact ⟨hsound', hmatched', loopStep_heeded hsound hheeded ha hok⟩
  exact ⟨hend.2.1 hlive, hend.2.2 hlive⟩

/-- Behind `connectEstablished`, with buffers of four bytes. -/
def smallBuffers : TcpConnection :=
  { established true with inputBuffer := .fresh 4, outputBuffer := .fresh 4 }

/-- A send of which the kernel takes nothing, and reading is stopped; half of
the bytes go out, and the connection is shut down. -/
def stoppedSender : List LoopStep :=
  [.call (.sendString [1, 2]) (.failed .EWOULDBLOCK), .call .stopRead (.written 0),
    .dispatch POLLOUT (.failed .EWOULDBLOCK) (.written 1), .call .shutdown (.written 0)]

theorem interest_reflects_stoppedSender :
    ∃ c, Run loopStep smallBuffers stoppedSender c ∧ c.state = .kDisconnecting ∧
      (c.channel.isWriting = true ↔ 0 < c.outputBuffer.readableBytes) ∧
      (c.channel.isReading = true ↔ c.reading = true) := by
  have hfresh : Fresh { new true with inputBuffer := .fresh 4, outputBuffer := .fresh 4 } :=
    ⟨rfl, rfl, rfl, Buffer.fresh_WF 4, Buffer.fresh_WF 4, rfl⟩
  have hrun : ∃ c, Run loopStep smallBuffers stoppedSender c := ⟨_, run_iff_foldlM.mpr rfl⟩
  have hsteps : Along loopStep LoopAllowed smallBuffers stoppedSender := by
    refine (steps_cons_ok rfl).mpr ⟨⟨nofun, trivial⟩, ?_⟩
    refine (steps_cons_ok rfl).mpr ⟨⟨nofun, trivial⟩, ?_⟩
    refine (steps_cons_ok rfl).mpr ⟨⟨rfl, by decide⟩, ?_⟩
    exact ⟨⟨nofun, trivial⟩, fun _ _ => trivial⟩
  obtain ⟨c, hrun⟩ := hrun
  have hstate : c.state = .kDisconnecting := by
    cases run_iff_foldlM.mp hrun
    rfl
  exact ⟨c, hrun, hstate, interest_reflects hfresh rfl hsteps hrun (.inr hstate)⟩

end Muduo
