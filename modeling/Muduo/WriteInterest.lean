import Muduo.Disconnection
import Muduo.OutputStream

/-!
A live connection waits for `POLLOUT` exactly while `outputBuffer_` holds bytes:
`sendInLoop` asks for it with the first byte it buffers, and `handleWrite` gives
it up with the last one it writes. Nothing else touches either.
-/

namespace Muduo

open Lib Events

theorem Events.has_write_or_read (events : Events) :
    (events ||| kReadEvent).has kWriteEvent = events.has kWriteEvent := by
  have hread : kReadEvent &&& kWriteEvent = 0 := by decide
  simp [has, BitVec.and_or_distrib_right, hread]

theorem Events.has_write_and_not_read (events : Events) :
    (events &&& ~~~kReadEvent).has kWriteEvent = events.has kWriteEvent := by
  have hread : ~~~kReadEvent &&& kWriteEvent = kWriteEvent := by decide
  simp [has, BitVec.and_assoc, hread]

theorem Events.has_write_and_not_write (events : Events) :
    (events &&& ~~~kWriteEvent).has kWriteEvent = false := by
  have hwrite : ~~~kWriteEvent &&& kWriteEvent = 0 := by decide
  simp [has, BitVec.and_assoc, hwrite]

namespace TcpConnection

/-- While the connection is live, its channel waits for writes exactly if there
is something to write. -/
def Matched (c : TcpConnection) : Prop :=
  c.Live → (c.channel.isWriting = true ↔ 0 < c.outputBuffer.readableBytes)

/-- What leaves both sides as they are. -/
theorem Matched.congr {c c' : TcpConnection} (h : c.Matched) (hlive : c'.Live → c.Live)
    (hwriting : c'.channel.isWriting = c.channel.isWriting)
    (houtput : c'.outputBuffer = c.outputBuffer) : c'.Matched := by
  intro hl
  rw [hwriting, houtput]
  exact h (hlive hl)

theorem matched_of_dead {c : TcpConnection} (h : c.state = .kDisconnected) : c.Matched := by
  intro hlive
  simp [Live, h] at hlive

/-! ## Writing -/

theorem startWriting_matched {c c' : TcpConnection} (h : c.Sound)
    (hpending : 0 < c.outputBuffer.readableBytes) (hok : c.startWriting = .ok c') :
    c'.Matched := by
  unfold startWriting at hok
  split at hok
  · rename_i hwriting
    cases hok
    exact fun _ => iff_of_true hwriting hpending
  · obtain ⟨ch, hch, hup⟩ := Channel.update_spec h.coherent (c.channel.events ||| kWriteEvent)
    rw [Channel.enableWriting, hch] at hok
    cases hok
    refine fun _ => iff_of_true ?_ hpending
    simp only [Channel.isWriting, hup.events]
    exact has_or_self _ (by decide)

theorem sendRemaining_matched {c c' : TcpConnection} (h : c.Sound) {m : Message} (hm : m.len ≠ 0)
    {nwrote : Nat} (hok : c.sendRemaining m nwrote = .ok c') : c'.Matched := by
  obtain ⟨b, hb, hbec⟩ := Buffer.append_spec h.output (fun i => m.data (nwrote + i)) m.len
  obtain ⟨b', hb', hok⟩ := bind_eq_ok.mp hok
  obtain rfl : b' = b := Except.ok.inj (hb'.symm.trans hb)
  have hpending : 0 < b'.readableBytes := by
    have hlen := congrArg List.length hbec.content
    rw [Buffer.length_content hbec.wf, List.length_append, length_bytesAt] at hlen
    omega
  exact startWriting_matched (c := { c.queneHighWaterMark m.len with outputBuffer := b' })
    ⟨h.input, hbec.wf, h.coherent⟩ hpending hok

theorem sendInLoop_matched {c c' : TcpConnection} (h : c.Sound) (hm : c.Matched) {m : Message}
    {r : WriteResult} (hok : c.sendInLoop m r = .ok c') : c'.Matched := by
  unfold sendInLoop at hok
  split at hok
  · cases hok
    exact hm
  split at hok
  · -- the direct write changes neither the channel nor the buffer
    have hdirect : ∀ c₁, (if r = .written 0 then (c.transmit (m.bytes.take r.taken)).queneWriteComplete
        else c.transmit (m.bytes.take r.taken)) = c₁ → c₁.Sound ∧ c₁.Matched := by
      rintro c₁ rfl
      split <;> exact ⟨⟨h.input, h.output, h.coherent⟩, hm.congr id rfl rfl⟩
    obtain ⟨hsound, hmatched⟩ := hdirect _ rfl
    dsimp only at hok
    split at hok
    · rename_i hrest
      exact sendRemaining_matched hsound (by simp at hrest; exact hrest.2) hok
    · cases hok
      exact hmatched
  · cases hok
    exact hm

theorem shutdownInLoop_matched {c : TcpConnection} (h : c.Matched) : c.shutdownInLoop.Matched := by
  unfold shutdownInLoop
  split
  · exact h
  · exact h.congr id rfl rfl

theorem written_matched {c c' : TcpConnection} (h : c.Sound) (hm : c.Matched) {n : Nat}
    (hn : n ≤ c.outputBuffer.readableBytes) (hok : c.written n = .ok c') : c'.Matched := by
  obtain ⟨b, hb, hbec⟩ := Buffer.retrieve_spec h.output hn
  obtain ⟨b', hb', hok⟩ := bind_eq_ok.mp hok
  obtain rfl : b' = b := Except.ok.inj (hb'.symm.trans hb)
  split at hok
  · rename_i hdone
    obtain ⟨ch, hch, hup⟩ := Channel.update_spec h.coherent (c.channel.events &&& ~~~kWriteEvent)
    obtain ⟨ch', hch', hok⟩ := bind_eq_ok.mp hok
    obtain rfl : ch' = ch := Except.ok.inj (hch'.symm.trans hch)
    have hdrained : ({ c.transmit ((bytesAt c.outputBuffer.peek c.outputBuffer.readableBytes).take n)
        with outputBuffer := b', channel := ch' }.queneWriteComplete : TcpConnection).Matched := by
      refine fun _ => iff_of_false ?_ (by simp [queneWriteComplete, hdone])
      simp [queneWriteComplete, Channel.isWriting, hup.events, has_write_and_not_write]
    cases hok
    split
    · exact shutdownInLoop_matched hdrained
    · exact hdrained
  · rename_i hleft
    cases hok
    intro hlive
    have hpending : 0 < c.outputBuffer.readableBytes := by
      have hlen := congrArg List.length hbec.content
      rw [Buffer.length_content hbec.wf, List.length_drop, Buffer.length_content h.output] at hlen
      omega
    exact iff_of_true ((hm hlive).mpr hpending) (Nat.pos_of_ne_zero hleft)

theorem handleWrite_matched {c c' : TcpConnection} (h : c.Sound) (hm : c.Matched) {r : WriteResult}
    (hr : r.Fits c.outputBuffer.readableBytes) (hok : c.handleWrite r = .ok c') : c'.Matched := by
  unfold handleWrite at hok
  split at hok
  · split at hok
    · exact written_matched h hm (WriteResult.taken_le hr) hok
    · cases hok
      split
      · exact shutdownInLoop_matched hm
      · exact hm
  · cases hok
    exact hm

/-! ## Reading and closing -/

theorem startReadInLoop_matched {c c' : TcpConnection} (h : c.Sound) (hm : c.Matched)
    (hok : c.startReadInLoop = .ok c') : c'.Matched := by
  unfold startReadInLoop at hok
  split at hok
  · obtain ⟨ch, hch, hup⟩ := Channel.update_spec h.coherent (c.channel.events ||| kReadEvent)
    rw [Channel.enableReading, hch] at hok
    cases hok
    refine hm.congr id ?_ rfl
    simp only [Channel.isWriting, hup.events, has_write_or_read]
  · cases hok
    exact hm

theorem stopReadInLoop_matched {c c' : TcpConnection} (h : c.Sound) (hm : c.Matched)
    (hok : c.stopReadInLoop = .ok c') : c'.Matched := by
  unfold stopReadInLoop at hok
  split at hok
  · obtain ⟨ch, hch, hup⟩ := Channel.update_spec h.coherent (c.channel.events &&& ~~~kReadEvent)
    rw [Channel.disableReading, hch] at hok
    cases hok
    refine hm.congr id ?_ rfl
    simp only [Channel.isWriting, hup.events, has_write_and_not_read]
  · cases hok
    exact hm

/-- What a function that writes nothing keeps. -/
structure Spared (c c' : TcpConnection) : Prop where
  sound : c'.Sound
  matched : c'.Matched
  output : c'.outputBuffer = c.outputBuffer

theorem handleClose_spared {c c' : TcpConnection} (h : c.Sound) (hok : c.handleClose = .ok c') :
    Spared c c' := by
  obtain ⟨ch, hch, hup⟩ := Channel.update_spec h.coherent kNoneEvent
  obtain ⟨_, -, hok⟩ := bind_eq_ok.mp hok
  rw [Channel.disableAll, hch] at hok
  cases hok
  exact ⟨⟨h.input, h.output, hup.coherent⟩, matched_of_dead rfl, rfl⟩

theorem forceCloseInLoop_matched {c c' : TcpConnection} (h : c.Sound) (hm : c.Matched)
    (hok : c.forceCloseInLoop = .ok c') : c'.Matched := by
  unfold forceCloseInLoop at hok
  split at hok
  · exact (handleClose_spared h hok).matched
  · cases hok
    exact hm

theorem handleRead_spared {c c' : TcpConnection} (h : c.Sound) (hm : c.Matched) {r : ReadResult}
    (hok : c.handleRead r = .ok c') : Spared c c' := by
  obtain ⟨b, hb, hcalm⟩ := readFd_calm h r
  obtain ⟨b', hb', hok⟩ := bind_eq_ok.mp hok
  obtain rfl : b' = b := Except.ok.inj (hb'.symm.trans hb)
  have hread : ({ c with inputBuffer := b' } : TcpConnection).Matched := hm.congr id rfl rfl
  split at hok
  · cases hok
    exact ⟨⟨hcalm.sound.input, h.output, h.coherent⟩, hread.congr id rfl rfl, rfl⟩
  · obtain ⟨hsound, hmatched, houtput⟩ := handleClose_spared hcalm.sound hok
    exact ⟨hsound, hmatched, houtput⟩
  · cases hok
    exact ⟨hcalm.sound, hread, rfl⟩

/-- A channel that is removed has no interest, and is left without one. -/
theorem connectDestroyed_matched {c c' : TcpConnection} (h : c.Sound) (hm : c.Matched)
    (hok : c.connectDestroyed = .ok c') : c'.Sound ∧ c'.Matched := by
  by_cases hs : c.state = .kConnected
  · obtain ⟨ch, hch, hup⟩ := Channel.update_spec h.coherent kNoneEvent
    simp only [connectDestroyed, if_pos hs, Channel.disableAll, hch, ok_bind, pure_eq_ok] at hok
    obtain ⟨ch', hch', hok⟩ := bind_eq_ok.mp hok
    cases hok
    exact ⟨⟨h.input, h.output, (Channel.remove_ok hup.coherent hch').1⟩, matched_of_dead rfl⟩
  · simp only [connectDestroyed, if_neg hs, ok_bind, pure_eq_ok] at hok
    obtain ⟨ch, hch, hok⟩ := bind_eq_ok.mp hok
    cases hok
    obtain ⟨hnone, hnone'⟩ := Channel.remove_none h.coherent hch
    refine ⟨⟨h.input, h.output, (Channel.remove_ok h.coherent hch).1⟩, hm.congr id ?_ rfl⟩
    simp [Channel.isWriting, hnone, hnone']

/-! ## Steps of the loop thread -/

theorem runFunctor_matched {c c' : TcpConnection} (h : c.Sound) (hm : c.Matched) {f : Functor}
    (hf : (Effect.quene f).minor = true) {write : WriteResult}
    (hok : c.runFunctor f write = .ok c') : c'.Matched := by
  cases f with
  | connectEstablished => cases hf
  | connectDestroyed => cases hf
  | sendInLoop m => exact sendInLoop_matched h hm hok
  | shutdownInLoop =>
    cases hok
    exact shutdownInLoop_matched hm
  | forceCloseInLoop => exact forceCloseInLoop_matched h hm hok
  | startReadInLoop => exact startReadInLoop_matched h hm hok
  | stopReadInLoop => exact stopReadInLoop_matched h hm hok
  | writeCompleteCallback | highWaterMarkCallback size =>
    cases hok
    exact hm.congr id rfl rfl

/-- `shutdown` and `forceClose` keep a live connection live. -/
theorem setState_matched {c : TcpConnection} (hm : c.Matched) (hlive : c.Live) (s : ConnState) :
    (c.setState s).Matched :=
  hm.congr (fun _ => hlive) rfl rfl

theorem call_matched {c c' : TcpConnection} (h : c.Sound) (hm : c.Matched) {k : Call}
    {write : WriteResult} (hok : c.call true write k = .ok c') : c'.Matched := by
  cases k with
  | sendPointer m => exact sendInLoop_matched h hm hok
  | sendString message =>
    simp only [call, sendString] at hok
    split at hok
    · exact sendInLoop_matched h hm hok
    · cases hok
      exact hm
  | sendBuffer message =>
    obtain ⟨⟨c₁, b⟩, hsend, hok⟩ := bind_eq_ok.mp hok
    cases hok
    unfold sendBuffer at hsend
    split at hsend
    · obtain ⟨c₂, hc₂, hsend⟩ := bind_eq_ok.mp hsend
      cases hsend
      exact sendInLoop_matched h hm hc₂
    · cases hsend
      exact hm
  | shutdown =>
    simp only [call, shutdown] at hok
    split at hok
    · rename_i hs
      cases hok
      exact shutdownInLoop_matched (setState_matched hm (.inl hs) _)
    · cases hok
      exact hm
  | forceClose =>
    simp only [call, forceClose] at hok
    split at hok
    · rename_i hlive
      cases hok
      exact (setState_matched hm hlive _).congr id rfl rfl
    · cases hok
      exact hm
  | startRead => exact startReadInLoop_matched h hm hok
  | stopRead => exact stopReadInLoop_matched h hm hok

theorem handleEvent_matched {c c' : TcpConnection} (h : c.Sound) (hm : c.Matched) {revents : Events}
    {read : ReadResult} {write : WriteResult} (hw : write.Fits c.outputBuffer.readableBytes)
    (hok : c.handleEvent revents read write = .ok c') : c'.Sound ∧ c'.Matched := by
  rw [handleEvent_eq] at hok
  obtain ⟨c₃, hok, hend⟩ := bind_eq_ok.mp hok
  obtain ⟨c₂, hok, hwrite⟩ := bind_eq_ok.mp hok
  obtain ⟨c₁, hclose, hread⟩ := bind_eq_ok.mp hok
  have h₁ : Spared (c.setEventHandling true) c₁ := by
    unfold closeBranch at hclose
    split at hclose
    · exact handleClose_spared (h.handling true) hclose
    · cases hclose
      exact ⟨h.handling true, hm.congr id rfl rfl, rfl⟩
  have h₂ : Spared c₁ c₂ := by
    unfold readBranch at hread
    split at hread
    · exact handleRead_spared h₁.sound h₁.matched hread
    · cases hread
      exact ⟨h₁.sound, h₁.matched, rfl⟩
  have hw₂ : write.Fits c₂.outputBuffer.readableBytes := by
    rw [h₂.output, h₁.output]
    exact hw
  obtain ⟨c₃', hc₃, hcalm⟩ := writeBranch_calm h₂.sound revents hw₂
  obtain rfl : c₃ = c₃' := Except.ok.inj (hwrite.symm.trans hc₃)
  have hmatched : c₃.Matched := by
    unfold writeBranch at hwrite
    split at hwrite
    · exact handleWrite_matched h₂.sound h₂.matched hw₂ hwrite
    · cases hwrite
      exact h₂.matched
  cases hend
  exact ⟨hcalm.sound.handling false, hmatched.congr id rfl rfl⟩

end TcpConnection

open TcpConnection

theorem loopStep_matched {c c' : TcpConnection} (h : c.Sound ∧ c.Matched) {a : LoopStep}
    (ha : LoopAllowed c a) (hok : loopStep c a = .ok c') : c'.Sound ∧ c'.Matched := by
  obtain ⟨hsound, hmatched⟩ := h
  cases a with
  | dispatch revents read write => exact handleEvent_matched hsound hmatched ha.2 hok
  | call k write =>
    obtain ⟨c₁, c₂, hc₂, -, hcalm⟩ := call_spec hsound ha.2 true write
    obtain rfl : c' = c₂ := Except.ok.inj (hok.symm.trans hc₂)
    exact ⟨hcalm.sound, call_matched hsound hmatched hok⟩
  | functor f write =>
    by_cases hd : f = .connectDestroyed
    · subst hd
      exact connectDestroyed_matched hsound hmatched hok
    · have hminor : (Effect.quene f).minor = true := by
        cases f with
        | connectEstablished => exact ha.elim
        | connectDestroyed => exact absurd rfl hd
        | _ => rfl
      refine ⟨?_, runFunctor_matched hsound hmatched hminor hok⟩
      obtain ⟨c₂, hc₂, hspec⟩ := runFunctor_spec hsound hminor write
      obtain rfl : c' = c₂ := Except.ok.inj (hok.symm.trans hc₂)
      exact hspec.elim Calm.sound fun ⟨_, _, hcl⟩ => hcl.sound

/-- A connection that was opened with nothing to write and has come this far. -/
def Reached (c : TcpConnection) : Prop :=
  ∃ c₀ steps, Opened c₀ ∧ c₀.Idle ∧ Along loopStep LoopAllowed c₀ steps ∧ Run loopStep c₀ steps c

/-- In every state of a connection, it waits for writes exactly while it has
something to write. -/
theorem Reached.matched {c : TcpConnection} (h : Reached c) : c.Sound ∧ c.Matched := by
  obtain ⟨c₀, steps, hopen, ⟨hwriting, houtput⟩, hsteps, hrun⟩ := h
  have hstart : c₀.Sound ∧ c₀.Matched :=
    ⟨hopen.sound, fun _ => by rw [hwriting, houtput]; decide⟩
  exact hrun.invariant (I := fun c => c.Sound ∧ c.Matched) hsteps hstart
    fun _ _ _ hc ha hs => loopStep_matched hc ha hs

end Muduo
