import Muduo.TcpConnection

/-!
What the functions of a connection do to its life: to `state_`, to the channel,
and to the callbacks invoked. Most of them are `Calm`; `handleClose` is the one
that `Closes` the connection.

* `sendInLoop_calm`, `handleWrite_calm`, `startReadInLoop_calm`, … : one lemma
  for each function;
* `handleEvent_spec`: a whole dispatch on an open connection;
* `call_spec`: a call from the loop thread.
-/

namespace Muduo

open Lib Events

/-- `closeCallback_` is invoked. -/
def Effect.isClose : Effect → Bool
  | .closeCallback => true
  | _ => false

/-- One of `connectionCallback_`, `messageCallback_` and `closeCallback_` is
invoked. -/
def Effect.invokes : Effect → Bool
  | .connectionCallback | .messageCallback | .closeCallback => true
  | _ => false

/-- An effect without a part in the life of the connection. -/
def Effect.minor : Effect → Bool
  | .connectionCallback | .closeCallback => false
  | .quene .connectEstablished | .quene .connectDestroyed => false
  | _ => true

namespace TcpConnection

theorem not_close_of_minor {es : List Effect} (h : ∀ e ∈ es, e.minor = true) :
    es.any Effect.isClose = false := by
  rw [List.any_eq_false]
  intro e he
  have hm := h e he
  cases e <;> simp [Effect.isClose, Effect.minor] at hm ⊢

/-! ## Relations between two states -/

/-- What holds of every connection. -/
structure Sound (c : TcpConnection) : Prop where
  input : c.inputBuffer.WF
  output : c.outputBuffer.WF
  coherent : c.channel.Coherent

/-- The poller knows the channel. -/
def Known (c : TcpConnection) : Prop := c.channel.index ≠ .kNew

/-- From `c` to `c'` with the same `state_` and only minor effects. -/
structure Calm (c c' : TcpConnection) : Prop where
  sound : c'.Sound
  state : c'.state = c.state
  known : c.Known → c'.Known
  handling : c'.channel.eventHandling = c.channel.eventHandling
  effects : ∃ es, c'.effects = c.effects ++ es ∧ ∀ e ∈ es, e.minor = true

/-- From `c` to `c'` through `handleClose`. -/
structure Closes (c c' : TcpConnection) : Prop where
  sound : c'.Sound
  state : c'.state = .kDisconnected
  known : c'.Known
  handling : c'.channel.eventHandling = c.channel.eventHandling
  interest : c'.channel.events = kNoneEvent
  effects : ∃ es, c'.effects = c.effects ++ es ++ [.connectionCallback, .closeCallback] ∧
    ∀ e ∈ es, e.minor = true

theorem Calm.refl {c : TcpConnection} (h : c.Sound) : Calm c c :=
  ⟨h, rfl, id, rfl, [], by simp, by simp⟩

theorem Calm.trans {c c' c'' : TcpConnection} (h : Calm c c') (h' : Calm c' c'') : Calm c c'' := by
  obtain ⟨es, he, hes⟩ := h.effects
  obtain ⟨es', he', hes'⟩ := h'.effects
  refine ⟨h'.sound, h'.state.trans h.state, h'.known ∘ h.known, h'.handling.trans h.handling,
    es ++ es', by rw [he', he, List.append_assoc], fun e hmem => ?_⟩
  rcases List.mem_append.mp hmem with hm | hm
  · exact hes e hm
  · exact hes' e hm

theorem Calm.closes {c c' c'' : TcpConnection} (h : Calm c c') (h' : Closes c' c'') :
    Closes c c'' := by
  obtain ⟨es, he, hes⟩ := h.effects
  obtain ⟨es', he', hes'⟩ := h'.effects
  refine ⟨h'.sound, h'.state, h'.known, h'.handling.trans h.handling, h'.interest, es ++ es',
    by rw [he', he, List.append_assoc c.effects], fun e hmem => ?_⟩
  rcases List.mem_append.mp hmem with hm | hm
  · exact hes e hm
  · exact hes' e hm

theorem emits_calm {c : TcpConnection} (h : c.Sound) (es : List Effect)
    (hes : ∀ e ∈ es, e.minor = true) : Calm c (c.emits es) :=
  ⟨⟨h.input, h.output, h.coherent⟩, rfl, id, rfl, es, rfl, hes⟩

theorem transmit_calm {c : TcpConnection} (h : c.Sound) (bs : List UInt8) :
    Calm c (c.transmit bs) :=
  ⟨⟨h.input, h.output, h.coherent⟩, rfl, id, rfl, [], by simp, by simp⟩

/-- Another interest set. -/
theorem update_calm {c : TcpConnection} (h : c.Sound) {ch : Channel} {events : Events}
    (hch : Channel.Updated c.channel ch events) : Calm c { c with channel := ch } :=
  ⟨⟨h.input, h.output, hch.coherent⟩, rfl, fun _ => hch.known, hch.eventHandling, [], by simp,
    by simp⟩

/-- Other buffers and another `reading_`. -/
theorem fields_calm {c : TcpConnection} (h : c.Sound) {inputBuffer outputBuffer : Buffer}
    (hi : inputBuffer.WF) (ho : outputBuffer.WF) (reading : Bool) :
    Calm c { c with inputBuffer, outputBuffer, reading } :=
  ⟨⟨hi, ho, h.coherent⟩, rfl, id, rfl, [], by simp, by simp⟩

/-! ## Writing -/

theorem queneWriteComplete_calm {c : TcpConnection} (h : c.Sound) :
    Calm c c.queneWriteComplete := by
  apply emits_calm h _
  intro e he
  split at he <;> simp_all [Effect.minor]

theorem queneHighWaterMark_calm {c : TcpConnection} (h : c.Sound) (remaining : Nat) :
    Calm c (c.queneHighWaterMark remaining) := by
  apply emits_calm h _
  intro e he
  split at he <;> simp_all [Effect.minor]

theorem startWriting_calm {c : TcpConnection} (h : c.Sound) :
    ∃ c', c.startWriting = .ok c' ∧ Calm c c' := by
  unfold startWriting
  split
  · exact ⟨c, rfl, .refl h⟩
  · obtain ⟨ch, hch, hup⟩ := Channel.update_spec h.coherent (c.channel.events ||| kWriteEvent)
    exact ⟨_, by simp [Channel.enableWriting, hch], update_calm h hup⟩

theorem sendRemaining_calm {c : TcpConnection} (h : c.Sound) (m : Message) (nwrote : Nat) :
    ∃ c', c.sendRemaining m nwrote = .ok c' ∧ Calm c c' := by
  have hmark := queneHighWaterMark_calm h m.len
  obtain ⟨b, hb, hbec⟩ := Buffer.append_spec hmark.sound.output (fun i => m.data (nwrote + i)) m.len
  have hfields := fields_calm hmark.sound hmark.sound.input hbec.wf
    (c.queneHighWaterMark m.len).reading
  obtain ⟨c', hc', hcalm⟩ := startWriting_calm hfields.sound
  exact ⟨c', by simp only [sendRemaining, hb, ok_bind]; exact hc', (hmark.trans hfields).trans hcalm⟩

theorem sendInLoop_calm {c : TcpConnection} (h : c.Sound) (m : Message) (r : WriteResult) :
    ∃ c', c.sendInLoop m r = .ok c' ∧ Calm c c' := by
  have hsent := transmit_calm h (m.bytes.take r.taken)
  -- the direct write, whether or not it queues the write-complete callback
  have hdirect : Calm c (if r = .written 0 then (c.transmit (m.bytes.take r.taken)).queneWriteComplete
      else c.transmit (m.bytes.take r.taken)) := by
    split
    · exact hsent.trans (queneWriteComplete_calm hsent.sound)
    · exact hsent
  unfold sendInLoop
  split
  · exact ⟨c, rfl, .refl h⟩
  split
  · dsimp only
    by_cases hrest : (!faultError r && m.len != 0) = true
    · obtain ⟨c', hc', hcalm⟩ := sendRemaining_calm hdirect.sound m r.taken
      exact ⟨c', by rw [if_pos hrest]; exact hc', hdirect.trans hcalm⟩
    · exact ⟨_, by rw [if_neg hrest]; rfl, hdirect⟩
  · exact ⟨c, rfl, .refl h⟩

theorem shutdownInLoop_calm {c : TcpConnection} (h : c.Sound) : Calm c c.shutdownInLoop := by
  unfold shutdownInLoop
  split
  · exact .refl h
  · exact emits_calm h _ (by simp [Effect.minor])

theorem written_calm {c : TcpConnection} (h : c.Sound) {n : Nat}
    (hn : n ≤ c.outputBuffer.readableBytes) : ∃ c', c.written n = .ok c' ∧ Calm c c' := by
  let bytes := (bytesAt c.outputBuffer.peek c.outputBuffer.readableBytes).take n
  obtain ⟨b, hb, hbec⟩ := Buffer.retrieve_spec h.output hn
  have hsent := transmit_calm h bytes
  have hfields := fields_calm hsent.sound h.input hbec.wf c.reading
  have hret := hsent.trans hfields
  by_cases hdone : b.readableBytes = 0
  · obtain ⟨ch, hch, hup⟩ := Channel.update_spec h.coherent (c.channel.events &&& ~~~kWriteEvent)
    have hupd := hret.trans (update_calm hret.sound hup)
    have hall := hupd.trans (queneWriteComplete_calm hupd.sound)
    by_cases hs : c.state = .kDisconnecting
    · refine ⟨_, ?_, hall.trans (shutdownInLoop_calm hall.sound)⟩
      simp [written, hb, hdone, Channel.disableWriting, hch, queneWriteComplete, hs, bytes, transmit]
    · refine ⟨_, ?_, hall⟩
      simp [written, hb, hdone, Channel.disableWriting, hch, queneWriteComplete, hs, bytes, transmit]
  · exact ⟨_, by simp [written, hb, hdone, bytes, transmit], hret⟩

theorem handleWrite_calm {c : TcpConnection} (h : c.Sound) {r : WriteResult}
    (hr : r.Fits c.outputBuffer.readableBytes) : ∃ c', c.handleWrite r = .ok c' ∧ Calm c c' := by
  unfold handleWrite
  split
  · split
    · exact written_calm h (WriteResult.taken_le hr)
    · split
      · exact ⟨_, rfl, shutdownInLoop_calm h⟩
      · exact ⟨c, rfl, .refl h⟩
  · exact ⟨c, rfl, .refl h⟩

/-- Nothing is written on a channel without interest. -/
theorem handleWrite_none {c : TcpConnection} (h : c.channel.events = kNoneEvent) (r : WriteResult) :
    c.handleWrite r = .ok c := by
  simp [handleWrite, Channel.isWriting, h]

/-! ## Reading -/

/-- Behind `startReadInLoop` the channel reads, whatever `state_` is. -/
theorem startReadInLoop_calm {c : TcpConnection} (h : c.Sound) :
    ∃ c', c.startReadInLoop = .ok c' ∧ Calm c c' ∧ c'.channel.isReading = true := by
  unfold startReadInLoop
  split
  · obtain ⟨ch, hch, hup⟩ := Channel.update_spec h.coherent (c.channel.events ||| kReadEvent)
    have hcalm := update_calm h hup
    refine ⟨_, by simp [Channel.enableReading, hch],
      hcalm.trans (fields_calm hcalm.sound h.input h.output true), ?_⟩
    simp only [Channel.isReading, hup.events]
    exact has_or_self _ (by decide)
  · rename_i hreading
    exact ⟨c, rfl, .refl h, by simp_all⟩

theorem stopReadInLoop_calm {c : TcpConnection} (h : c.Sound) :
    ∃ c', c.stopReadInLoop = .ok c' ∧ Calm c c' ∧ c'.effects = c.effects ∧
      (c'.channel.events = c.channel.events ∨
        c'.channel.events = c.channel.events &&& ~~~kReadEvent) := by
  unfold stopReadInLoop
  split
  · obtain ⟨ch, hch, hup⟩ := Channel.update_spec h.coherent (c.channel.events &&& ~~~kReadEvent)
    have hcalm := update_calm h hup
    exact ⟨_, by simp [Channel.disableReading, hch],
      hcalm.trans (fields_calm hcalm.sound h.input h.output false), rfl, .inr hup.events⟩
  · exact ⟨c, rfl, .refl h, rfl, .inl rfl⟩

/-! ## Closing -/

/-- `kConnected` or `kDisconnecting`: what `handleClose` asserts. -/
abbrev Live (c : TcpConnection) : Prop := c.state = .kConnected ∨ c.state = .kDisconnecting

theorem handleClose_closes {c : TcpConnection} (h : c.Sound) (hlive : c.Live) :
    ∃ c', c.handleClose = .ok c' ∧ Closes c c' := by
  obtain ⟨ch, hch, hup⟩ := Channel.update_spec h.coherent kNoneEvent
  let c' := { c.setState .kDisconnected with channel := ch }
  refine ⟨(c'.emit .connectionCallback).emit .closeCallback, ?_,
    ⟨h.input, h.output, hup.coherent⟩, rfl, hup.known, hup.eventHandling, hup.events,
    [], by simp [c', setState], by simp⟩
  simp only [handleClose, check_pos hlive, ok_bind, Channel.disableAll, hch, pure_eq_ok, c']

theorem handleClose_error {c : TcpConnection} (hlive : ¬ c.Live) :
    c.handleClose = .error .handleClose := by
  unfold handleClose
  rw [check_neg hlive]
  rfl

/-- `handleRead` before it looks at the number of bytes. -/
theorem readFd_calm {c : TcpConnection} (h : c.Sound) (r : ReadResult) :
    ∃ b, c.inputBuffer.readFd r = .ok b ∧ Calm c { c with inputBuffer := b } := by
  cases r with
  | failed e => exact ⟨c.inputBuffer, rfl, .refl h⟩
  | received bytes =>
    obtain ⟨b, hb, hbec⟩ := Buffer.readFd_spec h.input bytes
    exact ⟨b, hb, fields_calm h hbec.wf h.output c.reading⟩

/-- What was read goes into `inputBuffer_` and to the user. -/
theorem handleRead_message {c : TcpConnection} (h : c.Sound) (byte : UInt8) (bytes : List UInt8) :
    ∃ b, c.handleRead (.received (byte :: bytes)) =
        .ok ({ c with inputBuffer := b }.emit .messageCallback) ∧
      Calm c ({ c with inputBuffer := b }.emit .messageCallback) := by
  obtain ⟨b, hb, hcalm⟩ := readFd_calm h (.received (byte :: bytes))
  refine ⟨b, ?_, hcalm.trans (emits_calm hcalm.sound _ (by simp [Effect.minor]))⟩
  simp only [handleRead, hb, ok_bind, pure_eq_ok]

/-- A read of nothing is a close. -/
theorem handleRead_nil {c : TcpConnection} (h : c.Sound) :
    ∃ c₁, Calm c c₁ ∧ c.handleRead (.received []) = c₁.handleClose := by
  obtain ⟨b, hb, hcalm⟩ := readFd_calm h (.received [])
  exact ⟨_, hcalm, by simp only [handleRead, hb, ok_bind]⟩

/-! ## Dispatch -/

/-- The first branch of `handleEventWithGuard` is taken. -/
def closing (revents : Events) : Bool := revents.has POLLHUP && !revents.has POLLIN

/-- The third branch is taken. -/
def readable (revents : Events) : Bool := revents.has (POLLIN ||| POLLPRI ||| POLLRDHUP)

/-- The dispatch closes the connection and then reads from it, with a result
other than an error. -/
def late (revents : Events) (read : ReadResult) : Bool :=
  closing revents && readable revents && match read with
    | .received _ => true
    | .failed _ => false

/-- The channel is not inside a dispatch. -/
def Unhandled (c : TcpConnection) : Prop := c.channel.eventHandling = false

def closeBranch (revents : Events) (c : TcpConnection) : Checked TcpConnection :=
  if closing revents then c.handleClose else return c

def readBranch (revents : Events) (read : ReadResult) (c : TcpConnection) : Checked TcpConnection :=
  if readable revents then c.handleRead read else return c

def writeBranch (revents : Events) (write : WriteResult) (c : TcpConnection) :
    Checked TcpConnection :=
  if revents.has POLLOUT then c.handleWrite write else return c

/-- The error branch only logs. -/
theorem handleEvent_eq (c : TcpConnection) (revents : Events) (read : ReadResult)
    (write : WriteResult) :
    c.handleEvent revents read write =
      closeBranch revents (c.setEventHandling true) >>= readBranch revents read >>=
        writeBranch revents write >>= fun c => pure (c.setEventHandling false) := by
  unfold handleEvent Channel.handleEventWithGuard closeBranch readBranch writeBranch callbacks
  simp only [Channel.invoke, handleError, closing, readable]
  by_cases hclose : (revents.has POLLHUP && !revents.has POLLIN) = true <;>
    by_cases herror : revents.has (POLLERR ||| POLLNVAL) = true <;>
    by_cases hread : revents.has (POLLIN ||| POLLPRI ||| POLLRDHUP) = true <;>
    simp only [hclose, herror, hread, Bool.false_eq_true, ↓reduceIte, bind_assoc, pure_bind]

theorem Sound.handling {c : TcpConnection} (h : c.Sound) (b : Bool) :
    (c.setEventHandling b).Sound :=
  ⟨h.input, h.output, ⟨h.coherent.mapped_iff, h.coherent.added_iff⟩⟩

theorem Calm.handled {c c' : TcpConnection} (hh : c.Unhandled)
    (h : Calm (c.setEventHandling true) c') : Calm c (c'.setEventHandling false) :=
  ⟨h.sound.handling false, h.state, h.known, hh.symm, h.effects⟩

theorem Closes.handled {c c' : TcpConnection} (hh : c.Unhandled)
    (h : Closes (c.setEventHandling true) c') : Closes c (c'.setEventHandling false) :=
  ⟨h.sound.handling false, h.state, h.known, hh.symm, h.interest, h.effects⟩

/-- The write branch does nothing to a closed connection. -/
theorem writeBranch_none {c : TcpConnection} (h : c.channel.events = kNoneEvent) (revents : Events)
    (write : WriteResult) : writeBranch revents write c = .ok c := by
  unfold writeBranch
  split
  · exact handleWrite_none h write
  · rfl

theorem writeBranch_calm {c : TcpConnection} (h : c.Sound) (revents : Events) {write : WriteResult}
    (hw : write.Fits c.outputBuffer.readableBytes) :
    ∃ c', writeBranch revents write c = .ok c' ∧ Calm c c' := by
  unfold writeBranch
  split
  · exact handleWrite_calm h hw
  · exact ⟨c, rfl, .refl h⟩

/-- The read branch finds the end of the stream. -/
def atEof (revents : Events) (read : ReadResult) : Prop :=
  readable revents = true ∧ read = .received []

/-- Otherwise it leaves the life of the connection alone. -/
theorem readBranch_calm {c : TcpConnection} (h : c.Sound) {revents : Events} {read : ReadResult}
    (hr : ¬ atEof revents read) :
    ∃ c', readBranch revents read c = .ok c' ∧ Calm c c' ∧ c'.outputBuffer = c.outputBuffer ∧
      c'.channel = c.channel := by
  unfold readBranch
  split
  · rename_i hread
    match read with
    | .failed e => exact ⟨c, rfl, .refl h, rfl, rfl⟩
    | .received [] => exact absurd ⟨hread, rfl⟩ hr
    | .received (byte :: bytes) =>
      obtain ⟨b, hb, hcalm⟩ := handleRead_message h byte bytes
      exact ⟨_, hb, hcalm, rfl, rfl⟩
  · exact ⟨c, rfl, .refl h, rfl, rfl⟩

theorem closeBranch_open {revents : Events} (h : ¬ closing revents = true) (c : TcpConnection) :
    closeBranch revents c = .ok c := by
  rw [closeBranch, if_neg h, pure_eq_ok]

/-- A dispatch in which nothing closes. -/
theorem handleEvent_calm {c : TcpConnection} (h : c.Sound) (hh : c.Unhandled)
    {revents : Events} {read : ReadResult} {write : WriteResult}
    (hw : write.Fits c.outputBuffer.readableBytes) (hclose : ¬ closing revents = true)
    (heof : ¬ atEof revents read) :
    ∃ c', c.handleEvent revents read write = .ok c' ∧ Calm c c' ∧
      (c.channel.events = kNoneEvent → c'.channel = c.channel) := by
  have hs := h.handling true
  rw [handleEvent_eq, closeBranch_open hclose]
  obtain ⟨c₁, h₁, hcalm, hout, hch⟩ := readBranch_calm hs heof
  by_cases hnone : c.channel.events = kNoneEvent
  · have h₂ := writeBranch_none (c := c₁) (by rw [hch]; exact hnone) revents write
    refine ⟨c₁.setEventHandling false, by simp [h₁, h₂], hcalm.handled hh, fun _ => ?_⟩
    have hhand : c.channel.eventHandling = false := hh
    simp only [setEventHandling, hch, ← hhand]
  · obtain ⟨c₂, h₂, hcalm'⟩ := writeBranch_calm hcalm.sound revents (hout.symm ▸ hw)
    exact ⟨c₂.setEventHandling false, by simp [h₁, h₂], (hcalm.trans hcalm').handled hh,
      fun hn => absurd hn hnone⟩

/-- A dispatch that is not late closes an open connection or leaves its life
alone. -/
theorem handleEvent_spec {c : TcpConnection} (h : c.Sound) (hlive : c.Live) (hh : c.Unhandled)
    {revents : Events} {read : ReadResult} {write : WriteResult}
    (hw : write.Fits c.outputBuffer.readableBytes) (hlate : late revents read = false) :
    ∃ c', c.handleEvent revents read write = .ok c' ∧ (Calm c c' ∨ Closes c c') := by
  have hs := h.handling true
  by_cases hclose : closing revents = true
  · obtain ⟨c₁, h₁, hcl⟩ := handleClose_closes hs hlive
    have hread : readBranch revents read c₁ = .ok c₁ := by
      unfold readBranch
      split
      · rename_i hr
        cases read with
        | failed e => rfl
        | received bytes => simp [late, hclose, hr] at hlate
      · rfl
    refine ⟨c₁.setEventHandling false, ?_, .inr (hcl.handled hh)⟩
    rw [handleEvent_eq, closeBranch, if_pos hclose, h₁]
    simp [hread, writeBranch_none hcl.interest]
  by_cases heof : atEof revents read
  · obtain ⟨hr, rfl⟩ := heof
    obtain ⟨c₁, hcalm, heof⟩ := handleRead_nil hs
    obtain ⟨c₂, h₂, hcl⟩ := handleClose_closes hcalm.sound (by rw [Live, hcalm.state]; exact hlive)
    refine ⟨c₂.setEventHandling false, ?_, .inr ((hcalm.closes hcl).handled hh)⟩
    rw [handleEvent_eq, closeBranch_open hclose]
    simp [readBranch, hr, heof, h₂, writeBranch_none hcl.interest]
  · obtain ⟨c', hc', hcalm, -⟩ := handleEvent_calm h hh hw hclose heof
    exact ⟨c', hc', .inl hcalm⟩

/-- A late dispatch on an open connection fails in a second `handleClose`, or
invokes `messageCallback_` behind `closeCallback_`. -/
theorem handleEvent_late {c : TcpConnection} (h : c.Sound) (hlive : c.Live) (hh : c.Unhandled)
    {revents : Events} {read : ReadResult} (write : WriteResult) (hlate : late revents read = true) :
    c.handleEvent revents read write = .error .handleClose ∨
      ∃ c₁ c', c.handleEvent revents read write = .ok c' ∧ Closes c c₁ ∧ Calm c₁ c' ∧
        c'.effects = c₁.effects ++ [.messageCallback] ∧ c'.channel = c₁.channel := by
  obtain ⟨⟨hclose, hreads⟩, hgot⟩ := by simpa [late] using hlate
  obtain ⟨c₁, h₁, hcl⟩ := handleClose_closes (h.handling true) hlive
  have hbranch : closeBranch revents (c.setEventHandling true) = .ok c₁ := by
    rw [closeBranch, if_pos hclose, h₁]
  rw [handleEvent_eq, hbranch]
  match read, hgot with
  | .received [], _ =>
    obtain ⟨c₂, hcalm, heof⟩ := handleRead_nil hcl.sound
    have hdead : ¬ c₂.Live := by simp [Live, hcalm.state, hcl.state]
    exact .inl (by simp [readBranch, hreads, heof, handleClose_error hdead])
  | .received (byte :: bytes), _ =>
    obtain ⟨b, hb, hcalm⟩ := handleRead_message hcl.sound byte bytes
    refine .inr ⟨_, _, ?_, hcl.handled hh,
      ⟨hcalm.sound.handling false, hcalm.state, hcalm.known, rfl, hcalm.effects⟩, rfl, rfl⟩
    simp [readBranch, hreads, hb, writeBranch_none (c := { c₁ with inputBuffer := b }.emit .messageCallback) hcl.interest]

/-! ## Functors and calls -/

/-- A functor that does not belong to the ends of the connection; one of them
may close it. -/
theorem runFunctor_spec {c : TcpConnection} (h : c.Sound) {f : Functor}
    (hf : (Effect.quene f).minor = true) (write : WriteResult) :
    ∃ c', c.runFunctor f write = .ok c' ∧
      (Calm c c' ∨ f = .forceCloseInLoop ∧ c.Live ∧ Closes c c') := by
  cases f with
  | connectEstablished => simp [Effect.minor] at hf
  | connectDestroyed => simp [Effect.minor] at hf
  | sendInLoop m =>
    obtain ⟨c', hc', hcalm⟩ := sendInLoop_calm h m write
    exact ⟨c', hc', .inl hcalm⟩
  | shutdownInLoop => exact ⟨_, rfl, .inl (shutdownInLoop_calm h)⟩
  | forceCloseInLoop =>
    by_cases hlive : c.Live
    · obtain ⟨c', hc', hcl⟩ := handleClose_closes h hlive
      exact ⟨c', by rw [runFunctor, forceCloseInLoop, if_pos hlive, hc'], .inr ⟨rfl, hlive, hcl⟩⟩
    · exact ⟨c, by rw [runFunctor, forceCloseInLoop, if_neg hlive, pure_eq_ok], .inl (.refl h)⟩
  | startReadInLoop =>
    obtain ⟨c', hc', hcalm, _⟩ := startReadInLoop_calm h
    exact ⟨c', hc', .inl hcalm⟩
  | stopReadInLoop =>
    obtain ⟨c', hc', hcalm, _⟩ := stopReadInLoop_calm h
    exact ⟨c', hc', .inl hcalm⟩
  | writeCompleteCallback => exact ⟨_, rfl, .inl (emits_calm h _ (by simp [Effect.minor]))⟩
  | highWaterMarkCallback size => exact ⟨_, rfl, .inl (emits_calm h _ (by simp [Effect.minor]))⟩

/-- A functor other than a close runs now or is queued. -/
theorem runInLoop_calm {c : TcpConnection} (h : c.Sound) (inLoop : Bool) (f : Functor)
    (write : WriteResult) (hf : (Effect.quene f).minor = true)
    (hrun : ∃ c', c.runFunctor f write = .ok c' ∧ Calm c c') :
    ∃ c', c.runInLoop inLoop f write = .ok c' ∧ Calm c c' := by
  unfold runInLoop
  split
  · exact hrun
  · exact ⟨_, rfl, emits_calm h _ (by simpa using hf)⟩

/-- What `shutdown` and `forceClose` do to `state_`. -/
inductive Shuts (c : TcpConnection) : TcpConnection → Prop
  | same : Shuts c c
  | disconnecting : c.Live → Shuts c (c.setState .kDisconnecting)

/-- The buffer of a call is a buffer. -/
def Call.WF : Call → Prop
  | .sendBuffer message => message.WF
  | _ => True

theorem sendString_calm {c : TcpConnection} (h : c.Sound) (inLoop : Bool) (message : List UInt8)
    (write : WriteResult) : ∃ c', c.sendString inLoop message write = .ok c' ∧ Calm c c' := by
  unfold sendString
  split
  · exact runInLoop_calm h inLoop _ write (by rfl) (sendInLoop_calm h _ write)
  · exact ⟨c, rfl, .refl h⟩

theorem sendBuffer_calm {c : TcpConnection} (h : c.Sound) (inLoop : Bool) {message : Buffer}
    (hm : message.WF) (write : WriteResult) :
    ∃ c' b, c.sendBuffer inLoop message write = .ok (c', b) ∧ Calm c c' := by
  unfold sendBuffer
  split
  · cases inLoop with
    | true =>
      obtain ⟨c', hc', hcalm⟩ := sendInLoop_calm h ⟨message.peek, message.readableBytes⟩ write
      exact ⟨c', message.retrieveAll, by simp [hc'], hcalm⟩
    | false =>
      obtain ⟨b, hb, _⟩ := Buffer.retrieveAsString_spec hm (Nat.le_refl message.readableBytes)
      refine ⟨_, b, ?_, emits_calm h [.quene (.sendInLoop (Message.ofBytes
        (message.content.take message.readableBytes)))] (by simp [Effect.minor])⟩
      simp [Buffer.retrieveAllAsString, hb]
  · exact ⟨c, message, rfl, .refl h⟩

theorem setState_sound {c : TcpConnection} (h : c.Sound) (s : ConnState) : (c.setState s).Sound :=
  ⟨h.input, h.output, h.coherent⟩

theorem shutdown_spec {c : TcpConnection} (h : c.Sound) (inLoop : Bool) (write : WriteResult) :
    ∃ c₁ c', c.shutdown inLoop write = .ok c' ∧ Shuts c c₁ ∧ Calm c₁ c' := by
  unfold shutdown
  split
  · rename_i hs
    have h₁ := setState_sound h .kDisconnecting
    obtain ⟨c', hc', hcalm⟩ := runInLoop_calm h₁ inLoop .shutdownInLoop write (by rfl)
      ⟨_, rfl, shutdownInLoop_calm h₁⟩
    exact ⟨_, c', hc', .disconnecting (.inl hs), hcalm⟩
  · exact ⟨c, c, rfl, .same, .refl h⟩

theorem forceClose_spec {c : TcpConnection} (h : c.Sound) :
    ∃ c₁, Shuts c c₁ ∧ Calm c₁ c.forceClose := by
  unfold forceClose
  split
  · rename_i hlive
    exact ⟨_, .disconnecting hlive, emits_calm (setState_sound h .kDisconnecting) _
      (by simp [Effect.minor])⟩
  · exact ⟨c, .same, .refl h⟩

/-- A call of the interface never fails; it may turn `state_` to
`kDisconnecting`, and is calm otherwise. -/
theorem call_spec {c : TcpConnection} (h : c.Sound) {k : Call} (hk : k.WF) (inLoop : Bool)
    (write : WriteResult) :
    ∃ c₁ c', c.call inLoop write k = .ok c' ∧ Shuts c c₁ ∧ Calm c₁ c' := by
  cases k with
  | sendPointer m =>
    obtain ⟨c', hc', hcalm⟩ := sendInLoop_calm h m write
    exact ⟨c, c', hc', .same, hcalm⟩
  | sendString message =>
    obtain ⟨c', hc', hcalm⟩ := sendString_calm h inLoop message write
    exact ⟨c, c', hc', .same, hcalm⟩
  | sendBuffer message =>
    obtain ⟨c', b, hc', hcalm⟩ := sendBuffer_calm h inLoop hk write
    exact ⟨c, c', by simp only [call, hc', ok_bind, pure_eq_ok], .same, hcalm⟩
  | shutdown => exact shutdown_spec h inLoop write
  | forceClose =>
    obtain ⟨c₁, hs, hcalm⟩ := forceClose_spec h
    exact ⟨c₁, c.forceClose, rfl, hs, hcalm⟩
  | startRead =>
    obtain ⟨c₁, hc₁, hcalm₁, _⟩ := startReadInLoop_calm h
    obtain ⟨c', hc', hcalm⟩ := runInLoop_calm h inLoop .startReadInLoop write (by rfl)
      ⟨c₁, hc₁, hcalm₁⟩
    exact ⟨c, c', hc', .same, hcalm⟩
  | stopRead =>
    obtain ⟨c₁, hc₁, hcalm₁, _⟩ := stopReadInLoop_calm h
    obtain ⟨c', hc', hcalm⟩ := runInLoop_calm h inLoop .stopReadInLoop write (by rfl)
      ⟨c₁, hc₁, hcalm₁⟩
    exact ⟨c, c', hc', .same, hcalm⟩

/-! ## A connection at rest -/

/-- A connection behind its close. -/
structure AtRest (c : TcpConnection) : Prop where
  sound : c.Sound
  state : c.state = .kDisconnected
  interest : c.channel.events = kNoneEvent

/-- From an idle connection to itself: no interest, and nothing invoked. -/
structure Rests (c c' : TcpConnection) : Prop where
  calm : Calm c c'
  interest : c'.channel.events = kNoneEvent
  silent : ∃ es, c'.effects = c.effects ++ es ∧ ∀ e ∈ es, e.invokes = false

theorem AtRest.refl {c : TcpConnection} (h : AtRest c) : Rests c c :=
  ⟨.refl h.sound, h.interest, [], by simp, by simp⟩

theorem AtRest.emits {c : TcpConnection} (h : AtRest c) (es : List Effect)
    (hm : ∀ e ∈ es, e.minor = true) (hs : ∀ e ∈ es, e.invokes = false) : Rests c (c.emits es) :=
  ⟨emits_calm h.sound es hm, h.interest, es, rfl, hs⟩

theorem AtRest.not_live {c : TcpConnection} (h : AtRest c) : ¬ c.Live := by simp [Live, h.state]

theorem AtRest.sendInLoop {c : TcpConnection} (h : AtRest c) (m : Message) (r : WriteResult) :
    c.sendInLoop m r = .ok c := by
  rw [TcpConnection.sendInLoop, if_pos h.state, pure_eq_ok]

theorem AtRest.forceCloseInLoop {c : TcpConnection} (h : AtRest c) : c.forceCloseInLoop = .ok c := by
  rw [TcpConnection.forceCloseInLoop, if_neg h.not_live, pure_eq_ok]

/-- The descriptor may be registered again, but for no event. -/
theorem AtRest.stopReadInLoop {c : TcpConnection} (h : AtRest c) :
    ∃ c', c.stopReadInLoop = .ok c' ∧ Rests c c' ∧
      (c.reading = false → c'.channel = c.channel) := by
  by_cases hreading : c.reading = false
  · refine ⟨c, ?_, h.refl, fun _ => rfl⟩
    simp [TcpConnection.stopReadInLoop, hreading, Channel.isReading, h.interest]
  · obtain ⟨c', hc', hcalm, heff, hev⟩ := stopReadInLoop_calm h.sound
    refine ⟨c', hc', ⟨hcalm, ?_, [], by simp [heff], by simp⟩, fun hn => absurd hn hreading⟩
    rcases hev with hev | hev
    · rw [hev, h.interest]
    · rw [hev, h.interest]
      decide

/-- Functors other than `startReadInLoop`; only `stopReadInLoop` touches the
channel, if `reading_` is set. -/
theorem AtRest.runFunctor {c : TcpConnection} (h : AtRest c) {f : Functor}
    (hf : (Effect.quene f).minor = true) (hstart : f ≠ .startReadInLoop) (write : WriteResult) :
    ∃ c', c.runFunctor f write = .ok c' ∧ Rests c c' ∧
      ((f = .stopReadInLoop → c.reading = false) → c'.channel = c.channel) := by
  cases f with
  | connectEstablished => simp [Effect.minor] at hf
  | connectDestroyed => simp [Effect.minor] at hf
  | sendInLoop m => exact ⟨c, h.sendInLoop m write, h.refl, fun _ => rfl⟩
  | shutdownInLoop =>
    refine ⟨c.shutdownInLoop, rfl, ?_, ?_⟩
    · unfold TcpConnection.shutdownInLoop
      split
      · exact h.refl
      · exact h.emits _ (by simp [Effect.minor]) (by simp [Effect.invokes])
    · intro _
      unfold TcpConnection.shutdownInLoop
      split <;> rfl
  | forceCloseInLoop => exact ⟨c, h.forceCloseInLoop, h.refl, fun _ => rfl⟩
  | startReadInLoop => exact absurd rfl hstart
  | stopReadInLoop =>
    obtain ⟨c', hc', hrests, hch⟩ := h.stopReadInLoop
    exact ⟨c', hc', hrests, fun hn => hch (hn rfl)⟩
  | writeCompleteCallback =>
    exact ⟨_, rfl, h.emits _ (by simp [Effect.minor]) (by simp [Effect.invokes]), fun _ => rfl⟩
  | highWaterMarkCallback size =>
    exact ⟨_, rfl, h.emits _ (by simp [Effect.minor]) (by simp [Effect.invokes]), fun _ => rfl⟩

/-- Calls other than `startRead` from the loop thread. -/
theorem AtRest.call {c : TcpConnection} (h : AtRest c) {k : Call} {inLoop : Bool}
    (hstart : ¬ (k = .startRead ∧ inLoop = true)) (write : WriteResult) :
    ∃ c', c.call inLoop write k = .ok c' ∧ Rests c c' ∧
      ((k = .stopRead ∧ inLoop = true → c.reading = false) → c'.channel = c.channel) := by
  have hne : c.state ≠ .kConnected := by simp [h.state]
  cases k with
  | sendPointer m => exact ⟨c, h.sendInLoop m write, h.refl, fun _ => rfl⟩
  | sendString message =>
    exact ⟨c, by rw [TcpConnection.call, sendString, if_neg hne, pure_eq_ok], h.refl, fun _ => rfl⟩
  | sendBuffer message =>
    exact ⟨c, by simp [TcpConnection.call, sendBuffer, hne], h.refl, fun _ => rfl⟩
  | shutdown =>
    exact ⟨c, by rw [TcpConnection.call, shutdown, if_neg hne, pure_eq_ok], h.refl, fun _ => rfl⟩
  | forceClose =>
    exact ⟨c, by rw [TcpConnection.call, forceClose, if_neg h.not_live, pure_eq_ok], h.refl,
      fun _ => rfl⟩
  | startRead =>
    cases inLoop with
    | true => exact absurd ⟨rfl, rfl⟩ hstart
    | false =>
      exact ⟨_, rfl, h.emits _ (by simp [Effect.minor]) (by simp [Effect.invokes]), fun _ => rfl⟩
  | stopRead =>
    cases inLoop with
    | true =>
      obtain ⟨c', hc', hrests, hch⟩ := h.stopReadInLoop
      exact ⟨c', hc', hrests, fun hn => hch (hn ⟨rfl, rfl⟩)⟩
    | false =>
      exact ⟨_, rfl, h.emits _ (by simp [Effect.minor]) (by simp [Effect.invokes]), fun _ => rfl⟩

/-- `connectDestroyed` does nothing but remove the channel. -/
theorem AtRest.connectDestroyed {c : TcpConnection} (h : AtRest c) (hk : c.Known) :
    ∃ c', c.connectDestroyed = .ok c' ∧ AtRest c' ∧ ¬ c'.Known ∧
      c'.channel.eventHandling = c.channel.eventHandling ∧ c'.effects = c.effects := by
  obtain ⟨ch, hch, hcoh, hev, hidx, hhand⟩ := Channel.remove_spec h.sound.coherent h.interest hk
  refine ⟨{ c with channel := ch }, ?_, ⟨⟨h.sound.input, h.sound.output, hcoh⟩, h.state, hev⟩,
    by simp [Known, hidx], hhand, rfl⟩
  simp [TcpConnection.connectDestroyed, h.state, hch]

end TcpConnection

end Muduo
