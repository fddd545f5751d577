import Muduo.ConnectionLife
import Muduo.OutputStream

/-!
The three overloads of `send`. Those for a string and for a buffer look at
`state_` and at the calling thread; the one for a pointer does neither and goes
straight to `sendInLoop`.

* `sendInLoop_congr`: what a message is made of, apart from its bytes, matters
  to a partial write only;
* `sends_agree_iff`: when the overloads agree.
-/

namespace Muduo

open Lib Events

namespace TcpConnection

/-- What a `send` leaves to be seen: the socket stream, `outputBuffer_`, the
interest of the channel and the queued work. -/
structure Footprint where
  wire : List UInt8
  output : List UInt8
  interest : Events
  effects : List Effect

def footprint (c : TcpConnection) : Footprint :=
  ⟨c.wire, c.outputBuffer.content, c.channel.events, c.effects⟩

/-- Wherever the bytes `bs` lie, the three overloads leave the same footprint;
the buffer is emptied when the bytes are taken, which is in `kConnected` only;
and another thread does no more than queue a functor with a copy of them. -/
def SendsAgree (c : TcpConnection) (inLoop : Bool) (bs : List UInt8) (r : WriteResult) : Prop :=
  ∀ (m : Message) (b : Buffer), m.bytes = bs → b.WF → b.content = bs →
    ∃ c₁ c₂ c₃ b', c.sendPointer m r = .ok c₁ ∧ c.sendString inLoop bs r = .ok c₂ ∧
      c.sendBuffer inLoop b r = .ok (c₃, b') ∧
      c₁.footprint = c₂.footprint ∧ c₃.footprint = c₂.footprint ∧
      b'.content = (if c.state = .kConnected then [] else bs) ∧
      (c.state ≠ .kConnected → c₂.footprint = c.footprint) ∧
      (inLoop = false → c.state = .kConnected →
        ∃ f : Message, f.bytes = bs ∧ c₂ = c.emit (.quene (.sendInLoop f)))

/-- When they do. -/
def AgreeWhen (c : TcpConnection) (inLoop : Bool) (bs : List UInt8) (r : WriteResult) : Prop :=
  match c.state with
  | .kDisconnected => True
  | .kConnected => inLoop = true ∧ (bs = [] ∨ ¬ c.Idle ∨ r.taken = 0)
  | .kConnecting | .kDisconnecting =>
    ¬ c.Idle ∨ faultError r = true ∨
      bs = [] ∧ (r = .written 0 → c.writeCompleteCallback = false)

/-! ## `sendInLoop` by cases -/

theorem bytes_ofBytes (bs : List UInt8) : (Message.ofBytes bs).bytes = bs := Buffer.bytesAt_getD bs

theorem len_of_bytes {m : Message} {bs : List UInt8} (h : m.bytes = bs) : m.len = bs.length := by
  rw [← h, Message.bytes, length_bytesAt]

theorem bytesAt_inj {f g : Nat → UInt8} {n : Nat} (h : bytesAt f n = bytesAt g n) {i : Nat}
    (hi : i < n) : f i = g i := by
  have hget := congrArg (fun l => l[i]?) h
  simpa [bytesAt, hi] using hget

theorem sendInLoop_disconnected {c : TcpConnection} (h : c.state = .kDisconnected) (m : Message)
    (r : WriteResult) : c.sendInLoop m r = .ok c := by
  rw [sendInLoop, if_pos h, pure_eq_ok]

theorem faultError_taken {r : WriteResult} (h : faultError r = true) : r.taken = 0 := by
  cases r with
  | written n => simp [faultError] at h
  | failed e => rfl

theorem transmit_nil (c : TcpConnection) : c.transmit [] = c := by
  simp [transmit]

/-- `EPIPE` and `ECONNRESET`: nothing happens. -/
theorem sendInLoop_fault (c : TcpConnection) (m : Message) {r : WriteResult}
    (h : faultError r = true) : c.sendInLoop m r = .ok c := by
  have htaken : r.taken = 0 := faultError_taken h
  have hr : r ≠ .written 0 := by
    rintro rfl
    cases h
  unfold sendInLoop
  split
  · rfl
  split
  · rw [htaken]
    simp [h, transmit_nil]
  · rfl

/-- An empty message may queue the write-complete callback. -/
theorem sendInLoop_empty {c : TcpConnection} (hstate : c.state ≠ .kDisconnected) (hidle : c.Idle)
    {m : Message} (hlen : m.len = 0) (r : WriteResult) :
    c.sendInLoop m r = .ok (if r = .written 0 then c.queneWriteComplete else c) := by
  have hbytes : m.bytes = [] := by simp [Message.bytes, bytesAt, hlen]
  simp [sendInLoop, hstate, hidle.1, hidle.2, hlen, hbytes, transmit_nil]

/-- What is left of a message goes to the buffer. -/
theorem sendInLoop_buffers {c : TcpConnection} (h : c.Sound) (hstate : c.state ≠ .kDisconnected)
    (hidle : c.Idle) (m : Message) {r : WriteResult} (hr : faultError r = false) :
    ∃ c', c.sendInLoop m r = .ok c' ∧
      c'.outputBuffer.content = bytesAt (fun i => m.data (r.taken + i)) m.len := by
  obtain ⟨b, ch, hc', -, -, hcontent⟩ :=
    sendInLoop_idle_eq hstate h.output h.coherent hidle m hr
  exact ⟨_, hc', hcontent⟩

theorem sendInLoop_grows {c c' : TcpConnection} (h : c.Sound) (hstate : c.state ≠ .kDisconnected)
    (hidle : c.Idle) {bs : List UInt8} (hbs : bs ≠ []) {r : WriteResult}
    (hr : ¬ faultError r = true) (hs : c.sendInLoop (Message.ofBytes bs) r = .ok c') :
    c'.outputBuffer.content ≠ c.outputBuffer.content := by
  have hlen : bs.length ≠ 0 := fun hlen => hbs (List.length_eq_zero_iff.mp hlen)
  obtain ⟨d, hd, hout⟩ := sendInLoop_buffers h hstate hidle (Message.ofBytes bs) (by simpa using hr)
  cases hs.symm.trans hd
  intro houtput
  rw [houtput, (Buffer.content_eq_nil h.output).mpr hidle.2] at hout
  have := congrArg List.length hout
  rw [length_bytesAt] at this
  exact hlen this.symm

/-- When nothing is written directly, only the bytes of a message matter. -/
theorem sendInLoop_congr (c : TcpConnection) {m m' : Message} (hbytes : m.bytes = m'.bytes)
    {r : WriteResult} (hr : m.len = 0 ∨ r.taken = 0) : c.sendInLoop m r = c.sendInLoop m' r := by
  have hlen : m.len = m'.len := by
    have := congrArg List.length hbytes
    simpa [Message.bytes] using this
  have hremaining : ∀ c : TcpConnection, m.len ≠ 0 →
      c.sendRemaining m r.taken = c.sendRemaining m' r.taken := by
    intro c hne
    have htaken : r.taken = 0 := hr.resolve_left hne
    have hdata : bytesAt (fun i => m.data (r.taken + i)) m.len =
        bytesAt (fun i => m'.data (r.taken + i)) m'.len := by
      simpa [htaken, Message.bytes] using hbytes
    simp only [sendRemaining, ← hlen] at hdata ⊢
    rw [Buffer.append_congr _ hdata]
  unfold sendInLoop
  rw [← hbytes, ← hlen]
  split
  · rfl
  split
  · dsimp only
    split
    · rename_i hsend
      exact hremaining _ (by simp at hsend; exact hsend.2)
    · rfl
  · rfl

/-! ## The overloads -/

theorem sendString_loop {c : TcpConnection} (h : c.state = .kConnected) (bs : List UInt8)
    (r : WriteResult) : c.sendString true bs r = c.sendInLoop (Message.ofBytes bs) r := by
  simp [sendString, h, runInLoop, runFunctor]

theorem sendString_thread {c : TcpConnection} (h : c.state = .kConnected) (bs : List UInt8)
    (r : WriteResult) :
    c.sendString false bs r = .ok (c.emit (.quene (.sendInLoop (Message.ofBytes bs)))) := by
  simp [sendString, h, runInLoop]

theorem sendString_refused {c : TcpConnection} (h : c.state ≠ .kConnected) (inLoop : Bool)
    (bs : List UInt8) (r : WriteResult) : c.sendString inLoop bs r = .ok c := by
  rw [sendString, if_neg h, pure_eq_ok]

theorem sendBuffer_loop {c : TcpConnection} (h : c.state = .kConnected) (b : Buffer)
    (r : WriteResult) :
    c.sendBuffer true b r =
      (c.sendInLoop ⟨b.peek, b.readableBytes⟩ r >>= fun c => .ok (c, b.retrieveAll)) := by
  simp [sendBuffer, h]

theorem sendBuffer_thread {c : TcpConnection} (h : c.state = .kConnected) {b : Buffer} (hb : b.WF)
    (r : WriteResult) :
    ∃ b', b'.content = [] ∧ c.sendBuffer false b r =
      .ok (c.emit (.quene (.sendInLoop (Message.ofBytes b.content))), b') := by
  obtain ⟨b', hb', hret⟩ := Buffer.retrieveAsString_spec hb (Nat.le_refl b.readableBytes)
  rw [Buffer.retrieve_readable] at hret
  cases hret
  rw [← Buffer.length_content hb, List.take_length] at hb'
  refine ⟨b.retrieveAll, (Buffer.retrieveAll_becomes hb).content, ?_⟩
  simp [sendBuffer, h, Buffer.retrieveAllAsString, ← Buffer.length_content hb, hb']

theorem sendBuffer_refused {c : TcpConnection} (h : c.state ≠ .kConnected) (inLoop : Bool)
    (b : Buffer) (r : WriteResult) : c.sendBuffer inLoop b r = .ok (c, b) := by
  rw [sendBuffer, if_neg h, pure_eq_ok]

theorem peek_bytes {b : Buffer} (hb : b.WF) :
    (⟨b.peek, b.readableBytes⟩ : Message).bytes = b.content := by
  have hall : b.content.take b.readableBytes = b.content := by
    rw [← Buffer.length_content hb, List.take_length]
  rw [Message.bytes, Buffer.bytesAt_peek hb (Nat.le_refl _), hall]

/-- Some buffer holds the bytes. -/
theorem exists_buffer (bs : List UInt8) : ∃ b : Buffer, b.WF ∧ b.content = bs := by
  obtain ⟨b, -, hbec⟩ := Buffer.append_spec (Buffer.fresh_WF 0) (fun i => bs.getD i 0) bs.length
  exact ⟨b, hbec.wf, by rw [hbec.content, Buffer.fresh_content, Buffer.bytesAt_getD, List.nil_append]⟩

/-! ## When they agree -/

/-- One run of `sendInLoop` behind all three. -/
theorem agree_of_loop {c c' : TcpConnection} (hstate : c.state = .kConnected) {bs : List UInt8}
    {r : WriteResult} (h : ∀ m : Message, m.bytes = bs → c.sendInLoop m r = .ok c') :
    c.SendsAgree true bs r := by
  intro m b hm hb hcontent
  refine ⟨c', c', c', b.retrieveAll, h m hm, ?_, ?_, rfl, rfl, ?_, fun hne => absurd hstate hne, nofun⟩
  · rw [sendString_loop hstate, h _ (bytes_ofBytes bs)]
  · rw [sendBuffer_loop hstate, h _ ((peek_bytes hb).trans hcontent), ok_bind]
  · rw [if_pos hstate]
    exact (Buffer.retrieveAll_becomes hb).content

/-- None of the three does anything. -/
theorem agree_of_refused {c : TcpConnection} (hstate : c.state ≠ .kConnected) {inLoop : Bool}
    {bs : List UInt8} {r : WriteResult} (h : ∀ m : Message, m.bytes = bs → c.sendInLoop m r = .ok c) :
    c.SendsAgree inLoop bs r := by
  intro m b hm _ hcontent
  refine ⟨c, c, c, b, h m hm, sendString_refused hstate .., sendBuffer_refused hstate .., rfl, rfl,
    ?_, fun _ => rfl, fun _ hc => absurd hc hstate⟩
  rw [if_neg hstate, hcontent]

theorem refused_agree {c : TcpConnection} {inLoop : Bool} {bs : List UInt8} {r : WriteResult}
    (hrefused : c.state ≠ .kConnected)
    (h : ¬ c.Idle ∨ faultError r = true ∨ bs = [] ∧ (r = .written 0 → c.writeCompleteCallback = false)) :
    c.SendsAgree inLoop bs r := by
  apply agree_of_refused hrefused
  intro m hm
  by_cases hidle : c.Idle
  · by_cases hstate : c.state = .kDisconnected
    · exact sendInLoop_disconnected hstate m r
    rcases h with h | h | ⟨rfl, h⟩
    · exact absurd hidle h
    · exact sendInLoop_fault c m h
    · rw [sendInLoop_empty hstate hidle (len_of_bytes hm)]
      split
      · rename_i hr
        rw [queneWriteComplete, if_neg (by simp [h hr])]
        simp [emits]
      · rfl
  · exact sendInLoop_busy hidle m r

/-- A message whose neighbours in memory are ones. -/
def ones (bs : List UInt8) : Message := ⟨fun i => if i < bs.length then bs.getD i 0 else 1, bs.length⟩

theorem bytes_ones (bs : List UInt8) : (ones bs).bytes = bs := by
  apply List.ext_getElem?
  intro i
  by_cases hi : i < bs.length
  · simp [ones, Message.bytes, bytesAt, hi]
  · simp [ones, Message.bytes, bytesAt, hi]

/-- A partial write reads behind the message. -/
theorem partial_write_differs {c : TcpConnection} (h : c.Sound) (hstate : c.state = .kConnected)
    (hidle : c.Idle) {bs : List UInt8} (hbs : bs ≠ []) {r : WriteResult} (hr : r.taken ≠ 0) :
    ¬ c.SendsAgree true bs r := by
  intro hagree
  obtain ⟨b, hb, hcontent⟩ := exists_buffer bs
  obtain ⟨c₁, c₂, c₃, b', h₁, h₂, -, h₁₂, -⟩ := hagree (ones bs) b (bytes_ones bs) hb hcontent
  have hlive : c.state ≠ .kDisconnected := by simp [hstate]
  have hlen : bs.length ≠ 0 := fun hlen => hbs (List.length_eq_zero_iff.mp hlen)
  have hfault : faultError r = false := by
    by_contra hf
    exact hr (faultError_taken (by simpa using hf))
  obtain ⟨d₁, hd₁, hout₁⟩ := sendInLoop_buffers h hlive hidle (ones bs) hfault
  obtain ⟨d₂, hd₂, hout₂⟩ := sendInLoop_buffers h hlive hidle (Message.ofBytes bs) hfault
  rw [sendString_loop hstate] at h₂
  cases h₁.symm.trans hd₁
  cases h₂.symm.trans hd₂
  have hout : c₁.outputBuffer.content = c₂.outputBuffer.content := congrArg Footprint.output h₁₂
  rw [hout₁, hout₂] at hout
  have hlast := bytesAt_inj hout (i := bs.length - 1) (by simp only [ones]; omega)
  have hge : bs.length ≤ r.taken + (bs.length - 1) := by omega
  simp [ones, Message.ofBytes, Nat.not_lt.mpr hge] at hlast

/-- What a `send` from another thread leaves, if it is taken, is one functor. -/
theorem pointer_not_queued {c : TcpConnection} (h : c.Sound) (hstate : c.state = .kConnected)
    (bs : List UInt8) (r : WriteResult) : ¬ c.SendsAgree false bs r := by
  intro hagree
  obtain ⟨b, hb, hcontent⟩ := exists_buffer bs
  obtain ⟨c₁, c₂, c₃, b', h₁, h₂, -, h₁₂, -⟩ :=
    hagree (Message.ofBytes bs) b (bytes_ofBytes bs) hb hcontent
  cases (sendString_thread hstate bs r).symm.trans h₂
  have hlive : c.state ≠ .kDisconnected := by simp [hstate]
  have heffects : c₁.effects = c.effects ++ [.quene (.sendInLoop (Message.ofBytes bs))] :=
    congrArg Footprint.effects h₁₂
  have houtput : c₁.outputBuffer.content = c.outputBuffer.content := congrArg Footprint.output h₁₂
  have hquiet : c₁ ≠ c := by
    rintro rfl
    simp at heffects
  by_cases hidle : c.Idle
  · by_cases hfault : faultError r = true
    · exact hquiet (Except.ok.inj (h₁.symm.trans (sendInLoop_fault c _ hfault)))
    by_cases hbs : bs = []
    · -- at most the write-complete callback is queued
      subst hbs
      cases h₁.symm.trans (sendInLoop_empty hlive hidle rfl r)
      revert heffects
      split
      · unfold queneWriteComplete
        split <;> simp
      · simp
    · exact sendInLoop_grows h hlive hidle hbs hfault h₁ houtput
  · exact hquiet (Except.ok.inj (h₁.symm.trans (sendInLoop_busy hidle _ r)))

/-- The pointer overload sends before `kConnected`, and behind it. -/
theorem pointer_not_refused {c : TcpConnection} (h : c.Sound) (hrefused : c.state ≠ .kConnected)
    (hlive : c.state ≠ .kDisconnected) (hidle : c.Idle) {inLoop : Bool} {bs : List UInt8}
    {r : WriteResult} (hfault : ¬ faultError r = true)
    (hsome : ¬ (bs = [] ∧ (r = .written 0 → c.writeCompleteCallback = false))) :
    ¬ c.SendsAgree inLoop bs r := by
  intro hagree
  obtain ⟨b, hb, hcontent⟩ := exists_buffer bs
  obtain ⟨c₁, c₂, c₃, b', h₁, h₂, -, h₁₂, -⟩ :=
    hagree (Message.ofBytes bs) b (bytes_ofBytes bs) hb hcontent
  cases (sendString_refused hrefused inLoop bs r).symm.trans h₂
  by_cases hbs : bs = []
  · subst hbs
    have hwrite : r = .written 0 ∧ c.writeCompleteCallback = true := by
      simpa using hsome
    cases h₁.symm.trans (sendInLoop_empty hlive hidle rfl r)
    have heffects := congrArg Footprint.effects h₁₂
    simp [footprint, hwrite.1, queneWriteComplete, hwrite.2] at heffects
  · exact sendInLoop_grows h hlive hidle hbs hfault h₁ (congrArg Footprint.output h₁₂)

/-- **When the overloads agree.** In the loop thread, on a connected connection,
unless the kernel takes a part of the message; and elsewhere only where
`sendInLoop` has nothing to do. -/
theorem sends_agree_iff {c : TcpConnection} (h : c.Sound) (inLoop : Bool) (bs : List UInt8)
    (r : WriteResult) : c.SendsAgree inLoop bs r ↔ c.AgreeWhen inLoop bs r := by
  constructor
  · intro hagree
    unfold AgreeWhen
    cases hstate : c.state with
    | kDisconnected => trivial
    | kConnected =>
      cases inLoop with
      | false => exact absurd hagree (pointer_not_queued h hstate bs r)
      | true =>
        refine ⟨rfl, ?_⟩
        by_contra hwhen
        obtain ⟨hbs, hwhen⟩ := not_or.mp hwhen
        obtain ⟨hidle, hr⟩ := not_or.mp hwhen
        exact partial_write_differs h hstate (not_not.mp hidle) hbs hr hagree
    | kConnecting =>
      by_contra hwhen
      obtain ⟨hidle, hwhen⟩ := not_or.mp hwhen
      obtain ⟨hfault, hsome⟩ := not_or.mp hwhen
      exact pointer_not_refused h (by simp [hstate]) (by simp [hstate]) (not_not.mp hidle) hfault
        hsome hagree
    | kDisconnecting =>
      by_contra hwhen
      obtain ⟨hidle, hwhen⟩ := not_or.mp hwhen
      obtain ⟨hfault, hsome⟩ := not_or.mp hwhen
      exact pointer_not_refused h (by simp [hstate]) (by simp [hstate]) (not_not.mp hidle) hfault
        hsome hagree
  · intro hwhen
    unfold AgreeWhen at hwhen
    cases hstate : c.state with
    | kDisconnected =>
      exact agree_of_refused (by simp [hstate]) fun m _ => sendInLoop_disconnected hstate m r
    | kConnected =>
      rw [hstate] at hwhen
      obtain ⟨rfl, hwhen⟩ := hwhen
      obtain ⟨c', hc', -⟩ := sendInLoop_calm h (Message.ofBytes bs) r
      have hall : ∀ m : Message, m.bytes = bs → c.sendInLoop m r = .ok c' := by
        intro m hm
        by_cases hidle : c.Idle
        · have hr : m.len = 0 ∨ r.taken = 0 := by
            rw [len_of_bytes hm]
            rcases hwhen with rfl | hbusy | hr
            · exact .inl rfl
            · exact absurd hidle hbusy
            · exact .inr hr
          rw [sendInLoop_congr c (hm.trans (bytes_ofBytes bs).symm) hr, hc']
        · rw [sendInLoop_busy hidle] at hc' ⊢
          exact hc'
      exact agree_of_loop hstate hall
    | kConnecting =>
      rw [hstate] at hwhen
      exact refused_agree (by simp [hstate]) hwhen
    | kDisconnecting =>
      rw [hstate] at hwhen
      exact refused_agree (by simp [hstate]) hwhen

theorem established_sound (w : Bool) : (established w).Sound :=
  ⟨Buffer.fresh_WF _, Buffer.fresh_WF _, established_coherent w⟩

theorem sends_agree_iff_sample : (established true).SendsAgree true [1, 2, 3] (.failed .EAGAIN) :=
  (sends_agree_iff (established_sound true) true [1, 2, 3] (.failed .EAGAIN)).mpr
    ⟨rfl, .inr (.inr rfl)⟩

/-- A call of another thread: only two of the overloads queue a functor. -/
theorem sends_from_thread_differ :
    (established true).state = .kConnected ∧
      ¬ (established true).SendsAgree false [1, 2, 3] (.written 3) :=
  ⟨rfl, pointer_not_queued (established_sound true) rfl [1, 2, 3] (.written 3)⟩

end TcpConnection

end Muduo
