import Muduo.ServerConnections
import Muduo.SharedServer

/-!
What the functions of a connection and of the server queue. In the loop thread
each functor that comes holds a pointer (`runFunctor_owning`, `call_owning`), and
an entry goes only where `connectDestroyed` comes (`Touches`).
-/

namespace Muduo

open Lib Events

/-! ## What the functions of a connection queue -/

/-- A functor that is queued holds a pointer. -/
def Effect.owns : Effect → Bool
  | .quene f => f.holds
  | _ => true

namespace TcpConnection

def Owning (c : TcpConnection) : Prop := ∀ e ∈ c.effects, e.owns = true

theorem emits_owning {c : TcpConnection} (h : c.Owning) {es : List Effect}
    (hes : ∀ e ∈ es, e.owns = true) : (c.emits es).Owning := by
  intro e he
  rcases List.mem_append.mp he with he | he
  · exact h e he
  · exact hes e he

theorem queneWriteComplete_owning {c : TcpConnection} (h : c.Owning) : c.queneWriteComplete.Owning := by
  apply emits_owning h
  intro e he
  split at he
  · obtain rfl := List.mem_singleton.mp he
    rfl
  · cases he

theorem queneHighWaterMark_owning {c : TcpConnection} (h : c.Owning) (remaining : Nat) :
    (c.queneHighWaterMark remaining).Owning := by
  apply emits_owning h
  intro e he
  split at he
  · obtain rfl := List.mem_singleton.mp he
    rfl
  · cases he

theorem startWriting_owning {c c' : TcpConnection} (h : c.Owning) (hc : c.startWriting = .ok c') :
    c'.Owning := by
  unfold startWriting at hc
  split at hc
  · cases hc
    exact h
  · obtain ⟨channel, -, hc⟩ := bind_eq_ok.mp hc
    cases hc
    exact h

theorem sendRemaining_owning {c c' : TcpConnection} (h : c.Owning) {m : Message} {nwrote : Nat}
    (hc : c.sendRemaining m nwrote = .ok c') : c'.Owning := by
  obtain ⟨outputBuffer, -, hc⟩ := bind_eq_ok.mp hc
  refine startWriting_owning ?_ hc
  exact queneHighWaterMark_owning h m.len

theorem sendInLoop_owning {c c' : TcpConnection} (h : c.Owning) {m : Message} {r : WriteResult}
    (hc : c.sendInLoop m r = .ok c') : c'.Owning := by
  have hdirect : (if r = .written 0 then (c.transmit (m.bytes.take r.taken)).queneWriteComplete
      else c.transmit (m.bytes.take r.taken)).Owning := by
    split
    · exact queneWriteComplete_owning h
    · exact h
  unfold sendInLoop at hc
  split at hc
  · cases hc
    exact h
  split at hc
  · dsimp only at hc
    split at hc
    · exact sendRemaining_owning hdirect hc
    · cases hc
      exact hdirect
  · cases hc
    exact h

theorem shutdownInLoop_owning {c : TcpConnection} (h : c.Owning) : c.shutdownInLoop.Owning := by
  unfold shutdownInLoop
  split
  · exact h
  · exact emits_owning h (by simp [Effect.owns])

theorem written_owning {c c' : TcpConnection} (h : c.Owning) {n : Nat} (hc : c.written n = .ok c') :
    c'.Owning := by
  obtain ⟨outputBuffer, -, hc⟩ := bind_eq_ok.mp hc
  split at hc
  · obtain ⟨channel, -, hc⟩ := bind_eq_ok.mp hc
    have hdone := queneWriteComplete_owning (c := { c.transmit ((bytesAt c.outputBuffer.peek
      c.outputBuffer.readableBytes).take n) with outputBuffer, channel }) h
    cases hc
    split
    · exact shutdownInLoop_owning hdone
    · exact hdone
  · cases hc
    exact h

theorem handleWrite_owning {c c' : TcpConnection} (h : c.Owning) {r : WriteResult}
    (hc : c.handleWrite r = .ok c') : c'.Owning := by
  unfold handleWrite at hc
  split at hc
  · split at hc
    · exact written_owning h hc
    · cases hc
      split
      · exact shutdownInLoop_owning h
      · exact h
  · cases hc
    exact h

theorem handleClose_owning {c c' : TcpConnection} (h : c.Owning) (hc : c.handleClose = .ok c') :
    c'.Owning := by
  obtain ⟨u, -, hc⟩ := bind_eq_ok.mp hc
  obtain ⟨channel, -, hc⟩ := bind_eq_ok.mp hc
  cases hc
  exact emits_owning (emits_owning h (by simp [Effect.owns])) (by simp [Effect.owns])

theorem handleRead_owning {c c' : TcpConnection} (h : c.Owning) {r : ReadResult}
    (hc : c.handleRead r = .ok c') : c'.Owning := by
  obtain ⟨inputBuffer, -, hc⟩ := bind_eq_ok.mp hc
  dsimp only at hc
  split at hc
  · cases hc
    exact emits_owning h (by simp [Effect.owns])
  · exact handleClose_owning (c := { c with inputBuffer }) h hc
  · cases hc
    exact h

theorem handleEvent_owning {c c' : TcpConnection} (h : c.Owning) {revents : Events}
    {read : ReadResult} {write : WriteResult} (hc : c.handleEvent revents read write = .ok c') :
    c'.Owning := by
  obtain ⟨c₁, hguard, hc⟩ := bind_eq_ok.mp hc
  cases hc
  have hcbs : (callbacks read write).Preserve Owning := by
    constructor
    · rintro _ ⟨⟩ c c' h hc
      exact handleClose_owning h hc
    · rintro _ ⟨⟩ c c' h hc
      cases hc
      exact h
    · rintro _ ⟨⟩ c c' h hc
      exact handleRead_owning h hc
    · rintro _ ⟨⟩ c c' h hc
      exact handleWrite_owning h hc
  have hstart : (c.setEventHandling true).Owning := h
  have hend : c₁.Owning := Channel.handleEventWithGuard_invariant hcbs hstart hguard
  exact hend

theorem startReadInLoop_owning {c c' : TcpConnection} (h : c.Owning)
    (hc : c.startReadInLoop = .ok c') : c'.Owning := by
  unfold startReadInLoop at hc
  split at hc
  · obtain ⟨channel, -, hc⟩ := bind_eq_ok.mp hc
    cases hc
    exact h
  · cases hc
    exact h

theorem stopReadInLoop_owning {c c' : TcpConnection} (h : c.Owning)
    (hc : c.stopReadInLoop = .ok c') : c'.Owning := by
  unfold stopReadInLoop at hc
  split at hc
  · obtain ⟨channel, -, hc⟩ := bind_eq_ok.mp hc
    cases hc
    exact h
  · cases hc
    exact h

theorem runFunctor_owning {c c' : TcpConnection} (h : c.Owning) {f : Functor} {write : WriteResult}
    (hc : c.runFunctor f write = .ok c') : c'.Owning := by
  cases f with
  | connectEstablished =>
    obtain ⟨u, -, hc⟩ := bind_eq_ok.mp hc
    obtain ⟨channel, -, hc⟩ := bind_eq_ok.mp hc
    cases hc
    exact emits_owning h (by simp [Effect.owns])
  | connectDestroyed =>
    simp only [runFunctor, connectDestroyed, pure_eq_ok, ok_bind] at hc
    split at hc
    · obtain ⟨channel, -, hc⟩ := bind_eq_ok.mp hc
      obtain ⟨channel', -, hc⟩ := bind_eq_ok.mp hc
      cases hc
      exact emits_owning h (by simp [Effect.owns])
    · obtain ⟨channel, -, hc⟩ := bind_eq_ok.mp hc
      cases hc
      exact h
  | sendInLoop m => exact sendInLoop_owning h hc
  | shutdownInLoop =>
    cases hc
    exact shutdownInLoop_owning h
  | forceCloseInLoop =>
    simp only [runFunctor, forceCloseInLoop] at hc
    split at hc
    · exact handleClose_owning h hc
    · cases hc
      exact h
  | startReadInLoop => exact startReadInLoop_owning h hc
  | stopReadInLoop => exact stopReadInLoop_owning h hc
  | writeCompleteCallback =>
    cases hc
    exact emits_owning h (by simp [Effect.owns])
  | highWaterMarkCallback size =>
    cases hc
    exact emits_owning h (by simp [Effect.owns])

/-- In the loop thread a call queues nothing that is bound to the plain `this`. -/
theorem call_owning {c c' : TcpConnection} (h : c.Owning) {k : Call} {write : WriteResult}
    (hc : c.call true write k = .ok c') : c'.Owning := by
  cases k with
  | sendPointer m => exact sendInLoop_owning h hc
  | sendString message =>
    simp only [call, sendString] at hc
    split at hc
    · exact sendInLoop_owning h hc
    · cases hc
      exact h
  | sendBuffer message =>
    simp only [call, sendBuffer] at hc
    split at hc
    · obtain ⟨⟨c₁, b⟩, hc₁, hc⟩ := bind_eq_ok.mp hc
      cases hc
      obtain ⟨c₂, hc₂, hc₁⟩ := bind_eq_ok.mp hc₁
      cases hc₁
      exact sendInLoop_owning h hc₂
    · cases hc
      exact h
  | shutdown =>
    simp only [call, shutdown] at hc
    split at hc
    · cases hc
      exact shutdownInLoop_owning (c := c.setState .kDisconnecting) h
    · cases hc
      exact h
  | forceClose =>
    cases hc
    unfold forceClose
    split
    · exact emits_owning (c := c.setState .kDisconnecting) h (by simp [Effect.owns, Functor.holds])
    · exact h
  | startRead => exact startReadInLoop_owning h hc
  | stopRead => exact stopReadInLoop_owning h hc

end TcpConnection

/-! ## What the functions of the server queue -/

namespace TcpServer

/-- Names are those of `newConnection`, and no two connections have one name. -/
structure Named (s : TcpServer) : Prop where
  nextConnId : s.nextConnId = s.accepted.length + 1
  small : s.nextConnId ≤ intMax
  names : ∀ k c, s.accepted[k]? = some c → c.name = s.connName (k + 1)
  entries : ∀ name k, s.connections name = some k →
    k < s.accepted.length ∧ name = s.connName (k + 1)

/-- Some functor of the list holds a pointer to the connection. -/
def Holding (k : Nat) (ts : List (Nat × Task)) : Prop := ∃ t ∈ ts, t.1 = k ∧ t.2.holds = true

/-- Some functor of the list is bound to the plain `this`. -/
def Plain (k : Nat) (ts : List (Nat × Task)) : Prop := ∃ t ∈ ts, t.1 = k ∧ t.2.holds = false

theorem Holding.mono {k : Nat} {ts ts' : List (Nat × Task)} (h : Holding k ts)
    (hsub : ∀ t ∈ ts, t ∈ ts') : Holding k ts' := by
  obtain ⟨t, ht, hk⟩ := h
  exact ⟨t, hsub t ht, hk⟩

/-- `connectDestroyed` of the connection has not been queued yet. -/
def Removable (s : TcpServer) (k : Nat) : Prop :=
  (∃ name, s.connections name = some k) ∨
    ∃ loop, (k, .removeConnectionInLoop) ∈ s.pendingFunctors loop

end TcpServer

/-- What the functions of a server leave alone. -/
def Accepted.view (c : Accepted) : Bool × String × Nat := (c.destructed, c.name, c.loop)

namespace TcpServer

theorem view_of_map {l l' : List Accepted} (h : l'.map Accepted.view = l.map Accepted.view) {k : Nat}
    {c : Accepted} (hc : l[k]? = some c) : ∃ c', l'[k]? = some c' ∧ c'.view = c.view := by
  have hk : (l'.map Accepted.view)[k]? = some c.view := by rw [h, List.getElem?_map, hc]; rfl
  rw [List.getElem?_map, Option.map_eq_some_iff] at hk
  exact hk

theorem set_view {s : TcpServer} {k : Nat} {c c' : Accepted} (hc : s.accepted[k]? = some c)
    (hview : c'.view = c.view) :
    (s.setAccepted k c').accepted.map Accepted.view = s.accepted.map Accepted.view := by
  apply List.ext_getElem?
  intro j
  by_cases hjk : k = j
  · subst hjk
    obtain ⟨hlt, rfl⟩ := List.getElem?_eq_some_iff.mp hc
    simp [setAccepted, hlt, hview]
  · simp [setAccepted, List.getElem?_set_ne hjk]

/-- The functors queued between `s` and `s'`. -/
def news (s s' : TcpServer) (loop : Nat) : List (Nat × Task) :=
  (s'.pendingFunctors loop).drop (s.pendingFunctors loop).length

/-- A function about the connection `k` leads from `s` to `s'`, in the loop thread:
it queues functors that hold pointers to `k`, and where it removes the entry of `k`,
one of them is in the loop of `k`. -/
structure Touches (k : Nat) (s s' : TcpServer) : Prop where
  view : s'.accepted.map Accepted.view = s.accepted.map Accepted.view
  queue : ∀ loop, s.pendingFunctors loop <+: s'.pendingFunctors loop
  holds : ∀ loop, ∀ t ∈ news s s' loop, t.1 = k ∧ t.2.holds = true
  entries : ∀ name j, s'.connections name = some j → s.connections name = some j
  named : s.Named → s'.Named
  kept : s.Named → ∀ j, s.Removable j →
    s'.Removable j ∨ j = k ∧ ∃ c, s.accepted[k]? = some c ∧ Holding k (news s s' c.loop)

theorem news_self (s : TcpServer) (loop : Nat) : news s s loop = [] := by simp [news]

theorem Touches.append {k : Nat} {s s' : TcpServer} (h : Touches k s s') (loop : Nat) :
    s'.pendingFunctors loop = s.pendingFunctors loop ++ news s s' loop :=
  (List.prefix_iff_eq_append.mp (h.queue loop)).symm

theorem Touches.news_trans {k : Nat} {s s' s'' : TcpServer} (h : Touches k s s')
    (h' : Touches k s' s'') (loop : Nat) : news s s'' loop = news s s' loop ++ news s' s'' loop := by
  rw [news, h'.append, h.append, List.append_assoc, List.drop_left]

theorem Touches.view_of {k : Nat} {s s' : TcpServer} (h : Touches k s s') {j : Nat} {c : Accepted}
    (hc : s.accepted[j]? = some c) : ∃ c', s'.accepted[j]? = some c' ∧ c'.view = c.view :=
  view_of_map h.view hc

theorem Touches.there {k : Nat} {s s' : TcpServer} (h : Touches k s s') {j : Nat}
    (hj : s.There j) : s'.There j := by
  obtain ⟨c, hc, hthere⟩ := hj
  obtain ⟨c', hc', hview⟩ := h.view_of hc
  have hd : c'.destructed = c.destructed := congrArg Prod.fst hview
  exact ⟨c', hc', hd.trans hthere⟩

theorem Touches.refl (k : Nat) (s : TcpServer) : Touches k s s :=
  ⟨rfl, fun _ => List.prefix_rfl, fun loop => by simp [news_self], fun _ _ h => h, id, fun _ _ h => .inl h⟩

theorem Touches.trans {k : Nat} {s s' s'' : TcpServer} (h : Touches k s s')
    (h' : Touches k s' s'') : Touches k s s'' := by
  refine ⟨h'.view.trans h.view, fun loop => (h.queue loop).trans (h'.queue loop), ?_,
    fun name j hj => h.entries name j (h'.entries name j hj), fun hn => h'.named (h.named hn), ?_⟩
  · intro loop t ht
    rw [h.news_trans h'] at ht
    rcases List.mem_append.mp ht with ht | ht
    · exact h.holds loop t ht
    · exact h'.holds loop t ht
  · intro hn j hj
    rcases h.kept hn j hj with hj' | ⟨rfl, c, hc, hholding⟩
    · rcases h'.kept (h.named hn) j hj' with hj'' | ⟨rfl, c', hc', hholding⟩
      · exact .inl hj''
      · obtain ⟨c, hc, hview⟩ := view_of_map h.view.symm hc'
        have hloop : c.loop = c'.loop := congrArg (fun v => v.2.2) hview
        refine .inr ⟨rfl, c, hc, hholding.mono fun t ht => ?_⟩
        rw [hloop, h.news_trans h']
        exact List.mem_append_right _ ht
    · refine .inr ⟨rfl, c, hc, hholding.mono fun t ht => ?_⟩
      rw [h.news_trans h']
      exact List.mem_append_left _ ht

theorem news_quene (s : TcpServer) (loop k : Nat) (t : Task) (l : Nat) :
    news s (s.queneInLoop loop k t) l = if l = loop then [(k, t)] else [] := by
  by_cases hl : l = loop
  · subst hl
    simp [news, queneInLoop]
  · simp [news, queneInLoop, hl]

theorem mem_quene {s : TcpServer} {loop k l : Nat} {t : Task} {t' : Nat × Task}
    (h : t' ∈ s.pendingFunctors l) : t' ∈ (s.queneInLoop loop k t).pendingFunctors l := by
  by_cases hl : l = loop
  · subst hl
    simp [queneInLoop, h]
  · simpa [queneInLoop, hl] using h

theorem Removable.quene {s : TcpServer} {j : Nat} (h : s.Removable j) (loop k : Nat) (t : Task) :
    (s.queneInLoop loop k t).Removable j := by
  rcases h with hentry | ⟨l, hl⟩
  · exact .inl hentry
  · exact .inr ⟨l, mem_quene hl⟩

theorem quene_touches (s : TcpServer) (loop k : Nat) {t : Task} (ht : t.holds = true) :
    Touches k s (s.queneInLoop loop k t) := by
  refine ⟨rfl, fun l => ?_, fun l t' ht' => ?_, fun _ _ h => h,
    fun h => ⟨h.nextConnId, h.small, h.names, h.entries⟩, fun _ j hj => .inl (hj.quene loop k t)⟩
  · by_cases hl : l = loop
    · subst hl
      simp [queneInLoop]
    · simp [queneInLoop, hl]
  · rw [news_quene] at ht'
    split at ht'
    · obtain rfl := List.mem_singleton.mp ht'
      exact ⟨rfl, ht⟩
    · cases ht'

theorem Named.set {s : TcpServer} (h : s.Named) {k : Nat} {c c' : Accepted}
    (hc : s.accepted[k]? = some c) (hname : c'.name = c.name) : (s.setAccepted k c').Named := by
  have hlength : (s.setAccepted k c').accepted.length = s.accepted.length := by simp [setAccepted]
  refine ⟨by rw [hlength]; exact h.nextConnId, h.small, fun i d hd => ?_, fun name i hi => ?_⟩
  · by_cases hik : k = i
    · subst hik
      have hlt : k < s.accepted.length := (List.getElem?_eq_some_iff.mp hc).1
      obtain rfl : c' = d := by simpa [setAccepted, hlt] using hd
      exact hname.trans (h.names k c hc)
    · exact h.names i d (by simpa [setAccepted, List.getElem?_set_ne hik] using hd)
  · rw [hlength]
    exact h.entries name i hi

theorem set_touches {s : TcpServer} {k : Nat} {c : Accepted} (hc : s.accepted[k]? = some c)
    (c' : Accepted) (hview : c'.view = c.view) (j : Nat) : Touches j s (s.setAccepted k c') := by
  refine ⟨set_view hc hview, fun _ => List.prefix_rfl, fun l => ?_, fun _ _ h => h,
    fun h => h.set hc (congrArg (fun v => v.2.1) hview), fun _ _ h => .inl h⟩
  have hnews : news s (s.setAccepted k c') l = [] := news_self s l
  simp [hnews]

theorem Named.connName_ne {s : TcpServer} (h : s.Named) {i j : Nat} (hi : i ≤ s.nextConnId)
    (hj : j ≤ s.nextConnId) (hne : i ≠ j) : s.connName i ≠ s.connName j :=
  fun heq => hne (connName_inj (hi.trans h.small) (hj.trans h.small) heq)

/-- The other connections have other names. -/
theorem Named.entry_kept {s : TcpServer} (h : s.Named) {k j : Nat} {c : Accepted}
    (hc : s.accepted[k]? = some c) {name : String} (hname : s.connections name = some j)
    (hjk : j ≠ k) : Function.update s.connections c.name none name = some j := by
  obtain ⟨hlt, hj⟩ := h.entries name j hname
  have hltk : k < s.accepted.length := (List.getElem?_eq_some_iff.mp hc).1
  have hid := h.nextConnId
  have hne : name ≠ c.name := by
    rw [hj, h.names k c hc]
    exact h.connName_ne (by omega) (by omega) (by omega)
  exact (Function.update_of_ne hne _ _).trans hname

theorem erase_entries {s : TcpServer} {gone name : String} {j : Nat}
    (h : Function.update s.connections gone none name = some j) : s.connections name = some j := by
  by_cases hn : name = gone
  · simp [hn] at h
  · simpa [hn] using h

theorem Named.erase {s : TcpServer} (h : s.Named) (gone : String) :
    Named { s with connections := Function.update s.connections gone none } :=
  ⟨h.nextConnId, h.small, h.names, fun name j hj => h.entries name j (erase_entries hj)⟩

/-- The entry goes, and `connectDestroyed` comes. -/
theorem removeConnectionInLoop_touches {s s' : TcpServer} {k : Nat}
    (h : s.removeConnectionInLoop k = .ok s') :
    Touches k s s' ∧ ∀ c, s.accepted[k]? = some c → Holding k (news s s' c.loop) := by
  unfold removeConnectionInLoop at h
  split at h
  · rename_i hnone
    cases h
    exact ⟨.refl k s, by simp [hnone]⟩
  rename_i c hc
  dsimp only at h
  obtain ⟨u, -, h⟩ := bind_eq_ok.mp h
  cases h
  let s₁ : TcpServer := { s with connections := Function.update s.connections c.name none }
  let s₂ : TcpServer := s₁.setAccepted k { c with log := c.log ++ [.removeConnectionInLoop] }
  have hset : Touches k s₁ s₂ := set_touches (s := s₁) hc _ (by rfl) k
  have hquene : Touches k s₂ (s₂.queneInLoop c.loop k (.functor .connectDestroyed)) :=
    quene_touches s₂ c.loop k rfl
  have hholding : Holding k (news s (s₂.queneInLoop c.loop k (.functor .connectDestroyed)) c.loop) := by
    have hnews := news_quene s₂ c.loop k (.functor .connectDestroyed) c.loop
    rw [if_pos rfl] at hnews
    exact ⟨(k, .functor .connectDestroyed), hnews ▸ List.mem_singleton_self _, rfl, rfl⟩
  refine ⟨⟨hset.view, hquene.queue, hquene.holds, fun _ _ => erase_entries, ?_, ?_⟩, ?_⟩
  · intro hn
    exact hquene.named (hset.named (hn.erase c.name))
  · rintro hn j (⟨name, hname⟩ | ⟨l, hl⟩)
    · by_cases hjk : j = k
      · subst hjk
        exact .inr ⟨rfl, c, hc, hholding⟩
      · exact .inl (.inl ⟨name, hn.entry_kept hc hname hjk⟩)
    · exact .inl (.inr ⟨l, mem_quene hl⟩)
  · intro c' hc'
    obtain rfl : c = c' := Option.some.inj (hc.symm.trans hc')
    exact hholding

theorem deliver_touches {s s' : TcpServer} {k loop : Nat} {e : Effect} (he : e.owns = true)
    (h : deliver k loop s e = .ok s') : Touches k s s' := by
  cases e with
  | quene f =>
    cases h
    exact quene_touches s loop k he
  | closeCallback =>
    simp only [deliver, removeConnection] at h
    split at h
    · exact (removeConnectionInLoop_touches h).1
    · cases h
      exact quene_touches s 0 k rfl
  | _ =>
    cases h
    exact .refl k s

/-- A function runs on a connection that is there. -/
theorem onConnection_touches {s s' : TcpServer} {k : Nat} {ms : List Milestone}
    {op : TcpConnection → Checked TcpConnection}
    (hop : ∀ c c', c.Owning → op c = .ok c' → c'.Owning)
    (h : s.onConnection k ms op = .ok s') : s' = s ∨ s.There k ∧ Touches k s s' := by
  unfold onConnection at h
  split at h
  · cases h
    exact .inl rfl
  rename_i c hc
  obtain ⟨u, hthere, h⟩ := bind_eq_ok.mp h
  obtain ⟨conn, hconn, h⟩ := bind_eq_ok.mp h
  refine .inr ⟨⟨c, hc, (check_eq_ok ..).mp hthere⟩, ?_⟩
  have howning : conn.Owning := hop _ conn (fun e he => absurd he List.not_mem_nil) hconn
  have hset : Touches k s (s.setAccepted k { c with conn, log := c.log ++ ms }) :=
    set_touches hc _ (by rfl) k
  refine (run_iff_foldlM.mpr h).invariant (Steps.of_forall howning) hset ?_
  intro t e t' ht he hstep
  exact ht.trans (deliver_touches he hstep)

theorem addConnection_there {s : TcpServer} {ioLoop next j : Nat} (hj : s.There j) :
    (s.addConnection ioLoop next).There j := by
  obtain ⟨c, hc, hthere⟩ := hj
  have hlt : j < s.accepted.length := (List.getElem?_eq_some_iff.mp hc).1
  exact ⟨c, by rwa [addConnection, List.getElem?_append_left hlt], hthere⟩

theorem addConnection_new (s : TcpServer) (ioLoop next : Nat) :
    (s.addConnection ioLoop next).There s.accepted.length :=
  ⟨_, List.getElem?_concat_length, rfl⟩

/-- The name of the new connection is new. -/
theorem Named.fresh {s : TcpServer} (h : s.Named) {name : String} {j : Nat}
    (hj : s.connections name = some j) : name ≠ s.connName s.nextConnId := by
  obtain ⟨hlt, hname⟩ := h.entries name j hj
  have hnext := h.nextConnId
  rw [hname]
  exact h.connName_ne (by omega) (by omega) (by omega)

theorem Named.addConnection {s : TcpServer} (h : s.Named) (hid : s.nextConnId < intMax)
    (ioLoop next : Nat) : (s.addConnection ioLoop next).Named := by
  have hnext := h.nextConnId
  refine ⟨by simp [TcpServer.addConnection, hnext], hid, fun k c hc => ?_, fun name k hk => ?_⟩
  · by_cases hlt : k < s.accepted.length
    · rw [TcpServer.addConnection, List.getElem?_append_left hlt] at hc
      exact h.names k c hc
    · have hlen : k < s.accepted.length + 1 := by
        simpa [TcpServer.addConnection] using (List.getElem?_eq_some_iff.mp hc).1
      obtain rfl : k = s.accepted.length := by omega
      rw [TcpServer.addConnection, List.getElem?_concat_length] at hc
      cases hc
      rw [← hnext]
      rfl
  · by_cases hn : name = s.connName s.nextConnId
    · subst hn
      obtain rfl : s.accepted.length = k := by simpa [TcpServer.addConnection] using hk
      refine ⟨by simp [TcpServer.addConnection], ?_⟩
      rw [← hnext]
      rfl
    · have hk' : s.connections name = some k := by simpa [TcpServer.addConnection, hn] using hk
      obtain ⟨hlt, hname⟩ := h.entries name k hk'
      refine ⟨?_, hname⟩
      simp only [TcpServer.addConnection, List.length_append, List.length_singleton]
      omega

theorem Removable.addConnection {s : TcpServer} {j : Nat} (h : s.Removable j) (hn : s.Named)
    (ioLoop next : Nat) : (s.addConnection ioLoop next).Removable j := by
  rcases h with ⟨name, hname⟩ | hremoval
  · exact .inl ⟨name, (Function.update_of_ne (hn.fresh hname) _ _).trans hname⟩
  · exact .inr hremoval

/-- `newConnection` adds a connection, and is a function about it. -/
theorem newConnection_touches {s s' : TcpServer} (h : s.newConnection = .ok s') :
    s.nextConnId < intMax ∧ ∃ ioLoop next, Touches s.accepted.length (s.addConnection ioLoop next) s' := by
  unfold newConnection at h
  obtain ⟨u, hid, h⟩ := bind_eq_ok.mp h
  refine ⟨(check_eq_ok ..).mp hid, s.getNextLoop.1, s.getNextLoop.2, ?_⟩
  dsimp only at h
  split at h
  · rcases onConnection_touches (fun c c' hc hc' => TcpConnection.runFunctor_owning hc hc') h with
      rfl | ⟨-, htouches⟩
    · exact .refl ..
    · exact htouches
  · cases h
    exact quene_touches _ _ _ rfl

/-- `~TcpConnection` leaves all but its connection. -/
theorem destruct_ok {s s' : TcpServer} {k : Nat} (h : s.destruct k = .ok s') :
    s' = s ∨ ∃ c, s.accepted[k]? = some c ∧
      s' = s.setAccepted k { c with destructed := true, log := c.log ++ [.destructed] } := by
  unfold destruct at h
  split at h
  · cases h
    exact .inl rfl
  · rename_i c hc
    obtain ⟨u, -, h⟩ := bind_eq_ok.mp h
    cases h
    exact .inr ⟨c, hc, rfl⟩

end TcpServer

end Muduo
