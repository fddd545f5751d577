import Muduo.LoopShares

/-!
Which steps of a server take a channel out of the poller: only the functors of the
connection's own loop. And a connection whose channel the poller knows has not been
destroyed.

* `Follows`, `Keeps`: one connection, and all of them;
* `Inv.keeps`: one lemma for each kind of step.
-/

namespace Muduo

open Lib Events

/-- When the object is gone, the poller does not have its channel. -/
def Accepted.Retired (c : Accepted) : Prop := c.destructed = true → ¬ c.conn.Known

/-- From `c` to `c'`, where the loops of `P` remove no channel. -/
structure Follows (P : Nat → Prop) (c c' : Accepted) : Prop where
  loop : c'.loop = c.loop
  retired : c.Retired → c'.Retired
  known : P c.loop → c.conn.Known → c'.conn.Known

theorem Follows.refl (P : Nat → Prop) (c : Accepted) : Follows P c c := ⟨rfl, id, fun _ => id⟩

theorem Follows.trans {P : Nat → Prop} {c c' c'' : Accepted} (h : Follows P c c')
    (h' : Follows P c' c'') : Follows P c c'' :=
  ⟨h'.loop.trans h.loop, h'.retired ∘ h.retired,
    fun hp hc => h'.known (h.loop ▸ hp) (h.known hp hc)⟩

theorem TcpConnection.Lives.known {c c' : TcpConnection} (h : c.Lives c') (hc : c.Known) :
    c'.Known := by
  cases h with
  | stays c₁ hs hcalm =>
    apply hcalm.known
    rw [Known, hs.fields.1]
    exact hc
  | closes _ c₁ hcl hcalm => exact hcalm.known hcl.known

namespace TcpServer

/-- From `s` to `s'` connections only come, and each of them is followed. -/
structure Keeps (P : Nat → Prop) (s s' : TcpServer) : Prop where
  length_le : s.accepted.length ≤ s'.accepted.length
  each : ∀ k c', s'.accepted[k]? = some c' →
    (∃ c, s.accepted[k]? = some c ∧ Follows P c c') ∨ s.accepted.length ≤ k ∧ c'.Retired

variable {P : Nat → Prop} {s s' s'' : TcpServer} {k : Nat} {c d : Accepted}

theorem Keeps.of_eq (h : s'.accepted = s.accepted) : Keeps P s s' :=
  ⟨by rw [h], fun _ c' hc' => .inl ⟨c', h ▸ hc', .refl P c'⟩⟩

theorem Keeps.trans (h : Keeps P s s') (h' : Keeps P s' s'') : Keeps P s s'' := by
  refine ⟨h.length_le.trans h'.length_le, fun k c'' hc'' => ?_⟩
  rcases h'.each k c'' hc'' with ⟨c', hc', hf'⟩ | ⟨hk, hr⟩
  · rcases h.each k c' hc' with ⟨c, hc, hf⟩ | ⟨hk, hr⟩
    · exact .inl ⟨c, hc, hf.trans hf'⟩
    · exact .inr ⟨hk, hf'.retired hr⟩
  · exact .inr ⟨h.length_le.trans hk, hr⟩

theorem Keeps.set (hc : s.accepted[k]? = some c) (hf : Follows P c d) :
    Keeps P s (s.setAccepted k d) := by
  refine ⟨by simp [setAccepted], fun j c' hc' => .inl ?_⟩
  by_cases hj : k = j
  · subst hj
    have hlt := (List.getElem?_eq_some_iff.mp hc).1
    rw [setAccepted, List.getElem?_set_self hlt] at hc'
    cases hc'
    exact ⟨c, hc, hf⟩
  · rw [setAccepted, List.getElem?_set_ne hj] at hc'
    exact ⟨c', hc', .refl P c'⟩

/-- A connection that was there is there, and is followed. -/
theorem Keeps.follows (h : Keeps P s s') (hc : s.accepted[k]? = some c) :
    ∃ c', s'.accepted[k]? = some c' ∧ Follows P c c' := by
  have hlt := (List.getElem?_eq_some_iff.mp hc).1
  have hc' := List.getElem?_eq_getElem (hlt.trans_le h.length_le)
  rcases h.each k _ hc' with ⟨c₀, hc₀, hf⟩ | ⟨hk, -⟩
  · obtain rfl := Option.some.inj (hc.symm.trans hc₀)
    exact ⟨_, hc', hf⟩
  · omega

/-! ## One lemma for each function -/

theorem removeConnectionInLoop_keeps (h : s.removeConnectionInLoop k = .ok s') : Keeps P s s' := by
  unfold removeConnectionInLoop at h
  split at h
  · cases h
    exact .of_eq rfl
  · rename_i c hc
    obtain ⟨_, -, h⟩ := bind_eq_ok.mp h
    cases h
    let s₁ : TcpServer := { s with connections := Function.update s.connections c.name none }
    have hset : Keeps P s₁ (s₁.setAccepted k { c with log := c.log ++ [.removeConnectionInLoop] }) :=
      .set hc ⟨rfl, id, fun _ => id⟩
    have hentry : Keeps P s s₁ := .of_eq rfl
    exact (hentry.trans hset).trans (.of_eq rfl)

theorem deliver_keeps {loop : Nat} {e : Effect} (h : deliver k loop s e = .ok s') : Keeps P s s' := by
  cases e with
  | closeCallback =>
    simp only [deliver, removeConnection] at h
    split at h
    · exact removeConnectionInLoop_keeps h
    · cases h
      exact .of_eq rfl
  | _ =>
    cases h
    exact .of_eq rfl

/-- A function of the connection is known to keep its channel, where the loop is
one of `P`. -/
theorem onConnection_keeps {ms : List Milestone} {op : TcpConnection → Checked TcpConnection}
    (h : s.onConnection k ms op = .ok s')
    (hop : ∀ c conn, s.accepted[k]? = some c → P c.loop → op c.conn.rested = .ok conn →
      c.conn.Known → conn.Known) : Keeps P s s' := by
  unfold onConnection at h
  split at h
  · cases h
    exact .of_eq rfl
  · rename_i c hc
    obtain ⟨_, hlive, h⟩ := bind_eq_ok.mp h
    obtain ⟨conn, hconn, h⟩ := bind_eq_ok.mp h
    have hthere : c.destructed = false := by simpa using hlive
    have hset : Keeps P s (s.setAccepted k { c with conn, log := c.log ++ ms }) :=
      .set hc ⟨rfl, fun _ hd => by simp [hthere] at hd, fun hp => hop c conn hc hp hconn⟩
    refine (run_iff_foldlM.mpr h).invariant (E := fun _ _ => True) (Steps.of_forall fun _ _ => trivial)
      hset ?_
    intro t e t' ht _ hstep
    exact ht.trans (deliver_keeps hstep)

theorem pop_keeps (s : TcpServer) (loop : Nat) : Keeps P s (s.pop loop) := .of_eq rfl

theorem setHeld_keeps (s : TcpServer) (k : Nat) (held : Bool) : Keeps P s (s.setHeld k held) := by
  unfold setHeld
  split
  · exact .of_eq rfl
  · rename_i c hc
    exact .set hc ⟨rfl, id, fun _ => id⟩

theorem addConnection_keeps (s : TcpServer) (ioLoop next : Nat) :
    Keeps P s (s.addConnection ioLoop next) := by
  refine ⟨by simp [addConnection], fun k c' hc' => ?_⟩
  by_cases hk : k < s.accepted.length
  · rw [addConnection, List.getElem?_append_left hk] at hc'
    exact .inl ⟨c', hc', .refl P c'⟩
  · obtain rfl : k = s.accepted.length := by
      have hlt := (List.getElem?_eq_some_iff.mp hc').1
      simp only [addConnection, List.length_append, List.length_singleton] at hlt
      omega
    simp only [addConnection, List.getElem?_concat_length] at hc'
    cases hc'
    exact .inr ⟨Nat.le_refl _, fun hd => by simp [Accepted.new] at hd⟩

/-- The channel of a new connection is not known, whatever is done to it. -/
theorem newConnection_keeps (h : s.newConnection = .ok s') : Keeps P s s' := by
  obtain ⟨_, -, h⟩ := bind_eq_ok.mp h
  refine (addConnection_keeps s s.getNextLoop.1 s.getNextLoop.2).trans ?_
  dsimp only at h
  split at h
  · refine onConnection_keeps h fun c conn hc _ _ hknown => ?_
    simp only [addConnection, List.getElem?_concat_length] at hc
    cases hc
    exact absurd rfl hknown
  · cases h
    exact .of_eq rfl

/-- The object of a channel that the poller knows is not destroyed: the assertion
of `~Channel` would fail. -/
theorem destruct_keeps (hsound : ∀ c, s.accepted[k]? = some c → c.conn.Sound)
    (h : s.destruct k = .ok s') : Keeps P s s' := by
  unfold destruct at h
  split at h
  · cases h
    exact .of_eq rfl
  · rename_i c hc
    obtain ⟨_, hdtor, h⟩ := bind_eq_ok.mp h
    cases h
    refine .set hc ⟨rfl, fun _ _ hknown => ?_, fun _ => id⟩
    obtain ⟨_, -, hchannel⟩ := bind_eq_ok.mp hdtor
    obtain ⟨_, -, hadded⟩ := bind_eq_ok.mp hchannel
    have hadded' : c.conn.channel.addedToLoop = false := by simpa using hadded
    rw [(hsound c hc).coherent.added_iff.mpr hknown] at hadded'
    cases hadded'

/-! ## Steps -/

/-- The loops in which the step removes no channel. -/
def Label.spares : Label → Nat → Prop
  | .functor loop _, l => l ≠ loop
  | _, _ => True

theorem Inv.sound (h : s.Inv) (hc : s.accepted[k]? = some c) : c.conn.Sound := by
  obtain ⟨-, g, hg⟩ := h.lodged k c hc
  exact hg.stage.sound

/-- **Channels leave the poller in functors of their loop only.** -/
theorem Inv.keeps (h : s.Inv) (hconf : s.Confined) {a : Label} (ha : s.Enabled a)
    (hs : s.step a = .ok s') : Keeps a.spares s s' := by
  cases a with
  | newConnection => exact newConnection_keeps hs
  | functor loop write =>
    simp only [TcpServer.step, TcpServer.runPending] at hs
    split at hs
    · cases hs
      exact .of_eq rfl
    · -- the connection of the functor has the loop that runs it
      rename_i k f rest hqueue
      refine (pop_keeps s loop).trans (onConnection_keeps hs fun c conn hc hloop => absurd ?_ hloop)
      obtain ⟨-, hhome⟩ := hconf.tasks loop (k, .functor f) (by simp [hqueue])
      exact (hconf.loops k c hc).trans hhome.symm
    · exact (pop_keeps s loop).trans (removeConnectionInLoop_keeps hs)
  | dispatch k revents read write =>
    obtain ⟨c, hc, -, -, hw⟩ := ha
    simp only [TcpServer.step] at hs
    refine onConnection_keeps hs fun c' conn hc' _ hconn => ?_
    obtain rfl := Option.some.inj (hc.symm.trans hc')
    obtain ⟨-, g, hg⟩ := h.lodged k c hc
    have hpasses := TcpConnection.handleEvent_passes hg.stage.sound.rested hg.stage.unhandled
      revents read hw
    rw [hconn] at hpasses
    have hlives : c.conn.rested.Lives conn := hpasses
    exact hlives.known
  | call k inLoop call write =>
    obtain ⟨c, hc, -, hwf⟩ := ha
    simp only [TcpServer.step] at hs
    refine onConnection_keeps hs fun c' conn hc' _ hconn => ?_
    obtain rfl := Option.some.inj (hc.symm.trans hc')
    have hpasses := TcpConnection.call_passes (h.sound hc).rested hwf inLoop write
    rw [hconn] at hpasses
    have hlives : c.conn.rested.Lives conn := hpasses
    exact hlives.known
  | acquire k =>
    cases hs
    exact setHeld_keeps s k true
  | release k =>
    cases hs
    exact setHeld_keeps s k false
  | destruct k => exact destruct_keeps (fun c hc => h.sound hc) hs

end TcpServer

end Muduo
