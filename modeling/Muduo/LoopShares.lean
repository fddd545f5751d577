import Mathlib.Data.List.Count
import Muduo.Lib.RoundRobin
import Muduo.ConnectionNames

/-!
`EventLoopThreadPool::getNextLoop` over the life of a server. The connections go
to the I/O loops in turn, and everything that is queued for a connection is
queued in its own loop, but for its removal, which is queued in the base loop;
so `assertInLoopThread` of the functors holds.

* `Confined`: the invariant of every step;
* `work_stays_home`: it holds along every run, and the loops have been given
  equal shares.
-/

namespace Muduo

open Lib Events

/-- The loop in which a functor of a connection with this loop is to run. -/
def Task.home (loop : Nat) : Task → Nat
  | .functor _ => loop
  | .removeConnectionInLoop => 0

namespace TcpServer

/-- The loop of the connection that is accepted as number `k`. -/
def share (numThreads k : Nat) : Nat := if numThreads = 0 then 0 else k % numThreads + 1

structure Confined (s : TcpServer) : Prop where
  next : s.next = if s.numThreads = 0 then 0 else s.accepted.length % s.numThreads
  loops : ∀ k c, s.accepted[k]? = some c → c.loop = share s.numThreads k
  tasks : ∀ l, ∀ t ∈ s.pendingFunctors l,
    t.1 < s.accepted.length ∧ l = t.2.home (share s.numThreads t.1)

/-- Confined as before, with the same connections. -/
structure Stays (s s' : TcpServer) : Prop where
  confined : s'.Confined
  numThreads : s'.numThreads = s.numThreads
  length : s'.accepted.length = s.accepted.length

theorem Confined.stays {s : TcpServer} (h : s.Confined) : Stays s s := ⟨h, rfl, rfl⟩

theorem Stays.trans {s s' s'' : TcpServer} (h : Stays s s') (h' : Stays s' s'') : Stays s s'' :=
  ⟨h'.confined, h'.numThreads.trans h.numThreads, h'.length.trans h.length⟩

/-! ## What queues and what changes a connection -/

theorem Confined.quene {s : TcpServer} (h : s.Confined) {loop k : Nat} {t : Task}
    (hk : k < s.accepted.length) (hloop : loop = t.home (share s.numThreads k)) :
    Stays s (s.queneInLoop loop k t) := by
  refine ⟨⟨h.next, h.loops, fun l t' ht' => ?_⟩, rfl, rfl⟩
  by_cases hl : l = loop
  · subst hl
    simp only [queneInLoop, Function.update_self, List.mem_append, List.mem_singleton] at ht'
    rcases ht' with ht' | rfl
    · exact h.tasks l t' ht'
    · exact ⟨hk, hloop⟩
  · simp only [queneInLoop, Function.update_of_ne hl] at ht'
    exact h.tasks l t' ht'

theorem Confined.setAccepted {s : TcpServer} (h : s.Confined) {k : Nat} {c d : Accepted}
    (hc : s.accepted[k]? = some c) (hloop : d.loop = c.loop) : Stays s (s.setAccepted k d) := by
  have hlength : (s.accepted.set k d).length = s.accepted.length := List.length_set
  refine ⟨⟨?_, fun j e he => ?_, fun l t ht => ?_⟩, rfl, hlength⟩
  · simpa only [TcpServer.setAccepted, hlength] using h.next
  · by_cases hj : k = j
    · subst hj
      have hlt := (List.getElem?_eq_some_iff.mp hc).1
      rw [TcpServer.setAccepted, List.getElem?_set_self hlt] at he
      cases he
      exact hloop.trans (h.loops k c hc)
    · rw [TcpServer.setAccepted, List.getElem?_set_ne hj] at he
      exact h.loops j e he
  · simpa only [TcpServer.setAccepted, hlength] using h.tasks l t ht

theorem Confined.pop {s : TcpServer} (h : s.Confined) (loop : Nat) : Stays s (s.pop loop) := by
  refine ⟨⟨h.next, h.loops, fun l t ht => ?_⟩, rfl, rfl⟩
  by_cases hl : l = loop
  · subst hl
    simp only [TcpServer.pop, Function.update_self] at ht
    exact h.tasks l t (List.mem_of_mem_tail ht)
  · simp only [TcpServer.pop, Function.update_of_ne hl] at ht
    exact h.tasks l t ht

theorem Confined.removeConnectionInLoop {s s' : TcpServer} (h : s.Confined) {k : Nat}
    (hs : s.removeConnectionInLoop k = .ok s') : Stays s s' := by
  unfold TcpServer.removeConnectionInLoop at hs
  split at hs
  · cases hs
    exact h.stays
  · rename_i c hc
    obtain ⟨_, -, hs⟩ := bind_eq_ok.mp hs
    cases hs
    let s₁ : TcpServer := { s with connections := Function.update s.connections c.name none }
    have h₁ : Stays s s₁ := ⟨⟨h.next, h.loops, h.tasks⟩, rfl, rfl⟩
    have h₂ := h₁.confined.setAccepted (s := s₁) hc
      (d := { c with log := c.log ++ [.removeConnectionInLoop] }) rfl
    have hlt : k < s₁.accepted.length := (List.getElem?_eq_some_iff.mp hc).1
    refine (h₁.trans h₂).trans (h₂.confined.quene ?_ ?_)
    · rw [h₂.length]
      exact hlt
    · rw [h₂.numThreads]
      exact h.loops k c hc

theorem Confined.deliver {s s' : TcpServer} (h : s.Confined) {k loop : Nat}
    (hk : k < s.accepted.length) (hloop : loop = share s.numThreads k) {e : Effect}
    (hs : TcpServer.deliver k loop s e = .ok s') : Stays s s' := by
  cases e with
  | quene f =>
    cases hs
    exact h.quene hk hloop
  | closeCallback =>
    simp only [TcpServer.deliver, removeConnection] at hs
    split at hs
    · exact h.removeConnectionInLoop hs
    · cases hs
      exact h.quene hk rfl
  | _ =>
    cases hs
    exact h.stays

theorem Confined.onConnection {s s' : TcpServer} (h : s.Confined) {k : Nat} {ms : List Milestone}
    {op : TcpConnection → Checked TcpConnection} (hs : s.onConnection k ms op = .ok s') :
    Stays s s' := by
  unfold TcpServer.onConnection at hs
  split at hs
  · cases hs
    exact h.stays
  · rename_i c hc
    obtain ⟨_, -, hs⟩ := bind_eq_ok.mp hs
    obtain ⟨conn, -, hs⟩ := bind_eq_ok.mp hs
    have hlt : k < s.accepted.length := (List.getElem?_eq_some_iff.mp hc).1
    have hset : Stays s (s.setAccepted k { c with conn, log := c.log ++ ms }) :=
      h.setAccepted hc rfl
    refine (run_iff_foldlM.mpr hs).invariant (E := fun _ _ => True) (Steps.of_forall fun _ _ => trivial)
      hset ?_
    intro t e t' ht _ hstep
    refine ht.trans (ht.confined.deliver ?_ ?_ hstep)
    · rw [ht.length]
      exact hlt
    · rw [ht.numThreads]
      exact h.loops k c hc

theorem Confined.runPending {s s' : TcpServer} (h : s.Confined) {loop : Nat} {write : WriteResult}
    (hs : s.runPending loop write = .ok s') : Stays s s' := by
  unfold TcpServer.runPending at hs
  split at hs
  · cases hs
    exact h.stays
  · exact (h.pop loop).trans ((h.pop loop).confined.onConnection hs)
  · exact (h.pop loop).trans ((h.pop loop).confined.removeConnectionInLoop hs)

theorem Confined.setHeld {s : TcpServer} (h : s.Confined) (k : Nat) (held : Bool) :
    Stays s (s.setHeld k held) := by
  unfold TcpServer.setHeld
  split
  · exact h.stays
  · rename_i c hc
    exact h.setAccepted hc rfl

/-! ## A connection is accepted -/

theorem Confined.getNextLoop {s : TcpServer} (h : s.Confined) :
    s.getNextLoop = (share s.numThreads s.accepted.length,
      if s.numThreads = 0 then 0 else (s.accepted.length + 1) % s.numThreads) := by
  have hnext := h.next
  unfold TcpServer.getNextLoop share
  by_cases hn : s.numThreads = 0
  · simp only [if_pos hn] at hnext ⊢
    rw [hnext]
  · simp only [if_neg hn] at hnext ⊢
    rw [hnext, cursor_succ (Nat.pos_of_ne_zero hn)]

theorem Confined.addConnection {s : TcpServer} (h : s.Confined) :
    (s.addConnection s.getNextLoop.1 s.getNextLoop.2).Confined := by
  rw [h.getNextLoop]
  refine ⟨?_, fun k c hc => ?_, fun l t ht => ?_⟩
  · simp [TcpServer.addConnection]
  · by_cases hk : k < s.accepted.length
    · simp only [TcpServer.addConnection, List.getElem?_append_left hk] at hc
      exact h.loops k c hc
    · obtain rfl : k = s.accepted.length := by
        have hlt := (List.getElem?_eq_some_iff.mp hc).1
        simp only [TcpServer.addConnection, List.length_append, List.length_singleton] at hlt
        omega
      simp only [TcpServer.addConnection, List.getElem?_concat_length] at hc
      cases hc
      rfl
  · obtain ⟨hlt, hl⟩ := h.tasks l t ht
    refine ⟨?_, hl⟩
    simp only [TcpServer.addConnection, List.length_append, List.length_singleton]
    omega

theorem Confined.newConnection {s s' : TcpServer} (h : s.Confined) (hs : s.newConnection = .ok s') :
    s'.Confined ∧ s'.numThreads = s.numThreads := by
  obtain ⟨_, -, hs⟩ := bind_eq_ok.mp hs
  have hadd := h.addConnection
  have hlt : s.accepted.length < (s.addConnection s.getNextLoop.1 s.getNextLoop.2).accepted.length := by
    simp [TcpServer.addConnection]
  have hstays : Stays (s.addConnection s.getNextLoop.1 s.getNextLoop.2) s' := by
    dsimp only at hs
    split at hs
    · exact hadd.onConnection hs
    · cases hs
      refine hadd.quene hlt ?_
      rw [h.getNextLoop]
      rfl
  exact ⟨hstays.confined, hstays.numThreads⟩

theorem Confined.step {s s' : TcpServer} (h : s.Confined) {a : Label} (hs : s.step a = .ok s') :
    s'.Confined ∧ s'.numThreads = s.numThreads := by
  have hstays : Stays s s' → s'.Confined ∧ s'.numThreads = s.numThreads :=
    fun hs => ⟨hs.confined, hs.numThreads⟩
  cases a with
  | newConnection => exact h.newConnection hs
  | functor loop write => exact hstays (h.runPending hs)
  | dispatch k revents read write =>
    simp only [TcpServer.step] at hs
    exact hstays (h.onConnection hs)
  | call k inLoop c write =>
    simp only [TcpServer.step] at hs
    exact hstays (h.onConnection hs)
  | acquire k =>
    cases hs
    exact hstays (h.setHeld k true)
  | release k =>
    cases hs
    exact hstays (h.setHeld k false)
  | destruct k =>
    rcases destruct_ok hs with rfl | ⟨c, hc, rfl⟩
    · exact hstays h.stays
    · exact hstays (h.setAccepted hc rfl)

/-! ## Runs -/

/-- How many connections the I/O loop `i + 1` has been given. -/
def load (s : TcpServer) (i : Nat) : Nat := (s.accepted.map Accepted.loop).count (i + 1)

theorem Confined.loops_eq {s : TcpServer} (h : s.Confined) :
    s.accepted.map Accepted.loop = (List.range s.accepted.length).map (share s.numThreads) := by
  apply List.ext_getElem?
  intro k
  rw [List.getElem?_map, List.getElem?_map]
  by_cases hk : k < s.accepted.length
  · rw [List.getElem?_eq_getElem hk, List.getElem?_range hk]
    exact congrArg some (h.loops k _ (List.getElem?_eq_getElem hk))
  · simpa [List.getElem?_eq_none (Nat.not_lt.mp hk)] using hk

theorem Confined.load_eq {s : TcpServer} (h : s.Confined) {i : Nat} (hi : i < s.numThreads) :
    s.load i = s.accepted.length / s.numThreads +
      if i < s.accepted.length % s.numThreads then 1 else 0 := by
  have hn : s.numThreads ≠ 0 := by omega
  have hshare : share s.numThreads = (· + 1) ∘ (· % s.numThreads) := by
    funext k
    simp [share, hn]
  rw [load, h.loops_eq, hshare, ← List.map_map,
    List.count_map_of_injective _ _ (Nat.succ_injective), count_turns hi]

/-- The state behind a step. Every connection has the loop of its turn, and every
queued functor waits in the loop where it has to run. -/
def StaysHome (numThreads : Nat) (s : TcpServer) : Prop :=
  (∀ k c, s.accepted[k]? = some c → c.loop = share numThreads k) ∧
  (∀ l, ∀ t ∈ s.pendingFunctors l, ∃ c, s.accepted[t.1]? = some c ∧ l = t.2.home c.loop) ∧
  ∀ i, i < numThreads → s.load i =
    s.accepted.length / numThreads + if i < s.accepted.length % numThreads then 1 else 0

theorem Confined.staysHome {s : TcpServer} (h : s.Confined) : StaysHome s.numThreads s := by
  refine ⟨h.loops, fun l t ht => ?_, fun i hi => h.load_eq hi⟩
  obtain ⟨hlt, hl⟩ := h.tasks l t ht
  have hc := List.getElem?_eq_getElem hlt
  exact ⟨_, hc, by rw [h.loops _ _ hc]; exact hl⟩

/-- **Work stays in its loop.** Along every run of a server the connections are
given to the I/O loops in turn, each loop gets an equal share up to one
connection, and whatever is queued for a connection waits in its own loop, its
removal in the base loop. Without I/O loops all are in the base loop. -/
theorem work_stays_home (ipPort : IpPort) (name : String) (writeCompleteCallback : Bool)
    (numThreads : Nat) (steps : List Label) :
    Steps step (fun _ _ o => ∀ s, o = .ok s → StaysHome numThreads s)
      (new ipPort name writeCompleteCallback numThreads) steps := by
  refine Steps.of_invariant (I := fun s => s.Confined ∧ s.numThreads = numThreads)
    (E := fun _ _ => True) (fun s a h _ => ?_) (fun s a s' h _ hs => ?_) ⟨⟨?_, ?_, ?_⟩, rfl⟩
    (Steps.of_forall fun _ _ => trivial)
  · intro s' hs
    obtain ⟨h', hn⟩ := h.1.step hs
    rw [← h.2, ← hn]
    exact h'.staysHome
  · obtain ⟨h', hn⟩ := h.1.step hs
    exact ⟨h', hn.trans h.2⟩
  · by_cases hn : numThreads = 0 <;> simp [new, hn]
  · simp [new]
  · simp [new]

end TcpServer

end Muduo
