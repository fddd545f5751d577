import Muduo.Lib.Simulation
import Muduo.RegisteredChannels

/-!
The iterations of `EventLoop::loop` in a server: `poll` fills `activeChannels_`,
their events are handled one by one, `doPendingFunctors` swaps the queue with a
local vector and runs that, and `poll` is next. In between other loops and users
do what they like, and an active channel is a plain pointer.

* `step_view`: an iteration, step by step, is a run of the server whose loops
  dispatch and pop functors one at a time;
* `iterations_refine`: so is a run of the loops, and no channel is removed or
  destroyed while it waits for its turn.
-/

namespace Muduo

open Lib Events

/-- Where a loop is. -/
inductive IterationPhase where
  /-- in `poll` -/
  | polling
  /-- `eventHandling_`; the channels of `activeChannels_` that are to be handled,
  with `revents_` -/
  | handling (activeChannels : List (Nat × Events))
  /-- `callingPendingFunctors_`; the functors that have run, and the others -/
  | calling (ran left : List (Nat × Task))

/-- What is left of `functors`. -/
def IterationPhase.left : IterationPhase → List (Nat × Task)
  | polling | handling _ => []
  | calling _ left => left

@[simp] theorem IterationPhase.left_calling (ran left : List (Nat × Task)) :
    (calling ran left).left = left := rfl

/-- `functors` -/
def IterationPhase.functors : IterationPhase → List (Nat × Task)
  | polling | handling _ => []
  | calling ran left => ran ++ left

theorem IterationPhase.mem_functors {p : IterationPhase} {t : Nat × Task} (h : t ∈ p.left) :
    t ∈ p.functors := by
  cases p with
  | polling | handling => cases h
  | calling ran left => exact List.mem_append_right ran h

structure LoopedServer where
  /-- with `pendingFunctors_` of each loop -/
  server : TcpServer
  phase : Nat → IterationPhase

/-- A functor that is bound to a connection. -/
def TcpServer.runTask (s : TcpServer) (write : WriteResult) : Nat × Task → Checked TcpServer
  | (k, .functor f) => s.runFunctor k f write
  | (k, .removeConnectionInLoop) => s.removeConnectionInLoop k

namespace LoopedServer

def new (ipPort : IpPort) (name : String) (writeCompleteCallback : Bool) (numThreads : Nat) :
    LoopedServer where
  server := .new ipPort name writeCompleteCallback numThreads
  phase := fun _ => .polling

inductive Label where
  /-- `poll` returns -/
  | poll (loop : Nat) (activeChannels : List (Nat × Events))
  /-- `handleEvent` of the next active channel -/
  | handle (loop : Nat) (read : ReadResult) (write : WriteResult)
  /-- `functors.swap(pendingFunctors_)` -/
  | swap (loop : Nat)
  | functor (loop : Nat) (write : WriteResult)
  /-- `functors` is gone -/
  | finish (loop : Nat)
  /-- a step of the acceptor or of a user -/
  | server (a : TcpServer.Label)

/-- Nothing holds a pointer to the connection. -/
def Unreferenced (s : LoopedServer) (k : Nat) (c : Accepted) : Prop :=
  s.server.Unreferenced k c ∧
    ∀ loop, ∀ t ∈ (s.phase loop).functors, t.1 = k → t.2.holds = false

/-- The poller reports channels that are in its map, and `write` takes no more than
it is given. The acceptor's channel is one of the base loop. -/
def Enabled (s : LoopedServer) : Label → Prop
  | .poll loop activeChannels => s.phase loop = .polling ∧ ∀ x ∈ activeChannels,
      ∃ c, s.server.accepted[x.1]? = some c ∧ c.loop = loop ∧ c.conn.channel.mapped = true
  | .handle loop _ write => ∃ k revents rest, s.phase loop = .handling ((k, revents) :: rest) ∧
      ∀ c, s.server.accepted[k]? = some c → write.Fits c.conn.outputBuffer.readableBytes
  | .swap loop => s.phase loop = .handling []
  | .functor loop _ => ∃ ran t left, s.phase loop = .calling ran (t :: left)
  | .finish loop => ∃ ran, s.phase loop = .calling ran []
  | .server (.functor _ _) | .server (.dispatch _ _ _ _) => False
  | .server .newConnection => ∃ activeChannels, s.phase 0 = .handling activeChannels
  | .server (.destruct k) =>
    ∃ c, s.server.accepted[k]? = some c ∧ c.destructed = false ∧ s.Unreferenced k c
  | .server a => s.server.Enabled a

def setPhase (s : LoopedServer) (loop : Nat) (p : IterationPhase) : LoopedServer :=
  { s with phase := Function.update s.phase loop p }

/-- The local vector is empty before. -/
def swap (s : LoopedServer) (loop : Nat) : LoopedServer :=
  let server := { s.server with
    pendingFunctors := Function.update s.server.pendingFunctors loop [] }
  { s with server }.setPhase loop (.calling [] (s.server.pendingFunctors loop))

def step (s : LoopedServer) : Label → Checked LoopedServer
  | .poll loop activeChannels => return s.setPhase loop (.handling activeChannels)
  | .handle loop read write =>
    match s.phase loop with
    | .handling ((k, revents) :: rest) => do
      let server ← s.server.step (.dispatch k revents read write)
      return { s with server }.setPhase loop (.handling rest)
    | _ => return s
  | .swap loop => return s.swap loop
  | .functor loop write =>
    match s.phase loop with
    | .calling ran (t :: left) => do
      let server ← s.server.runTask write t
      return { s with server }.setPhase loop (.calling (ran ++ [t]) left)
    | _ => return s
  | .finish loop => return s.setPhase loop .polling
  | .server a => do
    let server ← s.server.step a
    return { s with server }

end LoopedServer

/-! ## Functors ahead of the queue -/

namespace TcpServer

/-- The server, with these functors in front of what is queued. -/
def ahead (functors : Nat → List (Nat × Task)) (s : TcpServer) : TcpServer :=
  { s with pendingFunctors := fun loop => functors loop ++ s.pendingFunctors loop }

variable (functors : Nat → List (Nat × Task)) (s : TcpServer)

theorem ahead_quene (loop k : Nat) (t : Task) :
    (s.ahead functors).queneInLoop loop k t = (s.queneInLoop loop k t).ahead functors := by
  simp only [queneInLoop, ahead, TcpServer.mk.injEq, true_and]
  funext l
  by_cases hl : l = loop
  · subst hl
    simp
  · simp [hl]

theorem ahead_removeConnectionInLoop (k : Nat) :
    (s.ahead functors).removeConnectionInLoop k =
      (s.removeConnectionInLoop k).map (ahead functors) := by
  simp only [removeConnectionInLoop]
  rw [show (s.ahead functors).accepted[k]? = s.accepted[k]? from rfl]
  cases s.accepted[k]? with
  | none => rfl
  | some c =>
    let removed : TcpServer := { s with connections := Function.update s.connections c.name none }
    simp only [map_of_bind]
    congr 1
    funext _
    exact congrArg Except.ok (ahead_quene functors
      (removed.setAccepted k { c with log := c.log ++ [.removeConnectionInLoop] }) c.loop k
      (.functor .connectDestroyed))

theorem ahead_deliver (k loop : Nat) (e : Effect) :
    deliver k loop (s.ahead functors) e = (deliver k loop s e).map (ahead functors) := by
  cases e with
  | quene f => exact congrArg Except.ok (ahead_quene functors s loop k (.functor f))
  | closeCallback =>
    simp only [deliver, removeConnection]
    split
    · exact ahead_removeConnectionInLoop functors s k
    · exact congrArg Except.ok (ahead_quene functors s 0 k .removeConnectionInLoop)
  | _ => rfl

theorem ahead_onConnection (k : Nat) (ms : List Milestone)
    (op : TcpConnection → Checked TcpConnection) :
    (s.ahead functors).onConnection k ms op = (s.onConnection k ms op).map (ahead functors) := by
  simp only [onConnection]
  rw [show (s.ahead functors).accepted[k]? = s.accepted[k]? from rfl]
  cases s.accepted[k]? with
  | none => rfl
  | some c =>
    simp only [map_of_bind]
    congr 1
    funext _
    congr 1
    funext conn
    exact foldlM_map (fun s e => ahead_deliver functors s k c.loop e)
      (s.setAccepted k { c with conn, log := c.log ++ ms }) conn.effects

theorem ahead_runTask (write : WriteResult) (t : Nat × Task) :
    (s.ahead functors).runTask write t = (s.runTask write t).map (ahead functors) := by
  obtain ⟨k, t⟩ := t
  cases t with
  | functor f => exact ahead_onConnection functors s k f.milestones fun c => c.runFunctor f write
  | removeConnectionInLoop => exact ahead_removeConnectionInLoop functors s k

theorem ahead_newConnection :
    (s.ahead functors).newConnection = s.newConnection.map (ahead functors) := by
  simp only [newConnection, map_of_bind]
  congr 1
  funext _
  rw [show (s.ahead functors).getNextLoop = s.getNextLoop from rfl]
  split
  · exact ahead_onConnection functors (s.addConnection _ _) _ _ _
  · exact congrArg Except.ok (ahead_quene functors (s.addConnection _ _) _ _ _)

/-- A step that takes no functor from a queue. -/
theorem ahead_step (a : Label) (ha : ∀ loop write, a ≠ .functor loop write) :
    (s.ahead functors).step a = (s.step a).map (ahead functors) := by
  cases a with
  | functor loop write => exact absurd rfl (ha loop write)
  | newConnection => exact ahead_newConnection functors s
  | dispatch k revents read write =>
    exact ahead_onConnection functors s k _ fun c => c.handleEvent revents read write
  | call k inLoop c write =>
    exact ahead_onConnection functors s k [] fun conn => conn.call inLoop write c
  | acquire k | release k =>
    simp only [step, setHeld]
    rw [show (s.ahead functors).accepted[k]? = s.accepted[k]? from rfl]
    cases s.accepted[k]? <;> rfl
  | destruct k =>
    simp only [step, destruct]
    rw [show (s.ahead functors).accepted[k]? = s.accepted[k]? from rfl]
    cases s.accepted[k]? with
    | none => rfl
    | some c =>
      simp only [map_of_bind]
      rfl

theorem runPending_cons {s : TcpServer} {loop : Nat} {t : Nat × Task} {rest : List (Nat × Task)}
    (h : s.pendingFunctors loop = t :: rest) (write : WriteResult) :
    s.runPending loop write = (s.pop loop).runTask write t := by
  obtain ⟨k, t⟩ := t
  cases t <;> simp [runPending, runTask, h]

end TcpServer

namespace LoopedServer

/-! ## One step -/

/-- As if the functors of a batch were still queued. -/
def view (s : LoopedServer) : TcpServer := s.server.ahead fun loop => (s.phase loop).left

/-- The step of the server behind a step of a loop. -/
def labels (s : LoopedServer) : Label → List TcpServer.Label
  | .poll _ _ | .swap _ | .finish _ => []
  | .handle loop read write =>
    match s.phase loop with
    | .handling ((k, revents) :: _) => [.dispatch k revents read write]
    | _ => []
  | .functor loop write => [.functor loop write]
  | .server a => [a]

theorem view_setPhase {s : LoopedServer} {loop : Nat} {p : IterationPhase}
    (h : p.left = (s.phase loop).left) : (s.setPhase loop p).view = s.view := by
  have hleft : (fun l => ((s.setPhase loop p).phase l).left) = fun l => (s.phase l).left := by
    funext l
    by_cases hl : l = loop
    · subst hl
      simp [setPhase, h]
    · simp [setPhase, hl]
  rw [view, hleft]
  rfl

/-- The swap is not to be seen. -/
theorem view_swap {s : LoopedServer} {loop : Nat} (h : (s.phase loop).left = []) :
    (s.swap loop).view = s.view := by
  have hqueue : (fun l => ((s.swap loop).phase l).left ++ (s.swap loop).server.pendingFunctors l) =
      fun l => (s.phase l).left ++ s.server.pendingFunctors l := by
    funext l
    by_cases hl : l = loop
    · subst hl
      simp [swap, setPhase, h]
    · simp [swap, setPhase, hl]
  rw [view, TcpServer.ahead, hqueue]
  rfl

/-- **One step.** Seen as a server, a loop dispatches an event, runs a functor, or
does nothing, and it fails where the server fails. -/
theorem step_view {s : LoopedServer} {a : Label} (ha : s.Enabled a) :
    (s.labels a).foldlM TcpServer.step s.view = (s.step a).map view := by
  cases a with
  | poll loop activeChannels =>
    have hview : (s.setPhase loop (.handling activeChannels)).view = s.view :=
      view_setPhase (by rw [ha.1]; rfl)
    simp [labels, step, Except.map, hview]
  | swap loop =>
    have hphase : s.phase loop = .handling [] := ha
    have hview : (s.swap loop).view = s.view := view_swap (by rw [hphase]; rfl)
    simp [labels, step, Except.map, hview]
  | finish loop =>
    obtain ⟨ran, hphase⟩ := ha
    have hview : (s.setPhase loop .polling).view = s.view := view_setPhase (by rw [hphase]; rfl)
    simp [labels, step, Except.map, hview]
  | handle loop read write =>
    obtain ⟨k, revents, rest, hphase, -⟩ := ha
    have hview : ∀ server, ({ s with server }.setPhase loop (.handling rest)).view =
        server.ahead fun l => (s.phase l).left :=
      fun server => view_setPhase (s := { s with server }) (by rw [hphase]; rfl)
    simp only [labels, hphase, step, foldlM_singleton, map_of_bind, view]
    rw [TcpServer.ahead_step _ _ _ (by simp)]
    cases s.server.step (.dispatch k revents read write) with
    | error e => rfl
    | ok server => exact congrArg Except.ok (hview server).symm
  | functor loop write =>
    obtain ⟨ran, t, left, hphase⟩ := ha
    let behind : Nat → List (Nat × Task) := Function.update (fun l => (s.phase l).left) loop left
    have hpop : s.view.pop loop = s.server.ahead behind := by
      simp only [view, TcpServer.ahead, TcpServer.pop, TcpServer.mk.injEq, true_and]
      funext l
      by_cases hl : l = loop
      · subst hl
        simp [behind, hphase]
      · simp [behind, hl]
    have hview : ∀ server, ({ s with server }.setPhase loop (.calling (ran ++ [t]) left)).view =
        server.ahead behind := by
      intro server
      simp only [view, setPhase, behind]
      congr 1
      funext l
      by_cases hl : l = loop
      · subst hl
        simp [IterationPhase.left]
      · simp [hl]
    have hhead : s.view.pendingFunctors loop = t :: (left ++ s.server.pendingFunctors loop) := by
      simp [view, TcpServer.ahead, hphase]
    simp only [labels, hphase, step, foldlM_singleton, map_of_bind,
      TcpServer.step]
    rw [TcpServer.runPending_cons hhead, hpop, TcpServer.ahead_runTask]
    cases s.server.runTask write t with
    | error e => rfl
    | ok server => exact congrArg Except.ok (hview server).symm
  | server a =>
    have hne : ∀ loop write, a ≠ .functor loop write := by
      rintro loop write rfl
      exact ha
    simp only [labels, step, foldlM_singleton, map_of_bind, view]
    rw [TcpServer.ahead_step _ _ _ hne]
    cases s.server.step a <;> rfl

theorem labels_cases (s : LoopedServer) (a : Label) : s.labels a = [] ∨ ∃ b, s.labels a = [b] := by
  cases a with
  | poll | swap | finish => exact .inl rfl
  | handle loop read write =>
    simp only [labels]
    split
    · exact .inr ⟨_, rfl⟩
    · exact .inl rfl
  | functor | server => exact .inr ⟨_, rfl⟩

/-! ## Batches -/

structure Inv (s : LoopedServer) : Prop where
  inv : s.view.Inv
  confined : s.view.Confined
  retired : ∀ (k : Nat) (c : Accepted), s.server.accepted[k]? = some c → c.Retired
  /-- the poller knows the channels that wait for their turn -/
  active : ∀ loop rest, s.phase loop = .handling rest → ∀ x ∈ rest,
    ∃ c, s.server.accepted[x.1]? = some c ∧ c.loop = loop ∧ c.conn.Known

section Steps

variable {s s' : LoopedServer} {a : Label}

theorem Inv.mapped_iff (h : s.Inv) {k : Nat} {c : Accepted} (hc : s.server.accepted[k]? = some c) :
    c.conn.channel.mapped = true ↔ c.conn.Known :=
  (TcpServer.Inv.sound h.inv hc).coherent.mapped_iff

theorem Inv.there (h : s.Inv) {k : Nat} {c : Accepted} (hc : s.server.accepted[k]? = some c)
    (hknown : c.conn.Known) : c.destructed = false := by
  by_contra hd
  exact h.retired k c hc (by simpa using hd) hknown

/-- What is done is allowed: an active channel is mapped when its turn has come. -/
theorem Inv.labels_enabled (h : s.Inv) (ha : s.Enabled a) {b : TcpServer.Label}
    (hb : b ∈ s.labels a) : s.view.Enabled b := by
  cases a with
  | poll | swap | finish => cases hb
  | handle loop read write =>
    obtain ⟨k, revents, rest, hphase, hfits⟩ := ha
    simp only [labels, hphase, List.mem_singleton] at hb
    subst hb
    obtain ⟨c, hc, -, hknown⟩ := h.active loop _ hphase (k, revents) (List.mem_cons_self ..)
    exact ⟨c, hc, h.there hc hknown, (h.mapped_iff hc).mpr hknown, hfits c hc⟩
  | functor loop write =>
    obtain ⟨ran, t, left, hphase⟩ := ha
    obtain rfl := List.mem_singleton.mp hb
    change (s.phase loop).left ++ s.server.pendingFunctors loop ≠ []
    simp [hphase]
  | server a =>
    obtain rfl := List.mem_singleton.mp hb
    cases b with
    | newConnection => trivial
    | functor | dispatch => exact ha.elim
    | call | acquire | release => exact ha
    | destruct k =>
      obtain ⟨c, hc, hlive, ⟨hheld, hentries, htasks⟩, hfunctors⟩ := ha
      refine ⟨c, hc, hlive, hheld, hentries, fun loop t ht => ?_⟩
      rcases List.mem_append.mp ht with ht | ht
      · exact hfunctors loop t (IterationPhase.mem_functors ht)
      · exact htasks loop t ht

theorem Inv.along (h : s.Inv) (ha : s.Enabled a) :
    Along TcpServer.step TcpServer.Enabled s.view (s.labels a) := by
  have henabled := @Inv.labels_enabled s a h ha
  rcases labels_cases s a with hnil | ⟨b, hb⟩
  · rw [hnil]
    trivial
  · rw [hb] at henabled ⊢
    exact ⟨henabled (List.mem_singleton_self b), fun _ _ => trivial⟩

/-- The loops in which the step removes no channel. -/
def spares (s : LoopedServer) (a : Label) (l : Nat) : Prop := ∀ b ∈ s.labels a, b.spares l

/-- A loop that is not about to run a functor is one of them. -/
theorem spares_of (ha : s.Enabled a) {l : Nat}
    (hl : ∀ ran t left, s.phase l ≠ .calling ran (t :: left)) : s.spares a l := by
  intro b hb
  cases a with
  | poll | swap | finish => cases hb
  | handle loop read write =>
    obtain ⟨k, revents, rest, hphase, -⟩ := ha
    simp only [labels, hphase, List.mem_singleton] at hb
    subst hb
    trivial
  | functor loop write =>
    obtain ⟨ran, t, left, hphase⟩ := ha
    obtain rfl := List.mem_singleton.mp hb
    rintro rfl
    exact hl ran t left hphase
  | server a =>
    obtain rfl := List.mem_singleton.mp hb
    cases b with
    | functor => exact ha.elim
    | _ => trivial

/-- The invariants of the server are kept, and channels where the step removes none. -/
theorem Inv.view_step (h : s.Inv) (ha : s.Enabled a) (hs : s.step a = .ok s') :
    s'.view.Inv ∧ s'.view.Confined ∧ TcpServer.Keeps (s.spares a) s.view s'.view := by
  have hview := step_view ha
  have henabled := @Inv.labels_enabled s a h ha
  rw [hs] at hview
  unfold spares
  rcases labels_cases s a with hnil | ⟨b, hb⟩
  · rw [hnil] at hview
    have hsame : s.view = s'.view := Except.ok.inj hview
    rw [← hsame]
    exact ⟨h.inv, h.confined, .of_eq rfl⟩
  · rw [hb] at hview henabled ⊢
    have hstep : s.view.step b = .ok s'.view := by rwa [foldlM_singleton] at hview
    have hb' : s.view.Enabled b := henabled (List.mem_singleton_self b)
    have hsafe := h.inv.step hb'
    rw [hstep] at hsafe
    have hkeeps := TcpServer.Inv.keeps h.inv h.confined hb' hstep
    have hspares : (fun l => ∀ b' ∈ [b], b'.spares l) = b.spares := by simp
    rw [hspares]
    exact ⟨hsafe, (h.confined.step hstep).1, hkeeps⟩

/-- A channel waits for its turn since `poll`. -/
theorem step_handling (ha : s.Enabled a) (hs : s.step a = .ok s') {l : Nat}
    {rest : List (Nat × Events)} (hl : s'.phase l = .handling rest) :
    a = .poll l rest ∨ ∃ rest', s.phase l = .handling rest' ∧ ∀ x ∈ rest, x ∈ rest' := by
  cases a with
  | poll loop activeChannels =>
    cases hs
    by_cases hloop : l = loop
    · subst hloop
      simp only [setPhase, Function.update_self, IterationPhase.handling.injEq] at hl
      exact .inl (by rw [hl])
    · exact .inr ⟨rest, by simpa [setPhase, hloop] using hl, fun _ => id⟩
  | handle loop read write =>
    obtain ⟨k, revents, rest', hphase, -⟩ := ha
    simp only [step, hphase] at hs
    obtain ⟨server, -, hs⟩ := bind_eq_ok.mp hs
    cases hs
    by_cases hloop : l = loop
    · subst hloop
      simp only [setPhase, Function.update_self, IterationPhase.handling.injEq] at hl
      subst hl
      exact .inr ⟨_, hphase, fun _ => List.mem_cons_of_mem _⟩
    · exact .inr ⟨rest, by simpa [setPhase, hloop] using hl, fun _ => id⟩
  | swap loop | finish loop =>
    cases hs
    by_cases hloop : l = loop
    · subst hloop
      simp [swap, setPhase] at hl
    · exact .inr ⟨rest, by simpa [swap, setPhase, hloop] using hl, fun _ => id⟩
  | functor loop write =>
    obtain ⟨ran, t, left, hphase⟩ := ha
    simp only [step, hphase] at hs
    obtain ⟨server, -, hs⟩ := bind_eq_ok.mp hs
    cases hs
    by_cases hloop : l = loop
    · subst hloop
      simp [setPhase] at hl
    · exact .inr ⟨rest, by simpa [setPhase, hloop] using hl, fun _ => id⟩
  | server a =>
    obtain ⟨server, -, hs⟩ := bind_eq_ok.mp hs
    cases hs
    exact .inr ⟨rest, hl, fun _ => id⟩

theorem Inv.step (h : s.Inv) (ha : s.Enabled a) (hs : s.step a = .ok s') : s'.Inv := by
  obtain ⟨hinv, hconfined, hkeeps⟩ := h.view_step ha hs
  refine ⟨hinv, hconfined, fun k c' hc' => ?_, fun l rest hl x hx => ?_⟩
  · rcases hkeeps.each k c' hc' with ⟨c, hc, hf⟩ | ⟨-, hr⟩
    · exact hf.retired (h.retired k c hc)
    · exact hr
  · rcases step_handling ha hs hl with rfl | ⟨rest', hl', hsub⟩
    · obtain ⟨c, hc, hloop, hmapped⟩ := ha.2 x hx
      cases hs
      exact ⟨c, hc, hloop, (h.mapped_iff hc).mp hmapped⟩
    · obtain ⟨c, hc, hloop, hknown⟩ := h.active l rest' hl' x (hsub x hx)
      obtain ⟨c', hc', hf⟩ := hkeeps.follows hc
      refine ⟨c', hc', hf.loop.trans hloop, hf.known ?_ hknown⟩
      exact spares_of ha (by simp [hloop, hl'])

end Steps

/-! ## Runs -/

theorem new_inv (ipPort : IpPort) (name : String) (writeCompleteCallback : Bool)
    (numThreads : Nat) : (new ipPort name writeCompleteCallback numThreads).Inv := by
  have hconfined : (TcpServer.new ipPort name writeCompleteCallback numThreads).Confined := by
    refine ⟨?_, by simp [TcpServer.new], by simp [TcpServer.new]⟩
    by_cases hn : numThreads = 0 <;> simp [TcpServer.new, hn]
  exact ⟨TcpServer.new_inv .., hconfined, by simp [new, TcpServer.new], by simp [new]⟩

/-- What holds in every state of the loops. -/
structure Undisturbed (s : LoopedServer) : Prop where
  /-- a channel that waits for its turn is in the poller of its loop, and its
  connection is there -/
  active : ∀ loop rest, s.phase loop = .handling rest → ∀ x ∈ rest,
    ∃ c : Accepted, s.server.accepted[x.1]? = some c ∧ c.loop = loop ∧ c.destructed = false ∧
      c.conn.channel.mapped = true
  /-- `removeChannel` is not called while its loop handles events -/
  removed : ∀ a s', s.Enabled a → s.step a = .ok s' → ∀ (k : Nat) (c c' : Accepted),
    s.server.accepted[k]? = some c → s'.server.accepted[k]? = some c' → c.conn.channel.mapped = true →
    c'.conn.channel.mapped = false → ∃ ran t left, s.phase c.loop = .calling ran (t :: left)
  /-- a step that fails is one of the server -/
  failed : ∀ a e, s.Enabled a → s.step a = .error e →
    ∃ b, s.labels a = [b] ∧ s.view.Enabled b ∧ s.view.step b = .error e

theorem Inv.undisturbed {s : LoopedServer} (h : s.Inv) : s.Undisturbed := by
  refine ⟨fun loop rest hphase x hx => ?_, fun a s' ha hs k c c' hc hc' hm hm' => ?_,
    fun a e ha hs => ?_⟩
  · obtain ⟨c, hc, hloop, hknown⟩ := h.active loop rest hphase x hx
    exact ⟨c, hc, hloop, h.there hc hknown, (h.mapped_iff hc).mpr hknown⟩
  · by_contra hno
    obtain ⟨-, -, hkeeps⟩ := h.view_step ha hs
    obtain ⟨d, hd, hf⟩ := hkeeps.follows hc
    obtain rfl := Option.some.inj (hd.symm.trans hc')
    have hknown : d.conn.Known := by
      refine hf.known (spares_of ha fun ran t left hphase => ?_) ((h.mapped_iff hc).mp hm)
      exact hno ⟨ran, t, left, hphase⟩
    rw [((h.step ha hs).mapped_iff hc').mpr hknown] at hm'
    cases hm'
  · have hview := step_view ha
    rw [hs] at hview
    rcases labels_cases s a with hnil | ⟨b, hb⟩
    · rw [hnil] at hview
      cases hview
    · refine ⟨b, hb, h.labels_enabled ha (by rw [hb]; exact List.mem_singleton_self b), ?_⟩
      rwa [hb, foldlM_singleton] at hview

/-- **The loops refine the server.** A run in which every loop polls, handles what
is active, and runs its functors in batches is, seen without the batches, a run of
the server whose loops dispatch events and pop functors one at a time, each where
it may. What holds of all runs of that server holds of the loops; and meanwhile no
channel that waits for its turn is removed or destroyed. -/
theorem iterations_refine (ipPort : IpPort) (name : String) (writeCompleteCallback : Bool)
    (numThreads : Nat) {steps : List Label} {t : LoopedServer}
    (hrun : Run step (new ipPort name writeCompleteCallback numThreads) steps t)
    (hsteps : Along step Enabled (new ipPort name writeCompleteCallback numThreads) steps) :
    Run TcpServer.step (.new ipPort name writeCompleteCallback numThreads)
        (yields step labels (new ipPort name writeCompleteCallback numThreads) steps) t.view ∧
      Along TcpServer.step TcpServer.Enabled (.new ipPort name writeCompleteCallback numThreads)
        (yields step labels (new ipPort name writeCompleteCallback numThreads) steps) ∧
      t.Undisturbed := by
  have hnew := new_inv ipPort name writeCompleteCallback numThreads
  have hstep : ∀ (s : LoopedServer) a (s' : LoopedServer), s.Inv → s.Enabled a →
      s.step a = .ok s' → s'.Inv := fun _ _ _ h ha hs => h.step ha hs
  obtain ⟨hatomic, halong⟩ := hrun.simulates view labels hsteps hnew hstep
    (fun s a s' _ ha hs => run_iff_foldlM.mpr ((step_view ha).trans (by rw [hs]; rfl)))
    fun s a h ha => h.along ha
  exact ⟨hatomic, halong, (hrun.invariant hsteps hnew hstep).undisturbed⟩

/-- Two connections are active, and the first one closes. -/
def twoActive : List Label :=
  [.poll 0 [], .server .newConnection, .server .newConnection, .swap 0, .finish 0,
   .poll 0 [(0, POLLHUP), (1, POLLIN)], .handle 0 (.received []) (.written 0)]

theorem iterations_refine_twoActive :
    ∃ t, Run step (new ⟨"0.0.0.0:2037", by decide⟩ "echo" false 0) twoActive t ∧
      Run TcpServer.step (.new ⟨"0.0.0.0:2037", by decide⟩ "echo" false 0)
        [.newConnection, .newConnection, .dispatch 0 POLLHUP (.received []) (.written 0)] t.view ∧
      t.phase 0 = .handling [(1, POLLIN)] ∧ t.Undisturbed := by
  have hrun : Run step (new ⟨"0.0.0.0:2037", by decide⟩ "echo" false 0) twoActive _ :=
    run_iff_foldlM.mpr rfl
  have hsteps : Along step Enabled (new ⟨"0.0.0.0:2037", by decide⟩ "echo" false 0) twoActive := by
    refine (steps_cons_ok rfl).mpr ⟨⟨rfl, by simp⟩, ?_⟩
    refine (steps_cons_ok rfl).mpr ⟨⟨_, rfl⟩, ?_⟩
    refine (steps_cons_ok rfl).mpr ⟨⟨_, rfl⟩, ?_⟩
    refine (steps_cons_ok rfl).mpr ⟨rfl, ?_⟩
    refine (steps_cons_ok rfl).mpr ⟨⟨_, rfl⟩, ?_⟩
    refine (steps_cons_ok rfl).mpr ⟨⟨rfl, fun x hx => ?_⟩, ?_⟩
    · rcases List.mem_cons.mp hx with rfl | hx
      · exact ⟨_, rfl, rfl, rfl⟩
      · obtain rfl := List.mem_singleton.mp hx
        exact ⟨_, rfl, rfl, rfl⟩
    refine ⟨⟨0, POLLHUP, _, rfl, fun c _ => ?_⟩, fun _ _ => trivial⟩
    exact Nat.zero_le _
  obtain ⟨hatomic, -, hundisturbed⟩ := iterations_refine _ _ _ _ hrun hsteps
  exact ⟨_, hrun, hatomic, rfl, hundisturbed⟩

end LoopedServer

end Muduo
