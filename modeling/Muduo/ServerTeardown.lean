import Muduo.ServerLife

/-!
The destruction of a `TcpServer`. The class has no destructor: the entries of
`connections_` go, the I/O threads are joined, and the callbacks of the
connections stay bound to the server that was there. Loops, users and pending
functors go on behind it.

* `Orphan`: a connection that was in `connections_`, in any state reached behind
  the destruction;
* `destroys_safely_iff`: when the destruction does to the connections what the
  state `kConnected` of `connectDestroyed` is for.
-/

namespace Muduo

open Lib Events

/-- What is left of a server. -/
structure DestroyedServer where
  /-- the connections and the loops, with an empty `connections_` -/
  server : TcpServer
  /-- the loops that have been destructed -/
  exited : List Nat

/-- The implicit destructor: `connections_` goes first. -/
def TcpServer.dtor (s : TcpServer) : DestroyedServer :=
  ⟨{ s with connections := fun _ => none }, []⟩

namespace DestroyedServer

/-- What a connection hands to its loop, and to the server that is gone. -/
def deliver (k loop : Nat) (s : TcpServer) : Effect → Checked TcpServer
  | .quene f => return s.queneInLoop loop k (.functor f)
  | .closeCallback => .error .deletedServer
  | _ => return s

/-- Run a function of a connection. -/
def onConnection (d : DestroyedServer) (k : Nat) (ms : List Milestone)
    (op : TcpConnection → Checked TcpConnection) : Checked DestroyedServer :=
  match d.server.accepted[k]? with
  | none => return d
  | some c => do
    check (c.destructed = false) .deletedConnection
    check (c.loop ∉ d.exited) .deletedLoop
    let conn ← op c.conn.rested
    let s := d.server.setAccepted k { c with conn, log := c.log ++ ms }
    let s ← conn.effects.foldlM (deliver k c.loop) s
    return { d with server := s }

/-- The next functor of `doPendingFunctors`. -/
def runPending (d : DestroyedServer) (loop : Nat) (write : WriteResult) : Checked DestroyedServer :=
  match d.server.pendingFunctors loop with
  | [] => return d
  | (k, .functor f) :: _ =>
    { d with server := d.server.pop loop }.onConnection k f.milestones fun c => c.runFunctor f write
  | (_, .removeConnectionInLoop) :: _ => .error .deletedServer

inductive Label where
  /-- a step of a loop or of a user -/
  | server (a : TcpServer.Label)
  /-- a loop ends and is destructed, with the functors that it has not run -/
  | exit (loop : Nat)

/-- The loop that takes the step is there, and `accepter_` is not. -/
def Runs (d : DestroyedServer) : TcpServer.Label → Prop
  | .newConnection => False
  | .functor loop _ => loop ∉ d.exited
  | .dispatch k _ _ _ => ∀ c, d.server.accepted[k]? = some c → c.loop ∉ d.exited
  | _ => True

def Enabled (d : DestroyedServer) : Label → Prop
  | .server a => d.Runs a ∧ d.server.Enabled a
  | .exit loop => loop ∉ d.exited

def step (d : DestroyedServer) : Label → Checked DestroyedServer
  | .server .newConnection => return d
  | .server (.functor loop write) => d.runPending loop write
  | .server (.dispatch k revents read write) =>
    d.onConnection k [.dispatched] fun c => c.handleEvent revents read write
  | .server (.call k inLoop c write) => d.onConnection k [] fun conn => conn.call inLoop write c
  | .server (.acquire k) => return { d with server := d.server.setHeld k true }
  | .server (.release k) => return { d with server := d.server.setHeld k false }
  | .server (.destruct k) => do
    let server ← d.server.destruct k
    return { d with server := server }
  | .exit loop =>
    return {
      server :=
        { d.server with pendingFunctors := Function.update d.server.pendingFunctors loop [] }
      exited := loop :: d.exited }

end DestroyedServer

/-- The connection is in `connections_`. -/
def TcpServer.Registered (s : TcpServer) (k : Nat) : Prop :=
  ∃ c, s.accepted[k]? = some c ∧ s.connections c.name = some k

namespace DestroyedServer

/-- `connectDestroyed` has run for the connection, and it is not in the poller. -/
def LedOut (d : DestroyedServer) (k : Nat) : Prop :=
  ∃ c, d.server.accepted[k]? = some c ∧ .connectDestroyed ∈ c.log ∧ c.conn.channel.mapped = false

/-- The connection can be led out, and its last reference never goes before that
or with a failing assertion. -/
structure Safe (d : DestroyedServer) (k : Nat) : Prop where
  led : ∃ steps d', Run step d steps d' ∧ Along step Enabled d steps ∧ d'.LedOut k
  last : ∀ steps, Along step Enabled d steps →
    Steps step (fun d a o => a = .server (.destruct k) → d.LedOut k ∧ ∃ d', o = .ok d') d steps

end DestroyedServer

/-- The destructor is safe for all that is in `connections_`. -/
def TcpServer.DestroysSafely (s : TcpServer) : Prop := ∀ k, s.Registered k → s.dtor.Safe k

/-! ## Other connections -/

namespace DestroyedServer

open TcpServer (Stage InStage Lodged)

/-- From `s` to `s'` nothing changes for the connection `k`. -/
structure Same (k : Nat) (s s' : TcpServer) : Prop where
  accepted : s'.accepted[k]? = s.accepted[k]?
  tasks : ∀ loop, ∀ t ∈ s'.tasks k loop, t ∈ s.tasks k loop

theorem Same.refl (k : Nat) (s : TcpServer) : Same k s s := ⟨rfl, fun _ _ ht => ht⟩

theorem Same.trans {k : Nat} {s s' s'' : TcpServer} (h : Same k s s') (h' : Same k s' s'') :
    Same k s s'' :=
  ⟨h'.accepted.trans h.accepted, fun l t ht => h.tasks l t (h'.tasks l t ht)⟩

variable {j k : Nat}

theorem same_quene (hjk : j ≠ k) (s : TcpServer) (loop : Nat) (t : Task) :
    Same k s (s.queneInLoop loop j t) := by
  refine ⟨rfl, fun l t' ht => ?_⟩
  have hne : ¬ (l = loop ∧ j = k) := fun h => hjk h.2
  rwa [TcpServer.tasks_quene, if_neg hne, List.append_nil] at ht

theorem same_pop (k : Nat) (s : TcpServer) (loop : Nat) : Same k s (s.pop loop) := by
  refine ⟨rfl, fun l t ht => ?_⟩
  rw [TcpServer.tasks, mem_boundTo] at ht ⊢
  by_cases hl : l = loop
  · subst hl
    exact List.mem_of_mem_tail (by simpa [TcpServer.pop] using ht)
  · simpa [TcpServer.pop, hl] using ht

theorem same_set (hjk : j ≠ k) (s : TcpServer) (c : Accepted) : Same k s (s.setAccepted j c) :=
  ⟨by simp [TcpServer.setAccepted, List.getElem?_set_ne hjk], fun _ _ ht => ht⟩

theorem same_setHeld (hjk : j ≠ k) (s : TcpServer) (held : Bool) : Same k s (s.setHeld j held) := by
  unfold TcpServer.setHeld
  split
  · exact .refl k s
  · exact same_set hjk s _

theorem same_deliver (hjk : j ≠ k) {loop : Nat} {s s' : TcpServer} {e : Effect}
    (h : deliver j loop s e = .ok s') : Same k s s' := by
  cases e with
  | quene f =>
    cases h
    exact same_quene hjk s loop _
  | closeCallback => cases h
  | _ =>
    cases h
    exact .refl k s

theorem same_onConnection (hjk : j ≠ k) {d d' : DestroyedServer} {ms : List Milestone}
    {op : TcpConnection → Checked TcpConnection} (h : d.onConnection j ms op = .ok d') :
    Same k d.server d'.server := by
  unfold onConnection at h
  split at h
  · cases h
    exact .refl k _
  · rename_i c _
    obtain ⟨-, -, h⟩ := bind_eq_ok.mp h
    obtain ⟨-, -, h⟩ := bind_eq_ok.mp h
    obtain ⟨conn, -, h⟩ := bind_eq_ok.mp h
    obtain ⟨s, hs, h⟩ := bind_eq_ok.mp h
    cases h
    have hset : Same k d.server (d.server.setAccepted j { c with conn, log := c.log ++ ms }) :=
      same_set hjk _ _
    refine (run_iff_foldlM.mpr hs).invariant (I := Same k d.server) (E := fun _ _ => True)
      (Steps.of_forall fun _ _ => trivial) hset ?_
    intro t e t' ht _ hs
    exact ht.trans (same_deliver hjk hs)

theorem same_destruct (hjk : j ≠ k) {s s' : TcpServer} (h : s.destruct j = .ok s') :
    Same k s s' := by
  unfold TcpServer.destruct at h
  split at h
  · cases h
    exact .refl k s
  · obtain ⟨-, -, h⟩ := bind_eq_ok.mp h
    cases h
    exact same_set hjk s _

/-! ## A connection that was in `connections_` -/

/-- What is pending for such a connection. -/
structure Permits (g : Stage) (t : Task) : Prop where
  destroyed : t ≠ .functor .connectDestroyed
  accepted : g = .accepted → t = .functor .connectEstablished

theorem Permits.of_pending {g : Stage} (hentry : g.entry k = some k) {loop l : Nat} {t : Task}
    (hpending : ∀ m ∈ t.milestones, m ∈ g.pending loop l)
    (hwaits : g = .accepted → t.milestones ≠ []) : Permits g t := by
  have hmem : ∀ m ∈ t.milestones, g ≠ .established ∧
      (g = .accepted → m = .connectEstablished) ∧ (g = .closed → m = .removeConnectionInLoop) := by
    intro m hm
    have hm := hpending m hm
    cases g with
    | removed | destroyed | destructed => cases hentry
    | established => cases hm
    | accepted =>
      by_cases hl : l = loop
      · simpa [Stage.pending, Stage.awaits, TcpServer.atLoop, hl] using hm
      · simp [Stage.pending, Stage.awaits, TcpServer.atLoop, hl] at hm
    | closed =>
      by_cases hl : l = 0
      · simpa [Stage.pending, Stage.awaits, TcpServer.atLoop, hl] using hm
      · simp [Stage.pending, Stage.awaits, TcpServer.atLoop, hl] at hm
  constructor
  · rintro rfl
    obtain ⟨hestablished, haccepted, hclosed⟩ := hmem _ (List.mem_singleton.mpr rfl)
    cases g with
    | removed | destroyed | destructed => cases hentry
    | established => exact hestablished rfl
    | accepted => cases haccepted rfl
    | closed => cases hclosed rfl
  · intro hg
    cases t with
    | removeConnectionInLoop => cases (hmem _ (List.mem_singleton.mpr rfl)).2.1 hg
    | functor f =>
      cases f with
      | connectEstablished => rfl
      | connectDestroyed => cases (hmem _ (List.mem_singleton.mpr rfl)).2.1 hg
      | _ => exact absurd rfl (hwaits hg)

theorem Permits.of_minor {g : Stage} (hg : g ≠ .accepted) {f : Functor}
    (hf : (Effect.quene f).minor = true) : Permits g (.functor f) := by
  refine ⟨?_, fun h => absurd h hg⟩
  rintro ⟨⟩
  cases hf

/-- The connection `k` in its stage, its entry lost. -/
structure Orphan (s : TcpServer) (k : Nat) (c : Accepted) (g : Stage) : Prop where
  accepted : s.accepted[k]? = some c
  stage : InStage c g
  entry : g.entry k = some k
  tasks : ∀ loop, ∀ t ∈ s.tasks k loop, Permits g t

theorem Orphan.same {s s' : TcpServer} {c : Accepted} {g : Stage} (h : Orphan s k c g)
    (hs : Same k s s') : Orphan s' k c g :=
  ⟨hs.accepted.trans h.accepted, h.stage, h.entry, fun l t ht => h.tasks l t (hs.tasks l t ht)⟩

theorem Orphan.deliver_minor {s s' : TcpServer} {c : Accepted} {g : Stage} (h : Orphan s k c g)
    (hg : g ≠ .accepted) {loop : Nat} {e : Effect} (he : e.minor = true)
    (hs : deliver k loop s e = .ok s') : Orphan s' k c g := by
  cases e with
  | quene f =>
    cases hs
    refine ⟨h.accepted, h.stage, h.entry, fun l t ht => ?_⟩
    rw [TcpServer.tasks_quene, List.mem_append] at ht
    rcases ht with ht | ht
    · exact h.tasks l t ht
    · split at ht
      · obtain rfl := List.mem_singleton.mp ht
        exact .of_minor hg he
      · cases ht
  | connectionCallback | closeCallback => cases he
  | _ =>
    cases hs
    exact h

/-- A close asks the server that is gone. -/
theorem deliver_close {loop : Nat} {s s' : TcpServer} {es es' : List Effect}
    (h : (es ++ [Effect.connectionCallback, .closeCallback] ++ es').foldlM (deliver k loop) s =
      .ok s') : False := by
  obtain ⟨s₂, h, -⟩ := (run_iff_foldlM.mpr h).split
  obtain ⟨s₁, -, h⟩ := h.split
  cases h with
  | cons _ h =>
    cases h with
    | cons h _ => cases h

/-- A step between the two ends leaves the connection in its stage. -/
theorem Orphan.onConnection {d d' : DestroyedServer} {c : Accepted} {g : Stage}
    (h : Orphan d.server k c g) (hg : g ≠ .accepted) {ms : List Milestone}
    (hms : ms.filter (· ≠ .dispatched) = []) {op : TcpConnection → Checked TcpConnection}
    (hop : c.conn.rested.Passes (op c.conn.rested)) (hd : d.onConnection k ms op = .ok d') :
    ∃ c', Orphan d'.server k c' g := by
  simp only [DestroyedServer.onConnection, h.accepted] at hd
  obtain ⟨-, -, hd⟩ := bind_eq_ok.mp hd
  obtain ⟨-, -, hd⟩ := bind_eq_ok.mp hd
  obtain ⟨conn, hconn, hd⟩ := bind_eq_ok.mp hd
  obtain ⟨s, hs, hd⟩ := bind_eq_ok.mp hd
  cases hd
  rw [hconn] at hop
  have hlives : c.conn.rested.Lives conn := hop
  have hgone : g ≠ .destructed := by
    intro hgd
    have hentry := h.entry
    rw [hgd] at hentry
    cases hentry
  cases hlives.ends rfl with
  | closes _ _ es es' heff =>
    rw [heff] at hs
    exact (deliver_close hs).elim
  | stays hstate hminor =>
    have hallows : g.allows conn.state := by
      rcases hstate with heq | ⟨hl, hl'⟩
      · exact heq ▸ h.stage.state
      · obtain rfl := Stage.established_of_live (c := c.conn) h.stage.state hl
        exact hl'
    have hstage := h.stage.advance g ms hlives.sound (hlives.unhandled h.stage.unhandled) hallows
      hgone hg hgone (by rw [hms, List.append_nil]) (.inl hg)
    have hlt := (List.getElem?_eq_some_iff.mp h.accepted).1
    have hset : Orphan (d.server.setAccepted k { c with conn, log := c.log ++ ms }) k
        { c with conn, log := c.log ++ ms } g :=
      ⟨List.getElem?_set_self hlt, hstage, h.entry, h.tasks⟩
    refine ⟨{ c with conn, log := c.log ++ ms }, ?_⟩
    refine (run_iff_foldlM.mpr hs).invariant
      (I := fun t => Orphan t k { c with conn, log := c.log ++ ms } g) (E := fun _ e => e.minor = true)
      (Steps.of_forall hminor) hset ?_
    intro t e t' ht he hs
    exact ht.deliver_minor hg he hs

/-- A functor of the connection runs. -/
theorem Orphan.runFunctor {d d' : DestroyedServer} {c : Accepted} {g : Stage}
    (h : Orphan d.server k c g) {f : Functor} (hf : Permits g (.functor f)) (write : WriteResult)
    (hd : d.onConnection k f.milestones (fun c => c.runFunctor f write) = .ok d') :
    ∃ c' g', Orphan d'.server k c' g' := by
  by_cases hminor : (Effect.quene f).minor = true
  · have hg : g ≠ .accepted := by
      intro hg
      obtain ⟨rfl⟩ := hf.accepted hg
      cases hminor
    have hms := Functor.milestones_of_minor hminor
    obtain ⟨c', h'⟩ := h.onConnection hg (by rw [hms]; rfl)
      (TcpConnection.runFunctor_passes h.stage.sound.rested hminor write) hd
    exact ⟨c', g, h'⟩
  obtain rfl : f = .connectEstablished := by
    cases f with
    | connectEstablished => rfl
    | connectDestroyed => exact absurd rfl hf.destroyed
    | _ => exact absurd rfl hminor
  simp only [DestroyedServer.onConnection, h.accepted] at hd
  obtain ⟨-, -, hd⟩ := bind_eq_ok.mp hd
  obtain ⟨-, -, hd⟩ := bind_eq_ok.mp hd
  obtain ⟨conn, hconn, hd⟩ := bind_eq_ok.mp hd
  have hstate : c.conn.rested.state = .kConnecting := by
    obtain ⟨u, hcheck, -⟩ := bind_eq_ok.mp hconn
    exact (check_eq_ok _ _).mp hcheck
  obtain ⟨conn', hconn', hsound, hstate', -, hhand, heff⟩ :=
    TcpConnection.connectEstablished_spec h.stage.sound.rested hstate
  obtain rfl : conn' = conn := Except.ok.inj (hconn'.symm.trans hconn)
  have heff' : conn'.effects = [.connectionCallback] := heff
  rw [heff'] at hd
  cases hd
  obtain rfl : g = .accepted := by
    have hallows := h.stage.state
    have hstate : c.conn.state = .kConnecting := hstate
    cases g <;> first | rfl | simp [Stage.allows, hstate] at hallows
  have hlt := (List.getElem?_eq_some_iff.mp h.accepted).1
  refine ⟨_, .established, List.getElem?_set_self hlt, ?_, rfl, fun l t ht => ?_⟩
  · exact h.stage.advance .established [.connectEstablished] hsound (hhand.trans h.stage.unhandled)
      (.inl hstate') (by simp) (by simp) (by simp) rfl (.inr rfl)
  · exact ⟨(h.tasks l t ht).destroyed, fun hacc => absurd hacc (by decide)⟩

/-- What has become of a connection of `connections_`: it has not seen
`connectDestroyed`. -/
inductive Left (s : TcpServer) (k : Nat) : Prop
  | orphan (c : Accepted) (g : Stage) (orphan : Orphan s k c g)
  | gone (c : Accepted) (accepted : s.accepted[k]? = some c) (destructed : c.destructed = true)
      (log : .connectDestroyed ∉ c.log)

theorem Left.same {s s' : TcpServer} (h : Left s k) (hs : Same k s s') : Left s' k := by
  cases h with
  | orphan c g h => exact .orphan c g (h.same hs)
  | gone c hc hd hlog => exact .gone c (hs.accepted.trans hc) hd hlog

theorem Orphan.log {s : TcpServer} {c : Accepted} {g : Stage} (h : Orphan s k c g) :
    .connectDestroyed ∉ c.log := by
  have hentry := h.entry
  rw [h.stage.mem_log (by decide)]
  cases g with
  | removed | destroyed | destructed => cases hentry
  | accepted | established | closed => simp [Stage.milestones]

theorem Left.log {s : TcpServer} (h : Left s k) {c : Accepted} (hc : s.accepted[k]? = some c) :
    .connectDestroyed ∉ c.log := by
  cases h with
  | orphan c' g h =>
    obtain rfl : c' = c := Option.some.inj (h.accepted.symm.trans hc)
    exact h.log
  | gone c' hc' _ hlog =>
    obtain rfl : c' = c := Option.some.inj (hc'.symm.trans hc)
    exact hlog

/-- No function of a destructed connection can run. -/
theorem onConnection_gone {d d' : DestroyedServer} {c : Accepted} {ms : List Milestone}
    {op : TcpConnection → Checked TcpConnection} (hc : d.server.accepted[k]? = some c)
    (hd : c.destructed = true) (h : d.onConnection k ms op = .ok d') : False := by
  simp [onConnection, hc, check_neg, hd] at h

theorem Left.setHeld {d : DestroyedServer} (h : Left d.server k) (held : Bool)
    (hheld : ∀ c g, Orphan d.server k c g → held = true → g ≠ .accepted) :
    Left (d.server.setHeld k held) k := by
  cases h with
  | orphan c g h =>
    have hlt := (List.getElem?_eq_some_iff.mp h.accepted).1
    have hs := h.stage
    have hset : d.server.setHeld k held = d.server.setAccepted k { c with held } := by
      simp [TcpServer.setHeld, h.accepted]
    rw [hset]
    refine .orphan { c with held } g ⟨List.getElem?_set_self hlt, ?_, h.entry, h.tasks⟩
    exact ⟨hs.sound, hs.unhandled, hs.state, hs.unknown, hheld c g h, hs.destructed, hs.milestones,
      hs.first⟩
  | gone c hc hd hlog =>
    have hlt := (List.getElem?_eq_some_iff.mp hc).1
    have hset : d.server.setHeld k held = d.server.setAccepted k { c with held } := by
      simp [TcpServer.setHeld, hc]
    rw [hset]
    exact .gone { c with held } (List.getElem?_set_self hlt) hd hlog

/-- A loop runs its next functor. -/
theorem Left.runPending {d d' : DestroyedServer} (h : Left d.server k) {loop : Nat}
    {write : WriteResult} (hd : d.runPending loop write = .ok d') : Left d'.server k := by
  unfold DestroyedServer.runPending at hd
  split at hd
  · cases hd
    exact h
  · rename_i j f rest hq
    by_cases hjk : j = k
    · subst hjk
      cases h with
      | gone c hc hgone _ =>
        exact (onConnection_gone (d := ⟨d.server.pop loop, d.exited⟩) hc hgone hd).elim
      | orphan c g h =>
        have hmem : Task.functor f ∈ d.server.tasks j loop := by simp [TcpServer.tasks, hq]
        have hpop := h.same (same_pop j d.server loop)
        obtain ⟨c', g', h'⟩ := Orphan.runFunctor (d := ⟨d.server.pop loop, d.exited⟩) hpop
          (h.tasks loop _ hmem) write hd
        exact .orphan c' g' h'
    · have hpop := h.same (same_pop k d.server loop)
      exact hpop.same (same_onConnection (d := ⟨d.server.pop loop, d.exited⟩) hjk hd)
  · cases hd

theorem Left.destruct {d : DestroyedServer} {s' : TcpServer} (h : Left d.server k)
    (hs : d.server.destruct k = .ok s') : Left s' k := by
  obtain ⟨c, hc⟩ : ∃ c, d.server.accepted[k]? = some c := by
    cases h with
    | orphan c g h => exact ⟨c, h.accepted⟩
    | gone c hc => exact ⟨c, hc⟩
  have hlog := h.log hc
  have hlt := (List.getElem?_eq_some_iff.mp hc).1
  simp only [TcpServer.destruct, hc] at hs
  obtain ⟨-, -, hs⟩ := bind_eq_ok.mp hs
  cases hs
  exact .gone _ (List.getElem?_set_self hlt) rfl (by simp [hlog])

/-- **Step lemma.** Nothing leads the connection to `connectDestroyed`. -/
theorem Left.step {d d' : DestroyedServer} {a : Label} (h : Left d.server k) (ha : d.Enabled a)
    (hd : d.step a = .ok d') : Left d'.server k := by
  cases a with
  | exit loop =>
    cases hd
    apply h.same
    refine ⟨rfl, fun l t ht => ?_⟩
    by_cases hl : l = loop
    · simp [TcpServer.tasks, hl] at ht
    · simpa [TcpServer.tasks, hl] using ht
  | server a =>
    obtain ⟨hruns, ha⟩ := ha
    cases a with
    | newConnection => exact hruns.elim
    | functor loop write => exact h.runPending hd
    | dispatch j revents read write =>
      simp only [DestroyedServer.step] at hd
      by_cases hjk : j = k
      swap
      · exact h.same (same_onConnection hjk hd)
      subst hjk
      cases h with
      | gone c hc hgone _ => exact (onConnection_gone hc hgone hd).elim
      | orphan c g h =>
        obtain ⟨c', hc', -, hmapped, hw⟩ := ha
        obtain rfl : c = c' := Option.some.inj (h.accepted.symm.trans hc')
        have hg : g ≠ .accepted := by
          intro hacc
          exact h.stage.unknown hacc (h.stage.sound.coherent.mapped_iff.mp hmapped)
        obtain ⟨c', h'⟩ := h.onConnection hg rfl
          (TcpConnection.handleEvent_passes h.stage.sound.rested h.stage.unhandled revents read hw) hd
        exact .orphan c' g h'
    | call j inLoop call write =>
      simp only [DestroyedServer.step] at hd
      by_cases hjk : j = k
      swap
      · exact h.same (same_onConnection hjk hd)
      subst hjk
      cases h with
      | gone c hc hgone _ => exact (onConnection_gone hc hgone hd).elim
      | orphan c g h =>
        obtain ⟨c', hc', hheld, hcall⟩ := ha
        obtain rfl : c = c' := Option.some.inj (h.accepted.symm.trans hc')
        obtain ⟨c', h'⟩ := h.onConnection (h.stage.held hheld) rfl
          (TcpConnection.call_passes h.stage.sound.rested hcall inLoop write) hd
        exact .orphan c' g h'
    | acquire j =>
      cases hd
      by_cases hjk : j = k
      swap
      · exact h.same (same_setHeld hjk _ true)
      subst hjk
      apply h.setHeld true
      intro c g h _ hacc
      obtain ⟨c', hc', -, hlog⟩ := ha
      obtain rfl : c = c' := Option.some.inj (h.accepted.symm.trans hc')
      have hmem := (h.stage.mem_log (by decide)).mp hlog
      simp [hacc, Stage.milestones] at hmem
    | release j =>
      cases hd
      by_cases hjk : j = k
      · subst hjk
        exact h.setHeld false (by simp)
      · exact h.same (same_setHeld hjk _ false)
    | destruct j =>
      obtain ⟨server, hserver, hd⟩ := bind_eq_ok.mp hd
      cases hd
      by_cases hjk : j = k
      · subst hjk
        exact h.destruct hserver
      · exact h.same (same_destruct hjk hserver)

/-- **Run lemma.** -/
theorem Left.not_ledOut {d d' : DestroyedServer} {steps : List Label} (h : Left d.server k)
    (hrun : Run DestroyedServer.step d steps d') (hsteps : Along DestroyedServer.step Enabled d steps) :
    ¬ d'.LedOut k := by
  have hleft : Left d'.server k :=
    hrun.invariant (I := fun d => Left d.server k) hsteps h fun _ _ _ h ha hs => h.step ha hs
  rintro ⟨c, hc, hlog, -⟩
  exact hleft.log hc hlog

end DestroyedServer

namespace TcpServer

theorem Registered.left {s : TcpServer} (h : s.Inv) {k : Nat} (hk : s.Registered k) :
    DestroyedServer.Left s.dtor.server k := by
  obtain ⟨c, hc, hentry⟩ := hk
  obtain ⟨-, g, hg⟩ := h.lodged k c hc
  have hgk : g.entry k = some k := hg.view.entry.symm.trans hentry
  refine .orphan c g ⟨hc, hg.stage, hgk, fun loop t ht => ?_⟩
  have ht : t ∈ s.tasks k loop := ht
  have hpending : ∀ m ∈ t.milestones, m ∈ g.pending c.loop loop := by
    intro m hm
    rw [← hg.view.pending loop]
    exact List.mem_flatMap.mpr ⟨t, ht, hm⟩
  exact .of_pending hgk hpending fun hacc => hg.waits hacc loop t ht

/-- **Destroying a server.** In every reachable state the destructor is safe for
the connections in `connections_` exactly if there is none. -/
theorem destroys_safely_iff (ipPort : IpPort) (name : String) (writeCompleteCallback : Bool)
    (numThreads : Nat) {steps : List Label} {s : TcpServer}
    (hrun : Run step (new ipPort name writeCompleteCallback numThreads) steps s)
    (hsteps : Along step Enabled (new ipPort name writeCompleteCallback numThreads) steps) :
    s.DestroysSafely ↔ ∀ k, ¬ s.Registered k := by
  constructor
  · intro h k hk
    obtain ⟨steps', d, hrun', hsteps', hled⟩ := (h k hk).led
    exact (hk.left (reachable_inv hrun hsteps)).not_ledOut hrun' hsteps' hled
  · intro h k hk
    exact absurd hk (h k)

/-- A connection on an I/O loop that its user closes. -/
def forceCloses : List Label :=
  [.newConnection, .functor 1 (.written 0), .acquire 0, .call 0 false .forceClose (.written 0),
   .functor 1 (.written 0), .functor 0 (.written 0)]

theorem forceCloses_enabled :
    Along step Enabled (new ⟨"0.0.0.0:80", by decide⟩ "echo" false 1) forceCloses := by
  apply (steps_cons_ok rfl).mpr ⟨trivial, _⟩
  apply (steps_cons_ok rfl).mpr ⟨List.cons_ne_nil _ _, _⟩
  apply (steps_cons_ok rfl).mpr ⟨⟨_, rfl, rfl, .head _⟩, _⟩
  apply (steps_cons_ok rfl).mpr ⟨⟨_, rfl, rfl, trivial⟩, _⟩
  apply (steps_cons_ok rfl).mpr ⟨List.cons_ne_nil _ _, _⟩
  exact ⟨List.cons_ne_nil _ _, fun _ _ => trivial⟩

theorem destroys_safely_iff_sample :
    ∃ s, Run step (new ⟨"0.0.0.0:80", by decide⟩ "echo" false 1) forceCloses s ∧
      s.DestroysSafely := by
  refine ⟨_, run_iff_foldlM.mpr rfl, ?_⟩
  refine (destroys_safely_iff _ _ _ _ (run_iff_foldlM.mpr rfl) forceCloses_enabled).mpr ?_
  rintro k ⟨c, hc, hentry⟩
  obtain ⟨-, g, hg⟩ := (reachable_inv (run_iff_foldlM.mpr rfl) forceCloses_enabled).lodged k c hc
  have hlog := hg.lifeCycle.registered.mp hentry
  cases k with
  | zero =>
    cases hc
    exact hlog (.tail _ (.head _))
  | succ k => cases hc

/-- The last pointer goes and an assertion fails. -/
theorem fails_at_last {s : TcpServer} {k : Nat} {e : Assertion} (hk : s.Registered k)
    (ha : s.dtor.Enabled (.server (.destruct k)))
    (he : s.dtor.step (.server (.destruct k)) = .error e) :
    s.dtor.Enabled (.server (.destruct k)) ∧ s.dtor.step (.server (.destruct k)) = .error e ∧
      ¬ s.DestroysSafely := by
  refine ⟨ha, he, fun h => ?_⟩
  obtain ⟨hlast, -⟩ := (h k hk).last [.server (.destruct k)] ⟨ha, fun _ _ => trivial⟩
  obtain ⟨-, d, hd⟩ := hlast rfl
  cases he.symm.trans hd

/-- A connection in the base loop. -/
def accepts : List Label := [.newConnection]

theorem accepts_enabled :
    Along step Enabled (new ⟨"0.0.0.0:80", by decide⟩ "echo" false 0) accepts :=
  ⟨trivial, fun _ _ => trivial⟩

/-- The server goes with an open connection in `connections_`. -/
theorem destroyed_under_connection :
    ∃ s, Run step (new ⟨"0.0.0.0:80", by decide⟩ "echo" false 0) accepts s ∧
      Along step Enabled (new ⟨"0.0.0.0:80", by decide⟩ "echo" false 0) accepts ∧
      s.Registered 0 ∧ s.dtor.Enabled (.server (.destruct 0)) ∧
      s.dtor.step (.server (.destruct 0)) = .error .tcpConnectionDtor ∧ ¬ s.DestroysSafely := by
  have hrun := run_iff_foldlM.mpr (rfl : accepts.foldlM step
    (new ⟨"0.0.0.0:80", by decide⟩ "echo" false 0) = .ok _)
  obtain ⟨-, g, hg⟩ := (reachable_inv hrun accepts_enabled).lodged 0 _ rfl
  have hreg := hg.lifeCycle.registered.mpr (by decide)
  refine ⟨_, hrun, accepts_enabled, ⟨_, rfl, hreg⟩, fails_at_last ⟨_, rfl, hreg⟩ ?_ rfl⟩
  refine ⟨trivial, _, rfl, rfl, rfl, nofun, ?_⟩
  intro loop t ht
  exact absurd ht List.not_mem_nil

end TcpServer

end Muduo
