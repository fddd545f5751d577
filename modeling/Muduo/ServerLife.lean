import Muduo.ServerConnections

/-!
Every step of a server takes the connection it is about from its stage to the
next, or leaves it in its stage. So each connection is established once and
before all else, removed once, destroyed once and behind its removal, and
destructed behind that.
-/

namespace Muduo

open Lib Events

namespace TcpServer

/-! ## From stage to stage -/

theorem Stage.established_of_live {g : Stage} {c : TcpConnection} (h : g.allows c.state)
    (hlive : c.Live) : g = .established := by
  cases g <;> first | rfl | (rcases hlive with hs | hs <;> simp [Stage.allows, hs] at h)

/-- A function of the connection has run, and the log has grown. -/
theorem InStage.advance {c : Accepted} {g : Stage} (h : InStage c g) (g' : Stage) (ms : List Milestone)
    {conn : TcpConnection} (hsound : conn.Sound) (hun : conn.Unhandled)
    (hstate : g'.allows conn.state) (hg : g ≠ .destructed) (hg' : g' ≠ .accepted)
    (hd : g' ≠ .destructed)
    (hms : g.milestones ++ ms.filter (· ≠ .dispatched) = g'.milestones)
    (hfirst : g ≠ .accepted ∨ ms.head? = some .connectEstablished) :
    InStage { c with conn, log := c.log ++ ms } g' where
  sound := hsound
  unhandled := hun
  state := hstate
  unknown hacc := absurd hacc hg'
  held _ := hg'
  destructed := ⟨fun hc => absurd (h.destructed.mp hc) hg, fun hc => absurd hc hd⟩
  milestones := by rw [List.filter_append, h.milestones, hms]
  first _ := by
    by_cases hlog : c.log = []
    · rcases hfirst with hacc | hhead
      · exact absurd hlog (h.log_ne_nil hacc)
      · simpa [hlog] using hhead
    · rw [List.head?_append_of_ne_nil _ hlog]
      exact h.first hlog

/-- A failure other than of the assertions of `removeConnectionInLoop` and of
`~TcpConnection`. -/
def Foreign (e : Assertion) : Prop := e ≠ .removeConnectionInLoop ∧ e ≠ .tcpConnectionDtor

/-- The outcome of a step. -/
def Safe : Checked TcpServer → Prop
  | .ok s => s.Inv
  | .error e => Foreign e

/-- A step between the two ends of a connection. -/
theorem Inv.onConnection {s : TcpServer} (h : s.Inv) {k : Nat} {c : Accepted} {g : Stage}
    (hk : Lodged s k c g) (hg : g ≠ .accepted) {ms : List Milestone}
    (hms : ms.filter (· ≠ .dispatched) = []) (op : TcpConnection → Checked TcpConnection)
    (hop : c.conn.rested.Passes (op c.conn.rested)) : Safe (s.onConnection k ms op) := by
  simp only [TcpServer.onConnection, hk.view.accepted]
  by_cases hlive : c.destructed = false
  swap
  · rw [check_neg hlive]
    exact ⟨by simp, by simp⟩
  rw [check_pos hlive, ok_bind]
  have hd : g ≠ .destructed := by
    intro hgd
    simp [hk.stage.destructed.mpr hgd] at hlive
  cases hconn : op c.conn.rested with
  | error e =>
    rw [hconn] at hop
    obtain rfl : e = .handleClose := hop
    exact ⟨by simp, by simp⟩
  | ok conn =>
    rw [hconn] at hop
    rw [ok_bind]
    have hlives : c.conn.rested.Lives conn := hop
    have hun : conn.Unhandled := hlives.unhandled hk.stage.unhandled
    obtain ⟨hframe₁, hat₁⟩ := hk.view.set { c with conn, log := c.log ++ ms } rfl
    cases hlives.ends rfl with
    | stays hstate hminor =>
      have hallows : g.allows conn.state := by
        rcases hstate with heq | ⟨hl, hl'⟩
        · exact heq ▸ hk.stage.state
        · obtain rfl := Stage.established_of_live (c := c.conn) hk.stage.state hl
          exact hl'
      obtain ⟨s', hs', hframe₂, hat₂⟩ := hat₁.deliver_minors hminor c.loop
      have hstage := hk.stage.advance g ms hlives.sound hun hallows hd hg hd
        (by rw [hms, List.append_nil]) (.inl hg)
      rw [hs']
      exact h.step_on hk.view.accepted (hframe₁.trans hframe₂)
        ⟨hstage, hat₂, fun hacc => absurd hacc hg⟩ rfl
    | closes hl hstate es es' heff hminor hminor' =>
      obtain rfl := Stage.established_of_live (c := c.conn) hk.stage.state hl
      obtain ⟨s', hs', hframe₂, hleaves⟩ := hat₁.deliver_close hminor hminor'
      rw [heff, hs']
      cases hleaves with
      | base hloop hat₂ =>
        have hstage := hk.stage.advance .removed (ms ++ [.removeConnectionInLoop])
          hlives.sound hun hstate (by simp) (by simp) (by simp)
          (by rw [List.filter_append, hms]; rfl) (.inl (by simp))
        rw [← List.append_assoc] at hstage
        exact h.step_on hk.view.accepted (hframe₁.trans hframe₂) ⟨hstage, hat₂, by simp⟩ rfl
      | io hloop hat₂ =>
        have hstage := hk.stage.advance .closed ms hlives.sound hun hstate (by simp)
          (by simp) (by simp) (by rw [hms, List.append_nil]; rfl) (.inl (by simp))
        exact h.step_on hk.view.accepted (hframe₁.trans hframe₂) ⟨hstage, hat₂, by simp⟩ rfl

/-! ## The functors of a life -/

/-- `connectEstablished` of an accepted connection. -/
theorem runFunctor_connectEstablished {s : TcpServer} {k : Nat} {c : Accepted}
    (hstage : InStage c .accepted) (hat : At s k c (some k) fun _ => []) (write : WriteResult) :
    ∃ s' c', s.runFunctor k .connectEstablished write = .ok s' ∧ Frame k c.name s s' ∧
      Lodged s' k c' .established ∧ c'.name = c.name := by
  obtain ⟨conn, hconn, hsound, hstate, -, hhand, heff⟩ :=
    TcpConnection.connectEstablished_spec hstage.sound.rested hstage.state
  have heff' : conn.effects = [.connectionCallback] := heff
  have hlive : c.destructed = false := hstage.there (by simp)
  obtain ⟨hframe, hat'⟩ := hat.set { c with conn, log := c.log ++ [.connectEstablished] } rfl
  refine ⟨_, _, ?_, hframe, ⟨?_, hat', by simp⟩, rfl⟩
  · simp only [runFunctor, onConnection, hat.accepted, check_pos hlive, ok_bind,
      TcpConnection.runFunctor, hconn, heff', List.foldlM_cons, List.foldlM_nil, deliver, pure_eq_ok,
      Functor.milestones]
  · exact hstage.advance .established [.connectEstablished] hsound (hhand.trans hstage.unhandled)
      (.inl hstate) (by simp) (by simp) (by simp) rfl (.inr rfl)

/-- The outcome of `connectDestroyed` of a removed connection. -/
theorem Inv.connectDestroyed {s₀ s : TcpServer} (h : s₀.Inv) {k : Nat} {c : Accepted}
    (hk : s₀.accepted[k]? = some c) (hframe : Frame k c.name s₀ s) (hstage : InStage c .removed)
    (hat : At s k c none fun _ => []) (write : WriteResult) :
    Safe (s.runFunctor k .connectDestroyed write) := by
  have hlive : c.destructed = false := hstage.there (by simp)
  have hstate : c.conn.rested.state = .kDisconnected := hstage.state
  have hne : c.conn.rested.state ≠ .kConnected := by simp [hstate]
  simp only [runFunctor, TcpServer.onConnection, hat.accepted, check_pos hlive, ok_bind,
    TcpConnection.runFunctor]
  cases hconn : c.conn.rested.connectDestroyed with
  | error e =>
    rcases TcpConnection.connectDestroyed_error hne hconn with rfl | rfl <;> exact ⟨by simp, by simp⟩
  | ok conn =>
    obtain ⟨hsound, hstate', -, hhand, heff⟩ :=
      TcpConnection.connectDestroyed_ok hstage.sound.rested hne hconn
    have heff' : conn.effects = [] := heff
    obtain ⟨hframe', hat'⟩ := hat.set { c with conn, log := c.log ++ [.connectDestroyed] } rfl
    have hstage' := hstage.advance .destroyed [.connectDestroyed] hsound
      (hhand.trans hstage.unhandled) (hstate'.trans hstate) (by simp) (by simp) (by simp) rfl
      (.inl (by simp))
    rw [ok_bind, heff']
    exact h.step_on hk (hframe.trans hframe') ⟨hstage', hat', by simp⟩ rfl

/-- `removeConnectionInLoop` of a closed connection. -/
theorem removeConnectionInLoop_closed {s : TcpServer} {k : Nat} {c : Accepted}
    (hstage : InStage c .closed) (hat : At s k c (some k) fun _ => []) :
    ∃ s' c', s.removeConnectionInLoop k = .ok s' ∧ Frame k c.name s s' ∧
      Lodged s' k c' .removed ∧ c'.name = c.name := by
  obtain ⟨s', hs', hframe, hat'⟩ := hat.remove
  refine ⟨s', _, hs', hframe, ⟨?_, hat', by simp⟩, rfl⟩
  exact hstage.advance .removed [.removeConnectionInLoop] hstage.sound hstage.unhandled hstage.state
    (by simp) (by simp) (by simp) rfl (.inl (by simp))

/-! ## Steps -/

/-- A functor without a milestone leaves its queue and runs. -/
theorem Inv.minor {s : TcpServer} (h : s.Inv) {loop k : Nat} {c : Accepted} {g : Stage} {f : Functor}
    {rest : List (Nat × Task)} (hc : s.accepted[k]? = some c) (hg : Lodged s k c g)
    (hq : s.pendingFunctors loop = (k, .functor f) :: rest) (hf : (Effect.quene f).minor = true)
    (write : WriteResult) : Safe ((s.pop loop).runFunctor k f write) := by
  have hms : f.milestones = [] := Functor.milestones_of_minor hf
  obtain ⟨hframe, p, hat, hp⟩ := hg.view.pop hq
  obtain rfl : g.pending c.loop = p := funext fun l => by
    rw [hp l, Task.milestones, hms]
    simp [atLoop]
  -- such functors are not queued before `connectEstablished` has run
  have hacc : g ≠ .accepted := by
    intro ha
    refine hg.waits ha loop (.functor f) ?_ hms
    simp [tasks, hq]
  have hlodged : Lodged (s.pop loop) k c g := ⟨hg.stage, hat, fun ha => absurd ha hacc⟩
  have hinv : (s.pop loop).Inv := h.step_on hc hframe hlodged rfl
  exact hinv.onConnection hlodged hacc (by rw [hms]; rfl) (fun c => c.runFunctor f write)
    (TcpConnection.runFunctor_passes hg.stage.sound.rested hf write)

/-- A loop runs its next functor. -/
theorem Inv.runPending {s : TcpServer} (h : s.Inv) (loop : Nat) (write : WriteResult) :
    Safe (s.runPending loop write) := by
  cases hq : s.pendingFunctors loop with
  | nil =>
    simp only [TcpServer.runPending, hq]
    exact h
  | cons head rest =>
    obtain ⟨k, t⟩ := head
    have hlt : k < s.accepted.length := h.bound loop (k, t) (by simp [hq])
    obtain ⟨c, hc⟩ : ∃ c, s.accepted[k]? = some c := ⟨_, List.getElem?_eq_getElem hlt⟩
    obtain ⟨-, g, hg⟩ := h.lodged k c hc
    obtain ⟨hframe, p, hat, hp⟩ := hg.view.pop hq
    cases t with
    | removeConnectionInLoop =>
      obtain ⟨ha, hnil⟩ := Stage.awaits_of_pending hp
      obtain rfl : p = fun _ => [] := funext hnil
      obtain rfl : g = .closed := by cases g <;> simp [Stage.awaits] at ha ⊢
      obtain ⟨s', c', hs', hframe', hlodged, hname⟩ := removeConnectionInLoop_closed hg.stage hat
      simp only [TcpServer.runPending, hq, hs']
      exact h.step_on hc (hframe.trans hframe') hlodged hname
    | functor f =>
      simp only [TcpServer.runPending, hq]
      cases f with
      | connectEstablished =>
        obtain ⟨ha, hnil⟩ := Stage.awaits_of_pending hp
        obtain rfl : p = fun _ => [] := funext hnil
        obtain rfl : g = .accepted := by cases g <;> simp [Stage.awaits] at ha ⊢
        obtain ⟨s', c', hs', hframe', hlodged, hname⟩ :=
          runFunctor_connectEstablished hg.stage hat write
        rw [hs']
        exact h.step_on hc (hframe.trans hframe') hlodged hname
      | connectDestroyed =>
        obtain ⟨ha, hnil⟩ := Stage.awaits_of_pending hp
        obtain rfl : p = fun _ => [] := funext hnil
        obtain rfl : g = .removed := by cases g <;> simp [Stage.awaits] at ha ⊢
        exact h.connectDestroyed hc hframe hg.stage hat write
      | _ => exact h.minor hc hg hq rfl write

/-- A user takes or drops its pointer. -/
theorem Inv.setHeld {s : TcpServer} (h : s.Inv) {k : Nat} {c : Accepted} {g : Stage}
    (hk : Lodged s k c g) {held : Bool} (hheld : held = true → g ≠ .accepted) :
    (s.setHeld k held).Inv := by
  have hset : s.setHeld k held = s.setAccepted k { c with held } := by
    simp [TcpServer.setHeld, hk.view.accepted]
  obtain ⟨hframe, hat⟩ := hk.view.set { c with held } rfl
  have hs := hk.stage
  have hstage : InStage { c with held } g :=
    ⟨hs.sound, hs.unhandled, hs.state, hs.unknown, hheld, hs.destructed, hs.milestones, hs.first⟩
  rw [hset]
  exact h.step_on hk.view.accepted hframe ⟨hstage, hat, hk.waits⟩ rfl

/-- A connection without references has been destroyed. -/
theorem Lodged.destroyed {s : TcpServer} {k : Nat} {c : Accepted} {g : Stage} (h : Lodged s k c g)
    (hlive : c.destructed = false) (hun : s.Unreferenced k c) : g = .destroyed := by
  obtain ⟨-, hentries, htasks⟩ := hun
  have hentry : g.entry k = none := by
    rw [← h.view.entry]
    cases he : s.connections c.name with
    | none => rfl
    | some j =>
      have hj := h.view.entry
      rw [he] at hj
      cases g <;> cases hj <;> exact absurd he (hentries c.name)
  cases g with
  | destroyed => rfl
  | destructed => exact absurd (h.stage.destructed.mpr rfl) (by simp [hlive])
  | accepted | established | closed => simp [Stage.entry] at hentry
  | removed =>
    -- the queued `connectDestroyed` holds a pointer
    have hpend := h.view.pending c.loop
    have hmem : Milestone.connectDestroyed ∈ s.pending k c.loop := by
      simp [hpend, Stage.pending, Stage.awaits, atLoop]
    obtain ⟨t, ht, hm⟩ := List.mem_flatMap.mp hmem
    have hholds := htasks c.loop (k, t) (mem_boundTo.mp ht) rfl
    simp [Task.holds_of_mem hm] at hholds

theorem Inv.destruct {s : TcpServer} (h : s.Inv) {k : Nat} {c : Accepted} {g : Stage}
    (hk : Lodged s k c g) (hlive : c.destructed = false) (hun : s.Unreferenced k c) :
    Safe (s.destruct k) := by
  obtain rfl := hk.destroyed hlive hun
  have hs := hk.stage
  have hstate : c.conn.state = .kDisconnected := hs.state
  simp only [TcpServer.destruct, hk.view.accepted, TcpConnection.dtor, check_pos hstate, ok_bind]
  cases hch : c.conn.channel.dtor with
  | error e =>
    obtain rfl := Channel.dtor_fails hch
    exact ⟨by simp, by simp⟩
  | ok u =>
    obtain ⟨hframe, hat⟩ :=
      hk.view.set { c with destructed := true, log := c.log ++ [.destructed] } rfl
    refine h.step_on hk.view.accepted hframe (g := .destructed) ⟨?_, hat, by simp⟩ rfl
    refine ⟨hs.sound, hs.unhandled, hs.state, by simp, by simp, by simp, ?_, ?_⟩
    · rw [List.filter_append, hs.milestones]
      rfl
    · intro _
      have hlog := hs.log_ne_nil (by simp)
      rw [List.head?_append_of_ne_nil _ hlog]
      exact hs.first hlog

/-- The connection that has just been accepted, before anything is queued for
it, and the others. -/
theorem Inv.addConnection {s : TcpServer} (h : s.Inv) (hid : s.nextConnId < intMax)
    (ioLoop next : Nat) :
    ∃ c, (s.addConnection ioLoop next).Others s.accepted.length ∧
      At (s.addConnection ioLoop next) s.accepted.length c (some s.accepted.length) (fun _ => []) ∧
      (∀ l, (s.addConnection ioLoop next).tasks s.accepted.length l = []) ∧
      InStage c .accepted ∧ c.loop = ioLoop ∧
      c.name = (s.addConnection ioLoop next).connName (s.accepted.length + 1) := by
  have hnew : ∀ l, (s.addConnection ioLoop next).tasks s.accepted.length l = [] := by
    intro l
    exact boundTo_eq_nil fun t ht => (h.bound l t ht).ne
  refine ⟨Accepted.new (s.connName s.nextConnId) ioLoop s.writeCompleteCallback, ⟨?_, ?_, ?_, ?_⟩,
    ⟨?_, ?_, fun l => ?_⟩, hnew, ?_, rfl, ?_⟩
  · simp [TcpServer.addConnection, h.nextConnId]
  · exact hid
  · intro l t ht
    have hlt := h.bound l t ht
    simp only [TcpServer.addConnection, List.length_append, List.length_singleton]
    omega
  · intro j c hj hc
    have hc' : s.accepted[j]? = some c := by
      have hlt := (List.getElem?_eq_some_iff.mp hc).1
      simp only [TcpServer.addConnection, List.length_append, List.length_singleton] at hlt
      rwa [TcpServer.addConnection, List.getElem?_append_left (by omega)] at hc
    obtain ⟨hname, g, hg⟩ := h.lodged j c hc'
    have hlt := hg.view.lt
    -- the new name is another one
    have hne : c.name ≠ s.connName s.nextConnId := by
      have hnext := h.nextConnId
      rw [hname]
      intro heq
      have := connName_inj (by omega) (by omega) heq
      omega
    exact ⟨hname, g, hg.stage,
      ⟨hc, (Function.update_of_ne hne _ _).trans hg.view.entry, hg.view.pending⟩, hg.waits⟩
  · simp [TcpServer.addConnection]
  · exact Function.update_self _ _ _
  · rw [TcpServer.pending, hnew l]
    rfl
  · exact ⟨TcpConnection.new_sound _, rfl, rfl, fun _ => by simp [TcpConnection.Known, Accepted.new,
      TcpConnection.new, Channel.new], by simp [Accepted.new], by simp [Accepted.new], rfl,
      fun hlog => absurd rfl hlog⟩
  · rw [← h.nextConnId]
    rfl

theorem Inv.newConnection {s : TcpServer} (h : s.Inv) : Safe s.newConnection := by
  unfold TcpServer.newConnection
  by_cases hid : s.nextConnId < intMax
  swap
  · rw [check_neg hid]
    exact ⟨by simp, by simp⟩
  rw [check_pos hid, ok_bind]
  obtain ⟨c, hothers, hat, htasks, hstage, hloop, hname⟩ :=
    h.addConnection hid s.getNextLoop.1 s.getNextLoop.2
  have hlt := hat.lt
  by_cases hbase : s.getNextLoop.1 = 0
  · obtain ⟨s', c', hs', hframe, hlodged, hname'⟩ :=
      runFunctor_connectEstablished hstage hat (.written 0)
    simp only [hbase, ↓reduceIte] at hs' ⊢
    rw [hs']
    exact (hothers.frame hlt hname hframe).inv (by rw [hname', hname, hframe.connName]) hlodged
  · obtain ⟨hframe, hat'⟩ := hat.quene s.getNextLoop.1 (.functor .connectEstablished)
    simp only [hbase, ↓reduceIte, pure_eq_ok]
    refine (hothers.frame hlt hname hframe).inv (by rw [hname, hframe.connName])
      (g := .accepted) ⟨hstage, ⟨hat'.accepted, hat'.entry, fun l => ?_⟩, fun _ l t ht => ?_⟩
    · rw [hat'.pending, ← hloop]
      rfl
    · rw [tasks_quene, htasks, List.nil_append] at ht
      split at ht
      · obtain rfl := List.mem_singleton.mp ht
        simp [Task.milestones, Functor.milestones]
      · cases ht

/-- **Every step is safe.** -/
theorem Inv.step {s : TcpServer} (h : s.Inv) {a : Label} (ha : s.Enabled a) : Safe (s.step a) := by
  cases a with
  | newConnection => exact h.newConnection
  | functor loop write => exact h.runPending loop write
  | dispatch k revents read write =>
    obtain ⟨c, hc, -, hmapped, hw⟩ := ha
    obtain ⟨-, g, hg⟩ := h.lodged k c hc
    have hs := hg.stage
    refine h.onConnection hg (fun hacc => hs.unknown hacc ?_) rfl
      (fun c => c.handleEvent revents read write)
      (TcpConnection.handleEvent_passes hs.sound.rested hs.unhandled revents read hw)
    exact hs.sound.coherent.mapped_iff.mp hmapped
  | call k inLoop call write =>
    obtain ⟨c, hc, hheld, hcall⟩ := ha
    obtain ⟨-, g, hg⟩ := h.lodged k c hc
    exact h.onConnection hg (hg.stage.held hheld) rfl (fun c => c.call inLoop write call)
      (TcpConnection.call_passes hg.stage.sound.rested hcall inLoop write)
  | acquire k =>
    obtain ⟨c, hc, -, hlog⟩ := ha
    obtain ⟨-, g, hg⟩ := h.lodged k c hc
    apply h.setHeld hg
    intro _ hacc
    have hmem : Milestone.connectEstablished ∈ g.milestones := by
      rw [← hg.stage.milestones]
      exact List.mem_filter.mpr ⟨hlog, by simp⟩
    simp [hacc, Stage.milestones] at hmem
  | release k =>
    obtain ⟨c, hc, -⟩ := ha
    obtain ⟨-, g, hg⟩ := h.lodged k c hc
    exact h.setHeld hg (by simp)
  | destruct k =>
    obtain ⟨c, hc, hlive, hun⟩ := ha
    obtain ⟨-, g, hg⟩ := h.lodged k c hc
    exact h.destruct hg hlive hun

/-! ## Runs -/

theorem new_inv (ipPort : IpPort) (name : String) (writeCompleteCallback : Bool) (numThreads : Nat) :
    (new ipPort name writeCompleteCallback numThreads).Inv :=
  ⟨rfl, by simp [new, intMax], by simp [new, Bound], by simp [new]⟩

theorem reachable_inv {ipPort : IpPort} {name : String} {writeCompleteCallback : Bool}
    {numThreads : Nat} {steps : List Label} {s : TcpServer}
    (hrun : Run step (new ipPort name writeCompleteCallback numThreads) steps s)
    (hsteps : Along step Enabled (new ipPort name writeCompleteCallback numThreads) steps) :
    s.Inv := by
  refine hrun.invariant hsteps (new_inv ..) fun s a s' h ha hs => ?_
  have hsafe := h.step ha
  rw [hs] at hsafe
  exact hsafe

/-- What is to hold of an accepted connection in every state. -/
structure LifeCycle (s : TcpServer) (k : Nat) (c : Accepted) : Prop where
  /-- each end is reached at most once, and in this order -/
  order : c.log.filter (· ≠ .dispatched) <+:
    [.connectEstablished, .removeConnectionInLoop, .connectDestroyed, .destructed]
  first : c.log ≠ [] → c.log.head? = some .connectEstablished
  /-- `connectEstablished` has run, or is queued in the loop of the connection -/
  once : c.log.count .connectEstablished + (s.pending k c.loop).count .connectEstablished = 1
  registered : s.connections c.name = some k ↔ .removeConnectionInLoop ∉ c.log
  disconnected : .destructed ∈ c.log → c.conn.state = .kDisconnected

theorem Stage.milestones_prefix (g : Stage) : g.milestones <+:
    [.connectEstablished, .removeConnectionInLoop, .connectDestroyed, .destructed] := by
  cases g <;> decide

theorem InStage.mem_log {c : Accepted} {g : Stage} (h : InStage c g) {m : Milestone}
    (hm : m ≠ .dispatched) : m ∈ c.log ↔ m ∈ g.milestones := by
  rw [← h.milestones, List.mem_filter]
  simp [hm]

theorem Lodged.lifeCycle {s : TcpServer} {k : Nat} {c : Accepted} {g : Stage} (h : Lodged s k c g) :
    LifeCycle s k c where
  order := h.stage.milestones ▸ g.milestones_prefix
  first := h.stage.first
  once := by
    have hlog : c.log.count .connectEstablished = g.milestones.count .connectEstablished := by
      rw [← h.stage.milestones, List.count_filter (by decide)]
    rw [hlog, h.view.pending]
    cases g with
    | accepted => simp [Stage.milestones, Stage.pending, Stage.awaits, atLoop]
    | closed =>
      by_cases hl : c.loop = 0 <;> simp [Stage.milestones, Stage.pending, Stage.awaits, atLoop, hl]
    | _ => simp [Stage.milestones, Stage.pending, Stage.awaits, atLoop]
  registered := by
    rw [h.view.entry, h.stage.mem_log (by decide)]
    cases g <;> simp [Stage.entry, Stage.milestones]
  disconnected hm := by
    rw [h.stage.mem_log (by decide)] at hm
    have hstate := h.stage.state
    cases g <;> first | exact hstate | simp [Stage.milestones] at hm

/-- Every connection of the state has lived as it is to; a failure is none of the
two assertions. -/
def LivesOnce (_ : TcpServer) (_ : Label) : Checked TcpServer → Prop
  | .ok s => ∀ k c, s.accepted[k]? = some c → LifeCycle s k c
  | .error e => Foreign e

/-- **The life of a connection.** In every interleaving of the loops and the
users each accepted connection is established once and before all else, stays
in `connections_` until it is removed, is destroyed at most once and behind its
removal, and is `kDisconnected` when it is destructed. -/
theorem connections_live_once (ipPort : IpPort) (name : String) (writeCompleteCallback : Bool)
    (numThreads : Nat) (steps : List Label)
    (hsteps : Along step Enabled (new ipPort name writeCompleteCallback numThreads) steps) :
    Steps step LivesOnce (new ipPort name writeCompleteCallback numThreads) steps := by
  refine Steps.of_invariant (I := Inv) (fun s a h ha => ?_) (fun s a s' h ha hs => ?_)
    (new_inv ..) hsteps
  · have hsafe := h.step ha
    cases hs : s.step a with
    | ok s' =>
      rw [hs] at hsafe
      intro k c hc
      obtain ⟨-, g, hg⟩ := Inv.lodged hsafe k c hc
      exact hg.lifeCycle
    | error e =>
      rw [hs] at hsafe
      exact hsafe
  · have hsafe := h.step ha
    rw [hs] at hsafe
    exact hsafe

/-- One I/O loop; a user forces its connection to close. -/
theorem connections_live_once_sample :
    Steps step LivesOnce (new ⟨"0.0.0.0:80", by decide⟩ "echo" false 1)
      [.newConnection, .functor 1 (.written 0), .acquire 0, .call 0 false .forceClose (.written 0),
       .functor 1 (.written 0), .functor 0 (.written 0)] := by
  refine connections_live_once _ _ _ _ _ ?_
  refine (steps_cons_ok rfl).mpr ⟨trivial, ?_⟩
  refine (steps_cons_ok rfl).mpr ⟨List.cons_ne_nil _ _, ?_⟩
  refine (steps_cons_ok rfl).mpr ⟨⟨_, rfl, rfl, .head _⟩, ?_⟩
  refine (steps_cons_ok rfl).mpr ⟨⟨_, rfl, rfl, trivial⟩, ?_⟩
  refine (steps_cons_ok rfl).mpr ⟨List.cons_ne_nil _ _, ?_⟩
  exact ⟨List.cons_ne_nil _ _, fun _ _ => trivial⟩

end TcpServer

end Muduo
