import Muduo.ConnectorLifetime

/-!
The second that `~TcpClient` gives its connector. What `stop` and the attempt under
way have queued is bound to the connector by a plain `this`, and the timer with
`removeConnector` is what keeps it.

* `toRun`: the functors that are still to come;
* `drains_unbound_iff`: when they have run, nothing is bound to the connector,
  unless it has forgotten a channel.
-/

namespace Muduo

open Lib Events

/-! ## The functors of a stopped connector -/

namespace Connector

/-- The functors in the queue, and the one that the attempt under way will add. -/
def toRun (c : Connector) : Nat := c.functors.length + if c.state = .kConnecting then 1 else 0

/-- An attempt ends, or none does. -/
def Ends (c c' : Connector) : Prop :=
  c'.functors = c.functors ∧ c'.state = c.state ∨
    c.state = .kConnecting ∧ c'.state ≠ .kConnecting ∧ c'.functors = c.functors ++ [.resetChannel]

theorem Ends.refl (c : Connector) : Ends c c := .inl ⟨rfl, rfl⟩

theorem Ends.trans {c c' c'' : Connector} (h : Ends c c') (h' : Ends c' c'') : Ends c c'' := by
  rcases h with ⟨hfs, hstate⟩ | ⟨hstate, hended, hfs⟩
  · rcases h' with ⟨hfs', hstate'⟩ | ⟨hstate', hended', hfs'⟩
    · exact .inl ⟨hfs'.trans hfs, hstate'.trans hstate⟩
    · exact .inr ⟨hstate ▸ hstate', hended', hfs' ▸ hfs ▸ rfl⟩
  · rcases h' with ⟨hfs', hstate'⟩ | ⟨hstate', -, -⟩
    · exact .inr ⟨hstate, hstate' ▸ hended, hfs'.trans hfs⟩
    · exact absurd hstate' hended

theorem Ends.toRun_eq {c c' : Connector} (h : Ends c c') : c'.toRun = c.toRun := by
  unfold toRun
  rcases h with ⟨hfs, hstate⟩ | ⟨hstate, hended, hfs⟩
  · rw [hfs, hstate]
  · rw [hfs, if_pos hstate, if_neg hended, List.length_append, List.length_singleton, Nat.add_zero]

theorem retry_ends {c c₁ : Connector} (hstate : c.state = .kConnecting)
    (hfs : c₁.functors = c.functors ++ [.resetChannel]) (s : Nat) : Ends c (c₁.retry s) := by
  have hset := retry_settles c₁ s
  exact .inr ⟨hstate, hset.state, hset.functors.trans hfs⟩

theorem handleError_ends {c c' : Connector} (hc : c.handleError = .ok c') : Ends c c' := by
  unfold handleError at hc
  split at hc
  · rename_i hstate
    obtain ⟨⟨c₁, s⟩, hrem, hc⟩ := bind_eq_ok.mp hc
    cases hc
    obtain ⟨a, channel, -, rfl, rfl⟩ := removeAndResetChannel_ok hrem
    exact retry_ends hstate rfl _
  · cases hc
    exact .refl c

theorem handleWrite_ends {c c' : Connector} {err : Nat} {selfConnect : Bool}
    (hc : c.handleWrite err selfConnect = .ok c') : Ends c c' := by
  unfold handleWrite at hc
  split at hc
  · rename_i hstate
    obtain ⟨⟨c₁, s⟩, hrem, hc⟩ := bind_eq_ok.mp hc
    obtain ⟨a, channel, -, rfl, rfl⟩ := removeAndResetChannel_ok hrem
    dsimp only at hc
    split at hc
    · cases hc
      exact retry_ends hstate rfl _
    split at hc
    · cases hc
      exact retry_ends hstate rfl _
    · cases hc
      split <;> exact .inr ⟨hstate, by simp [newConnectionCallback, close, setState], rfl⟩
  · obtain ⟨_, _, hc⟩ := bind_eq_ok.mp hc
    cases hc
    exact .refl c

theorem stopInLoop_ends {c c' : Connector} (hc : c.stopInLoop = .ok c') : Ends c c' := by
  unfold stopInLoop at hc
  split at hc
  · rename_i hstate
    obtain ⟨⟨c₁, s⟩, hrem, hc⟩ := bind_eq_ok.mp hc
    cases hc
    obtain ⟨a, channel, -, rfl, rfl⟩ := removeAndResetChannel_ok hrem
    exact retry_ends hstate rfl _
  · cases hc
    exact .refl c

theorem resetChannel_ends {c c' : Connector} (hc : c.resetChannel = .ok c') : Ends c c' := by
  unfold resetChannel at hc
  split at hc
  · cases hc
    exact .refl c
  · obtain ⟨_, -, hc⟩ := bind_eq_ok.mp hc
    cases hc
    exact .inl ⟨rfl, rfl⟩

theorem handleEvent_ends {c c' : Connector} {revents : Events} {err : Nat} {selfConnect : Bool}
    (hc : c.handleEvent revents err selfConnect = .ok c') : Ends c c' := by
  refine handleEvent_invariant (I := Ends c) ?_ ?_ ?_ (.refl c) hc
  · intro c₁ b h
    exact h.trans (.inl ⟨rfl, rfl⟩)
  · intro c₁ c₂ h hc
    exact h.trans (handleError_ends hc)
  · intro c₁ c₂ h hc
    exact h.trans (handleWrite_ends hc)

/-- Behind `stop`, what the loop does ends attempts, and begins none. -/
theorem step_ends {c c' : Connector} (h : c.connect_ = false) {a : Step} (ha : a.ofLoop = true)
    (hs : c.step a = .ok c') : Ends (c.popped a) c' := by
  cases a with
  | timer i savedErrno =>
    cases (timer_off h i savedErrno).symm.trans hs
    exact .inl ⟨rfl, rfl⟩
  | dispatch revents err selfConnect => exact handleEvent_ends hs
  | functor savedErrno =>
    cases hfs : c.functors with
    | nil =>
      simp only [step, hfs] at hs
      cases hs
      exact .inl ⟨by simp [popped, Step.isFunctor, hfs], by simp⟩
    | cons f functors =>
      have heq : c.popped (.functor savedErrno) = { c with functors } := by
        simp [popped, Step.isFunctor, hfs]
      simp only [step, hfs] at hs
      rw [heq]
      cases f with
      | startInLoop =>
        cases (startInLoop_off (c := { c with functors }) h savedErrno).symm.trans hs
        exact .refl _
      | stopInLoop => exact stopInLoop_ends hs
      | resetChannel => exact resetChannel_ends hs
  | _ => cases ha

theorem step_toRun {c c' : Connector} (h : c.connect_ = false) {a : Step} (ha : a.ofLoop = true)
    (hq : a.isFunctor = true → c.functors ≠ []) (hs : c.step a = .ok c') :
    (if a.isFunctor then 1 else 0) + c'.toRun ≤ c.toRun := by
  have heq := (step_ends h ha hs).toRun_eq
  have hpopped : (if a.isFunctor then 1 else 0) + (c.popped a).toRun = c.toRun := by
    unfold toRun
    rw [popped_state, popped_functors]
    cases hf : a.isFunctor with
    | false => simp
    | true =>
      have hpos := List.length_pos_iff.mpr (hq hf)
      simp only [↓reduceIte, List.length_tail]
      omega
  omega

/-- With an empty queue and no attempt, a channel is there only if it has been
forgotten. -/
theorem Good.unbound {c : Connector} (h : c.Good) (hstate : c.state ≠ .kConnecting)
    (hfs : c.functors = []) : c.Unbound := by
  cases h.1 with
  | idle _ h₂ => exact ⟨h₂, hfs⟩
  | connecting _ h₁ => exact absurd h₁ hstate
  | resetting _ _ _ h₃ => simp [resets, hfs] at h₃

end Connector

/-! ## Behind a client without a connection -/

namespace ClientObject

/-- The call of the connector that the step is, or makes. -/
def calls (s : ClientObject) : Label → Option Connector.Step
  | .connect inLoop savedErrno => some (.start inLoop savedErrno)
  | .stop => some .stop
  | .connector a => some a
  | .destructClient _ => if s.client.connection = none then some .stop else none
  | _ => none

def Label.runsFunctor : Label → Bool
  | .connector a => a.isFunctor
  | _ => false

section Functions

variable {s s' : ClientObject}

theorem release_ok (h : s.release = .ok s') :
    s'.client = s.client ∧ s'.connector = s.connector := by
  unfold release at h
  split at h
  · cases h
    exact ⟨rfl, rfl⟩
  · obtain ⟨u, -, h⟩ := bind_eq_ok.mp h
    cases h
    exact ⟨rfl, rfl⟩

theorem onConnector_ok {op : Connector → Checked Connector} (h : s.onConnector op = .ok s')
    (hstands : s.client.Stands) :
    op s.connector = .ok s'.connector ∧ s'.client.Stands ∧
      s'.client.destructed = s.client.destructed := by
  obtain ⟨u, -, h⟩ := bind_eq_ok.mp h
  obtain ⟨connector, hconnector, h⟩ := bind_eq_ok.mp h
  obtain ⟨v, -, h⟩ := bind_eq_ok.mp h
  obtain ⟨client, hclient, h⟩ := bind_eq_ok.mp h
  cases h
  obtain ⟨client', hclient', hstands', hd⟩ := TcpClient.newConnections_stand _ hstands
  cases hclient'.symm.trans (ok_of_mapError hclient)
  exact ⟨ok_of_mapError hconnector, hstands', hd⟩

end Functions

/-- **Step lemma.** -/
theorem step_calls {s s' : ClientObject} (hstands : s.client.Stands) {a : Label} (ha : s.Enabled a)
    (hs : s.step a = .ok s') :
    (∀ x, s.calls a = some x → s.connector.Allowed x ∧ s.connector.step x = .ok s'.connector) ∧
      (s.calls a = none → s'.connector = s.connector) ∧ s'.client.Stands ∧
        (s.client.destructed = true → s'.client.destructed = true) := by
  cases a with
  | connect inLoop savedErrno =>
    have hon : ({ s with client := { s.client with connect := true } } : ClientObject).onConnector
        (fun c => c.start inLoop savedErrno) = .ok s' := hs
    obtain ⟨hc, hstands', hd⟩ := onConnector_ok hon hstands
    refine ⟨?_, by simp [calls], hstands', fun h => hd.trans h⟩
    rintro x ⟨⟩
    exact ⟨trivial, hc⟩
  | stop =>
    have hon : ({ s with client := { s.client with connect := false } } : ClientObject).onConnector
        (fun c => return c.stop) = .ok s' := hs
    obtain ⟨hc, hstands', hd⟩ := onConnector_ok hon hstands
    refine ⟨?_, by simp [calls], hstands', fun h => hd.trans h⟩
    rintro x ⟨⟩
    exact ⟨trivial, hc⟩
  | connector a =>
    obtain ⟨s₁, hon, hs⟩ := bind_eq_ok.mp hs
    obtain ⟨hc, hstands', hd⟩ := onConnector_ok hon hstands
    have hsame : s'.client = s₁.client ∧ s'.connector = s₁.connector := by
      split at hs
      · exact release_ok hs
      · cases hs
        exact ⟨rfl, rfl⟩
    rw [hsame.1, hsame.2]
    refine ⟨?_, by simp [calls], hstands', fun h => hd.trans h⟩
    rintro x ⟨⟩
    exact ⟨ha.2.1, hc⟩
  | client a =>
    obtain ⟨ha', hnew, hdestruct⟩ := enabled_client ha
    obtain ⟨client, hclient, hs⟩ := bind_eq_ok.mp hs
    cases hs
    obtain ⟨hstands', hd⟩ := hstands.step ha' hnew hdestruct (ok_of_mapError hclient)
    exact ⟨by simp [calls], fun _ => rfl, hstands', fun h => hd.trans h⟩
  | destructClient inLoop =>
    obtain ⟨client, hd, hstands', hsome, hnone⟩ := destructClient_spec hstands inLoop
    by_cases hk : s.client.connection = none
    · obtain ⟨hclient, hconnector⟩ := release_ok ((hnone hk).symm.trans hs)
      rw [hclient, hconnector]
      refine ⟨?_, by simp [calls, hk], hstands', fun _ => hd⟩
      intro x hx
      obtain rfl : .stop = x := by simpa [calls, hk] using hx
      exact ⟨trivial, rfl⟩
    · obtain ⟨hclient, hconnector⟩ := release_ok ((hsome hk).symm.trans hs)
      rw [hclient, hconnector]
      exact ⟨by simp [calls, hk], fun _ => rfl, hstands', fun _ => hd⟩
  | removeConnector =>
    obtain ⟨hclient, hconnector⟩ := release_ok hs
    rw [hclient, hconnector]
    exact ⟨by simp [calls], fun _ => rfl, hstands, id⟩

theorem known_of_run (writeCompleteCallback : Bool) {steps : List Label} {s : ClientObject}
    (hrun : Run step (new writeCompleteCallback) steps s)
    (hsteps : Along step Enabled (new writeCompleteCallback) steps) :
    s.client.Stands ∧ s.connector.Known := by
  refine hrun.invariant (I := fun s => s.client.Stands ∧ s.connector.Known) hsteps
    ⟨(new_inv _).stands, .inl ⟨Connector.new_good, Connector.new_balanced⟩⟩ ?_
  rintro s a s' ⟨hstands, hknown⟩ ha hs
  obtain ⟨hcalls, hsame, hstands', -⟩ := step_calls hstands ha hs
  refine ⟨hstands', ?_⟩
  cases hx : s.calls a with
  | none =>
    rw [hsame hx]
    exact hknown
  | some x => exact hknown.step (hcalls x hx).1 (hcalls x hx).2

/-- The states behind a `~TcpClient` without a connection; `lost` says that the
connector had forgotten a channel. -/
structure Behind (lost : Prop) (t : ClientObject) : Prop where
  stands : t.client.Stands
  destructed : t.client.destructed = true
  connect_ : t.connector.connect_ = false
  stops : .stopInLoop ∈ t.connector.functors ∨ t.connector.state ≠ .kConnecting
  kind : t.connector.Forgotten ∧ lost ∨ t.connector.Stopped ∧ ¬ lost

/-- Behind the client, the loop alone calls the connector. -/
theorem calls_behind {s : ClientObject} (hd : s.client.destructed = true) {a : Label}
    (ha : s.Enabled a) {x : Connector.Step} (hx : s.calls a = some x) : a = .connector x := by
  cases a with
  | connector y =>
    obtain rfl : y = x := by simpa [calls] using hx
    rfl
  | connect | stop | destructClient => simp [Enabled, hd] at ha
  | _ => simp [calls] at hx

theorem Behind.step {lost : Prop} {s s' : ClientObject} (h : Behind lost s) {a : Label}
    (ha : s.Enabled a) (hs : s.step a = .ok s') : Behind lost s' := by
  obtain ⟨hcalls, hsame, hstands', hd⟩ := step_calls h.stands ha hs
  cases hx : s.calls a with
  | none =>
    have hc := hsame hx
    exact ⟨hstands', hd h.destructed, hc ▸ h.connect_, hc ▸ h.stops, hc ▸ h.kind⟩
  | some x =>
    obtain rfl := calls_behind h.destructed ha hx
    obtain ⟨hloop, hallowed, hqueue⟩ := ha
    have hstep := (hcalls x hx).2
    have hstarts : ¬ x.Starts := by cases x <;> first | exact id | cases hloop
    have hfades := Connector.step_fades h.connect_ hstarts hstep
    refine ⟨hstands', hd h.destructed, hfades.connect_, ?_, ?_⟩
    · rcases h.stops with hmem | hstate
      swap
      · exact .inr fun hc => hstate (by simpa using hfades.state hc)
      cases hf : x.isFunctor with
      | false =>
        have hkept := hfades.functors
        rw [Connector.popped_functors, if_neg (by simp [hf])] at hkept
        exact .inl (hkept.subset hmem)
      | true =>
        obtain ⟨f, functors, hfs⟩ := List.exists_cons_of_ne_nil (hqueue hf)
        by_cases hstop : f = .stopInLoop
        · exact .inr ((Connector.functor_serves h.connect_ hf hstep hfs).1 hstop)
        · have hkept := hfades.functors
          rw [Connector.popped_functors, if_pos hf, hfs, List.tail_cons] at hkept
          rw [hfs] at hmem
          exact .inl (hkept.subset (List.mem_of_ne_of_mem (Ne.symm hstop) hmem))
    · rcases h.kind with ⟨hforgotten, hlost⟩ | ⟨hstopped, hkept⟩
      · exact .inl ⟨hforgotten.step hstep, hlost⟩
      · exact .inr ⟨hstopped.step ⟨hallowed, hstarts⟩ hstep, hkept⟩

theorem Behind.spends {lost : Prop} {s s' : ClientObject} (h : Behind lost s) {a : Label}
    (ha : s.Enabled a) (hs : s.step a = .ok s') :
    (if a.runsFunctor then 1 else 0) + s'.connector.toRun ≤ s.connector.toRun := by
  obtain ⟨hcalls, hsame, -, -⟩ := step_calls h.stands ha hs
  cases hx : s.calls a with
  | none =>
    have hruns : a.runsFunctor = false := by
      cases a <;> first | rfl | simp [calls] at hx
    rw [hsame hx, hruns]
    simp
  | some x =>
    obtain rfl := calls_behind h.destructed ha hx
    exact Connector.step_toRun h.connect_ ha.1 ha.2.2 (hcalls x hx).2

/-- **What the timer of `~TcpClient` has to wait for.** Behind a `~TcpClient` that
finds no connection the loop runs at most two functors more for the connector than
were in its queue. When the queue is empty nothing is bound to the connector any
more, unless it had already forgotten a channel. -/
theorem drains_unbound_iff (writeCompleteCallback : Bool) {before behind : List Label}
    {s s₁ t : ClientObject} {inLoop : Bool}
    (hbefore : Run step (new writeCompleteCallback) before s)
    (hallowed : Along step Enabled (new writeCompleteCallback) before)
    (hnone : s.client.connection = none) (hs : s.step (.destructClient inLoop) = .ok s₁)
    (hrun : Run step s₁ behind t) (hsteps : Along step Enabled s₁ behind) :
    behind.countP Label.runsFunctor + t.connector.functors.length ≤
        s.connector.functors.length + 2 ∧
      (t.connector.functors = [] → (t.connector.Unbound ↔ ¬ s.connector.Forgotten)) := by
  obtain ⟨hstands, hknown⟩ := known_of_run _ hbefore hallowed
  obtain ⟨client, hd, hstands', -, hrelease⟩ := destructClient_spec hstands inLoop
  obtain ⟨hclient, hconnector⟩ := release_ok ((hrelease hnone).symm.trans hs)
  have hstart : Behind s.connector.Forgotten s₁ := by
    refine ⟨hclient ▸ hstands', hclient ▸ hd, hconnector ▸ rfl, hconnector ▸ .inl ?_, ?_⟩
    · exact List.mem_append_right _ (List.mem_singleton.mpr rfl)
    rw [hconnector]
    by_cases hlost : s.connector.Forgotten
    · exact .inl ⟨hlost.step (a := .stop) rfl, hlost⟩
    · exact .inr ⟨Connector.Stopped.stop (hknown.resolve_right hlost), hlost⟩
  have hend : Behind s.connector.Forgotten t :=
    hrun.invariant hsteps hstart fun _ _ _ h ha hs => h.step ha hs
  constructor
  · have hspent : behind.countP Label.runsFunctor + t.connector.toRun ≤ s₁.connector.toRun :=
      hrun.spends hsteps hstart (fun _ _ _ h ha hs => h.step ha hs) fun _ _ _ h ha hs => h.spends ha hs
    have hstop : s₁.connector.toRun ≤ s.connector.functors.length + 2 := by
      rw [hconnector]
      unfold Connector.toRun Connector.stop Connector.queneInLoop
      dsimp only
      rw [List.length_append]
      split <;> simp
    have hle : t.connector.functors.length ≤ t.connector.toRun := Nat.le_add_right _ _
    omega
  · intro hfs
    have hstate : t.connector.state ≠ .kConnecting := hend.stops.resolve_left (by simp [hfs])
    rcases hend.kind with ⟨hforgotten, hlost⟩ | ⟨hstopped, hlost⟩
    · exact iff_of_false (fun h => hforgotten.channel h.1) (not_not.mpr hlost)
    · exact iff_of_true (hstopped.good.unbound hstate hfs) hlost

/-- The client goes during the first attempt, and the socket is connected before
`stopInLoop` runs. -/
def connectsLate : List Label :=
  [.connector (.dispatch POLLOUT 0 false), .connector (.functor none), .connector (.functor none)]

theorem drains_unbound_iff_connectsLate :
    ∃ s s₁ t, Run step (new false) [.connect true (some .EINPROGRESS)] s ∧
      s.step (.destructClient true) = .ok s₁ ∧ Run step s₁ connectsLate t ∧
      connectsLate.countP Label.runsFunctor = s.connector.functors.length + 2 ∧
      t.connector.Unbound := by
  obtain ⟨s, hbefore, hnone, hlen, hstate, s₁, hs, t, hrun, hsteps, hfs⟩ :
      ∃ s, Run step (new false) [.connect true (some .EINPROGRESS)] s ∧
        s.client.connection = none ∧ s.connector.functors.length = 0 ∧
        s.connector.state = .kConnecting ∧ ∃ s₁, s.step (.destructClient true) = .ok s₁ ∧
        ∃ t, Run step s₁ connectsLate t ∧ Along step Enabled s₁ connectsLate ∧
          t.connector.functors = [] := by
    refine ⟨_, run_iff_foldlM.mpr rfl, rfl, rfl, rfl, _, rfl, _, run_iff_foldlM.mpr rfl, ?_, rfl⟩
    refine (steps_cons_ok rfl).mpr ⟨⟨rfl, ⟨_, rfl, by decide⟩, by simp [Connector.Step.isFunctor]⟩, ?_⟩
    refine (steps_cons_ok rfl).mpr ⟨⟨rfl, trivial, fun _ => List.cons_ne_nil _ _⟩, ?_⟩
    exact ⟨⟨rfl, trivial, fun _ => List.cons_ne_nil _ _⟩, fun _ _ => trivial⟩
  have hunbound := (drains_unbound_iff false hbefore ⟨rfl, fun _ _ => trivial⟩ hnone hs hrun hsteps).2 hfs
  exact ⟨s, s₁, t, hbefore, hs, hrun, by rw [hlen]; rfl, hunbound.mpr fun hlost => hlost.state hstate⟩

end ClientObject

end Muduo
