import Muduo.TcpServer

/-!
The life of every connection of a server: accepted, established, closed,
removed from `connections_`, destroyed in its loop, destructed. Each hand-over
between the loops is one pending functor, so what is pending for a connection
is determined by its stage.

* `Frame`, `At`: what a function of the server leaves alone, and what it does to
  the one connection it is about;
* `Inv`: every connection is in a stage;
* `connections_live_once`: the order of every life.
-/

namespace Muduo

open Lib Events

/-! ## Names of connections -/

theorem repr_inj {i j : Nat} (h : i.repr = j.repr) : i = j := by
  have hi := Nat.ofDigitChars_ten_toDigits (n := i)
  rw [← Nat.toList_repr, h, Nat.toList_repr, Nat.ofDigitChars_ten_toDigits] at hi
  exact hi.symm

theorem snprintf_short {size : Nat} {text : String} (h : text.length ≤ size - 1) :
    snprintf size text = text := by
  rw [snprintf, List.take_of_length_le (by rwa [String.length_toList]), String.ofList_toList]

namespace TcpServer

/-- The buffer of `newConnection` is long enough for every `int`. -/
theorem connName_inj {s : TcpServer} {i j : Nat} (hi : i ≤ intMax) (hj : j ≤ intMax)
    (h : s.connName i = s.connName j) : i = j := by
  have hshort : ∀ id, id ≤ intMax → ("-" ++ s.ipPort.text ++ "#" ++ id.repr).length ≤ 64 - 1 := by
    intro id hid
    have hip := s.ipPort.short
    have hid' : id.repr.length ≤ 10 :=
      (Nat.length_repr_le_iff (by decide)).mpr (hid.trans_lt (by decide))
    have hdash : "-".length = 1 := rfl
    have hhash : "#".length = 1 := rfl
    simp only [String.length_append]
    omega
  rw [connName, connName, snprintf_short (hshort i hi), snprintf_short (hshort j hj)] at h
  have hlist := congrArg String.toList h
  simp only [String.toList_append, List.append_assoc, List.append_cancel_left_eq] at hlist
  exact repr_inj (String.toList_inj.mp hlist)

/-! ## What is pending for a connection -/

/-- The pending functors of a loop that are bound to the connection `k`. -/
def tasks (s : TcpServer) (k loop : Nat) : List Task :=
  boundTo (s.pendingFunctors loop) k

/-- The milestones among them. -/
def pending (s : TcpServer) (k loop : Nat) : List Milestone :=
  (s.tasks k loop).flatMap Task.milestones

/-- Functors are bound to accepted connections. -/
def Bound (s : TcpServer) : Prop :=
  ∀ loop, ∀ t ∈ s.pendingFunctors loop, t.1 < s.accepted.length

/-- Milestones pending in one loop only. -/
def atLoop (loop : Nat) (ms : List Milestone) : Nat → List Milestone :=
  fun l => if l = loop then ms else []

theorem tasks_quene (s : TcpServer) (loop k : Nat) (t : Task) (j l : Nat) :
    (s.queneInLoop loop k t).tasks j l = s.tasks j l ++ if l = loop ∧ k = j then [t] else [] := by
  by_cases hl : l = loop
  · subst hl
    simp [tasks, queneInLoop, boundTo_cons]
  · simp [tasks, queneInLoop, hl]

theorem tasks_pop {s : TcpServer} {loop k : Nat} {t : Task} {rest : List (Nat × Task)}
    (h : s.pendingFunctors loop = (k, t) :: rest) (j l : Nat) :
    s.tasks j l = (if l = loop ∧ k = j then [t] else []) ++ (s.pop loop).tasks j l := by
  by_cases hl : l = loop
  · subst hl
    simp [tasks, pop, h, boundTo_cons]
  · simp [tasks, pop, hl]

/-! ## One connection and the others -/

/-- From `s` to `s'` nothing changes but the connection `k`, its entry under
`name`, and the functors bound to it. -/
structure Frame (k : Nat) (name : String) (s s' : TcpServer) : Prop where
  connName : s'.connName = s.connName
  nextConnId : s'.nextConnId = s.nextConnId
  length : s'.accepted.length = s.accepted.length
  accepted : ∀ j, j ≠ k → s'.accepted[j]? = s.accepted[j]?
  entries : ∀ n, n ≠ name → s'.connections n = s.connections n
  tasks : ∀ j loop, j ≠ k → s'.tasks j loop = s.tasks j loop
  bound : s.Bound → s'.Bound

theorem Frame.refl (k : Nat) (name : String) (s : TcpServer) : Frame k name s s :=
  ⟨rfl, rfl, rfl, fun _ _ => rfl, fun _ _ => rfl, fun _ _ _ => rfl, id⟩

theorem Frame.trans {k : Nat} {name : String} {s s' s'' : TcpServer} (h : Frame k name s s')
    (h' : Frame k name s' s'') : Frame k name s s'' :=
  ⟨h'.connName.trans h.connName, h'.nextConnId.trans h.nextConnId, h'.length.trans h.length,
    fun j hj => (h'.accepted j hj).trans (h.accepted j hj),
    fun n hn => (h'.entries n hn).trans (h.entries n hn),
    fun j l hj => (h'.tasks j l hj).trans (h.tasks j l hj), h'.bound ∘ h.bound⟩

/-- The connection `k` is `c`, with this entry in `connections_` and these
milestones pending. -/
structure At (s : TcpServer) (k : Nat) (c : Accepted) (entry : Option Nat)
    (pending : Nat → List Milestone) : Prop where
  accepted : s.accepted[k]? = some c
  entry : s.connections c.name = entry
  pending : ∀ loop, s.pending k loop = pending loop

section Functions

variable {s : TcpServer} {k : Nat} {c : Accepted} {entry : Option Nat}
  {p : Nat → List Milestone}

theorem At.lt (h : At s k c entry p) : k < s.accepted.length :=
  (List.getElem?_eq_some_iff.mp h.accepted).1

theorem At.quene (h : At s k c entry p) (loop : Nat) (t : Task) :
    Frame k c.name s (s.queneInLoop loop k t) ∧
      At (s.queneInLoop loop k t) k c entry fun l => p l ++ atLoop loop t.milestones l := by
  refine ⟨⟨rfl, rfl, rfl, fun _ _ => rfl, fun _ _ => rfl, fun j l hj => ?_, fun hb l t' ht' => ?_⟩,
    h.accepted, h.entry, fun l => ?_⟩
  · have hne : ¬ (l = loop ∧ k = j) := fun hn => hj hn.2.symm
    rw [tasks_quene, if_neg hne, List.append_nil]
  · by_cases hl : l = loop
    · subst hl
      have hmem : t' ∈ s.pendingFunctors l ∨ t' = (k, t) := by simpa [queneInLoop] using ht'
      rcases hmem with hm | rfl
      · exact hb l t' hm
      · exact h.lt
    · exact hb l t' (by simpa [queneInLoop, hl] using ht')
  · rw [TcpServer.pending, tasks_quene, List.flatMap_append, ← h.pending l]
    by_cases hl : l = loop <;> simp [atLoop, hl, TcpServer.pending]

/-- A functor without a milestone. -/
theorem At.quene_minor (h : At s k c entry p) (loop : Nat) {t : Task} (ht : t.milestones = []) :
    Frame k c.name s (s.queneInLoop loop k t) ∧ At (s.queneInLoop loop k t) k c entry p := by
  obtain ⟨hframe, hat⟩ := h.quene loop t
  refine ⟨hframe, hat.accepted, hat.entry, ?_⟩
  intro l
  rw [hat.pending, ht]
  simp [atLoop]

theorem At.set (h : At s k c entry p) (c' : Accepted) (hname : c'.name = c.name) :
    Frame k c.name s (s.setAccepted k c') ∧ At (s.setAccepted k c') k c' entry p := by
  refine ⟨⟨rfl, rfl, by simp [setAccepted], fun j hj => ?_, fun _ _ => rfl, fun _ _ _ => rfl,
    fun hb l t ht => ?_⟩, ?_, hname ▸ h.entry, h.pending⟩
  · simp [setAccepted, List.getElem?_set_ne hj.symm]
  · simpa [setAccepted] using hb l t ht
  · simp [setAccepted, h.lt]

theorem At.pop (h : At s k c entry p) {loop : Nat} {t : Task} {rest : List (Nat × Task)}
    (hhead : s.pendingFunctors loop = (k, t) :: rest) :
    Frame k c.name s (s.pop loop) ∧ ∃ p', At (s.pop loop) k c entry p' ∧
      ∀ l, p l = atLoop loop t.milestones l ++ p' l := by
  refine ⟨⟨rfl, rfl, rfl, fun _ _ => rfl, fun _ _ => rfl, fun j l hj => ?_, fun hb l t' ht' => ?_⟩,
    (s.pop loop).pending k, ⟨h.accepted, h.entry, fun _ => rfl⟩, fun l => ?_⟩
  · have hne : ¬ (l = loop ∧ k = j) := fun hn => hj hn.2.symm
    rw [tasks_pop hhead, if_neg hne, List.nil_append]
  · by_cases hl : l = loop
    · subst hl
      exact hb l t' (List.mem_of_mem_tail (by simpa [TcpServer.pop] using ht'))
    · exact hb l t' (by simpa [TcpServer.pop, hl] using ht')
  · rw [← h.pending l, TcpServer.pending, tasks_pop hhead, List.flatMap_append, TcpServer.pending]
    by_cases hl : l = loop <;> simp [atLoop, hl]

/-- With an entry the assertion of `removeConnectionInLoop` holds. -/
theorem At.remove (h : At s k c (some k) p) :
    ∃ s', s.removeConnectionInLoop k = .ok s' ∧ Frame k c.name s s' ∧
      At s' k { c with log := c.log ++ [.removeConnectionInLoop] } none
        fun l => p l ++ atLoop c.loop [.connectDestroyed] l := by
  let s₁ : TcpServer := { s with connections := Function.update s.connections c.name none }
  have hframe₁ : Frame k c.name s s₁ :=
    ⟨rfl, rfl, rfl, fun _ _ => rfl, fun n hn => Function.update_of_ne hn _ _, fun _ _ _ => rfl, id⟩
  have h₁ : At s₁ k c none p := ⟨h.accepted, Function.update_self _ _ _, h.pending⟩
  obtain ⟨hframe₂, h₂⟩ :=
    h₁.set { c with log := c.log ++ [.removeConnectionInLoop] } rfl
  obtain ⟨hframe₃, h₃⟩ := h₂.quene c.loop (.functor .connectDestroyed)
  refine ⟨_, ?_, (hframe₁.trans hframe₂).trans hframe₃, h₃⟩
  simp [removeConnectionInLoop, h.accepted, h.entry, check_pos, s₁]

/-- `removeConnection` has been called for the connection: in the base loop the
entry is gone at once, otherwise a functor of the base loop will remove it. -/
inductive Leaves (s' : TcpServer) (k : Nat) (c : Accepted) (p : Nat → List Milestone) : Prop
  | base (loop : c.loop = 0)
      (view : At s' k { c with log := c.log ++ [.removeConnectionInLoop] } none
        fun l => p l ++ atLoop c.loop [.connectDestroyed] l)
  | io (loop : c.loop ≠ 0)
      (view : At s' k c (some k) fun l => p l ++ atLoop 0 [.removeConnectionInLoop] l)

theorem At.removeConnection (h : At s k c (some k) p) :
    ∃ s', s.removeConnection k c.loop = .ok s' ∧ Frame k c.name s s' ∧ Leaves s' k c p := by
  unfold TcpServer.removeConnection
  by_cases hl : c.loop = 0
  · obtain ⟨s', hs', hframe, hat⟩ := h.remove
    exact ⟨s', by rw [if_pos hl, hs'], hframe, .base hl hat⟩
  · obtain ⟨hframe, hat⟩ := h.quene 0 .removeConnectionInLoop
    exact ⟨_, by rw [if_neg hl, pure_eq_ok], hframe, .io hl hat⟩

/-- Only functors without a milestone are queued. -/
theorem At.deliver_minor (h : At s k c entry p) {e : Effect} (he : e.minor = true) (loop : Nat) :
    ∃ s', deliver k loop s e = .ok s' ∧ Frame k c.name s s' ∧ At s' k c entry p := by
  cases e with
  | quene f =>
    obtain ⟨hframe, hat⟩ := h.quene_minor loop (t := .functor f) (Functor.milestones_of_minor he)
    exact ⟨_, rfl, hframe, hat⟩
  | connectionCallback | closeCallback => simp [Effect.minor] at he
  | _ => exact ⟨s, rfl, .refl .., h⟩

theorem At.deliver_minors {es : List Effect} (hes : ∀ e ∈ es, e.minor = true)
    (h : At s k c entry p) (loop : Nat) :
    ∃ s', es.foldlM (deliver k loop) s = .ok s' ∧ Frame k c.name s s' ∧ At s' k c entry p := by
  have hstep : ∀ t e, (Frame k c.name s t ∧ At t k c entry p) → e.minor = true →
      ∃ t', deliver k loop t e = .ok t' ∧ Frame k c.name s t' ∧ At t' k c entry p := by
    rintro t e ⟨hframe, hat⟩ he
    obtain ⟨t', ht', hframe', hat'⟩ := hat.deliver_minor he loop
    exact ⟨t', ht', hframe.trans hframe', hat'⟩
  obtain ⟨s', hrun, hspec⟩ := Run.progress hstep ⟨.refl .., h⟩ (Steps.of_forall hes)
  exact ⟨s', run_iff_foldlM.mp hrun, hspec⟩

/-- The effects of a close, minor ones before and behind it. -/
theorem At.deliver_close {es es' : List Effect} (hes : ∀ e ∈ es, e.minor = true)
    (hes' : ∀ e ∈ es', e.minor = true) (h : At s k c (some k) p) :
    ∃ s', (es ++ [Effect.connectionCallback, .closeCallback] ++ es').foldlM (deliver k c.loop) s =
        .ok s' ∧ Frame k c.name s s' ∧ Leaves s' k c p := by
  obtain ⟨s₁, h₁, hframe₁, hat₁⟩ := h.deliver_minors hes c.loop
  obtain ⟨s₂, h₂, hframe₂, hleaves⟩ := hat₁.removeConnection
  have hclose : (es ++ [Effect.connectionCallback, .closeCallback] ++ es').foldlM
      (deliver k c.loop) s = es'.foldlM (deliver k c.loop) s₂ := by
    simp only [List.foldlM_append, List.foldlM_cons, List.foldlM_nil, h₁, ok_bind, deliver,
      pure_eq_ok, h₂]
  rw [hclose]
  cases hleaves with
  | base hl hat₂ =>
    obtain ⟨s₃, h₃, hframe₃, hat₃⟩ := hat₂.deliver_minors hes' c.loop
    exact ⟨s₃, h₃, (hframe₁.trans hframe₂).trans hframe₃, .base hl hat₃⟩
  | io hl hat₂ =>
    obtain ⟨s₃, h₃, hframe₃, hat₃⟩ := hat₂.deliver_minors hes' c.loop
    exact ⟨s₃, h₃, (hframe₁.trans hframe₂).trans hframe₃, .io hl hat₃⟩

end Functions

/-! ## Stages -/

/-- How far the life of a connection has come. -/
inductive Stage where
  | accepted
  | established
  | closed
  | removed
  | destroyed
  | destructed
  deriving DecidableEq, Repr

namespace Stage

def milestones : Stage → List Milestone
  | accepted => []
  | established | closed => [.connectEstablished]
  | removed => [.connectEstablished, .removeConnectionInLoop]
  | destroyed => [.connectEstablished, .removeConnectionInLoop, .connectDestroyed]
  | destructed => [.connectEstablished, .removeConnectionInLoop, .connectDestroyed, .destructed]

/-- The entry in `connections_`. -/
def entry (k : Nat) : Stage → Option Nat
  | accepted | established | closed => some k
  | removed | destroyed | destructed => none

/-- The functor that a connection of the loop waits for, and where it is. -/
def awaits (loop : Nat) : Stage → Option (Nat × Milestone)
  | accepted => some (loop, .connectEstablished)
  | closed => some (0, .removeConnectionInLoop)
  | removed => some (loop, .connectDestroyed)
  | established | destroyed | destructed => none

def pending (loop : Nat) (g : Stage) : Nat → List Milestone :=
  match g.awaits loop with
  | some (l, m) => atLoop l [m]
  | none => fun _ => []

/-- A pending milestone is the one awaited, and the only one. -/
theorem awaits_of_pending {g : Stage} {loop l : Nat} {m : Milestone} {p : Nat → List Milestone}
    (h : ∀ l', g.pending loop l' = atLoop l [m] l' ++ p l') :
    g.awaits loop = some (l, m) ∧ ∀ l', p l' = [] := by
  unfold pending at h
  cases ha : g.awaits loop with
  | none =>
    have hl := h l
    simp [ha, atLoop] at hl
  | some lm =>
    obtain ⟨l₀, m₀⟩ := lm
    simp only [ha] at h
    have hl : l = l₀ := by
      by_contra hne
      simpa [atLoop, hne] using h l
    subst hl
    obtain ⟨rfl, -⟩ : m₀ = m ∧ p l = [] := by simpa [atLoop] using h l
    exact ⟨rfl, fun l' => List.self_eq_append_right.mp (h l')⟩

/-- The values of `state_`. -/
def allows : Stage → ConnState → Prop
  | accepted, s => s = .kConnecting
  | established, s => s = .kConnected ∨ s = .kDisconnecting
  | _, s => s = .kDisconnected

end Stage

/-- A connection in a stage. -/
structure InStage (c : Accepted) (g : Stage) : Prop where
  sound : c.conn.Sound
  unhandled : c.conn.Unhandled
  state : g.allows c.conn.state
  unknown : g = .accepted → ¬ c.conn.Known
  held : c.held = true → g ≠ .accepted
  destructed : c.destructed = true ↔ g = .destructed
  milestones : c.log.filter (· ≠ .dispatched) = g.milestones
  first : c.log ≠ [] → c.log.head? = some .connectEstablished

theorem InStage.log_ne_nil {c : Accepted} {g : Stage} (h : InStage c g) (hg : g ≠ .accepted) :
    c.log ≠ [] := by
  intro hlog
  have hm := h.milestones
  rw [hlog] at hm
  cases g <;> simp [Stage.milestones] at hm hg

theorem InStage.there {c : Accepted} {g : Stage} (h : InStage c g) (hg : g ≠ .destructed) :
    c.destructed = false := by
  by_contra hd
  exact hg (h.destructed.mp (by simpa using hd))

/-- The connection `k` in its stage, and the server around it. -/
structure Lodged (s : TcpServer) (k : Nat) (c : Accepted) (g : Stage) : Prop where
  stage : InStage c g
  view : At s k c (g.entry k) (g.pending c.loop)
  /-- nothing but `connectEstablished` is queued before it has run -/
  waits : g = .accepted → ∀ loop, ∀ t ∈ s.tasks k loop, t.milestones ≠ []

/-- The server but for the connection `k`. -/
structure Others (s : TcpServer) (k : Nat) : Prop where
  nextConnId : s.nextConnId = s.accepted.length + 1
  small : s.nextConnId ≤ intMax
  bound : s.Bound
  lodged : ∀ j c, j ≠ k → s.accepted[j]? = some c → c.name = s.connName (j + 1) ∧ ∃ g, Lodged s j c g

structure Inv (s : TcpServer) : Prop where
  nextConnId : s.nextConnId = s.accepted.length + 1
  small : s.nextConnId ≤ intMax
  bound : s.Bound
  lodged : ∀ k c, s.accepted[k]? = some c → c.name = s.connName (k + 1) ∧ ∃ g, Lodged s k c g

theorem Inv.others {s : TcpServer} (h : s.Inv) (k : Nat) : s.Others k :=
  ⟨h.nextConnId, h.small, h.bound, fun j c _ hj => h.lodged j c hj⟩

theorem Others.inv {s : TcpServer} {k : Nat} {c : Accepted} {g : Stage} (h : s.Others k)
    (hname : c.name = s.connName (k + 1)) (hk : Lodged s k c g) : s.Inv := by
  refine ⟨h.nextConnId, h.small, h.bound, ?_⟩
  intro j c' hj
  by_cases hjk : j = k
  · subst hjk
    obtain rfl : c = c' := Option.some.inj (hk.view.accepted.symm.trans hj)
    exact ⟨hname, g, hk⟩
  · exact h.lodged j c' hjk hj

/-- The other connections have other names. -/
theorem Others.frame {s s' : TcpServer} {k : Nat} {name : String} (h : s.Others k)
    (hk : k < s.accepted.length) (hname : name = s.connName (k + 1)) (hf : Frame k name s s') :
    s'.Others k := by
  refine ⟨by rw [hf.nextConnId, hf.length, h.nextConnId], hf.nextConnId ▸ h.small, hf.bound h.bound,
    fun j c hjk hj => ?_⟩
  rw [hf.accepted j hjk] at hj
  obtain ⟨hnamej, g, hg⟩ := h.lodged j c hjk hj
  refine ⟨hf.connName ▸ hnamej, g, hg.stage, ⟨(hf.accepted j hjk).trans hj, ?_, ?_⟩, ?_⟩
  · have hne : c.name ≠ name := by
      have hlt := hg.view.lt
      have hid := h.nextConnId
      have hsmall := h.small
      rw [hnamej, hname]
      intro heq
      have := connName_inj (by omega) (by omega) heq
      omega
    rw [hf.entries _ hne, hg.view.entry]
  · intro l
    rw [TcpServer.pending, hf.tasks j l hjk]
    exact hg.view.pending l
  · intro hacc l t ht
    rw [hf.tasks j l hjk] at ht
    exact hg.waits hacc l t ht

/-- What a step does to one connection is all there is to show of it. -/
theorem Inv.step_on {s s' : TcpServer} (h : s.Inv) {k : Nat} {c c' : Accepted} {g : Stage}
    (hk : s.accepted[k]? = some c) (hf : Frame k c.name s s') (hg : Lodged s' k c' g)
    (hname : c'.name = c.name) : s'.Inv := by
  obtain ⟨hn, -⟩ := h.lodged k c hk
  have hlt : k < s.accepted.length := (List.getElem?_eq_some_iff.mp hk).1
  exact ((h.others k).frame hlt hn hf).inv (by rw [hname, hn, hf.connName]) hg

end TcpServer

end Muduo
