import Muduo.QueuedFunctors

/-!
Queued work and the connections it is bound to.

* `holding_functors_intact`: a functor that holds a pointer finds its connection;
* `functors_intact`: so does every functor, while users drop their last pointer
  only to a connection that outlives its plain functors;
* `dangling_not_intact`: a `stopRead` behind `connectDestroyed`, and the last
  pointer is dropped.
-/

namespace Muduo

open Lib Events

namespace SharedServer

open TcpServer (There Named Touches Holding Plain Removable)

/-! ## What is to hold -/

/-- Whatever the next functor is, its connection has not been destroyed. -/
def Intact (s : SharedServer) : Label → Prop
  | .functor loop _ => ∀ t ∈ (s.server.pendingFunctors loop).head?, s.server.There t.1
  | _ => True

/-- The functors of the batch that have run. -/
def ran (s : SharedServer) (loop : Nat) : List (Nat × Task) := ((s.batch loop).map Batch.ran).getD []

def left (s : SharedServer) (loop : Nat) : Nat := ((s.batch loop).map Batch.left).getD 0

/-- Those that have not. -/
def current (s : SharedServer) (loop : Nat) : List (Nat × Task) :=
  (s.server.pendingFunctors loop).take (s.left loop)

/-- The functors of the next batch. -/
def waiting (s : SharedServer) (loop : Nat) : List (Nat × Task) :=
  (s.server.pendingFunctors loop).drop (s.left loop)

/-- Users have pointers to the connection. -/
def Shared (s : SharedServer) (k : Nat) : Prop := ∃ u, 0 < s.pointers u k

/-- Without its users the connection outlives the functors that are bound to its
`this`: `connectDestroyed` has yet to be queued, or some functor of the same batch
or of a later one holds a pointer. -/
def Lasts (s : SharedServer) (k : Nat) : Prop :=
  s.server.Removable k ∨ ∀ loop,
    (Plain k (s.waiting loop) → Holding k (s.waiting loop)) ∧
    (Plain k (s.current loop) → Holding k (s.ran loop ++ s.server.pendingFunctors loop))

/-- The last pointer of all users is dropped only where the connection lasts. -/
def Careful (s : SharedServer) : Label → Prop
  | .drop u k => (s.setPointers u k (s.pointers u k - 1)).Shared k ∨ s.Lasts k
  | _ => True

/-- What users, `connections_` and the queued functors of `p` point to is there,
and a plain functor is in the loop of its connection. -/
structure Inv (p : Task → Bool) (s : SharedServer) : Prop where
  named : s.server.Named
  pointers : ∀ u k, 0 < s.pointers u k → s.server.There k
  entries : ∀ name k, s.server.connections name = some k → s.server.There k
  tasks : ∀ loop, ∀ t ∈ s.server.pendingFunctors loop, p t.2 = true → s.server.There t.1
  home : ∀ loop, ∀ t ∈ s.server.pendingFunctors loop, t.2.holds = false →
    ∃ c, s.server.accepted[t.1]? = some c ∧ c.loop = loop
  calling : ∀ u k q, s.calling u = some (k, q) → 0 < s.pointers u k
  left_le : ∀ loop, s.left loop ≤ (s.server.pendingFunctors loop).length

/-- Each connection has users, or lasts without them. -/
def Lasting (s : SharedServer) : Prop := ∀ k, s.Shared k ∨ s.Lasts k

section Steps

variable {p : Task → Bool} {s s' : SharedServer}

/-- A function about a connection that is there. -/
theorem Inv.touch (h : Inv p s) {server : TcpServer} {k : Nat} (ht : Touches k s.server server)
    (hk : s.server.There k) : Inv p { s with server } := by
  have hmem : ∀ loop, ∀ t ∈ server.pendingFunctors loop,
      t ∈ s.server.pendingFunctors loop ∨ t.1 = k ∧ t.2.holds = true := by
    intro loop t htask
    rw [ht.append] at htask
    rcases List.mem_append.mp htask with htask | htask
    · exact .inl htask
    · exact .inr (ht.holds loop t htask)
  refine ⟨ht.named h.named, fun u j hj => ht.there (h.pointers u j hj),
    fun name j hj => ht.there (h.entries name j (ht.entries name j hj)), ?_, ?_, h.calling, ?_⟩
  · intro loop t htask hp
    rcases hmem loop t htask with htask | ⟨rfl, -⟩
    · exact ht.there (h.tasks loop t htask hp)
    · exact ht.there hk
  · intro loop t htask hplain
    rcases hmem loop t htask with htask | ⟨-, hholds⟩
    · obtain ⟨c, hc, hloop⟩ := h.home loop t htask hplain
      obtain ⟨c', hc', hview⟩ := ht.view_of hc
      have hsame : c'.loop = c.loop := congrArg (fun v => v.2.2) hview
      exact ⟨c', hc', hsame.trans hloop⟩
    · simp [hholds] at hplain
  · intro loop
    have hle := h.left_le loop
    have hlen := congrArg List.length (ht.append loop)
    rw [List.length_append] at hlen
    exact hle.trans (by dsimp only; omega)

theorem mem_of_mem_waiting {loop : Nat} {t : Nat × Task} (h : t ∈ s.waiting loop) :
    t ∈ s.server.pendingFunctors loop := List.mem_of_mem_drop h

theorem mem_of_mem_current {loop : Nat} {t : Nat × Task} (h : t ∈ s.current loop) :
    t ∈ s.server.pendingFunctors loop := List.mem_of_mem_take h

/-- What is queued waits for the next batch. -/
theorem waiting_append (h : Inv p s) {server : TcpServer} {loop : Nat} {ts : List (Nat × Task)}
    (hqueue : server.pendingFunctors loop = s.server.pendingFunctors loop ++ ts) :
    waiting { s with server } loop = s.waiting loop ++ ts := by
  have hwait : waiting { s with server } loop = (server.pendingFunctors loop).drop (s.left loop) := rfl
  rw [hwait, hqueue, List.drop_append_of_le_length (h.left_le loop)]
  rfl

theorem current_append (h : Inv p s) {server : TcpServer} {loop : Nat} {ts : List (Nat × Task)}
    (hqueue : server.pendingFunctors loop = s.server.pendingFunctors loop ++ ts) :
    current { s with server } loop = s.current loop := by
  have hcurrent : current { s with server } loop =
      (server.pendingFunctors loop).take (s.left loop) := rfl
  rw [hcurrent, hqueue, List.take_append_of_le_length (h.left_le loop)]
  rfl

theorem plain_touch (h : Inv p s) {server : TcpServer} {k : Nat} (ht : Touches k s.server server)
    {loop j : Nat} (hplain : Plain j (waiting { s with server } loop)) : Plain j (s.waiting loop) := by
  obtain ⟨t, htask, htj, hholds⟩ := hplain
  rw [waiting_append h (ht.append _)] at htask
  rcases List.mem_append.mp htask with htask | htask
  · exact ⟨t, htask, htj, hholds⟩
  · simp [(ht.holds loop t htask).2] at hholds

theorem Inv.home_eq (h : Inv p s) {k loop : Nat} {c : Accepted}
    (hc : s.server.accepted[k]? = some c) (hplain : Plain k (s.server.pendingFunctors loop)) :
    loop = c.loop := by
  obtain ⟨t, htask, rfl, hholds⟩ := hplain
  obtain ⟨c', hc', hloop⟩ := h.home loop t htask hholds
  obtain rfl : c = c' := Option.some.inj (hc.symm.trans hc')
  exact hloop.symm

/-- A functor that holds a pointer has been queued where the plain ones are. -/
theorem lasts_of_news (h : Inv p s) {server : TcpServer} {k : Nat} (ht : Touches k s.server server)
    {c : Accepted} (hc : s.server.accepted[k]? = some c)
    (hnews : Holding k (TcpServer.news s.server server c.loop)) : Lasts { s with server } k := by
  right
  intro loop
  constructor
  · intro hplain
    obtain ⟨t, htask, hk⟩ := plain_touch h ht hplain
    obtain rfl := h.home_eq hc ⟨t, mem_of_mem_waiting htask, hk⟩
    rw [waiting_append h (ht.append _)]
    exact hnews.mono fun t ht => List.mem_append_right _ ht
  · intro hplain
    rw [current_append h (ht.append _)] at hplain
    obtain ⟨t, htask, hk⟩ := hplain
    obtain rfl := h.home_eq hc ⟨t, mem_of_mem_current htask, hk⟩
    dsimp only
    rw [ht.append]
    exact hnews.mono fun t ht => List.mem_append_right _ (List.mem_append_right _ ht)

theorem Lasts.touch {j : Nat} (hl : s.Lasts j) (h : Inv p s) {server : TcpServer} {k : Nat}
    (ht : Touches k s.server server) : Lasts { s with server } j := by
  rcases hl with hremovable | hqueues
  · rcases ht.kept h.named j hremovable with hremovable' | ⟨rfl, c, hc, hnews⟩
    · exact .inl hremovable'
    · exact lasts_of_news h ht hc hnews
  · right
    intro loop
    obtain ⟨hwaiting, hcurrent⟩ := hqueues loop
    constructor
    · intro hplain
      rw [waiting_append h (ht.append _)]
      exact (hwaiting (plain_touch h ht hplain)).mono fun t ht => List.mem_append_left _ ht
    · intro hplain
      rw [current_append h (ht.append _)] at hplain
      refine (hcurrent hplain).mono fun t htask => ?_
      dsimp only
      rw [ht.append, ← List.append_assoc]
      exact List.mem_append_left _ htask

theorem Lasting.touch (hl : s.Lasting) (h : Inv p s) {server : TcpServer} {k : Nat}
    (ht : Touches k s.server server) : Lasting { s with server } :=
  fun j => (hl j).imp_right fun hj => hj.touch h ht

/-- A functor has been taken from the batch, and has not run yet. -/
def popped (s : SharedServer) (loop : Nat) (b : Batch) : SharedServer :=
  { s with server := s.server.pop loop }.setBatch loop
    (some ⟨b.ran ++ (s.server.pendingFunctors loop).take 1, b.left - 1⟩)

theorem mem_of_mem_pop {loop l : Nat} {t : Nat × Task}
    (h : t ∈ (s.server.pop loop).pendingFunctors l) : t ∈ s.server.pendingFunctors l := by
  by_cases hl : l = loop
  · subst hl
    exact List.mem_of_mem_tail (by simpa [TcpServer.pop] using h)
  · simpa [TcpServer.pop, hl] using h

/-- The queue, and where the batch stands in it, before and behind the pop. -/
structure Pops (s s' : SharedServer) (l : Nat) : Prop where
  waiting : s'.waiting l = s.waiting l
  current : ∀ t ∈ s'.current l, t ∈ s.current l
  ran : ∀ t ∈ s.ran l ++ s.server.pendingFunctors l, t ∈ s'.ran l ++ s'.server.pendingFunctors l
  left_le : s'.left l ≤ (s'.server.pendingFunctors l).length

theorem popped_pops (h : Inv p s) {loop : Nat} {b : Batch} (hb : s.batch loop = some b)
    (hleft : b.left ≠ 0) (l : Nat) : Pops s (s.popped loop b) l := by
  have hle := h.left_le l
  by_cases hl : l = loop
  · subst hl
    have hsleft : s.left l = b.left := by simp [left, hb]
    have hsran : s.ran l = b.ran := by simp [ran, hb]
    have hpleft : (s.popped l b).left l = b.left - 1 := by simp [popped, left, setBatch]
    have hpran : (s.popped l b).ran l = b.ran ++ (s.server.pendingFunctors l).take 1 := by
      simp [popped, ran, setBatch]
    have hqueue : (s.popped l b).server.pendingFunctors l = (s.server.pendingFunctors l).tail := by
      simp [popped, setBatch, TcpServer.pop]
    rw [hsleft] at hle
    cases hq : s.server.pendingFunctors l with
    | nil =>
      rw [hq] at hle
      exact absurd (Nat.le_zero.mp hle) hleft
    | cons head rest =>
      obtain ⟨n, hn⟩ := Nat.exists_eq_succ_of_ne_zero hleft
      rw [hq, hn, List.length_cons] at hle
      constructor
      · simp [SharedServer.waiting, hqueue, hpleft, hsleft, hq, hn]
      · intro t ht
        simp only [SharedServer.current, hqueue, hpleft, hsleft, hq, hn, List.tail_cons,
          Nat.succ_eq_add_one, Nat.add_sub_cancel, List.take_succ_cons] at ht ⊢
        exact List.mem_cons_of_mem _ ht
      · intro t ht
        rw [hpran, hqueue, hq]
        simpa [hsran, hq] using ht
      · rw [hpleft, hqueue, hq, hn]
        simp only [List.tail_cons]
        omega
  · have hleft' : (s.popped loop b).left l = s.left l := by simp [popped, left, setBatch, hl]
    have hran : (s.popped loop b).ran l = s.ran l := by simp [popped, ran, setBatch, hl]
    have hqueue : (s.popped loop b).server.pendingFunctors l = s.server.pendingFunctors l := by
      simp [popped, setBatch, TcpServer.pop, hl]
    constructor
    · simp [SharedServer.waiting, hqueue, hleft']
    · simp [SharedServer.current, hqueue, hleft']
    · simp [hqueue, hran]
    · rw [hqueue, hleft']
      exact hle

theorem Inv.popped (h : Inv p s) {loop : Nat} {b : Batch} (hb : s.batch loop = some b)
    (hleft : b.left ≠ 0) : Inv p (s.popped loop b) :=
  ⟨⟨h.named.nextConnId, h.named.small, h.named.names, h.named.entries⟩, h.pointers, h.entries,
    fun l t ht => h.tasks l t (mem_of_mem_pop ht), fun l t ht => h.home l t (mem_of_mem_pop ht),
    h.calling, fun l => (popped_pops h hb hleft l).left_le⟩

/-- What has run still holds its pointer, and so far the batch is the same. -/
theorem Lasts.popped {j : Nat} (hl : s.Lasts j) (h : Inv p s) {loop : Nat} {b : Batch}
    (hb : s.batch loop = some b) (hleft : b.left ≠ 0)
    (hhead : (j, .removeConnectionInLoop) ∉ (s.server.pendingFunctors loop).head?) :
    (s.popped loop b).Lasts j := by
  rcases hl with (⟨name, hname⟩ | ⟨l, hl⟩) | hqueues
  · exact .inl (.inl ⟨name, hname⟩)
  · refine .inl (.inr ⟨l, ?_⟩)
    by_cases hloop : l = loop
    · subst hloop
      have hqueue : (s.popped l b).server.pendingFunctors l = (s.server.pendingFunctors l).tail := by
        simp [SharedServer.popped, setBatch, TcpServer.pop]
      rw [hqueue]
      cases hq : s.server.pendingFunctors l with
      | nil => simp [hq] at hl
      | cons head rest =>
        rw [hq] at hl hhead
        rcases List.mem_cons.mp hl with heq | hmem
        · simp [heq] at hhead
        · exact hmem
    · simpa [SharedServer.popped, setBatch, TcpServer.pop, hloop] using hl
  · right
    intro l
    obtain ⟨hwaiting, hcurrent⟩ := hqueues l
    have hpops := popped_pops h hb hleft l
    constructor
    · rw [hpops.waiting]
      exact hwaiting
    · rintro ⟨t, ht, hk⟩
      exact (hcurrent ⟨t, hpops.current t ht, hk⟩).mono hpops.ran

theorem Inv.onConnection (h : Inv p s) {k : Nat} {ms : List Milestone}
    {op : TcpConnection → Checked TcpConnection}
    (hop : ∀ c c', c.Owning → op c = .ok c' → c'.Owning) {server : TcpServer}
    (hs : s.server.onConnection k ms op = .ok server) :
    Inv p { s with server } ∧ (s.Lasting → Lasting { s with server }) := by
  rcases TcpServer.onConnection_touches hop hs with rfl | ⟨hk, ht⟩
  · exact ⟨h, id⟩
  · exact ⟨h.touch ht hk, fun hl => hl.touch h ht⟩

/-- The next functor is about a connection that is there, or does nothing. -/
theorem Inv.runNext (hp : ∀ t : Task, t.holds = true → p t = true) (h : Inv p s) {loop : Nat}
    (ha : ∃ b ∈ s.batch loop, b.left ≠ 0) {write : WriteResult} (hs : s.runNext loop write = .ok s') :
    Inv p s' ∧ (s.Lasting → s'.Lasting) := by
  obtain ⟨b, hb, hleft⟩ := ha
  have hb' : s.batch loop = some b := hb
  have hpopped := h.popped hb hleft
  simp only [SharedServer.runNext, hb'] at hs
  obtain ⟨server, hserver, hs⟩ := bind_eq_ok.mp hs
  have hs' : s' = { s.popped loop b with server } := (Except.ok.inj hs).symm
  cases hq : s.server.pendingFunctors loop with
  | nil =>
    have hle := h.left_le loop
    simp [left, hb', hq, hleft] at hle
  | cons head rest =>
    obtain ⟨k, t⟩ := head
    simp only [TcpServer.runPending, hq] at hserver
    cases t with
    | functor f =>
      have hlasts : s.Lasting → (s.popped loop b).Lasting := fun hl j =>
        (hl j).imp_right fun hj => hj.popped h hb hleft (by simp [hq])
      obtain ⟨hinv, hlasting⟩ := hpopped.onConnection
        (fun c c' hc hc' => TcpConnection.runFunctor_owning hc hc') hserver
      rw [hs']
      exact ⟨hinv, fun hl => hlasting (hlasts hl)⟩
    | removeConnectionInLoop =>
      obtain ⟨ht, hnews⟩ := TcpServer.removeConnectionInLoop_touches hserver
      have hk : s.server.There k :=
        h.tasks loop (k, .removeConnectionInLoop) (by simp [hq]) (hp _ rfl)
      rw [hs']
      refine ⟨hpopped.touch ht hk, fun hl j => ?_⟩
      by_cases hjk : j = k
      · subst hjk
        obtain ⟨c, hc, -⟩ := hk
        exact .inr (lasts_of_news hpopped ht hc (hnews c hc))
      · refine (hl j).imp_right fun hj => (hj.popped h hb hleft ?_).touch hpopped ht
        simpa [hq] using Ne.symm hjk

theorem Inv.setBatch (h : Inv p s) {loop : Nat} {b : Option Batch}
    (hle : (s.setBatch loop b).left loop ≤ (s.server.pendingFunctors loop).length) :
    Inv p (s.setBatch loop b) := by
  refine ⟨h.named, h.pointers, h.entries, h.tasks, h.home, h.calling, fun l => ?_⟩
  by_cases hloop : l = loop
  · subst hloop
    exact hle
  · simpa [left, SharedServer.setBatch, hloop] using h.left_le l

/-- Where no functor of a batch is left to run, another batch takes its place. -/
theorem Lasting.setBatch (hl : s.Lasting) {loop : Nat} (hleft : s.left loop = 0) {b : Option Batch}
    (hb : ∀ k, (Plain k (s.server.pendingFunctors loop) → Holding k (s.server.pendingFunctors loop)) →
      (Plain k ((s.setBatch loop b).waiting loop) → Holding k ((s.setBatch loop b).waiting loop)) ∧
      (Plain k ((s.setBatch loop b).current loop) →
        Holding k ((s.setBatch loop b).ran loop ++ s.server.pendingFunctors loop))) :
    (s.setBatch loop b).Lasting := by
  refine fun k => (hl k).imp_right ?_
  rintro (hremovable | hqueues)
  · exact .inl hremovable
  right
  intro l
  by_cases hloop : l = loop
  · subst hloop
    have hwaiting := (hqueues l).1
    rw [waiting, hleft, List.drop_zero] at hwaiting
    exact hb k hwaiting
  · simpa [waiting, current, left, SharedServer.setBatch, ran, hloop] using hqueues l

/-- The whole queue is the new batch. -/
theorem Inv.swap (h : Inv p s) {loop : Nat} (hb : s.batch loop = none) :
    Inv p (s.setBatch loop (some ⟨[], (s.server.pendingFunctors loop).length⟩)) ∧
      (s.Lasting → (s.setBatch loop (some ⟨[], (s.server.pendingFunctors loop).length⟩)).Lasting) := by
  have hleft : s.left loop = 0 := by simp [left, hb]
  refine ⟨h.setBatch (by simp [left, SharedServer.setBatch]), fun hl => hl.setBatch hleft ?_⟩
  intro k hqueue
  constructor
  · simp [waiting, left, SharedServer.setBatch, Plain]
  · simpa [current, left, SharedServer.setBatch, ran] using hqueue

/-- Everything of the batch has run. -/
theorem Inv.finish (h : Inv p s) {loop : Nat} (ha : ∃ b ∈ s.batch loop, b.left = 0) :
    Inv p (s.setBatch loop none) ∧ (s.Lasting → (s.setBatch loop none).Lasting) := by
  obtain ⟨b, hb, hzero⟩ := ha
  have hb' : s.batch loop = some b := hb
  have hleft : s.left loop = 0 := by simp [left, hb', hzero]
  refine ⟨h.setBatch (by simp [left, SharedServer.setBatch]), fun hl => hl.setBatch hleft ?_⟩
  intro k hqueue
  constructor
  · simpa [waiting, left, SharedServer.setBatch] using hqueue
  · simp [current, left, SharedServer.setBatch, Plain]

theorem setPointers_pointers (s : SharedServer) (u k n v j : Nat) :
    (s.setPointers u k n).pointers v j = if v = u ∧ j = k then n else s.pointers v j := by
  by_cases hv : v = u
  · subst hv
    by_cases hj : j = k <;> simp [setPointers, hj]
  · simp [setPointers, hv]

/-- A user has a pointer more or less. -/
theorem Inv.setPointers (h : Inv p s) {u k n : Nat} (hthere : s.server.There k)
    (hcalling : n = 0 → s.calling u = none) : Inv p (s.setPointers u k n) := by
  refine ⟨h.named, ?_, h.entries, h.tasks, h.home, ?_, h.left_le⟩
  · intro v j hj
    rw [setPointers_pointers] at hj
    split at hj
    · rename_i hvj
      rw [hvj.2]
      exact hthere
    · exact h.pointers v j hj
  · intro v j q hq
    rw [setPointers_pointers]
    split
    · rename_i hvj
      apply Nat.pos_of_ne_zero
      intro hn
      have hnone : s.calling v = none := hvj.1 ▸ hcalling hn
      simp [hnone, SharedServer.setPointers] at hq
    · exact h.calling v j q hq

/-- The connection of the pointer is shared, or lasts. -/
theorem Lasting.setPointers (hl : s.Lasting) {u k n : Nat}
    (hk : (s.setPointers u k n).Shared k ∨ s.Lasts k) : (s.setPointers u k n).Lasting := by
  intro j
  by_cases hjk : j = k
  · subst hjk
    exact hk
  · refine (hl j).imp_left ?_
    rintro ⟨v, hv⟩
    refine ⟨v, ?_⟩
    rw [setPointers_pointers, if_neg fun hvj => hjk hvj.2]
    exact hv

theorem Inv.setCalling (h : Inv p s) {u : Nat} {q : Option (Nat × Progress)}
    (hq : ∀ k r, q = some (k, r) → 0 < s.pointers u k) : Inv p (s.setCalling u q) := by
  refine ⟨h.named, h.pointers, h.entries, h.tasks, h.home, ?_, h.left_le⟩
  intro v j r hr
  by_cases hv : v = u
  · subst hv
    exact hq j r (by simpa [SharedServer.setCalling] using hr)
  · exact h.calling v j r (by simpa [SharedServer.setCalling, hv] using hr)

theorem Inv.request (h : Inv p s) {u k : Nat} (hpos : 0 < s.pointers u k) (r : Request) :
    Inv p (s.request u k r) ∧ (s.Lasting → (s.request u k r).Lasting) := by
  unfold SharedServer.request
  split
  · exact ⟨h, id⟩
  split
  · refine ⟨h.setCalling ?_, id⟩
    rintro j q ⟨⟩
    exact hpos
  · exact ⟨h, id⟩

/-- A user with a pointer queues a functor in the loop of its connection. -/
theorem Inv.quene (h : Inv p s) {k : Nat} {c : Accepted} (hc : s.server.accepted[k]? = some c)
    (hk : s.server.There k) (t : Task) :
    Inv p { s with server := s.server.queneInLoop c.loop k t } := by
  have hmem : ∀ l, ∀ t' ∈ (s.server.queneInLoop c.loop k t).pendingFunctors l,
      t' ∈ s.server.pendingFunctors l ∨ l = c.loop ∧ t' = (k, t) := by
    intro l t' ht'
    by_cases hl : l = c.loop
    · subst hl
      simpa [TcpServer.queneInLoop] using ht'
    · exact .inl (by simpa [TcpServer.queneInLoop, hl] using ht')
  refine ⟨⟨h.named.nextConnId, h.named.small, h.named.names, h.named.entries⟩, h.pointers, h.entries,
    ?_, ?_, h.calling, ?_⟩
  · intro l t' ht' hp
    rcases hmem l t' ht' with ht' | ⟨-, rfl⟩
    · exact h.tasks l t' ht' hp
    · exact hk
  · intro l t' ht' hplain
    rcases hmem l t' ht' with ht' | ⟨rfl, rfl⟩
    · exact h.home l t' ht' hplain
    · exact ⟨c, hc, rfl⟩
  · intro l
    have hle := h.left_le l
    refine hle.trans ?_
    by_cases hl : l = c.loop
    · subst hl
      simp [TcpServer.queneInLoop]
    · simp [TcpServer.queneInLoop, hl]

/-- The others do not notice. -/
theorem Lasts.quene {j : Nat} (hl : s.Lasts j) (h : Inv p s) (loop : Nat) {k : Nat} (hjk : j ≠ k)
    (t : Task) : Lasts { s with server := s.server.queneInLoop loop k t } j := by
  have hqueue : ∀ l, (s.server.queneInLoop loop k t).pendingFunctors l =
      s.server.pendingFunctors l ++ if l = loop then [(k, t)] else [] := by
    intro l
    by_cases hl : l = loop
    · subst hl
      simp [TcpServer.queneInLoop]
    · simp [TcpServer.queneInLoop, hl]
  rcases hl with hremovable | hqueues
  · exact .inl (hremovable.quene loop k t)
  · right
    intro l
    obtain ⟨hwaiting, hcurrent⟩ := hqueues l
    constructor
    · rw [waiting_append h (hqueue l)]
      rintro ⟨t', ht', htj, hholds⟩
      refine (hwaiting ⟨t', ?_, htj, hholds⟩).mono fun t ht => List.mem_append_left _ ht
      rcases List.mem_append.mp ht' with ht' | ht'
      · exact ht'
      · split at ht'
        · obtain rfl := List.mem_singleton.mp ht'
          exact absurd htj.symm hjk
        · cases ht'
    · rw [current_append h (hqueue l)]
      intro hplain
      refine (hcurrent hplain).mono fun t' ht' => ?_
      dsimp only
      rw [hqueue, ← List.append_assoc]
      exact List.mem_append_left _ ht'

/-- The user has a pointer while it goes on with its request. -/
theorem Inv.proceed (h : Inv p s) (u : Nat) :
    Inv p (s.proceed u) ∧ (s.Lasting → (s.proceed u).Lasting) := by
  unfold SharedServer.proceed
  split
  · exact ⟨h, id⟩
  rename_i k q hq
  have hpos := h.calling u k q hq
  have hthere := h.pointers u k hpos
  split
  · exact ⟨h, id⟩
  · rename_i c r hc
    have ht : Touches k s.server
        (s.server.setAccepted k { c with conn := c.conn.setState .kDisconnecting }) :=
      TcpServer.set_touches hc _ (by rfl) k
    refine ⟨Inv.setCalling (h.touch ht hthere) ?_, fun hl => hl.touch h ht⟩
    rintro j q ⟨⟩
    exact hpos
  · rename_i c r hc
    refine ⟨Inv.setCalling (h.quene hc hthere _) (by simp), fun hl j => ?_⟩
    by_cases hjk : j = k
    · subst hjk
      exact .inl ⟨u, hpos⟩
    · exact (hl j).imp_right fun hj => hj.quene h c.loop hjk _

theorem Inv.newConnection (h : Inv p s) {server : TcpServer}
    (hs : s.server.newConnection = .ok server) :
    Inv p { s with server } ∧ (s.Lasting → Lasting { s with server }) := by
  obtain ⟨hid, ioLoop, next, ht⟩ := TcpServer.newConnection_touches hs
  let s₁ : SharedServer := { s with server := s.server.addConnection ioLoop next }
  have hthere : ∀ j, s.server.There j → s₁.server.There j :=
    fun _ => TcpServer.addConnection_there
  have h₁ : Inv p s₁ := by
    refine ⟨h.named.addConnection hid ioLoop next, fun u j hj => hthere j (h.pointers u j hj), ?_,
      fun loop t htask hp => hthere _ (h.tasks loop t htask hp), ?_, h.calling, h.left_le⟩
    · intro name j hj
      by_cases hn : name = s.server.connName s.server.nextConnId
      · obtain rfl : s.server.accepted.length = j := by
          simpa [s₁, TcpServer.addConnection, hn] using hj
        exact TcpServer.addConnection_new ..
      · exact hthere j (h.entries name j (by simpa [s₁, TcpServer.addConnection, hn] using hj))
    · intro loop t htask hplain
      obtain ⟨c, hc, hloop⟩ := h.home loop t htask hplain
      have hlt := (List.getElem?_eq_some_iff.mp hc).1
      refine ⟨c, ?_, hloop⟩
      simpa [s₁, TcpServer.addConnection, List.getElem?_append_left hlt] using hc
  refine ⟨h₁.touch ht (TcpServer.addConnection_new ..), fun hl => ?_⟩
  have hl₁ : s₁.Lasting := by
    intro j
    refine (hl j).imp_right ?_
    rintro (hremovable | hqueues)
    · exact .inl (hremovable.addConnection h.named ioLoop next)
    · exact .inr hqueues
  exact hl₁.touch h₁ ht

/-- Where no functor of `p` is bound to the connection. -/
theorem Inv.destruct (h : Inv p s) {k : Nat} (hun : s.Unreferenced k)
    (hnone : ∀ loop, ∀ t ∈ s.server.pendingFunctors loop, t.1 = k → p t.2 = false)
    {server : TcpServer} (hs : s.server.destruct k = .ok server) :
    Inv p { s with server } ∧ (s.Lasting → Lasting { s with server }) := by
  rcases TcpServer.destruct_ok hs with rfl | ⟨c, hc, rfl⟩
  · exact ⟨h, id⟩
  have hothers : ∀ j, j ≠ k → s.server.There j → (s.server.setAccepted k { c with
      destructed := true, log := c.log ++ [.destructed] }).There j := by
    rintro j hjk ⟨d, hd, hthere⟩
    exact ⟨d, by simpa [TcpServer.setAccepted, List.getElem?_set_ne (Ne.symm hjk)] using hd, hthere⟩
  refine ⟨⟨h.named.set hc rfl, ?_, ?_, ?_, ?_, h.calling, h.left_le⟩,
    fun hl j => (hl j).imp_right ?_⟩
  · intro u j hj
    refine hothers j ?_ (h.pointers u j hj)
    rintro rfl
    exact absurd (hun.pointers u) (Nat.ne_of_gt hj)
  · intro name j hj
    refine hothers j ?_ (h.entries name j hj)
    rintro rfl
    exact hun.entries name hj
  · intro loop t ht hp
    refine hothers t.1 ?_ (h.tasks loop t ht hp)
    intro htk
    simp [hnone loop t ht htk] at hp
  · intro loop t ht hplain
    obtain ⟨d, hd, hloop⟩ := h.home loop t ht hplain
    by_cases htk : t.1 = k
    · obtain rfl : c = d := Option.some.inj (hc.symm.trans (htk ▸ hd))
      have hlt : k < s.server.accepted.length := (List.getElem?_eq_some_iff.mp hc).1
      refine ⟨{ c with destructed := true, log := c.log ++ [.destructed] }, ?_, hloop⟩
      rw [htk]
      exact List.getElem?_set_self hlt
    · exact ⟨d, by simpa [TcpServer.setAccepted, List.getElem?_set_ne (Ne.symm htk)] using hd, hloop⟩
  · rintro (hremovable | hqueues)
    · exact .inl hremovable
    · exact .inr hqueues

/-- **Step lemma.** -/
theorem Inv.step (hp : ∀ t : Task, t.holds = true → p t = true) (h : Inv p s) {a : Label}
    (ha : s.Allowed a)
    (hnone : ∀ k, a = .destruct k → ∀ loop, ∀ t ∈ s.server.pendingFunctors loop, t.1 = k →
      p t.2 = false)
    (hs : s.step a = .ok s') : Inv p s' ∧ (s.Careful a → s.Lasting → s'.Lasting) := by
  have hcare : ∀ {s' : SharedServer}, Inv p s' ∧ (s.Lasting → s'.Lasting) →
      Inv p s' ∧ (s.Careful a → s.Lasting → s'.Lasting) := fun h => ⟨h.1, fun _ => h.2⟩
  cases a with
  | newConnection =>
    obtain ⟨server, hserver, hs⟩ := bind_eq_ok.mp hs
    cases hs
    exact hcare (h.newConnection hserver)
  | dispatch k revents read write =>
    obtain ⟨server, hserver, hs⟩ := bind_eq_ok.mp hs
    cases hs
    exact hcare (h.onConnection (fun c c' hc hc' => TcpConnection.handleEvent_owning hc hc') hserver)
  | swap loop =>
    cases hs
    exact hcare (h.swap ha)
  | functor loop write => exact hcare (h.runNext hp ha hs)
  | finish loop =>
    cases hs
    exact hcare (h.finish ha)
  | acquire u k =>
    cases hs
    obtain ⟨c, hc, hthere, -⟩ := ha
    refine ⟨h.setPointers ⟨c, hc, hthere⟩ (by omega), fun _ hl => hl.setPointers (.inl ⟨u, ?_⟩)⟩
    simp [setPointers_pointers]
  | copy u v k =>
    cases hs
    refine ⟨h.setPointers (h.pointers u k ha) (by omega), fun _ hl => hl.setPointers (.inl ⟨v, ?_⟩)⟩
    simp [setPointers_pointers]
  | drop u k =>
    cases hs
    exact ⟨h.setPointers (h.pointers u k ha.1) fun _ => ha.2, fun hcareful hl =>
      hl.setPointers hcareful⟩
  | call u k c write =>
    obtain ⟨server, hserver, hs⟩ := bind_eq_ok.mp hs
    cases hs
    exact hcare (h.onConnection (fun c c' hc hc' => TcpConnection.call_owning hc hc') hserver)
  | request u k r =>
    cases hs
    exact hcare (h.request ha.1 r)
  | proceed u =>
    cases hs
    exact hcare (h.proceed u)
  | destruct k =>
    obtain ⟨server, hserver, hs⟩ := bind_eq_ok.mp hs
    cases hs
    exact hcare (h.destruct ha.2 (hnone k rfl) hserver)

/-- Nothing is queued for a connection that is destroyed. -/
theorem Lasting.not_queued (hl : s.Lasting) {k : Nat} (hun : s.Unreferenced k) :
    ∀ loop, ∀ t ∈ s.server.pendingFunctors loop, t.1 ≠ k := by
  intro loop t ht htk
  have hnone : ¬ Holding k (s.ran loop ++ s.server.pendingFunctors loop) := by
    rintro ⟨t', ht', htk', hholds⟩
    rcases List.mem_append.mp ht' with ht' | ht'
    · cases hb : s.batch loop with
      | none => simp [ran, hb] at ht'
      | some b =>
        have hran := hun.ran loop b hb t' (by simpa [ran, hb] using ht') htk'
        simp [hholds] at hran
    · simp [hun.queued loop t' ht' htk'] at hholds
  have hplain : t.2.holds = false := hun.queued loop t ht htk
  rcases hl k with ⟨u, hu⟩ | (⟨name, hname⟩ | ⟨l, hremoval⟩) | hqueues
  · exact absurd (hun.pointers u) (Nat.ne_of_gt hu)
  · exact hun.entries name hname
  · cases hun.queued l _ hremoval rfl
  · obtain ⟨hwaiting, hcurrent⟩ := hqueues loop
    rw [← List.take_append_drop (s.left loop) (s.server.pendingFunctors loop)] at ht
    rcases List.mem_append.mp ht with ht | ht
    · exact hnone (hcurrent ⟨t, ht, htk, hplain⟩)
    · refine hnone ((hwaiting ⟨t, ht, htk, hplain⟩).mono fun t' ht' => ?_)
      exact List.mem_append_right _ (mem_of_mem_waiting ht')

end Steps

/-! ## Runs -/

theorem new_inv (p : Task → Bool) (ipPort : IpPort) (name : String) (writeCompleteCallback : Bool)
    (numThreads : Nat) : Inv p (new ipPort name writeCompleteCallback numThreads) where
  named := ⟨rfl, by simp [new, TcpServer.new, intMax], by simp [new, TcpServer.new],
    by simp [new, TcpServer.new]⟩
  pointers := by simp [new]
  entries := by simp [new, TcpServer.new]
  tasks := by simp [new, TcpServer.new]
  home := by simp [new, TcpServer.new]
  calling := by simp [new]
  left_le := by simp [left, new]

theorem new_lasting (ipPort : IpPort) (name : String) (writeCompleteCallback : Bool)
    (numThreads : Nat) : Lasting (new ipPort name writeCompleteCallback numThreads) := by
  intro k
  right
  right
  intro loop
  simp [waiting, current, new, TcpServer.new, Plain]

/-- A functor that holds a pointer finds its connection. -/
def FindsHeld (s : SharedServer) : Label → Prop
  | .functor loop _ => ∀ t ∈ (s.server.pendingFunctors loop).head?, t.2.holds = true →
      s.server.There t.1
  | _ => True

/-- **Pointers keep their connection.** In every interleaving a functor that holds
a pointer runs on a connection that has not been destroyed. -/
theorem holding_functors_intact (ipPort : IpPort) (name : String) (writeCompleteCallback : Bool)
    (numThreads : Nat) (steps : List Label)
    (hsteps : Along step Enabled (new ipPort name writeCompleteCallback numThreads) steps) :
    Along step FindsHeld (new ipPort name writeCompleteCallback numThreads) steps := by
  refine Steps.of_invariant (I := Inv Task.holds) (fun s a h _ => ?_) (fun s a s' h ha hs => ?_)
    (new_inv ..) hsteps
  · cases a with
    | functor loop write =>
      intro t ht hholds
      exact h.tasks loop t (List.mem_of_mem_head? ht) hholds
    | _ => trivial
  · refine (h.step (fun _ hp => hp) ha.1 ?_ hs).1
    rintro k rfl loop t ht hk
    exact ha.1.2.queued loop t ht hk

/-- **Queued work finds its connection.** In every interleaving in which users drop
their last pointer only to a connection that lasts without them. -/
theorem functors_intact (ipPort : IpPort) (name : String) (writeCompleteCallback : Bool)
    (numThreads : Nat) (steps : List Label)
    (hsteps : Along step Enabled (new ipPort name writeCompleteCallback numThreads) steps)
    (hcareful : Along step Careful (new ipPort name writeCompleteCallback numThreads) steps) :
    Along step Intact (new ipPort name writeCompleteCallback numThreads) steps := by
  refine Steps.of_invariant (I := fun s => Inv (fun _ => true) s ∧ s.Lasting)
    (E := fun s a => s.Enabled a ∧ s.Careful a) (fun s a h _ => ?_) (fun s a s' h ha hs => ?_)
    ⟨new_inv .., new_lasting _ _ _ _⟩ (hsteps.and hcareful)
  · cases a with
    | functor loop write =>
      intro t ht
      exact h.1.tasks loop t (List.mem_of_mem_head? ht) rfl
    | _ => trivial
  · have hstep := h.1.step (fun _ _ => rfl) ha.1.1 ?_ hs
    · exact ⟨hstep.1, hstep.2 ha.2 h.2⟩
    · rintro k rfl loop t ht hk
      exact absurd hk (h.2.not_queued ha.1.1.2 loop t ht)

/-- The only connection has a user. -/
theorem enabled_of_held {s : SharedServer} {a : Label} (ha : s.Allowed a)
    (hone : s.server.accepted.length = 1) {u : Nat} (hpos : 0 < s.pointers u 0) : s.Enabled a := by
  refine ⟨ha, .inr ?_⟩
  rintro k ⟨c, hc, -⟩ hun
  obtain rfl : k = 0 := by
    have hlt := (List.getElem?_eq_some_iff.mp hc).1
    omega
  exact absurd (hun.pointers u) (Nat.ne_of_gt hpos)

/-- The only connection is in `connections_`. -/
theorem enabled_of_entry {s : SharedServer} {a : Label} (ha : s.Allowed a)
    (hone : s.server.accepted.length = 1) {name : String}
    (hentry : s.server.connections name = some 0) : s.Enabled a := by
  refine ⟨ha, .inr ?_⟩
  rintro k ⟨c, hc, -⟩ hun
  obtain rfl : k = 0 := by
    have hlt := (List.getElem?_eq_some_iff.mp hc).1
    omega
  exact hun.entries name hentry

/-- A user shuts the connection down and drops its pointer; the server has another
one. -/
theorem functors_intact_sample :
    Along step Intact (new ⟨"0.0.0.0:80", by decide⟩ "echo" false 0)
      [.newConnection, .acquire 0 0, .request 0 0 .shutdown, .proceed 0, .proceed 0, .drop 0 0,
       .swap 0, .functor 0 (.written 0)] := by
  refine functors_intact _ _ _ _ _ ?_ ?_
  · refine (steps_cons_ok rfl).mpr ⟨⟨rfl, .inr ?_⟩, ?_⟩
    · rintro k ⟨c, hc, -⟩
      cases hc
    refine (steps_cons_ok rfl).mpr ⟨enabled_of_entry ⟨_, rfl, rfl, .head _⟩ rfl
      (Function.update_self ..), ?_⟩
    refine (steps_cons_ok rfl).mpr ⟨enabled_of_held ⟨Nat.one_pos, rfl⟩ rfl (u := 0) Nat.one_pos, ?_⟩
    refine (steps_cons_ok rfl).mpr ⟨enabled_of_held (Option.some_ne_none _) rfl (u := 0) Nat.one_pos, ?_⟩
    refine (steps_cons_ok rfl).mpr ⟨enabled_of_held (Option.some_ne_none _) rfl (u := 0) Nat.one_pos, ?_⟩
    refine (steps_cons_ok rfl).mpr ⟨enabled_of_held ⟨Nat.one_pos, rfl⟩ rfl (u := 0) Nat.one_pos, ?_⟩
    refine (steps_cons_ok rfl).mpr ⟨enabled_of_entry rfl rfl (Function.update_self ..), ?_⟩
    exact ⟨enabled_of_entry ⟨_, rfl, by decide⟩ rfl (Function.update_self ..), fun _ _ => trivial⟩
  · refine (steps_cons_ok rfl).mpr ⟨trivial, ?_⟩
    refine (steps_cons_ok rfl).mpr ⟨trivial, ?_⟩
    refine (steps_cons_ok rfl).mpr ⟨trivial, ?_⟩
    refine (steps_cons_ok rfl).mpr ⟨trivial, ?_⟩
    refine (steps_cons_ok rfl).mpr ⟨trivial, ?_⟩
    refine (steps_cons_ok rfl).mpr ⟨.inr (.inl (.inl ⟨_, Function.update_self ..⟩)), ?_⟩
    refine (steps_cons_ok rfl).mpr ⟨trivial, ?_⟩
    exact ⟨trivial, fun _ _ => trivial⟩

/-- The peer closes the connection; behind `connectDestroyed` a user calls
`stopRead` and drops the last pointer. -/
def dangling : List Label :=
  [.newConnection, .acquire 0 0, .dispatch 0 POLLHUP (.received []) (.written 0), .swap 0,
   .functor 0 (.written 0), .finish 0, .request 0 0 .stopRead, .proceed 0, .drop 0 0, .destruct 0,
   .swap 0] ++ [.functor 0 (.written 0)]

theorem dangling_not_intact :
    Along step Enabled (new ⟨"0.0.0.0:80", by decide⟩ "echo" false 0) dangling ∧
      ¬ Along step Intact (new ⟨"0.0.0.0:80", by decide⟩ "echo" false 0) dangling := by
  constructor
  · refine (steps_cons_ok rfl).mpr ⟨⟨rfl, .inr ?_⟩, ?_⟩
    · rintro k ⟨c, hc, -⟩
      cases hc
    refine (steps_cons_ok rfl).mpr ⟨enabled_of_entry ⟨_, rfl, rfl, .head _⟩ rfl
      (Function.update_self ..), ?_⟩
    refine (steps_cons_ok rfl).mpr ⟨enabled_of_held ⟨_, rfl, rfl, rfl, rfl, Nat.zero_le _⟩ rfl
      (u := 0) Nat.one_pos, ?_⟩
    refine (steps_cons_ok rfl).mpr ⟨enabled_of_held rfl rfl (u := 0) Nat.one_pos, ?_⟩
    refine (steps_cons_ok rfl).mpr ⟨enabled_of_held ⟨_, rfl, by decide⟩ rfl (u := 0) Nat.one_pos, ?_⟩
    refine (steps_cons_ok rfl).mpr ⟨enabled_of_held ⟨_, rfl, rfl⟩ rfl (u := 0) Nat.one_pos, ?_⟩
    refine (steps_cons_ok rfl).mpr ⟨enabled_of_held ⟨Nat.one_pos, rfl⟩ rfl (u := 0) Nat.one_pos, ?_⟩
    refine (steps_cons_ok rfl).mpr ⟨enabled_of_held (Option.some_ne_none _) rfl (u := 0) Nat.one_pos, ?_⟩
    refine (steps_cons_ok rfl).mpr ⟨enabled_of_held ⟨Nat.one_pos, rfl⟩ rfl (u := 0) Nat.one_pos, ?_⟩
    refine (steps_cons_ok rfl).mpr ⟨⟨⟨⟨_, rfl, rfl⟩, ?_⟩, .inl ⟨0, rfl⟩⟩, ?_⟩
    · -- the other users, names and loops have been let alone
      constructor
      · intro u
        by_cases hu : u = 0
        · subst hu
          rfl
        · show Function.update (Function.update (fun _ _ => 0) 0 _) 0 _ u 0 = 0
          rw [Function.update_of_ne hu, Function.update_of_ne hu]
      · intro name
        let connName := (TcpServer.new ⟨"0.0.0.0:80", by decide⟩ "echo" false 0).connName 1
        show Function.update (Function.update (fun _ => none) connName (some 0)) connName none name ≠
          some 0
        rw [Function.update_idem]
        by_cases hn : name = connName <;> simp [hn]
      · intro loop t ht
        by_cases hl : loop = 0
        · subst hl
          obtain rfl := List.mem_singleton.mp ht
          exact fun _ => rfl
        · change t ∈ Function.update (Function.update (Function.update (fun _ => []) 0 _) 0 _) 0 _ loop at ht
          simp [hl] at ht
      · intro loop b hb
        by_cases hl : loop = 0
        · subst hl
          cases hb
        · change b ∈ Function.update (Function.update (Function.update (fun _ => none) 0 _) 0 _) 0 _ loop at hb
          simp [hl] at hb
    have hgone : ∀ s : SharedServer, (∃ c, s.server.accepted = [c] ∧ c.destructed = true) →
        ∀ k, ¬ s.server.There k := by
      rintro s ⟨c, hc, hd⟩ k ⟨c', hc', hthere⟩
      obtain rfl := List.mem_singleton.mp (hc ▸ List.mem_of_getElem? hc')
      simp [hd] at hthere
    refine (steps_cons_ok rfl).mpr ⟨⟨rfl, .inr fun k hk => absurd hk (hgone _ ⟨_, rfl, rfl⟩ k)⟩, ?_⟩
    exact ⟨⟨⟨_, rfl, by decide⟩, .inr fun k hk => absurd hk (hgone _ ⟨_, rfl, rfl⟩ k)⟩,
      fun _ _ => trivial⟩
  · intro h
    obtain ⟨c, hc, hthere⟩ := (h.right (run_iff_foldlM.mpr rfl)).1 _ rfl
    cases hc
    cases hthere

end SharedServer

end Muduo
