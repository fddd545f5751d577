import Muduo.Lib.Mutex
import Muduo.Lib.Run

/-!
`src/mutex.h` with `Condition::wait` and `Condition::waitForSeconds`: a mutex
that remembers the thread that has it, for assertions. `holder_` is written
outside of the calls of pthread, so for some steps the owner of the mutex is not
in it; every read and every write of it is a step of its own here. Thread ids
are distinct and not zero, which `none` stands for.

* `Inv.step`: `holder_` is the thread in the critical section, if there is one;
* `holder_exact`: no thread mistakes itself for the holder, or another one.
-/

namespace Muduo

open Lib Function

/-- Where a thread is. -/
inductive MutexPlace where
  | outside
  /-- in `pthread_mutex_lock` -/
  | locking
  /-- at `assignHolder()` of `lock` -/
  | locked
  /-- between `lock()` and `unlock()` -/
  | inSection
  /-- at `pthread_mutex_unlock` -/
  | unlocking
  /-- at `pthread_cond_wait` or `pthread_cond_timedwait`, behind `UnassignGuard` -/
  | waiting
  /-- in it, with the mutex released -/
  | asleep
  /-- in it, notified, timed out or woken up for no reason -/
  | woken
  /-- behind it, at `assignHolder()` of `~UnassignGuard` -/
  | resuming
  deriving DecidableEq, Repr

namespace MutexPlace

/-- With the mutex of pthread. -/
def Inside : MutexPlace → Prop
  | .locked | .inSection | .unlocking | .waiting | .resuming => True
  | _ => False

instance (p : MutexPlace) : Decidable p.Inside := by
  cases p <;> unfold Inside <;> infer_instance

/-- The user's code may look at the mutex. -/
def Free : MutexPlace → Prop
  | .outside | .inSection => True
  | _ => False

end MutexPlace

inductive MutexFailure where
  | mutexLockDtor
  | assertLocked
  deriving DecidableEq, Repr

structure MutexLock (ι : Type) where
  /-- whose the mutex of pthread is -/
  owner : Option ι
  holder_ : Option ι
  place : ι → MutexPlace

namespace MutexLock

variable {ι : Type}

def new : MutexLock ι where
  owner := none
  holder_ := none
  place := fun _ => .outside

/-- A label names the thread that steps. -/
inductive Label (ι : Type) where
  | lock (t : ι)
  /-- `pthread_mutex_lock` returns -/
  | acquire (t : ι)
  | assignHolder (t : ι)
  /-- `unassignHolder()` of `unlock` -/
  | unlock (t : ι)
  /-- `pthread_mutex_unlock` -/
  | release (t : ι)
  /-- the constructor of `UnassignGuard` -/
  | wait (t : ι)
  | sleep (t : ι)
  /-- `pthread_cond_timedwait` has an error, and keeps the mutex -/
  | waitFails (t : ι)
  | wake (t : ι)
  /-- `pthread_cond_wait` returns -/
  | reacquire (t : ι)
  /-- the destructor of `UnassignGuard` -/
  | resume (t : ι)
  | assertLocked (t : ι)
  /-- `~MutexLock`, when nobody uses the mutex -/
  | destroy

def Enabled (s : MutexLock ι) : Label ι → Prop
  | .lock t => s.place t = .outside
  | .acquire t => s.place t = .locking ∧ s.owner = none
  | .assignHolder t => s.place t = .locked
  | .unlock t => s.place t = .inSection
  | .release t => s.place t = .unlocking
  | .wait t => s.place t = .inSection
  | .sleep t => s.place t = .waiting
  | .waitFails t => s.place t = .waiting
  | .wake t => s.place t = .asleep
  | .reacquire t => s.place t = .woken ∧ s.owner = none
  | .resume t => s.place t = .resuming
  | .assertLocked t => (s.place t).Free
  | .destroy => ∀ t, s.place t = .outside

section Steps

variable [DecidableEq ι]

def isLockedByThisThread (s : MutexLock ι) (tid : ι) : Bool := s.holder_ = some tid

def move (s : MutexLock ι) (t : ι) (p : MutexPlace) : MutexLock ι :=
  { s with place := update s.place t p }

def step (s : MutexLock ι) : Label ι → Except MutexFailure (MutexLock ι)
  | .lock t => return s.move t .locking
  | .acquire t => return { s.move t .locked with owner := some t }
  | .assignHolder t => return { s.move t .inSection with holder_ := some t }
  | .unlock t => return { s.move t .unlocking with holder_ := none }
  | .release t => return { s.move t .outside with owner := none }
  | .wait t => return { s.move t .waiting with holder_ := none }
  | .sleep t => return { s.move t .asleep with owner := none }
  | .waitFails t => return s.move t .resuming
  | .wake t => return s.move t .woken
  | .reacquire t => return { s.move t .resuming with owner := some t }
  | .resume t => return { s.move t .inSection with holder_ := some t }
  | .assertLocked t => do
    check (s.isLockedByThisThread t = true) .assertLocked
    return s
  | .destroy => do
    check (s.holder_ = none) .mutexLockDtor
    return s

end Steps

/-! ## The holder -/

structure Inv (s : MutexLock ι) : Prop where
  owner : Exclusive MutexPlace.Inside s.owner s.place
  holder : Exclusive (· = .inSection) s.holder_ s.place

theorem new_inv : (new : MutexLock ι).Inv :=
  ⟨fun _ => iff_of_false id nofun, fun _ => iff_of_false nofun nofun⟩

/-- A thread with the mutex is not in the section: nobody is, so `holder_` is 0. -/
theorem Inv.unassigned {s : MutexLock ι} (h : s.Inv) {t : ι} (hin : (s.place t).Inside)
    (hout : s.place t ≠ .inSection) : s.holder_ = none := by
  cases hh : s.holder_ with
  | none => rfl
  | some u =>
    have hu : s.place u = .inSection := (h.holder u).mpr hh
    obtain rfl : t = u := h.owner.eq hin (by rw [hu]; trivial)
    exact absurd hu hout

variable [DecidableEq ι]

/-- The thread comes to the section, or back to it. -/
theorem Inv.assign {s : MutexLock ι} (h : s.Inv) {t : ι} {p : MutexPlace} (hp : s.place t = p)
    (hin : p.Inside) (hout : p ≠ .inSection) :
    { s.move t .inSection with holder_ := some t }.Inv := by
  have hnone : s.holder_ = none := h.unassigned (hp ▸ hin) (hp ▸ hout)
  refine ⟨h.owner.stay hp (iff_of_true trivial hin), ?_⟩
  have hfree := h.holder
  rw [hnone] at hfree
  exact hfree.lock rfl

/-- The thread leaves the section, with the mutex. -/
theorem Inv.unassign {s : MutexLock ι} (h : s.Inv) {t : ι} (ht : s.place t = .inSection)
    {p : MutexPlace} (hin : p.Inside) (hout : p ≠ .inSection) :
    { s.move t p with holder_ := none }.Inv :=
  ⟨h.owner.stay ht (iff_of_true hin trivial), h.holder.unlock ht rfl hout⟩

/-- The thread gets the mutex. -/
theorem Inv.acquire {s : MutexLock ι} (h : s.Inv) {t : ι} {p q : MutexPlace} (hp : s.place t = p)
    (hfree : s.owner = none) (hpout : p ≠ .inSection) (hin : q.Inside) (hout : q ≠ .inSection) :
    { s.move t q with owner := some t }.Inv := by
  have howner := h.owner
  rw [hfree] at howner
  exact ⟨howner.lock hin, h.holder.stay hp (iff_of_false hout hpout)⟩

/-- The thread gives the mutex away. -/
theorem Inv.release {s : MutexLock ι} (h : s.Inv) {t : ι} {p q : MutexPlace} (hp : s.place t = p)
    (hin : p.Inside) (hpout : p ≠ .inSection) (hq : ¬ q.Inside) (hout : q ≠ .inSection) :
    { s.move t q with owner := none }.Inv :=
  ⟨h.owner.unlock hp hin hq, h.holder.stay hp (iff_of_false hout hpout)⟩

/-- The thread moves on its side of the mutex. -/
theorem Inv.stay {s : MutexLock ι} (h : s.Inv) {t : ι} {p q : MutexPlace} (hp : s.place t = p)
    (hside : q.Inside ↔ p.Inside) (hpout : p ≠ .inSection) (hout : q ≠ .inSection) :
    (s.move t q).Inv :=
  ⟨h.owner.stay hp hside, h.holder.stay hp (iff_of_false hout hpout)⟩

theorem Inv.step {s : MutexLock ι} (h : s.Inv) {a : Label ι} (ha : s.Enabled a)
    {s' : MutexLock ι} (hs : s.step a = .ok s') : s'.Inv := by
  cases a with
  | lock t =>
    cases hs
    exact h.stay ha Iff.rfl nofun nofun
  | acquire t =>
    cases hs
    exact h.acquire ha.1 ha.2 nofun trivial nofun
  | assignHolder t =>
    cases hs
    exact h.assign ha trivial nofun
  | unlock t =>
    cases hs
    exact h.unassign ha trivial nofun
  | release t =>
    cases hs
    exact h.release ha trivial nofun id nofun
  | wait t =>
    cases hs
    exact h.unassign ha trivial nofun
  | sleep t =>
    cases hs
    exact h.release ha trivial nofun id nofun
  | waitFails t =>
    cases hs
    exact h.stay ha Iff.rfl nofun nofun
  | wake t =>
    cases hs
    exact h.stay ha Iff.rfl nofun nofun
  | reacquire t =>
    cases hs
    exact h.acquire ha.1 ha.2 nofun trivial nofun
  | resume t =>
    cases hs
    exact h.assign ha trivial nofun
  | assertLocked t =>
    obtain ⟨_, -, hs⟩ := bind_eq_ok.mp hs
    cases hs
    exact h
  | destroy =>
    obtain ⟨_, -, hs⟩ := bind_eq_ok.mp hs
    cases hs
    exact h

/-! ## Runs -/

/-- `assertLocked` passes exactly in the critical section, where the thread is
alone; `~MutexLock` passes. Nothing else fails, and behind the step a thread that
asks gets the right answer. -/
def Exact (s : MutexLock ι) (a : Label ι) (o : Except MutexFailure (MutexLock ι)) : Prop :=
  ((∃ s', o = .ok s') ↔ ∀ t, a = .assertLocked t → s.place t = .inSection) ∧
  ∀ s', o = .ok s' → ∀ t, (s'.place t).Free →
    (s'.isLockedByThisThread t = true ↔ s'.place t = .inSection) ∧
    (s'.place t = .inSection → ∀ u, (s'.place u).Inside → u = t)

theorem Inv.locked_iff {s : MutexLock ι} (h : s.Inv) (t : ι) :
    s.isLockedByThisThread t = true ↔ s.place t = .inSection := by
  simpa [isLockedByThisThread] using (h.holder t).symm

/-- **The holder is exact.** In every interleaving of threads that lock, unlock
and wait, `isLockedByThisThread` is true in the critical section and false
outside of it, whatever the other threads are at, and the mutex can be destroyed
when nobody uses it. -/
theorem holder_exact (steps : List (Label ι)) (hsteps : Along step Enabled new steps) :
    Steps step Exact (new : MutexLock ι) steps := by
  refine Steps.of_invariant (I := Inv) (fun s a h ha => ⟨?_, ?_⟩)
    (fun s a s' h ha hs => h.step ha hs) new_inv hsteps
  · cases a with
    | assertLocked t =>
      have hiff := h.locked_iff t
      by_cases hlocked : s.isLockedByThisThread t = true
      · simp [MutexLock.step, check_pos hlocked, hiff.mp hlocked]
      · simp [MutexLock.step, check_neg hlocked, mt hiff.mpr hlocked]
    | destroy =>
      have hout : ∀ t, s.place t = .outside := ha
      have hnone : s.holder_ = none := by
        rw [Option.eq_none_iff_forall_ne_some]
        intro t ht
        have hplace := (h.holder t).mpr ht
        simp [hout t] at hplace
      simp [MutexLock.step, check_pos hnone]
    | _ => simp [MutexLock.step]
  · intro s' hs t _
    have hinv := h.step ha hs
    refine ⟨hinv.locked_iff t, fun ht u hu => hinv.owner.eq hu ?_⟩
    rw [ht]
    trivial

/-- One thread waits while another one has the mutex. -/
theorem holder_exact_sample :
    Steps step Exact (new : MutexLock (Fin 2))
      [.lock 0, .acquire 0, .assignHolder 0, .wait 0, .lock 1, .sleep 0, .acquire 1, .wake 0,
        .assignHolder 1, .assertLocked 1] := by
  refine holder_exact _ ?_
  refine (steps_cons_ok rfl).mpr ⟨rfl, ?_⟩
  refine (steps_cons_ok rfl).mpr ⟨⟨rfl, rfl⟩, ?_⟩
  refine (steps_cons_ok rfl).mpr ⟨rfl, ?_⟩
  refine (steps_cons_ok rfl).mpr ⟨rfl, ?_⟩
  refine (steps_cons_ok rfl).mpr ⟨rfl, ?_⟩
  refine (steps_cons_ok rfl).mpr ⟨rfl, ?_⟩
  refine (steps_cons_ok rfl).mpr ⟨⟨rfl, rfl⟩, ?_⟩
  refine (steps_cons_ok rfl).mpr ⟨rfl, ?_⟩
  refine (steps_cons_ok rfl).mpr ⟨rfl, ?_⟩
  exact (steps_cons_ok rfl).mpr ⟨trivial, trivial⟩

end MutexLock

end Muduo
