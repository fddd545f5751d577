import Mathlib.Algebra.Group.Int.Defs
import Mathlib.Algebra.Group.Nat.Defs
import Muduo.Assertion
import Muduo.Lib.Mutex

/-!
`src/countDownLatch.cpp` with any number of threads. The calls are taken apart
at the mutex: `wait` tests the count in a loop and gives the mutex away while it
sleeps, `countDown` notifies when it has brought the count to zero, and only
then. A thread wakes up when it is notified, or without a reason.

* `Inv`, `Inv.step`: nobody sleeps on a count of zero, unless the thread that
  brought it there is about to notify;
* `latch_releases`: a `wait` returns when enough calls have been completed, and
  then nobody is left asleep;
* `count_wraps`: the count is an `int`, and the calls must not be more than it
  can count.
-/

namespace Muduo

open Lib Function

inductive LatchCall where
  | wait
  | countDown
  | getCount
  deriving DecidableEq, Repr

/-- Where a thread is. -/
inductive LatchPlace where
  | outside
  /-- before the mutex -/
  | calling (c : LatchCall)
  /-- at `while (count_ > 0)` -/
  | testing
  /-- in the loop, before `pthread_cond_wait` -/
  | blocking
  /-- in `pthread_cond_wait`, with the mutex released -/
  | asleep
  /-- notified, or woken up for no reason, and without the mutex -/
  | woken
  /-- at `count_ --` -/
  | counting
  /-- at `if (count_ == 0)` -/
  | comparing
  /-- at `cond_.notifyAll()` -/
  | notifying
  /-- at `return count_` -/
  | reading
  /-- at the end of `wait` or `countDown` -/
  | leaving (c : LatchCall)
  | returning (value : Int)
  deriving DecidableEq, Repr

namespace LatchPlace

/-- With the mutex. -/
def Inside : LatchPlace → Prop
  | .outside | .calling _ | .asleep | .woken => False
  | _ => True

/-- In `countDown`, before the count is changed. -/
def Pending : LatchPlace → Prop
  | .calling .countDown | .counting => True
  | _ => False

/-- In `countDown`, behind the change. -/
def Counted : LatchPlace → Prop
  | .comparing | .notifying | .leaving .countDown => True
  | _ => False

/-- In `countDown`, and the sleeping threads may have to be notified. -/
def Owes : LatchPlace → Prop
  | .comparing | .notifying => True
  | _ => False

/-- The next thing is to acquire the mutex. -/
def enters : LatchPlace → Bool
  | .calling _ | .woken => true
  | _ => false

/-- The next thing is to release it and return. -/
def leaves : LatchPlace → Bool
  | .leaving _ | .returning _ => true
  | _ => false

/-- What comes when the mutex has been acquired. -/
def entered : LatchPlace → LatchPlace
  | .calling .countDown => .counting
  | .calling .getCount => .reading
  | _ => .testing

/-- `pthread_cond_broadcast` -/
def notified : LatchPlace → LatchPlace
  | .asleep => .woken
  | p => p

end LatchPlace

structure CountDownLatch (ι : Type) where
  count : Int
  /-- of the mutex -/
  holder : Option ι
  place : ι → LatchPlace
  /-- how many calls of `countDown` have been made -/
  called : Nat
  /-- how many have changed the count -/
  decremented : Nat
  /-- how many have come to their end, with the mutex released -/
  completed : Nat

namespace CountDownLatch

variable {ι : Type}

def new (count : Nat) : CountDownLatch ι where
  count := count
  holder := none
  place := fun _ => .outside
  called := 0
  decremented := 0
  completed := 0

/-- A label names the thread that steps. -/
inductive Label (ι : Type) where
  | call (t : ι) (c : LatchCall)
  | lock (t : ι)
  | test (t : ι)
  | sleep (t : ι)
  /-- `beyond` is what is found in the count when it had no smaller value -/
  | decrement (t : ι) (beyond : Int)
  | compare (t : ι)
  | notifyAll (t : ι)
  | read (t : ι)
  | unlock (t : ι)
  /-- `pthread_cond_wait` returns without a notification -/
  | spurious (t : ι)

/-- The first `int`, and the first number behind the last. -/
def intMin : Int := -2 ^ 31
def intLimit : Int := 2 ^ 31

def Enabled (s : CountDownLatch ι) : Label ι → Prop
  | .call t _ => s.place t = .outside
  | .lock t => s.holder = none ∧ (s.place t).enters = true
  | .test t => s.place t = .testing
  | .sleep t => s.place t = .blocking
  | .decrement t beyond => s.place t = .counting ∧ intMin ≤ beyond ∧ beyond < intLimit
  | .compare t => s.place t = .comparing
  | .notifyAll t => s.place t = .notifying
  | .read t => s.place t = .reading
  | .unlock t => (s.place t).leaves = true
  | .spurious t => s.place t = .asleep

instance [DecidableEq ι] (s : CountDownLatch ι) (a : Label ι) : Decidable (s.Enabled a) := by
  cases a <;> unfold Enabled <;> infer_instance

/-- The calls of `countDown` are no more than the count has values for. -/
def Allowed (n : Nat) (s : CountDownLatch ι) : Label ι → Prop
  | .call _ .countDown => s.called < n + 2 ^ 31
  | _ => True

section Steps

variable [DecidableEq ι]

def move (s : CountDownLatch ι) (t : ι) (p : LatchPlace) : CountDownLatch ι :=
  { s with place := update s.place t p }

def step (s : CountDownLatch ι) : Label ι → Checked (CountDownLatch ι)
  | .call t c => return { s.move t (.calling c) with
      called := if c = .countDown then s.called + 1 else s.called }
  | .lock t => return { s.move t (s.place t).entered with holder := some t }
  | .test t => return s.move t (if 0 < s.count then .blocking else .leaving .wait)
  | .sleep t => return { s.move t .asleep with holder := none }
  | .decrement t beyond => return { s.move t .comparing with
      count := if intMin < s.count then s.count - 1 else beyond
      decremented := s.decremented + 1 }
  | .compare t => return s.move t (if s.count = 0 then .notifying else .leaving .countDown)
  | .notifyAll t => return { s with
      place := update (fun u => (s.place u).notified) t (.leaving .countDown) }
  | .read t => return s.move t (.returning s.count)
  | .unlock t => return { s.move t .outside with
      holder := none
      completed := if s.place t = .leaving .countDown then s.completed + 1 else s.completed }
  | .spurious t => return s.move t .woken

end Steps

/-! ## The invariant -/

/-- What a thread with the mutex knows of the count. -/
def Knows (count : Int) : LatchPlace → Prop
  | .blocking => 0 < count
  | .leaving .wait => count ≤ 0
  | .returning value => value = count
  | _ => True

/-- Whoever sleeps will be notified: by a call to come, or by one that has just
brought the count to zero. -/
def Sleepers (s : CountDownLatch ι) : Prop :=
  ∀ t, s.place t = .asleep → 0 < s.count ∨ s.count = 0 ∧ ∃ u, (s.place u).Owes

/-- The calls of `countDown` are accounted for, each at its place. -/
structure Inv (n : Nat) (s : CountDownLatch ι) : Prop where
  exclusive : Exclusive LatchPlace.Inside s.holder s.place
  count : s.count = n - s.decremented
  counted : ∃ C, Members LatchPlace.Counted C s.place ∧ s.decremented = C.card + s.completed
  pending : ∃ P, Members LatchPlace.Pending P s.place ∧ s.called = P.card + s.decremented
  called : s.called ≤ n + 2 ^ 31
  knows : ∀ t, Knows s.count (s.place t)
  sleepers : s.Sleepers

theorem new_inv (n : Nat) : (new n : CountDownLatch ι).Inv n where
  exclusive := fun _ => iff_of_false id nofun
  count := (Int.sub_zero _).symm
  counted := ⟨∅, fun t => iff_of_false (Finset.notMem_empty t) id, rfl⟩
  pending := ⟨∅, fun t => iff_of_false (Finset.notMem_empty t) id, rfl⟩
  called := Nat.zero_le _
  knows := fun _ => trivial
  sleepers := nofun

/-- A thread without the mutex knows nothing. -/
theorem knows_of_outside {p : LatchPlace} (h : ¬ p.Inside) (count : Int) : Knows count p := by
  cases p with
  | blocking | leaving | returning => exact absurd trivial h
  | _ => trivial

theorem owes_counted {p : LatchPlace} (h : p.Owes) : p.Counted := by
  cases p with
  | comparing | notifying => trivial
  | _ => exact h.elim

theorem counted_inside {p : LatchPlace} (h : p.Counted) : p.Inside := by
  cases p with
  | comparing | notifying | leaving => trivial
  | _ => exact h.elim

/-- Between the calls, the count tells how many have been completed. -/
theorem Inv.count_idle {n : Nat} {s : CountDownLatch ι} (h : s.Inv n) {t : ι}
    (hin : (s.place t).Inside) (hnot : ¬ (s.place t).Counted) : s.count = n - s.completed := by
  obtain ⟨C, hC, hcompleted⟩ := h.counted
  have hempty : C = ∅ := by
    apply Finset.eq_empty_of_forall_notMem
    intro u hu
    have hcounted := (hC u).mp hu
    rw [h.exclusive.eq (counted_inside hcounted) hin] at hcounted
    exact hnot hcounted
  rw [h.count, hcompleted, hempty, Finset.card_empty, Nat.zero_add]

/-- When `n` calls have been completed, nobody sleeps. -/
theorem Inv.not_asleep {n : Nat} {s : CountDownLatch ι} (h : s.Inv n) (hn : n ≤ s.completed)
    (t : ι) : s.place t ≠ .asleep := by
  intro hasleep
  obtain ⟨C, hC, hcompleted⟩ := h.counted
  have hcount := h.count
  rcases h.sleepers t hasleep with hpos | ⟨hzero, u, hu⟩
  · omega
  · have hcard : 0 < C.card := Finset.card_pos.mpr ⟨u, (hC u).mpr (owes_counted hu)⟩
    omega

variable [DecidableEq ι]

theorem Inv.knows_update {n : Nat} {s : CountDownLatch ι} (h : s.Inv n) {t : ι} {p : LatchPlace}
    (hp : Knows s.count p) : ∀ u, Knows s.count (update s.place t p u) :=
  forall_update (p := fun _ p => Knows s.count p) hp fun u _ => h.knows u

/-- One thread moves. Those who sleep still have somebody to wake them up. -/
theorem Inv.sleepers_update {n : Nat} {s : CountDownLatch ι} (h : s.Inv n) {t : ι}
    {p q : LatchPlace} (ht : s.place t = q) (hsleeps : p = .asleep → 0 < s.count)
    (howes : q.Owes → p.Owes ∨ s.count ≠ 0) : (s.move t p).Sleepers := by
  refine forall_update (p := fun _ (q : LatchPlace) => q = .asleep → 0 < s.count ∨
    s.count = 0 ∧ ∃ u, (update s.place t p u).Owes) (fun hp => .inl (hsleeps hp)) ?_
  intro u _ hu
  rcases h.sleepers u hu with hpos | ⟨hzero, v, hv⟩
  · exact .inl hpos
  · refine .inr ⟨hzero, ?_⟩
    by_cases hvt : v = t
    · rw [hvt, ht] at hv
      have hp := (howes hv).resolve_right (not_not_intro hzero)
      exact ⟨t, by rw [update_self]; exact hp⟩
    · exact ⟨v, by rw [update_of_ne hvt]; exact hv⟩

/-- A thread goes on, and the count stays. -/
theorem Inv.move {n : Nat} {s : CountDownLatch ι} (h : s.Inv n) {t : ι} {p q : LatchPlace}
    (ht : s.place t = q) {holder : Option ι}
    (hx : Exclusive LatchPlace.Inside holder (update s.place t p))
    (hcounted : p.Counted ↔ q.Counted) (hpending : p.Pending ↔ q.Pending)
    (hknows : Knows s.count p) (hsleeps : p = .asleep → 0 < s.count)
    (howes : q.Owes → p.Owes ∨ s.count ≠ 0) :
    ({ s.move t p with holder } : CountDownLatch ι).Inv n := by
  obtain ⟨C, hC, hcompleted⟩ := h.counted
  obtain ⟨P, hP, hcalled⟩ := h.pending
  exact
    { exclusive := hx
      count := h.count
      counted := ⟨C, hC.stay ht hcounted, hcompleted⟩
      pending := ⟨P, hP.stay ht hpending, hcalled⟩
      called := h.called
      knows := h.knows_update hknows
      sleepers := h.sleepers_update ht hsleeps howes }

/-! ## The steps -/

theorem call_inv {n : Nat} {s : CountDownLatch ι} (h : s.Inv n) {t : ι}
    (ht : s.place t = .outside) {c : LatchCall} (hc : c ≠ .countDown) :
    (s.move t (.calling c)).Inv n := by
  have hpending : (LatchPlace.calling c).Pending ↔ LatchPlace.outside.Pending := by
    cases c with
    | countDown => exact absurd rfl hc
    | wait | getCount => exact Iff.rfl
  exact h.move ht (h.exclusive.stay ht Iff.rfl) Iff.rfl hpending trivial nofun False.elim

theorem callCountDown_inv {n : Nat} {s : CountDownLatch ι} (h : s.Inv n) {t : ι}
    (ht : s.place t = .outside) (hcalled : s.called < n + 2 ^ 31) :
    ({ s.move t (.calling .countDown) with called := s.called + 1 } : CountDownLatch ι).Inv n := by
  obtain ⟨C, hC, hcompleted⟩ := h.counted
  obtain ⟨P, hP, hpending⟩ := h.pending
  obtain ⟨hP', hcard⟩ := hP.insert ht id (b := .calling .countDown) trivial
  exact
    { exclusive := h.exclusive.stay ht Iff.rfl
      count := h.count
      counted := ⟨C, hC.stay ht Iff.rfl, hcompleted⟩
      pending := ⟨insert t P, hP', by rw [hcard, hpending]; exact Nat.add_right_comm ..⟩
      called := hcalled
      knows := h.knows_update trivial
      sleepers := h.sleepers_update ht nofun False.elim }

theorem lock_inv {n : Nat} {s : CountDownLatch ι} (h : s.Inv n) {t : ι} (hfree : s.holder = none)
    (ht : (s.place t).enters = true) :
    ({ s.move t (s.place t).entered with holder := some t } : CountDownLatch ι).Inv n := by
  have hx : Exclusive LatchPlace.Inside none s.place := hfree ▸ h.exclusive
  cases hp : s.place t with
  | woken => exact h.move hp (hx.lock trivial) Iff.rfl Iff.rfl trivial nofun False.elim
  | calling c =>
    cases c with
    | _ => exact h.move hp (hx.lock trivial) Iff.rfl Iff.rfl trivial nofun False.elim
  | _ =>
    rw [hp] at ht
    cases ht

theorem test_inv {n : Nat} {s : CountDownLatch ι} (h : s.Inv n) {t : ι}
    (ht : s.place t = .testing) :
    (s.move t (if 0 < s.count then .blocking else .leaving .wait)).Inv n := by
  split
  · rename_i hpos
    exact h.move ht (h.exclusive.stay ht Iff.rfl) Iff.rfl Iff.rfl hpos nofun False.elim
  · rename_i hpos
    exact h.move ht (h.exclusive.stay ht Iff.rfl) Iff.rfl Iff.rfl (Int.not_lt.mp hpos) nofun
      False.elim

theorem sleep_inv {n : Nat} {s : CountDownLatch ι} (h : s.Inv n) {t : ι}
    (ht : s.place t = .blocking) :
    ({ s.move t .asleep with holder := none } : CountDownLatch ι).Inv n := by
  have hpos : Knows s.count .blocking := ht ▸ h.knows t
  exact h.move ht (h.exclusive.unlock ht trivial id) Iff.rfl Iff.rfl trivial (fun _ => hpos)
    False.elim

/-- The count goes down by one, as long as it can. -/
theorem decrement_inv {n : Nat} {s : CountDownLatch ι} (h : s.Inv n) {t : ι}
    (ht : s.place t = .counting) (beyond : Int) :
    ({ s.move t .comparing with
      count := if intMin < s.count then s.count - 1 else beyond
      decremented := s.decremented + 1 } : CountDownLatch ι).Inv n := by
  obtain ⟨C, hC, hcompleted⟩ := h.counted
  obtain ⟨P, hP, hpending⟩ := h.pending
  obtain ⟨hC', hcardC⟩ := hC.insert ht id (b := .comparing) trivial
  obtain ⟨hP', hcardP⟩ := hP.erase ht trivial (b := .comparing) id
  have hrange : intMin < s.count := by
    have hcount := h.count
    have hcalled := h.called
    change -2 ^ 31 < s.count
    omega
  have houtside : ∀ u, u ≠ t → ¬ (s.place u).Inside := by
    intro u hu hin
    exact hu (h.exclusive.eq hin (by rw [ht]; trivial))
  rw [if_pos hrange]
  exact
    { exclusive := h.exclusive.stay ht Iff.rfl
      count := by
        have hcount := h.count
        dsimp only
        omega
      counted := ⟨insert t C, hC', by
        change s.decremented + 1 = (insert t C).card + s.completed
        omega⟩
      pending := ⟨P.erase t, hP', by
        change s.called = (P.erase t).card + (s.decremented + 1)
        omega⟩
      called := h.called
      knows := forall_update (p := fun _ p => Knows (s.count - 1) p) trivial fun u hu =>
        knows_of_outside (houtside u hu) _
      sleepers := by
        -- before, nobody else was at a place where he owes a notification
        refine forall_update (p := fun _ q => q = LatchPlace.asleep → _) nofun ?_
        intro u hu hasleep
        rcases h.sleepers u hasleep with hpos | ⟨-, v, hv⟩
        · by_cases hone : s.count = 1
          · refine .inr ⟨by dsimp only; omega, t, ?_⟩
            change (update s.place t .comparing t).Owes
            rw [update_self]
            trivial
          · exact .inl (by dsimp only; omega)
        · have hin := counted_inside (owes_counted hv)
          have hvt : v = t := h.exclusive.eq hin (by rw [ht]; trivial)
          rw [hvt, ht] at hv
          exact hv.elim }

theorem compare_inv {n : Nat} {s : CountDownLatch ι} (h : s.Inv n) {t : ι}
    (ht : s.place t = .comparing) :
    (s.move t (if s.count = 0 then .notifying else .leaving .countDown)).Inv n := by
  split
  · exact h.move ht (h.exclusive.stay ht Iff.rfl) Iff.rfl Iff.rfl trivial nofun .inl
  · rename_i hzero
    exact h.move ht (h.exclusive.stay ht Iff.rfl) Iff.rfl Iff.rfl trivial nofun fun _ => .inr hzero

theorem read_inv {n : Nat} {s : CountDownLatch ι} (h : s.Inv n) {t : ι}
    (ht : s.place t = .reading) : (s.move t (.returning s.count)).Inv n :=
  h.move ht (h.exclusive.stay ht Iff.rfl) Iff.rfl Iff.rfl rfl nofun False.elim

theorem spurious_inv {n : Nat} {s : CountDownLatch ι} (h : s.Inv n) {t : ι}
    (ht : s.place t = .asleep) : (s.move t .woken).Inv n :=
  h.move ht (h.exclusive.stay ht Iff.rfl) Iff.rfl Iff.rfl trivial nofun False.elim

theorem notified_iff {kind : LatchPlace → Prop} (h : kind .woken ↔ kind .asleep) (p : LatchPlace) :
    kind p.notified ↔ kind p := by
  cases p with
  | asleep => exact h
  | _ => exact Iff.rfl

theorem notifyAll_inv {n : Nat} {s : CountDownLatch ι} (h : s.Inv n) {t : ι}
    (ht : s.place t = .notifying) :
    ({ s with place := update (fun u => (s.place u).notified) t (.leaving .countDown) } :
      CountDownLatch ι).Inv n := by
  obtain ⟨C, hC, hcompleted⟩ := h.counted
  obtain ⟨P, hP, hpending⟩ := h.pending
  have ht' : (s.place t).notified = .notifying := by
    rw [ht]
    rfl
  have hknows (u : ι) : Knows s.count (s.place u).notified := by
    have hold := h.knows u
    generalize s.place u = p at hold
    cases p with
    | asleep => trivial
    | _ => exact hold
  exact
    { exclusive := (h.exclusive.map (notified_iff Iff.rfl)).stay ht' Iff.rfl
      count := h.count
      counted := ⟨C, (hC.map (notified_iff Iff.rfl)).stay ht' Iff.rfl, hcompleted⟩
      pending := ⟨P, (hP.map (notified_iff Iff.rfl)).stay ht' Iff.rfl, hpending⟩
      called := h.called
      knows := forall_update (p := fun _ p => Knows s.count p) trivial fun u _ => hknows u
      sleepers := by
        refine forall_update (p := fun _ q => q = LatchPlace.asleep → _) nofun ?_
        intro u _ hasleep
        generalize s.place u = p at hasleep
        cases p <;> cases hasleep }

theorem unlock_inv {n : Nat} {s : CountDownLatch ι} (h : s.Inv n) {t : ι}
    (ht : (s.place t).leaves = true) :
    ({ s.move t .outside with
      holder := none
      completed := if s.place t = .leaving .countDown then s.completed + 1 else s.completed } :
      CountDownLatch ι).Inv n := by
  by_cases hdown : s.place t = .leaving .countDown
  · obtain ⟨C, hC, hcompleted⟩ := h.counted
    obtain ⟨P, hP, hpending⟩ := h.pending
    obtain ⟨hC', hcard⟩ := hC.erase hdown trivial (b := .outside) id
    rw [if_pos hdown]
    exact
      { exclusive := h.exclusive.unlock hdown trivial id
        count := h.count
        counted := ⟨C.erase t, hC', by
          change s.decremented = (C.erase t).card + (s.completed + 1)
          omega⟩
        pending := ⟨P, hP.stay hdown Iff.rfl, hpending⟩
        called := h.called
        knows := h.knows_update trivial
        sleepers := h.sleepers_update hdown nofun False.elim }
  · rw [if_neg hdown]
    cases hp : s.place t with
    | leaving c =>
      have hcounted : LatchPlace.outside.Counted ↔ (LatchPlace.leaving c).Counted := by
        cases c with
        | countDown => exact absurd hp hdown
        | wait | getCount => exact Iff.rfl
      exact h.move hp (h.exclusive.unlock hp trivial id) hcounted Iff.rfl trivial nofun False.elim
    | returning value =>
      exact h.move hp (h.exclusive.unlock hp trivial id) Iff.rfl Iff.rfl trivial nofun False.elim
    | _ =>
      rw [hp] at ht
      cases ht

theorem Inv.step {n : Nat} {s s' : CountDownLatch ι} (h : s.Inv n) {a : Label ι}
    (ha : s.Enabled a) (hallowed : s.Allowed n a) (hs : s.step a = .ok s') : s'.Inv n := by
  cases a with
  | call t c =>
    cases hs
    by_cases hc : c = .countDown
    · subst hc
      exact callCountDown_inv h ha hallowed
    · rw [if_neg hc]
      exact call_inv h ha hc
  | lock t =>
    cases hs
    exact lock_inv h ha.1 ha.2
  | test t =>
    cases hs
    exact test_inv h ha
  | sleep t =>
    cases hs
    exact sleep_inv h ha
  | decrement t beyond =>
    cases hs
    exact decrement_inv h ha.1 beyond
  | compare t =>
    cases hs
    exact compare_inv h ha
  | notifyAll t =>
    cases hs
    exact notifyAll_inv h ha
  | read t =>
    cases hs
    exact read_inv h ha
  | unlock t =>
    cases hs
    exact unlock_inv h ha
  | spurious t =>
    cases hs
    exact spurious_inv h ha

/-! ## When it releases -/

/-- A step of a latch that began with `n`. -/
structure Releases (n : Nat) (s : CountDownLatch ι) (a : Label ι) (o : Checked (CountDownLatch ι)) :
    Prop where
  /-- a `wait` returns -/
  returned : ∀ t, a = .unlock t → s.place t = .leaving .wait → n ≤ s.completed
  /-- and nobody is left behind -/
  notified : ∀ s', o = .ok s' → n ≤ s'.completed → ∀ t, s'.place t ≠ .asleep
  /-- nor goes to sleep again -/
  passes : ∀ t, a = .test t → n ≤ s.completed → o = .ok (s.move t (.leaving .wait))
  /-- `getCount` -/
  value : ∀ t value, a = .unlock t → s.place t = .returning value → value = n - s.completed

theorem step_releases {n : Nat} {s : CountDownLatch ι} (h : s.Inv n) {a : Label ι}
    (ha : s.Enabled a) (hallowed : s.Allowed n a) : Releases n s a (s.step a) where
  returned := by
    rintro t rfl ht
    have hknows : Knows s.count (.leaving .wait) := ht ▸ h.knows t
    have hcount := h.count_idle (t := t) (by rw [ht]; trivial) (by rw [ht]; exact id)
    have hle : s.count ≤ 0 := hknows
    omega
  notified := fun s' hs hn => (h.step ha hallowed hs).not_asleep hn
  passes := by
    rintro t rfl hn
    have hcount := h.count
    obtain ⟨C, -, hcompleted⟩ := h.counted
    have hpos : ¬ 0 < s.count := by omega
    change Except.ok _ = _
    rw [if_neg hpos]
  value := by
    rintro t value rfl ht
    have hknows : Knows s.count (.returning value) := ht ▸ h.knows t
    have hcount := h.count_idle (t := t) (by rw [ht]; trivial) (by rw [ht]; exact id)
    exact Eq.trans hknows hcount

def Label.isCountDown : Label ι → Bool
  | .call _ .countDown => true
  | _ => false

theorem called_step {s s' : CountDownLatch ι} {a : Label ι} (hs : s.step a = .ok s') :
    s'.called = s.called + if a.isCountDown then 1 else 0 := by
  cases a with
  | call t c => cases c <;> cases hs <;> rfl
  | _ => cases hs; rfl

theorem along_allowed {n : Nat} {s : CountDownLatch ι} {steps : List (Label ι)}
    (h : s.called + steps.countP Label.isCountDown ≤ n + 2 ^ 31) :
    Along step (Allowed n) s steps := by
  induction steps generalizing s with
  | nil => trivial
  | cons a steps ih =>
    rw [List.countP_cons] at h
    refine ⟨?_, fun s' hs => ih ?_⟩
    · cases a with
      | call t c =>
        cases c with
        | countDown =>
          have hcountDown : (Label.call t .countDown).isCountDown = true := rfl
          rw [if_pos hcountDown] at h
          change s.called < n + 2 ^ 31
          omega
        | _ => trivial
      | _ => trivial
    · rw [called_step hs]
      omega

/-- **The latch.** For any count, any number of threads and any interleaving of
their calls, of which no more are of `countDown` than the count has values for:
no `wait` returns before `count` of them have been completed, and from then on
nobody sleeps. -/
theorem latch_releases (n : Nat) (steps : List (Label ι))
    (hcalls : steps.countP Label.isCountDown ≤ n + 2 ^ 31)
    (hsteps : Along step Enabled (new n) steps) : Steps step (Releases n) (new n) steps := by
  have hallowed : Along step (Allowed n) (new n : CountDownLatch ι) steps := by
    apply along_allowed
    change 0 + _ ≤ _
    rw [Nat.zero_add]
    exact hcalls
  have hE : Along step (fun s a => s.Enabled a ∧ s.Allowed n a) (new n) steps :=
    hsteps.and hallowed
  exact Steps.of_invariant (I := Inv n) (fun s a h ha => step_releases h ha.1 ha.2)
    (fun s a s' h ha hs => h.step ha.1 ha.2 hs) (new_inv n) hE

/-- A thread waits for one call, wakes up for no reason before it, and finds the
latch open after it; another call follows. -/
theorem latch_releases_once :
    Steps step (Releases 1) (new 1)
      [.call true .wait, .lock true, .test true, .sleep true, .spurious true, .lock true,
       .test true, .sleep true, .call false .countDown, .lock false, .decrement false 0,
       .compare false, .notifyAll false, .unlock false, .call false .countDown, .lock false,
       .decrement false 0, .compare false, .unlock false, .lock true, .test true, .unlock true] :=
  latch_releases 1 _ (by decide) (by decide)

/-! ## More calls -/

/-- A whole call of `countDown` that has nobody to notify. -/
def countDownSteps (t : ι) (beyond : Int) : List (Label ι) :=
  [.call t .countDown, .lock t, .decrement t beyond, .compare t, .unlock t]

/-- Nobody is in a call. -/
structure Idle (s : CountDownLatch ι) (count : Int) : Prop where
  holder : s.holder = none
  place : ∀ t, s.place t = .outside
  count : s.count = count

theorem Idle.countDown {s : CountDownLatch ι} {count count' : Int} (h : s.Idle count) (t : ι)
    (beyond : Int) (hbeyond : intMin ≤ beyond ∧ beyond < intLimit)
    (hcount : count' = if intMin < count then count - 1 else beyond) (hne : count' ≠ 0) :
    ∃ s', Run step s (countDownSteps t beyond) s' ∧ s'.Idle count' ∧
      Along step Enabled s (countDownSteps t beyond) := by
  have hcount' : (if intMin < s.count then s.count - 1 else beyond) = count' := by
    rw [h.count, hcount]
  refine ⟨_, .cons rfl (.cons rfl (.cons rfl (.cons rfl (.cons rfl (.nil _))))),
    ⟨rfl, ?_, hcount'⟩, ?_⟩
  · intro u
    by_cases hu : u = t
    · rw [hu]
      exact update_self ..
    · simp only [CountDownLatch.move, update_of_ne hu]
      exact h.place u
  · refine (steps_cons_ok rfl).mpr ⟨h.place t, ?_⟩
    refine (steps_cons_ok rfl).mpr ⟨⟨h.holder, ?_⟩, ?_⟩
    · simp [CountDownLatch.move, LatchPlace.enters]
    refine (steps_cons_ok rfl).mpr ⟨⟨?_, hbeyond⟩, ?_⟩
    · simp [CountDownLatch.move, LatchPlace.entered]
    refine (steps_cons_ok rfl).mpr ⟨?_, ?_⟩
    · exact update_self ..
    refine (steps_cons_ok rfl).mpr ⟨?_, trivial⟩
    · change (update (_ : ι → LatchPlace) t (if (if intMin < s.count then s.count - 1 else beyond)
        = 0 then .notifying else .leaving .countDown) t).leaves = true
      rw [update_self, hcount', if_neg hne]
      rfl

/-- So many calls, one after the other. -/
def countDowns (t : ι) : Nat → List (Label ι)
  | 0 => []
  | k + 1 => countDowns t k ++ countDownSteps t 0

theorem Idle.countDowns {s : CountDownLatch ι} (h : s.Idle 0) (t : ι) {k : Nat} (hk : k ≤ 2 ^ 31) :
    ∃ s', Run step s (countDowns t k) s' ∧ s'.Idle (-k) ∧
      Along step Enabled s (countDowns t k) := by
  induction k with
  | zero => exact ⟨s, .nil s, h, trivial⟩
  | succ k ih =>
    obtain ⟨s', hrun, hidle, halong⟩ := ih (by omega)
    have hrange : intMin < -(k : Int) := by
      change -2 ^ 31 < -(k : Int)
      omega
    have hnext : -((k + 1 : Nat) : Int) = if intMin < -(k : Int) then -(k : Int) - 1 else 0 := by
      rw [if_pos hrange]
      omega
    obtain ⟨s'', hrun', hidle', halong'⟩ := hidle.countDown t 0 (by decide) hnext (by omega)
    exact ⟨s'', hrun.append hrun', hidle', halong.append hrun halong'⟩

/-- Who waits for a count above zero goes to sleep. -/
theorem Idle.wait {s : CountDownLatch ι} {count : Int} (h : s.Idle count) (hpos : 0 < count)
    (t : ι) : ∃ s₁ s', Run step s [.call t .wait, .lock t, .test t] s₁ ∧ s₁.step (.sleep t) = .ok s' ∧
      s'.place t = .asleep ∧ Along step Enabled s [.call t .wait, .lock t, .test t, .sleep t] := by
  refine ⟨_, _, .cons rfl (.cons rfl (.cons rfl (.nil _))), rfl, update_self .., ?_⟩
  refine (steps_cons_ok rfl).mpr ⟨h.place t, ?_⟩
  refine (steps_cons_ok rfl).mpr ⟨⟨h.holder, ?_⟩, ?_⟩
  · simp [CountDownLatch.move, LatchPlace.enters]
  refine (steps_cons_ok rfl).mpr ⟨?_, ?_⟩
  · simp [CountDownLatch.move, LatchPlace.entered, Enabled]
  refine (steps_cons_ok rfl).mpr ⟨?_, trivial⟩
  have hcount : 0 < s.count := h.count ▸ hpos
  change update (_ : ι → LatchPlace) t (if 0 < s.count then .blocking else .leaving .wait) t = _
  rw [update_self, if_pos hcount]

/-- One call more than `k`, and a `wait` behind it. -/
def wrapSteps (k : Nat) : List (Label Bool) :=
  countDowns false k ++ (countDownSteps false (intLimit - 1) ++
    ([.call true .wait, .lock true, .test true] ++ [.sleep true]))

theorem wrapSteps_sleep {k : Nat} (hk : (k : Int) = 2 ^ 31) :
    Along step Enabled (new 0) (wrapSteps k) ∧
      (∃ s', Run step (new 0) (wrapSteps k) s' ∧ s'.place true = .asleep) ∧
      ¬ Steps step (Releases 0) (new 0) (wrapSteps k) := by
  have hnew : (new 0 : CountDownLatch Bool).Idle 0 := ⟨rfl, fun _ => rfl, rfl⟩
  obtain ⟨s₁, hrun₁, hidle₁, halong₁⟩ := hnew.countDowns false (k := k) (by omega)
  have hlast : ¬ intMin < -(k : Int) := by
    rw [hk]
    decide
  obtain ⟨s₂, hrun₂, hidle₂, halong₂⟩ := hidle₁.countDown false (intLimit - 1) (by decide)
    (if_neg hlast).symm (by decide)
  obtain ⟨s₃, s', hrun₃, hs, hasleep, halong₃⟩ := hidle₂.wait (by decide) true
  refine ⟨halong₁.append hrun₁ (halong₂.append hrun₂ halong₃), ⟨s', ?_, hasleep⟩, ?_⟩
  · exact hrun₁.append (hrun₂.append (hrun₃.append (.cons hs (.nil s'))))
  · intro h
    have hsleep := ((h.right hrun₁).right hrun₂).right hrun₃
    exact hsleep.1.notified s' hs (Nat.zero_le _) true hasleep

/-- With all negative values used up, the next call may leave a positive count,
and a `wait` behind it sleeps. -/
theorem count_wraps :
    Along step Enabled (new 0) (wrapSteps (2 ^ 31)) ∧
      (∃ s', Run step (new 0) (wrapSteps (2 ^ 31)) s' ∧ s'.place true = .asleep) ∧
      ¬ Steps step (Releases 0) (new 0) (wrapSteps (2 ^ 31)) :=
  wrapSteps_sleep rfl

end CountDownLatch

end Muduo
