import Muduo.TcpServer

/-!
`ThreadPool::start`, with the threads by their names. The counter of the loop is
incremented once in its head and once in the text of the name, so that
`threads_[i]` is looked for behind the thread just made.

* `startThreads_outOfRange`: what becomes of a round of the loop;
* `start_creates_iff`: `start` does what it should for no threads only.
-/

namespace Muduo

open Lib

/-- `hhl::thread`, and how often it has been started. -/
structure PoolThread where
  name : String
  started : Bool
  starts : Nat
  deriving DecidableEq, Repr

/-- `thread::start`. If `pthread_create` fails, `started_` is taken back. -/
def PoolThread.start (t : PoolThread) (created : Bool) : Checked PoolThread := do
  check (t.started = false) .threadStart
  return { t with started := created, starts := t.starts + 1 }

/-- What `ThreadPool::start` uses of the pool. -/
structure ThreadPoolStart where
  name : String
  /-- `threadInitCallback_` is set -/
  threadInitCallback : Bool
  running : Bool
  threads : List PoolThread
  /-- the calls of `threadInitCallback_` by `start` -/
  initCalls : Nat
  deriving DecidableEq, Repr

namespace ThreadPoolStart

/-- A fresh pool. -/
def new (name : String) (threadInitCallback : Bool) : ThreadPoolStart :=
  ⟨name, threadInitCallback, false, [], 0⟩

/-- `threads_.emplace_back(new hhl::thread(…, name_ + id))` -/
def emplaceBack (p : ThreadPoolStart) (id : String) : ThreadPoolStart :=
  { p with threads := p.threads ++ [⟨p.name ++ id, false, 0⟩] }

/-- `threads_[i]->start()` -/
def startAt (p : ThreadPoolStart) (created : Nat → Bool) (i : Nat) : Checked ThreadPoolStart :=
  match p.threads[i]? with
  | some t => do
    let t ← t.start (created i)
    return { p with threads := p.threads.set i t }
  | none => .error .threadsIndex

/-- `for (int i = 0; i < numThreads; i++)`, from `i` on. `snprintf` is given
`++i`. -/
def startThreads (created : Nat → Bool) (numThreads i : Nat) (p : ThreadPoolStart) :
    Checked ThreadPoolStart :=
  if i < numThreads then do
    let p ← (p.emplaceBack (snprintf 32 (i + 1).repr)).startAt created (i + 1)
    startThreads created numThreads (i + 1 + 1) p
  else return p
  termination_by numThreads - i

/-- `created` is whether `pthread_create` succeeds, by thread. -/
def start (p : ThreadPoolStart) (created : Nat → Bool) (numThreads : Nat) :
    Checked ThreadPoolStart := do
  check (p.threads = []) .threadPoolStart
  let p ← startThreads created numThreads 0 { p with running := true }
  return if numThreads = 0 ∧ p.threadInitCallback = true then { p with initCalls := p.initCalls + 1 }
    else p

/-- `start` has returned, with so many threads, each started once, and no two
of one name. -/
def Creates (o : Checked ThreadPoolStart) (numThreads : Nat) : Prop :=
  ∃ p, o = .ok p ∧ p.threads.length = numThreads ∧ (∀ t ∈ p.threads, t.starts = 1) ∧
    (p.threads.map PoolThread.name).Nodup

theorem new_threads (name : String) (threadInitCallback : Bool) :
    (new name threadInitCallback).threads = [] := rfl

theorem startAt_outOfRange {p : ThreadPoolStart} {i : Nat} (h : p.threads.length ≤ i)
    (created : Nat → Bool) : p.startAt created i = .error .threadsIndex := by
  unfold startAt
  rw [List.getElem?_eq_none h]

/-- With `i` threads at most there is none at `i + 1`, behind the one more. -/
theorem startThreads_outOfRange {p : ThreadPoolStart} {numThreads i : Nat}
    (h : p.threads.length ≤ i) (hi : i < numThreads) (created : Nat → Bool) :
    startThreads created numThreads i p = .error .threadsIndex := by
  have hlen : (p.emplaceBack (snprintf 32 (i + 1).repr)).threads.length ≤ i + 1 := by
    rw [emplaceBack, List.length_append, List.length_singleton]
    exact Nat.succ_le_succ h
  rw [startThreads, if_pos hi, startAt_outOfRange hlen, error_bind]

theorem startThreads_done {numThreads i : Nat} (hi : numThreads ≤ i) (created : Nat → Bool)
    (p : ThreadPoolStart) : startThreads created numThreads i p = .ok p := by
  rw [startThreads, if_neg (Nat.not_lt.mpr hi)]
  rfl

theorem start_fails (name : String) (threadInitCallback : Bool) (created : Nat → Bool)
    {numThreads : Nat} (hpos : 0 < numThreads) :
    (new name threadInitCallback).start created numThreads = .error .threadsIndex := by
  unfold start
  rw [check_pos (new_threads ..), ok_bind, startThreads_outOfRange (Nat.le_refl 0) hpos, error_bind]

/-- **Starting the pool.** On a fresh pool, `start` creates the threads it is
asked for exactly if it is asked for none. -/
theorem start_creates_iff (name : String) (threadInitCallback : Bool) (created : Nat → Bool)
    (numThreads : Nat) :
    Creates ((new name threadInitCallback).start created numThreads) numThreads ↔
      numThreads = 0 := by
  constructor
  · rintro ⟨p, hp, -⟩
    by_contra hne
    rw [start_fails _ _ _ (Nat.pos_of_ne_zero hne)] at hp
    cases hp
  · rintro rfl
    unfold start
    rw [check_pos (new_threads ..), ok_bind, startThreads_done (Nat.le_refl 0), ok_bind]
    -- with or without a call of the callback, there are no threads
    split
    · exact ⟨_, rfl, by simp [new]⟩
    · exact ⟨_, rfl, by simp [new]⟩

/-- One thread is made, `threads_[1]` is not there, and nothing is started. -/
theorem start_one_fails :
    (new "ThreadPool" false).start (fun _ => true) 1 = .error .threadsIndex ∧
      ¬ Creates ((new "ThreadPool" false).start (fun _ => true) 1) 1 := by
  have hfails := start_fails "ThreadPool" false (fun _ => true) Nat.zero_lt_one
  refine ⟨hfails, ?_⟩
  rintro ⟨p, hp, -⟩
  rw [hfails] at hp
  cases hp

end ThreadPoolStart

end Muduo
