import Mathlib.Algebra.Group.Nat.Defs
import Muduo.ConnectorStop

/-!
How long a `Connector` waits before it tries again. Every timer that `retry`
sets has twice the delay of the one before it, up to half a minute, and
`restart` begins anew; `start` and `stop` do not, and neither does a connection
that has come about.

* `Backoff`: this schedule, over the timers and the restarts of a history;
* `backs_off`: in every run, the timers are set by it.
-/

namespace Muduo

open Lib Events

namespace Connector

/-- The delay of the retry `k` since the last restart, from 0. -/
def delay (k : Nat) : Nat := min (kInitRetryDelayMs * 2 ^ k) kMaxRetryDelayMs

theorem delay_succ (k : Nat) : delay (k + 1) = min (delay k * 2) kMaxRetryDelayMs := by
  unfold delay
  rw [pow_succ, ← Nat.mul_assoc]
  omega

theorem delay_bounds (k : Nat) : kInitRetryDelayMs ≤ delay k ∧ delay k ≤ kMaxRetryDelayMs := by
  induction k with
  | zero => decide
  | succ k ih =>
    rw [delay_succ]
    constructor
    · exact Nat.le_min_of_le_of_le (by omega) (by decide)
    · exact Nat.min_le_right _ _

/-! ## The schedule -/

/-- A timer that is set, or `none` for a restart. -/
abbrev Wait := Option Nat

/-- The number of the next retry behind a history. -/
def nextRetry : Nat → List Wait → Nat
  | k, [] => k
  | _, none :: l => nextRetry 0 l
  | k, some _ :: l => nextRetry (k + 1) l

/-- The timers have the delays from that of retry `k` on. -/
def Backoff : Nat → List Wait → Prop
  | _, [] => True
  | _, none :: l => Backoff 0 l
  | k, some d :: l => d = delay k ∧ Backoff (k + 1) l

theorem nextRetry_append (k : Nat) (l l' : List Wait) :
    nextRetry k (l ++ l') = nextRetry (nextRetry k l) l' := by
  induction l generalizing k with
  | nil => rfl
  | cons w l ih =>
    cases w with
    | none => exact ih 0
    | some d => exact ih (k + 1)

theorem backoff_append (k : Nat) (l l' : List Wait) :
    Backoff k (l ++ l') ↔ Backoff k l ∧ Backoff (nextRetry k l) l' := by
  induction l generalizing k with
  | nil => simp [Backoff, nextRetry]
  | cons w l ih =>
    cases w with
    | none => exact ih 0
    | some d =>
      simp only [List.cons_append, Backoff, nextRetry, ih (k + 1), and_assoc]

/-- A history that is empty or ends with a restart. -/
theorem nextRetry_fresh {l : List Wait} (h : l = [] ∨ l.getLast? = some none) :
    nextRetry 0 l = 0 := by
  rcases h with rfl | hlast
  · rfl
  · obtain ⟨l, rfl⟩ := List.getLast?_eq_some_iff.mp hlast
    rw [nextRetry_append]
    rfl

/-- Without restarts the delays are those of the retries one by one. -/
theorem Backoff.eq_delays {k : Nat} {l : List Wait} (h : Backoff k l) (hno : none ∉ l) :
    l = (List.range l.length).map fun i => some (delay (k + i)) := by
  induction l generalizing k with
  | nil => rfl
  | cons w l ih =>
    cases w with
    | none => simp at hno
    | some d =>
      obtain ⟨rfl, hrest⟩ := h
      have hl := ih hrest fun hmem => hno (List.mem_cons_of_mem _ hmem)
      have hshift : (fun i => some (delay (k + 1 + i))) =
          (fun i => some (delay (k + i))) ∘ Nat.succ := by
        funext i
        simp [Nat.add_assoc, Nat.add_comm 1]
      rw [List.length_cons, List.range_succ_eq_map, List.map_cons, List.map_map, ← hshift, ← hl,
        Nat.add_zero]

/-! ## What the functions set -/

/-- No timer is set from `c` to `c'`. -/
structure Same (c c' : Connector) : Prop where
  retryTimers : c'.retryTimers = c.retryTimers
  retryDelayMs : c'.retryDelayMs = c.retryDelayMs

/-- At most one timer is set from `c` to `c'`. -/
def Waits (c c' : Connector) : Prop :=
  Same c c' ∨ c'.retryTimers = c.retryTimers ++ [c.retryDelayMs] ∧
    c'.retryDelayMs = min (c.retryDelayMs * 2) kMaxRetryDelayMs

theorem Waits.of_same {c c₁ c' : Connector} (h' : Waits c₁ c') (h : Same c c₁) : Waits c c' := by
  rcases h' with h' | ⟨htimers, hdelay⟩
  · exact .inl ⟨h'.1.trans h.1, h'.2.trans h.2⟩
  · exact .inr ⟨by rw [htimers, h.1, h.2], by rw [hdelay, h.2]⟩

theorem retry_waits (c : Connector) (sockfd : Nat) : Waits c (c.retry sockfd) := by
  unfold retry
  dsimp only
  split
  · exact .inr ⟨rfl, rfl⟩
  · exact .inl ⟨rfl, rfl⟩

theorem connect_waits {c c' : Connector} {savedErrno : Option Errno}
    (h : c.connect savedErrno = .ok c') : Waits c c' := by
  unfold connect at h
  dsimp only at h
  split at h
  · obtain ⟨_, -, h⟩ := bind_eq_ok.mp h
    obtain ⟨channel, -, h⟩ := bind_eq_ok.mp h
    cases h
    exact .inl ⟨rfl, rfl⟩
  · cases h
    have hretry := retry_waits { c with created := c.created + 1 } c.created
    exact hretry.of_same ⟨rfl, rfl⟩
  · cases h
    exact .inl ⟨rfl, rfl⟩

theorem startInLoop_waits {c c' : Connector} {savedErrno : Option Errno}
    (h : c.startInLoop savedErrno = .ok c') : Waits c c' := by
  unfold startInLoop at h
  split at h
  · exact connect_waits h
  · cases h
    exact .inl ⟨rfl, rfl⟩

theorem removeAndResetChannel_same {c c' : Connector} {sockfd : Nat}
    (h : c.removeAndResetChannel = .ok (c', sockfd)) : Same c c' := by
  unfold removeAndResetChannel at h
  split at h
  · cases h
  · obtain ⟨channel, -, h⟩ := bind_eq_ok.mp h
    obtain ⟨channel', -, h⟩ := bind_eq_ok.mp h
    cases h
    exact ⟨rfl, rfl⟩

/-- With an error the attempt is over. -/
theorem handleError_waits {c c' : Connector} (h : c.handleError = .ok c') :
    Same c c' ∨ c'.state = .kDisconnected ∧ Waits c c' := by
  unfold handleError at h
  split at h
  · obtain ⟨⟨c₁, sockfd⟩, hremove, h⟩ := bind_eq_ok.mp h
    cases h
    exact .inr ⟨retry_state _ _, (retry_waits _ _).of_same (removeAndResetChannel_same hremove)⟩
  · cases h
    exact .inl ⟨rfl, rfl⟩

theorem handleWrite_waits {c c' : Connector} {err : Nat} {selfConnect : Bool}
    (h : c.handleWrite err selfConnect = .ok c') :
    Same c c' ∨ c'.state ≠ .kConnecting ∧ Waits c c' := by
  unfold handleWrite at h
  split at h
  · obtain ⟨⟨c₁, sockfd⟩, hremove, h⟩ := bind_eq_ok.mp h
    have hsame := removeAndResetChannel_same hremove
    have hretry : (c₁.retry sockfd).state ≠ .kConnecting := by simp [retry_state]
    dsimp only at h
    split at h
    · cases h
      exact .inr ⟨hretry, (retry_waits _ _).of_same hsame⟩
    · split at h
      · cases h
        exact .inr ⟨hretry, (retry_waits _ _).of_same hsame⟩
      · cases h
        left
        split
        · exact ⟨hsame.1, hsame.2⟩
        · exact ⟨hsame.1, hsame.2⟩
  · obtain ⟨_, -, h⟩ := bind_eq_ok.mp h
    cases h
    exact .inl ⟨rfl, rfl⟩

/-- Both callbacks of a dispatch may run, but only the first finds the attempt. -/
theorem handleEvent_waits {c c' : Connector} {revents : Events} {err : Nat} {selfConnect : Bool}
    (h : c.handleEvent revents err selfConnect = .ok c') : Waits c c' := by
  have hone : Same c c' ∨ c'.state ≠ .kConnecting ∧ Waits c c' := by
    refine handleEvent_invariant (I := fun d => Same c d ∨ d.state ≠ .kConnecting ∧ Waits c d)
      (fun d b hd => ?_) (fun d d' hd hd' => ?_) (fun d d' hd hd' => ?_) (.inl ⟨rfl, rfl⟩) h
    · rcases hd with hsame | ⟨hstate, hsame | hset⟩
      · exact .inl ⟨hsame.1, hsame.2⟩
      · exact .inl ⟨hsame.1, hsame.2⟩
      · exact .inr ⟨hstate, .inr hset⟩
    · rcases hd with hsame | ⟨hstate, hwaits⟩
      · rcases handleError_waits hd' with hsame' | ⟨hstate, hwaits⟩
        · exact .inl ⟨hsame'.1.trans hsame.1, hsame'.2.trans hsame.2⟩
        · exact .inr ⟨by simp [hstate], hwaits.of_same hsame⟩
      · rw [handleError_idle hstate hd']
        exact .inr ⟨hstate, hwaits⟩
    · rcases hd with hsame | ⟨hstate, hwaits⟩
      · rcases handleWrite_waits hd' with hsame' | ⟨hstate, hwaits⟩
        · exact .inl ⟨hsame'.1.trans hsame.1, hsame'.2.trans hsame.2⟩
        · exact .inr ⟨hstate, hwaits.of_same hsame⟩
      · rw [handleWrite_idle hstate hd']
        exact .inr ⟨hstate, hwaits⟩
  rcases hone with hsame | ⟨-, hwaits⟩
  · exact .inl hsame
  · exact hwaits

theorem runFunctor_waits {c c' : Connector} {savedErrno : Option Errno} {f : ConnectorFunctor}
    (h : c.runFunctor savedErrno f = .ok c') : Waits c c' := by
  cases f with
  | startInLoop => exact startInLoop_waits h
  | stopInLoop =>
    simp only [runFunctor, stopInLoop] at h
    split at h
    · obtain ⟨⟨c₁, sockfd⟩, hremove, h⟩ := bind_eq_ok.mp h
      cases h
      have hsame := removeAndResetChannel_same hremove
      exact (retry_waits _ _).of_same ⟨hsame.1, hsame.2⟩
    · cases h
      exact .inl ⟨rfl, rfl⟩
  | resetChannel =>
    simp only [runFunctor, resetChannel] at h
    split at h
    · cases h
      exact .inl ⟨rfl, rfl⟩
    · obtain ⟨_, -, h⟩ := bind_eq_ok.mp h
      cases h
      exact .inl ⟨rfl, rfl⟩

/-! ## The runs -/

/-- What a step finds: the timer that fires is gone, and `restart` has set the
delay back. -/
def found (c : Connector) : Step → Connector
  | .timer i _ => { c with retryTimers := c.retryTimers.eraseIdx i }
  | .restart _ => { c with retryDelayMs := kInitRetryDelayMs }
  | _ => c

theorem step_waits {c c' : Connector} {a : Step} (hs : c.step a = .ok c') :
    Waits (c.found a) c' := by
  cases a with
  | start inLoop savedErrno =>
    cases inLoop with
    | true =>
      have hwaits := startInLoop_waits (c := { c with connect_ := true }) hs
      exact hwaits.of_same ⟨rfl, rfl⟩
    | false =>
      cases hs
      exact .inl ⟨rfl, rfl⟩
  | stop =>
    cases hs
    exact .inl ⟨rfl, rfl⟩
  | restart savedErrno =>
    have hwaits := startInLoop_waits (c := { c.setState .kDisconnected with
      retryDelayMs := kInitRetryDelayMs, connect_ := true }) hs
    exact hwaits.of_same ⟨rfl, rfl⟩
  | timer i savedErrno => exact startInLoop_waits hs
  | dispatch revents err selfConnect => exact handleEvent_waits hs
  | functor savedErrno =>
    cases hfs : c.functors with
    | nil =>
      simp only [step, hfs] at hs
      cases hs
      exact .inl ⟨rfl, rfl⟩
    | cons f functors =>
      simp only [step, hfs] at hs
      have hwaits := runFunctor_waits (c := { c with functors }) hs
      exact hwaits.of_same ⟨rfl, rfl⟩

def restarts : Step → List Wait
  | .restart _ => [none]
  | _ => []

/-- The restart in a step, and the timer it sets. -/
def waits (c : Connector) (a : Step) : List Wait :=
  restarts a ++ match c.step a with
    | .ok c' => (c'.retryTimers.drop (c.found a).retryTimers.length).map some
    | .error _ => []

theorem waits_of_step {c c' : Connector} {a : Step} (hs : c.step a = .ok c') :
    c.waits a =
      restarts a ++ (c'.retryTimers.drop (c.found a).retryTimers.length).map some := by
  simp only [waits, hs]

/-- The delay is that of the next retry, and the timers have delays of retries. -/
structure OnSchedule (c : Connector) (history : List Wait) : Prop where
  backoff : Backoff 0 history
  retryDelayMs : c.retryDelayMs = delay (nextRetry 0 history)
  retryTimers : ∀ d ∈ c.retryTimers, ∃ k, d = delay k

theorem OnSchedule.found {c : Connector} {history : List Wait} (h : OnSchedule c history)
    (a : Step) : OnSchedule (c.found a) (history ++ restarts a) := by
  cases a with
  | restart savedErrno =>
    constructor
    · exact (backoff_append ..).mpr ⟨h.backoff, trivial⟩
    · rw [nextRetry_append]
      rfl
    · exact h.retryTimers
  | timer i savedErrno =>
    change OnSchedule _ (history ++ [])
    rw [List.append_nil]
    exact ⟨h.backoff, h.retryDelayMs, fun d hd => h.retryTimers d (List.mem_of_mem_eraseIdx hd)⟩
  | start | stop | dispatch | functor =>
    change OnSchedule c (history ++ [])
    rwa [List.append_nil]

theorem OnSchedule.step {c c' : Connector} {history : List Wait} (h : OnSchedule c history)
    {a : Step} (hs : c.step a = .ok c') : OnSchedule c' (history ++ c.waits a) := by
  have hfound := h.found a
  rw [waits_of_step hs, ← List.append_assoc]
  rcases step_waits hs with hsame | ⟨htimers, hdelay⟩
  · rw [hsame.retryTimers, List.drop_length, List.map_nil, List.append_nil]
    exact ⟨hfound.backoff, hsame.retryDelayMs.trans hfound.retryDelayMs,
      hsame.retryTimers ▸ hfound.retryTimers⟩
  · rw [htimers, List.drop_left, List.map_singleton]
    constructor
    · exact (backoff_append ..).mpr ⟨hfound.backoff, hfound.retryDelayMs, trivial⟩
    · rw [hdelay, hfound.retryDelayMs, ← delay_succ, nextRetry_append _ _ [some _]]
      rfl
    · intro d hd
      rw [htimers] at hd
      rcases List.mem_append.mp hd with hd | hd
      · exact hfound.retryTimers d hd
      · exact ⟨_, (List.mem_singleton.mp hd).trans hfound.retryDelayMs⟩

/-- **Backoff.** In every run, the timers set since the constructor or since any
`restart`, up to the next one, have the delays of 500 ms doubled again and again
up to 30 s, in this order; and no timer that waits is shorter or longer than
these two. -/
theorem backs_off {steps : List Step} {c : Connector} (hrun : Run step new steps c) :
    (∀ earlier recent, yields step waits new steps = earlier ++ recent →
      (earlier = [] ∨ earlier.getLast? = some none) → none ∉ recent →
      recent = (List.range recent.length).map fun k => some (delay k)) ∧
    ∀ d ∈ c.retryTimers, kInitRetryDelayMs ≤ d ∧ d ≤ kMaxRetryDelayMs := by
  have hnew : OnSchedule new [] := ⟨trivial, rfl, by simp [new]⟩
  have hend : OnSchedule c ([] ++ yields step waits new steps) :=
    hrun.history (J := OnSchedule) (E := fun _ _ => True) (Steps.of_forall fun _ _ => trivial) hnew
      fun _ _ _ _ h _ hs => h.step hs
  constructor
  · intro earlier recent hsplit hfresh hno
    have hback := hend.backoff
    rw [List.nil_append, hsplit] at hback
    obtain ⟨-, hrecent⟩ := (backoff_append ..).mp hback
    rw [nextRetry_fresh hfresh] at hrecent
    simpa using hrecent.eq_delays hno
  · intro d hd
    obtain ⟨k, rfl⟩ := hend.retryTimers d hd
    exact delay_bounds k

/-- Two attempts are refused; `restart` begins anew. -/
theorem backs_off_refused :
    let steps : List Step := [.start true (some .ECONNREFUSED), .timer 0 (some .ECONNREFUSED),
      .restart (some .ECONNREFUSED)]
    yields step waits new steps = [some 500, some 1000, none, some 500] ∧
      ∃ c, Run step new steps c ∧
        ∀ d ∈ c.retryTimers, kInitRetryDelayMs ≤ d ∧ d ≤ kMaxRetryDelayMs := by
  intro steps
  refine ⟨by decide, ?_⟩
  obtain ⟨c, hrun⟩ : ∃ c, Run step new steps c := ⟨_, run_iff_foldlM.mpr rfl⟩
  exact ⟨c, hrun, (backs_off hrun).2⟩

end Connector

end Muduo
