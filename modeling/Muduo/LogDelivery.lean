import Mathlib.Data.Prod.Lex
import Muduo.Lib.Progress
import Muduo.LogPipeline

/-!
A line does not stay in the log. While the backend thread takes step after step,
what has been appended is swapped out, written and flushed in the round of the
next swap, unless the thread has ended: `waitForSeconds` ends, notified or not.

* `linesLeft`: what the backend has to do until so many bytes are written;
* `lines_delivered`: every line comes to the output and is flushed there.
-/

namespace Muduo

open Lib

namespace AsyncLogging

/-- What has been swapped out, written or not. -/
def swappedOut (s : AsyncLogging) : List UInt8 := s.output ++ contents s.unwritten

theorem swappedOut_held (s : AsyncLogging) : s.swappedOut ++ s.held = s.output ++ s.backlog := by
  simp only [swappedOut, held, backlog, List.append_assoc]

/-- How far the backend is from its next swap. -/
def untilSwap (s : AsyncLogging) : ℕ ×ₗ ℕ :=
  match s.phase with
  | .notStarted => toLex (6, 0)
  | .started => toLex (5, 0)
  | .swapped => toLex (4, 0)
  | .writing next => toLex (3, s.bufferToWrite.length - next)
  | .condition => toLex (2, 0)
  | .beforeLock => toLex (1, 0)
  | .waiting | .finished => toLex (0, 0)

/-- First the bytes have to be swapped out, then they are written. -/
def linesLeft (total : ℕ) (s : AsyncLogging) : ℕ ×ₗ ℕ ×ₗ ℕ :=
  toLex (if s.swappedOut.length < total then 1 else 0, s.untilSwap)

/-- The backend has ended, or has written that much and is behind its loop. -/
def Delivered (total : ℕ) (s : AsyncLogging) : Prop :=
  s.phase = .finished ∨ total ≤ s.output.length ∧ ∀ next, s.phase ≠ .writing next

/-- A step of the backend is on the way to the swap, or is the swap. -/
theorem backend_advances {s s' : AsyncLogging} (h : s.Inv) {a : Label} (hof : a.OfBackend)
    (ha : s.Enabled a) (hs : s.step a = .ok s') :
    s'.held = s.held ∧ s'.untilSwap < s.untilSwap ∨
      s'.held = [] ∧ s.unwritten = [] ∧ ∀ next, s.phase ≠ .writing next := by
  have hlocals := h.locals
  cases a with
  | append | start | stop => exact hof.elim
  | enter =>
    have hph : s.phase = .started := ha
    obtain ⟨u, -, hs⟩ := bind_eq_ok.mp hs
    cases hs
    exact .inl ⟨rfl, by simp [untilSwap, hph, Prod.Lex.toLex_lt_toLex]⟩
  | test =>
    have hph : s.phase = .condition := ha
    simp only [step, test] at hs
    split at hs
    · obtain ⟨-, -, hs⟩ := bind_eq_ok.mp hs
      obtain ⟨-, -, hs⟩ := bind_eq_ok.mp hs
      obtain ⟨-, -, hs⟩ := bind_eq_ok.mp hs
      cases hs
      exact .inl ⟨rfl, by simp [untilSwap, hph, Prod.Lex.toLex_lt_toLex]⟩
    · cases hs
      exact .inl ⟨rfl, by simp [untilSwap, hph, Prod.Lex.toLex_lt_toLex]⟩
  | lock =>
    have hph : s.phase = .beforeLock := ha
    simp only [Locals, hph] at hlocals
    cases hs
    unfold lock
    split
    · exact .inl ⟨rfl, by simp [untilSwap, hph, Prod.Lex.toLex_lt_toLex]⟩
    · exact .inr ⟨held_swapBuffers hlocals.1 hlocals.2.2, by simp [unwritten, hph, hlocals.2.2],
        by simp [hph]⟩
  | wake =>
    have hph : s.phase = .waiting := ha
    simp only [Locals, hph] at hlocals
    cases hs
    exact .inr ⟨held_swapBuffers hlocals.1 hlocals.2.2, by simp [unwritten, hph, hlocals.2.2],
      by simp [hph]⟩
  | dropBacklog behind =>
    have hph : s.phase = .swapped := ha
    obtain ⟨u, -, hs⟩ := bind_eq_ok.mp hs
    split at hs <;> cases hs <;>
      exact .inl ⟨rfl, by simp [untilSwap, hph, Prod.Lex.toLex_lt_toLex]⟩
  | write =>
    obtain ⟨next, hlt, hph⟩ := ha
    simp only [step, hph] at hs
    obtain ⟨buffer, -, hs⟩ := bind_eq_ok.mp hs
    cases hs
    refine .inl ⟨rfl, ?_⟩
    simp only [untilSwap, hph, Prod.Lex.toLex_lt_toLex, lt_irrefl, true_and, false_or]
    omega
  | recycle =>
    have hph : s.phase = .writing s.bufferToWrite.length := ha
    obtain ⟨hheld, hnext⟩ := recycle_held hs
    exact .inl ⟨hheld, by simp [untilSwap, hph, hnext, Prod.Lex.toLex_lt_toLex]⟩

/-- The other threads leave the backend where it is, or start it. -/
theorem others_swappedOut {s s' : AsyncLogging} {a : Label} (hof : ¬ a.OfBackend)
    (ha : s.Enabled a) (hs : s.step a = .ok s') :
    s'.swappedOut = s.swappedOut ∧ s'.untilSwap ≤ s.untilSwap := by
  cases a with
  | append logline =>
    obtain ⟨current, -, hs⟩ := bind_eq_ok.mp hs
    split at hs
    · cases hs
      exact ⟨rfl, le_rfl⟩
    · obtain ⟨next, -, hs⟩ := bind_eq_ok.mp hs
      cases hs
      exact ⟨rfl, le_rfl⟩
  | start =>
    have hph : s.phase = .notStarted := ha
    cases hs
    exact ⟨by simp [swappedOut, unwritten, hph],
      by simp [untilSwap, hph, Prod.Lex.toLex_le_toLex]⟩
  | stop =>
    cases hs
    exact ⟨rfl, le_rfl⟩
  | _ => exact absurd trivial hof

/-- Until the bytes are delivered, each step of the backend leads there. -/
theorem backend_linesLeft {s s' : AsyncLogging} (h : s.Inv) {total : ℕ}
    (htotal : total ≤ (s.output ++ s.backlog).length) (hnot : ¬ s.Delivered total) {a : Label}
    (hof : a.OfBackend) (ha : s.Enabled a) (hb : s.Bounded a) (hs : s.step a = .ok s') :
    s'.linesLeft total < s.linesLeft total := by
  have hnone : a.logline = [] := by
    cases a with
    | append => exact hof.elim
    | _ => rfl
  have hlines : s'.swappedOut ++ s'.held = s.swappedOut ++ s.held := by
    rw [swappedOut_held, swappedOut_held, (step_conserves h ha hb hs).2, hnone, List.append_nil]
  unfold linesLeft
  rcases backend_advances h hof ha hs with ⟨hheld, hlt⟩ | ⟨hheld, hunwritten, hph⟩
  · rw [hheld, List.append_left_inj] at hlines
    rw [hlines]
    exact Prod.Lex.toLex_lt_toLex.mpr (.inr ⟨rfl, hlt⟩)
  · -- before the swap the bytes are not all written, behind it all are swapped out
    have hbefore : s.swappedOut.length < total := by
      by_contra hge
      refine hnot (.inr ⟨?_, hph⟩)
      simpa [swappedOut, hunwritten] using hge
    have hbehind : ¬ s'.swappedOut.length < total := by
      rw [hheld, List.append_nil, swappedOut_held] at hlines
      rw [hlines]
      exact Nat.not_lt.mpr htotal
    rw [if_pos hbefore, if_neg hbehind]
    exact Prod.Lex.toLex_lt_toLex.mpr (.inl Nat.zero_lt_one)

theorem others_linesLeft {s s' : AsyncLogging} (total : ℕ) {a : Label} (hof : ¬ a.OfBackend)
    (ha : s.Enabled a) (hs : s.step a = .ok s') : s'.linesLeft total ≤ s.linesLeft total := by
  obtain ⟨hout, hle⟩ := others_swappedOut hof ha hs
  unfold linesLeft
  rw [hout]
  exact Prod.Lex.toLex_le_toLex.mpr (.inr ⟨rfl, hle⟩)

end AsyncLogging

namespace LogPipeline

/-- An infinite interleaving in which the backend thread, until it has ended,
takes step after step. -/
structure FairExecution (rollSize : Int) (s : ℕ → LogPipeline) (a : ℕ → Label) : Prop where
  enabled : ∀ n, (s n).Enabled (a n)
  next : ∀ n, (s n).step rollSize (a n) = .ok (s (n + 1))
  fair : ∀ n, (s n).log.phase ≠ .finished → ∃ m, n ≤ m ∧ (a m).1.OfBackend

/-- What the first `n` steps have appended. -/
def lines (a : ℕ → Label) (n : ℕ) : List UInt8 :=
  ((List.range n).map a).flatMap fun l => l.1.logline

theorem lines_add (a : ℕ → Label) (n k : ℕ) : lines a n <+: lines a (n + k) := by
  induction k with
  | zero => exact List.prefix_rfl
  | succ k ih =>
    refine ih.trans ?_
    rw [← Nat.add_assoc, lines, lines, List.range_succ, List.map_append, List.flatMap_append]
    exact List.prefix_append ..

theorem step_log {rollSize : Int} {s s' : LogPipeline} {a : Label}
    (hs : s.step rollSize a = .ok s') : s.log.step a.1 = .ok s'.log := by
  obtain ⟨log, hlog, hs⟩ := bind_eq_ok.mp hs
  split at hs
  · cases hs
    exact hlog
  · obtain ⟨output, -, hs⟩ := bind_eq_ok.mp hs
    cases hs
    exact hlog

/-- **No line waits for ever.** In every fair execution in which no swap finds
more than 25 buffers, for any clock and any choices of stdio: whatever has been
appended at a moment is later among the bytes given to `output`, and flushed
there; it is in the files, if no roll replaces a file with bytes in its buffer.
Or the backend thread has ended. -/
theorem lines_delivered {rollSize : Int} {s : ℕ → LogPipeline} {a : ℕ → Label}
    (h : FairExecution rollSize s a) (h0 : s 0 = new rollSize) (n : ℕ) :
    ∃ k, n ≤ k ∧ ((s k).log.phase = .finished ∨
      lines a n <+: (s k).log.output ∧ (s k).output.log.unflushed = [] ∧
        ((∀ m, (s m).Empties (a m)) → lines a n <+: (s k).output.log.contents)) := by
  have hrun : ∀ m, Run (step rollSize) (new rollSize) ((List.range m).map a) (s m) :=
    fun m => h0 ▸ Run.of_execution h.next m
  have hsteps : ∀ m, Along (step rollSize) Enabled (new rollSize) ((List.range m).map a) :=
    fun m => h0 ▸ Steps.of_execution h.next h.enabled m
  have hinv : ∀ m, (s m).Inv := fun m => reachable_inv (hsteps m) (hrun m)
  have hlines : ∀ m, (s m).log.output ++ (s m).log.backlog = lines a m :=
    fun m => run_lines (hsteps m) (hrun m)
  obtain ⟨j, hj⟩ : ∃ j, (s (n + j)).log.Delivered (lines a n).length := by
    apply eventually_of_fair (s := fun j => (s (n + j)).log) (AsyncLogging.linesLeft _)
      (AsyncLogging.Delivered _) fun j => (a (n + j)).1.OfBackend
    · intro j hnot
      obtain ⟨m, hm, hof⟩ := h.fair (n + j) fun hph => hnot (.inl hph)
      refine ⟨m - n, by omega, ?_⟩
      rwa [Nat.add_sub_cancel' (by omega)]
    · intro j hnot hof
      have htotal : (lines a n).length ≤
          ((s (n + j)).log.output ++ (s (n + j)).log.backlog).length := by
        rw [hlines]
        exact (lines_add a n j).length_le
      exact AsyncLogging.backend_linesLeft (hinv _).log htotal hnot hof (h.enabled _).log
        (h.enabled _).bounded (step_log (h.next _))
    · intro j _ hof
      exact AsyncLogging.others_linesLeft _ hof (h.enabled _).log (step_log (h.next _))
  refine ⟨n + j, Nat.le_add_right n j, hj.imp_right fun ⟨hlen, hph⟩ => ?_⟩
  have hflushed := (hinv (n + j)).flushed hph
  have hfront : lines a n <+: (s (n + j)).log.output := by
    apply List.prefix_of_prefix_length_le _ (List.prefix_append _ (s (n + j)).log.backlog) hlen
    rw [hlines]
    exact lines_add a n j
  refine ⟨hfront, hflushed, fun hempties => ?_⟩
  have hkept := (run_kept_iff (hsteps (n + j)) (hrun (n + j))).mpr
    (h0 ▸ Steps.of_execution h.next hempties (n + j))
  rw [(hinv (n + j)).same, LogFile.kept, hflushed, List.append_nil] at hkept
  rw [hkept]
  exact hfront

/-- The round of `oneRound`, behind which the backend is stopped. -/
def oneRoundStopped : List Label := oneRound ++ [.stop, .test].map fun a => (a, ⟨0, 1000, 1000⟩)

def again : Label := (.stop, ⟨0, 1000, 1000⟩)

/-- Nothing changes any more. -/
theorem step_again {rollSize : Int} {s : LogPipeline} (h : s.log.running = false) :
    s.step rollSize again = .ok s := by
  obtain ⟨log, output⟩ := s
  cases log
  simp only at h
  subst h
  rfl

theorem lines_delivered_oneRound :
    ∃ s : ℕ → LogPipeline, s 0 = new 7000 ∧ ∃ k, 9 ≤ k ∧ ((s k).log.phase = .finished ∨
      [1, 2, 3] <+: (s k).log.output ∧ (s k).output.log.unflushed = [] ∧
        ((∀ m, (s m).Empties (oneRoundStopped.getD m again)) →
          [1, 2, 3] <+: (s k).output.log.contents)) := by
  obtain ⟨t, hrun, hfinished, hstopped⟩ : ∃ t, Run (step 7000) (new 7000) oneRoundStopped t ∧
      t.log.phase = .finished ∧ t.log.running = false :=
    ⟨_, .cons rfl (.cons rfl (.cons rfl (.cons rfl (.cons rfl (.cons rfl (.cons rfl (.cons rfl
      (.cons rfl (.cons rfl (.cons rfl (.cons rfl (.nil _)))))))))))), rfl, rfl⟩
  obtain ⟨s, h0, henabled, hnext, hend⟩ := hrun.execution (E := Enabled) (b := again) (by decide)
    ⟨trivial, trivial, by simp [again, outputCalls]⟩
    (step_again hstopped)
  have hfair : FairExecution 7000 s fun n => oneRoundStopped.getD n again := by
    refine ⟨henabled, hnext, fun n hn => ?_⟩
    have hlt : n < 12 := by
      by_contra hge
      rw [hend n (Nat.le_of_not_lt hge)] at hn
      exact hn hfinished
    exact ⟨11, by omega, trivial⟩
  exact ⟨s, h0, lines_delivered hfair h0 9⟩

end LogPipeline

end Muduo
