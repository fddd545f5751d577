import Muduo.InputStream
import Muduo.Lib.Framing

/-!
`Buffer::findCRLF` and `Buffer::findEOL`, and a user who takes the input of a
connection line by line with `retrieveUntil`. How the lines come out does not
depend on how the stream is cut into reads, nor on when the user looks.

* `findFrom_eq`: a search that begins behind what has been searched finds what
  one from the beginning finds;
* `lines_independent`: two connections that receive the same bytes.
-/

namespace Muduo

open Lib Events

def kCRLF : List UInt8 := [13, 10]

/-- The two ends of a line that `Buffer` can find. -/
inductive LineEnd where
  | crlf
  | eol
  deriving DecidableEq, Repr

def LineEnd.bytes : LineEnd → List UInt8
  | .crlf => kCRLF
  | .eol => [10]

inductive LineFailure where
  /-- an assertion of `findCRLF` or `findEOL` -/
  | find
  | connection (e : Assertion)

namespace Buffer

/-- `findCRLF()` and `findEOL()`; `NULL` is `none`. -/
def find (b : Buffer) (e : LineEnd) : Option Nat :=
  (first e.bytes b.content).map (b.readerIndex + ·)

/-- `findCRLF(start)` and `findEOL(start)` -/
def findFrom (b : Buffer) (e : LineEnd) (start : Nat) : Except LineFailure (Option Nat) := do
  check (b.readerIndex ≤ start) .find
  check (start ≤ b.writerIndex) .find
  return (first e.bytes (slice b.buffer start b.writerIndex)).map (start + ·)

def findCRLF (b : Buffer) : Option Nat := b.find .crlf
def findCRLFFrom (b : Buffer) : Nat → Except LineFailure (Option Nat) := b.findFrom .crlf
def findEOL (b : Buffer) : Option Nat := b.find .eol
def findEOLFrom (b : Buffer) : Nat → Except LineFailure (Option Nat) := b.findFrom .eol

end Buffer

/-- A connection and the lines that its user has taken. -/
structure LineReader where
  conn : TcpConnection
  lines : List (List UInt8)

namespace LineReader

inductive Label where
  | conn (a : InputStep)
  /-- the user searches from `peek()` on -/
  | line
  /-- the user searches from `peek() + skip` on -/
  | lineFrom (skip : Nat)

/-- `string(peek(), found)` and `retrieveUntil` behind the end of the line. -/
def takeLine (s : LineReader) (e : LineEnd) : Option Nat → Except LineFailure LineReader
  | none => .ok s
  | some found => do
    let b := s.conn.inputBuffer
    let inputBuffer ← (b.retrieveUntil (found + e.bytes.length)).mapError .connection
    return ⟨{ s.conn with inputBuffer }, s.lines ++ [bytesAt b.peek (found - b.readerIndex)]⟩

def step (e : LineEnd) (s : LineReader) : Label → Except LineFailure LineReader
  | .conn a => do
    let conn ← (inputStep s.conn a).mapError .connection
    return { s with conn }
  | .line => s.takeLine e (s.conn.inputBuffer.find e)
  | .lineFrom skip => do
    let b := s.conn.inputBuffer
    let found ← b.findFrom e (b.readerIndex + skip)
    s.takeLine e found

/-- The user takes lines only, and skips what has been searched. -/
def Allowed (e : LineEnd) (s : LineReader) : Label → Prop
  | .conn (.retrieve _) => False
  | .conn _ | .line => True
  | .lineFrom skip => skip ≤ s.conn.inputBuffer.readableBytes ∧
      ∀ j < skip, ¬ e.bytes <+: s.conn.inputBuffer.content.drop j

def Label.received : Label → List UInt8
  | .conn a => a.received
  | _ => []

end LineReader

/-! ## One search -/

theorem LineEnd.bytes_ne_nil (e : LineEnd) : e.bytes ≠ [] := by
  cases e <;> simp [bytes, kCRLF]

namespace Buffer

/-- A search behind what has been searched does not fail and finds what a search
from the beginning finds. -/
theorem findFrom_eq {b : Buffer} (h : b.WF) {e : LineEnd} {skip : Nat}
    (hskip : skip ≤ b.readableBytes) (hno : ∀ j < skip, ¬ e.bytes <+: b.content.drop j) :
    b.findFrom e (b.readerIndex + skip) = .ok (b.find e) := by
  have hr := h.reader_le
  unfold readableBytes at hskip
  unfold findFrom
  rw [check_pos (Nat.le_add_right ..), check_pos (by omega), ok_bind, ok_bind, slice_drop, find,
    ← first_drop e.bytes_ne_nil hno, Option.map_map, pure_eq_ok]
  congr 2
  funext i
  exact Nat.add_assoc ..

theorem find_eq_some {b : Buffer} {e : LineEnd} {found : Nat} :
    b.find e = some found ↔ ∃ i, first e.bytes b.content = some i ∧ b.readerIndex + i = found :=
  Option.map_eq_some_iff

theorem find_eq_none {b : Buffer} {e : LineEnd} :
    b.find e = none ↔ first e.bytes b.content = none := Option.map_eq_none_iff

end Buffer

namespace LineReader

/-- The line in front is taken, or there is none. -/
theorem takeLine_spec {s : LineReader} (hwf : s.conn.inputBuffer.WF) (e : LineEnd) :
    ∃ s', s.takeLine e (s.conn.inputBuffer.find e) = .ok s' ∧ s'.conn.inputBuffer.WF ∧
      ∀ stream, Framed e.bytes stream s.lines s.conn.inputBuffer.content →
        Framed e.bytes stream s'.lines s'.conn.inputBuffer.content := by
  cases hfind : s.conn.inputBuffer.find e with
  | none => exact ⟨s, rfl, hwf, fun _ h => h⟩
  | some found =>
    obtain ⟨i, hi, rfl⟩ := Buffer.find_eq_some.mp hfind
    have hlength := Buffer.length_content hwf
    have hle := length_le_of_prefix ((first_eq_some e.bytes_ne_nil).mp hi).1 e.bytes_ne_nil
    have hlen : i + e.bytes.length ≤ s.conn.inputBuffer.readableBytes := by omega
    obtain ⟨b, hb, hbec⟩ := Buffer.retrieve_spec hwf hlen
    have huntil := Buffer.retrieveUntil_spec hwf hlen
    rw [hb, ← Nat.add_assoc] at huntil
    refine ⟨⟨{ s.conn with inputBuffer := b }, s.lines ++ [s.conn.inputBuffer.content.take i]⟩,
      ?_, hbec.wf, fun stream h => ?_⟩
    · have hline := Buffer.bytesAt_peek hwf (Nat.le_trans (Nat.le_add_right i _) hlen)
      simp [takeLine, huntil, Except.mapError, hline]
    · rw [hbec.content]
      exact h.take e.bytes_ne_nil hi

/-- Along a step the lines and what is left of the input are a framing of what
has been received. -/
theorem step_framed {s s' : LineReader} (hwf : s.conn.inputBuffer.WF) {e : LineEnd} {a : Label}
    (ha : s.Allowed e a) (hs : s.step e a = .ok s') :
    s'.conn.inputBuffer.WF ∧
      ∀ stream, Framed e.bytes stream s.lines s.conn.inputBuffer.content →
        Framed e.bytes (stream ++ a.received) s'.lines s'.conn.inputBuffer.content := by
  obtain ⟨s₁, hline, hwf₁, hframed⟩ := takeLine_spec hwf e
  cases a with
  | conn a =>
    obtain ⟨conn, hconn, hs⟩ := bind_eq_ok.mp hs
    cases hs
    have hinput : InputAllowed s.conn a ∧ taken s.conn a = [] := by
      cases a with
      | retrieve len => exact ha.elim
      | dispatch | functor | call => exact ⟨trivial, rfl⟩
    obtain ⟨hwf', hcontent⟩ := inputStep_spec hwf hinput.1 (ok_of_mapError hconn)
    rw [hinput.2, List.nil_append] at hcontent
    refine ⟨hwf', fun stream h => ?_⟩
    rw [hcontent]
    exact h.append _
  | line =>
    cases hline.symm.trans hs
    exact ⟨hwf₁, fun stream h => by simpa [Label.received] using hframed stream h⟩
  | lineFrom skip =>
    simp only [step, Buffer.findFrom_eq hwf ha.1 ha.2, ok_bind] at hs
    cases hline.symm.trans hs
    exact ⟨hwf₁, fun stream h => by simpa [Label.received] using hframed stream h⟩

/-! ## Runs -/

theorem run_framed {e : LineEnd} {c : TcpConnection} (hwf : c.inputBuffer.WF) {steps : List Label}
    {t : LineReader} (hrun : Run (step e) ⟨c, []⟩ steps t)
    (hsteps : Along (step e) (Allowed e) ⟨c, []⟩ steps) :
    Framed e.bytes (c.inputBuffer.content ++ steps.flatMap Label.received) t.lines
      t.conn.inputBuffer.content := by
  have hreceived : yields (step e) (fun _ a => a.received) ⟨c, []⟩ steps =
      steps.flatMap Label.received := hrun.yields_eq fun _ _ => rfl
  rw [← hreceived]
  refine (hrun.history (J := fun s stream => s.conn.inputBuffer.WF ∧
    Framed e.bytes stream s.lines s.conn.inputBuffer.content) hsteps ⟨hwf, .nil _⟩ ?_).2
  intro s a s' before h ha hs
  obtain ⟨hwf', hframed⟩ := step_framed h.1 ha hs
  exact ⟨hwf', hframed before h.2⟩

/-- **Lines do not depend on the cuts.** Two connections receive the same bytes,
each in pieces of its own and with anything else that happens to it in between,
and their users look for lines when they like, behind what they have searched or
from the beginning. What each has taken, and what is left, is the stream; the
lines of one user begin with those of the other, and a user for whom there is no
further line has all the lines that the other one has. -/
theorem lines_independent (e : LineEnd) {c c' : TcpConnection} (hwf : c.inputBuffer.WF)
    (hwf' : c'.inputBuffer.WF) {steps steps' : List Label} {t t' : LineReader}
    (hrun : Run (step e) ⟨c, []⟩ steps t) (hrun' : Run (step e) ⟨c', []⟩ steps' t')
    (hsteps : Along (step e) (Allowed e) ⟨c, []⟩ steps)
    (hsteps' : Along (step e) (Allowed e) ⟨c', []⟩ steps')
    (hstream : c.inputBuffer.content ++ steps.flatMap Label.received =
      c'.inputBuffer.content ++ steps'.flatMap Label.received) :
    t.lines.flatMap (· ++ e.bytes) ++ t.conn.inputBuffer.content =
        c.inputBuffer.content ++ steps.flatMap Label.received ∧
      (t.lines <+: t'.lines ∨ t'.lines <+: t.lines) ∧
      (t.conn.inputBuffer.find e = none → t'.lines <+: t.lines) := by
  have hframed := run_framed hwf hrun hsteps
  have hframed' := run_framed hwf' hrun' hsteps'
  rw [← hstream] at hframed'
  refine ⟨hframed.stream.symm, hframed.comparable hframed' e.bytes_ne_nil, fun hnone => ?_⟩
  exact hframed.complete hframed' e.bytes_ne_nil (Buffer.find_eq_none.mp hnone)

/-- A read that ends between the two characters, and a search that goes on there. -/
def inPieces : List Label :=
  [.conn (.dispatch POLLIN (.received [97, 13]) (.written 0)), .line,
   .conn (.dispatch POLLIN (.received [10, 98]) (.written 0)), .lineFrom 1]

def inOne : List Label :=
  [.conn (.dispatch POLLIN (.received [97, 13, 10, 98]) (.written 0)), .line]

theorem lines_independent_sample :
    ∃ t t', Run (step .crlf) ⟨smallInput, []⟩ inPieces t ∧
      Run (step .crlf) ⟨smallInput, []⟩ inOne t' ∧ t.lines = [[97]] ∧
      (t.conn.inputBuffer.find .crlf = none → t'.lines <+: t.lines) := by
  have hrun : Run (step .crlf) ⟨smallInput, []⟩ inPieces _ :=
    .cons rfl (.cons rfl (.cons rfl (.cons rfl (.nil _))))
  have hrun' : Run (step .crlf) ⟨smallInput, []⟩ inOne _ := .cons rfl (.cons rfl (.nil _))
  refine ⟨_, _, hrun, hrun', rfl, ?_⟩
  refine (lines_independent .crlf (Buffer.fresh_WF 4) (Buffer.fresh_WF 4) hrun hrun' ?_ ?_
    (by decide)).2.2
  · refine (steps_cons_ok rfl).mpr ⟨trivial, ?_⟩
    refine (steps_cons_ok rfl).mpr ⟨trivial, ?_⟩
    refine (steps_cons_ok rfl).mpr ⟨trivial, ?_⟩
    exact ⟨⟨by decide, by decide⟩, fun _ _ => trivial⟩
  · refine (steps_cons_ok rfl).mpr ⟨trivial, ?_⟩
    exact ⟨trivial, fun _ _ => trivial⟩

end LineReader

end Muduo
