import Muduo.Assertion

/-!
Results of the system calls behind `net/SocketOps.cpp`. Each is a choice of
the kernel, handed to the function that makes the call.
-/

namespace Muduo

/-- The `errno` values that the modelled code tells apart. -/
inductive Errno where
  | EINTR
  | EAGAIN
  | EPIPE
  | ECONNRESET
  | EINPROGRESS
  | EISCONN
  | EADDRINUSE
  | EADDRNOTAVAIL
  | ECONNREFUSED
  | ENETUNREACH
  | other (code : Nat)
  deriving DecidableEq, Repr

/-- One number on Linux. -/
abbrev Errno.EWOULDBLOCK : Errno := .EAGAIN

/-- `sockets::write`: the number of bytes taken, or an error. -/
inductive WriteResult where
  | written (n : Nat)
  | failed (errno : Errno)
  deriving DecidableEq, Repr

/-- `write(2)` takes no more than it was offered. -/
def WriteResult.Fits (count : Nat) : WriteResult → Prop
  | .written n => n ≤ count
  | .failed _ => True

instance (r : WriteResult) (count : Nat) : Decidable (r.Fits count) := by
  cases r <;> unfold WriteResult.Fits <;> infer_instance

/-- The number of bytes the kernel took. -/
def WriteResult.taken : WriteResult → Nat
  | .written n => n
  | .failed _ => 0

theorem WriteResult.taken_le {count : Nat} {r : WriteResult} (h : r.Fits count) :
    r.taken ≤ count := by
  cases r with
  | written n => exact h
  | failed errno => exact Nat.zero_le _

/-- A result without an error other than `EWOULDBLOCK`. -/
def WriteResult.Healthy : WriteResult → Prop
  | .written _ => True
  | .failed errno => errno = .EWOULDBLOCK

instance (r : WriteResult) : Decidable r.Healthy := by
  cases r <;> unfold WriteResult.Healthy <;> infer_instance

/-- `sockets::readv`: the bytes received, none at the end of the stream, or an
error. -/
inductive ReadResult where
  | received (bytes : List UInt8)
  | failed (errno : Errno)
  deriving DecidableEq, Repr

end Muduo
