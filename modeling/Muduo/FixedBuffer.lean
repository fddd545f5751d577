import Muduo.Lib.Slice

/-!
`src/FixedBuffer.h`: an array of bytes and a cursor that moves through it. What
lies in front of the cursor has been appended since the last `reset`; what lies
behind it is never read.
-/

namespace Muduo

open Lib

def KLargeBuffer : Nat := 4000 * 1000

/-- `cur_` is an offset from `data_`. Sizes are below 2^31, so that the casts to
`int` keep them. -/
structure FixedBuffer (SIZE : Nat) where
  data : List UInt8
  cur : Nat
  length_data : data.length = SIZE
  cur_le : cur ≤ SIZE

namespace FixedBuffer

variable {SIZE : Nat}

/-- The constructor and `bzero`. -/
def new : FixedBuffer SIZE := ⟨List.replicate SIZE 0, 0, List.length_replicate, Nat.zero_le _⟩

def length (b : FixedBuffer SIZE) : Nat := b.cur
def avail (b : FixedBuffer SIZE) : Nat := SIZE - b.cur

/-- A line that does not fit is dropped. -/
def append (b : FixedBuffer SIZE) (buf : List UInt8) : FixedBuffer SIZE :=
  if h : buf.length < b.avail then
    { data := blit b.data b.cur buf
      cur := b.cur + buf.length
      length_data := by rw [length_blit, b.length_data]
      cur_le := by unfold avail at h; omega }
  else b

def reset (b : FixedBuffer SIZE) : FixedBuffer SIZE :=
  ⟨b.data, 0, b.length_data, Nat.zero_le _⟩

/-- The first `length()` bytes of `data()`. -/
def content (b : FixedBuffer SIZE) : List UInt8 := slice b.data 0 b.cur

@[simp] theorem new_length : (new : FixedBuffer SIZE).length = 0 := rfl
theorem content_eq_nil {b : FixedBuffer SIZE} (h : b.length = 0) : b.content = [] := by
  rw [content, show b.cur = 0 from h, slice_self]

theorem append_content (b : FixedBuffer SIZE) (buf : List UInt8) (h : buf.length < b.avail) :
    (b.append buf).content = b.content ++ buf := by
  have hroom : b.cur + buf.length ≤ b.data.length := by
    rw [b.length_data]
    unfold avail at h
    omega
  simp only [append, h, ↓reduceDIte, content]
  exact slice_blit_end _ _ (Nat.zero_le _) hroom

end FixedBuffer

end Muduo
