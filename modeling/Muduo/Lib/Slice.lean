import Mathlib.Data.List.Basic

/-!
Slices of a list used as a block of memory, and the copies that act on them.

`blit` writes a list at an offset, element after element; `slide` is the
forward copy inside one block, which reads each element from the block as the
earlier assignments left it. `slice_slide` shows that a slide to a lower offset
moves the slice unchanged although source and target may overlap.
-/

namespace Muduo.Lib

variable {α : Type*}

/-- The elements at the positions `i, …, j - 1`. -/
def slice (l : List α) (i j : Nat) : List α := (l.take j).drop i

/-- Write `bs` from position `k` on. -/
def blit : List α → Nat → List α → List α
  | l, _, [] => l
  | l, k, b :: bs => blit (l.set k b) (k + 1) bs

/-- Assign `l[dst + i] := l[src + i]` for `i = 0, …, n - 1`, in this order. -/
def slide [Inhabited α] : List α → Nat → Nat → Nat → List α
  | l, _, _, 0 => l
  | l, src, dst, n + 1 => slide (l.set dst (l.getD src default)) (src + 1) (dst + 1) n

/-- Cut off or pad with default elements to the length `n`. -/
def resize [Inhabited α] (l : List α) (n : Nat) : List α :=
  l.take n ++ List.replicate (n - l.length) default

/-! ## Lengths -/

theorem length_slice (l : List α) {i j : Nat} (hj : j ≤ l.length) :
    (slice l i j).length = j - i := by
  simp [slice, Nat.min_eq_left hj]

@[simp] theorem length_blit (l : List α) (k : Nat) (bs : List α) :
    (blit l k bs).length = l.length := by
  induction bs generalizing l k with
  | nil => rfl
  | cons b bs ih => simp [blit, ih]

@[simp] theorem length_slide [Inhabited α] (l : List α) (src dst n : Nat) :
    (slide l src dst n).length = l.length := by
  induction n generalizing l src dst with
  | zero => rfl
  | succ n ih => simp [slide, ih]

@[simp] theorem length_resize [Inhabited α] (l : List α) (n : Nat) : (resize l n).length = n := by
  simp [resize]; omega

/-! ## What the copies write -/

theorem getElem?_slice (l : List α) (i j k : Nat) :
    (slice l i j)[k]? = if i + k < j then l[i + k]? else none := by
  simp only [slice, List.getElem?_drop, List.getElem?_take]

theorem getElem?_blit (l : List α) (k : Nat) (bs : List α) (i : Nat)
    (h : k + bs.length ≤ l.length) :
    (blit l k bs)[i]? = if i < k then l[i]? else if i < k + bs.length then bs[i - k]? else l[i]? := by
  induction bs generalizing l k with
  | nil => simp [blit]; omega
  | cons b bs ih =>
    simp only [List.length_cons] at h
    rw [blit, ih _ _ (by simp; omega), List.getElem?_set]
    by_cases hik : i = k
    · subst hik
      simp [show i < l.length by omega]
    · by_cases hlt : i < k
      · simp [hlt, show i < k + 1 by omega, show k ≠ i by omega]
      · obtain ⟨d, rfl⟩ : ∃ d, i = k + 1 + d := ⟨i - (k + 1), by omega⟩
        have hd : k + 1 + d - k = d + 1 := by omega
        have hd' : k + 1 + d - (k + 1) = d := by omega
        simp only [hd, hd', hlt, show ¬ k + 1 + d < k + 1 by omega, show k ≠ k + 1 + d by omega,
          show (k + 1 + d < k + 1 + bs.length) = (k + 1 + d < k + (bs.length + 1)) by
            congr 1; omega, List.length_cons, List.getElem?_cons_succ, ↓reduceIte]

theorem getElem?_slide [Inhabited α] (l : List α) (src dst n i : Nat)
    (hd : dst ≤ src) (h : src + n ≤ l.length) :
    (slide l src dst n)[i]? = if i < dst then l[i]? else
      if i < dst + n then l[i - dst + src]? else l[i]? := by
  induction n generalizing l src dst with
  | zero => simp [slide]; omega
  | succ n ih =>
    -- the element written first is not read again, as the source lies ahead of it
    rw [slide, ih _ _ _ (by omega) (by simp; omega)]
    simp only [List.getElem?_set, List.getD_eq_getElem?_getD]
    have hs : src < l.length := by omega
    by_cases hid : i = dst
    · subst hid
      simp [hs, show i < l.length by omega]
    · by_cases hlt : i < dst
      · simp [hlt, show i < dst + 1 by omega, show dst ≠ i by omega]
      · have e : i - (dst + 1) + (src + 1) = i - dst + src := by omega
        simp only [e, hlt, show ¬ i < dst + 1 by omega, show dst ≠ i by omega,
          show dst ≠ i - dst + src by omega, ↓reduceIte, Nat.add_assoc, Nat.add_comm 1]

/-! ## Slices of the result -/

theorem slice_blit_end (l : List α) {i k : Nat} (bs : List α) (hi : i ≤ k)
    (h : k + bs.length ≤ l.length) :
    slice (blit l k bs) i (k + bs.length) = slice l i k ++ bs := by
  apply List.ext_getElem?
  intro n
  rw [getElem?_slice, getElem?_blit _ _ _ _ h, List.getElem?_append, getElem?_slice,
    length_slice l (by omega)]
  by_cases hn : n < k - i
  · simp [hn, show i + n < k by omega, show i + n < k + bs.length by omega]
  · have e : i + n - k = n - (k - i) := by omega
    simp only [hn, e, show ¬ i + n < k by omega, ↓reduceIte]
    split
    · rfl
    · rw [List.getElem?_eq_none (by omega)]

theorem slice_blit_start (l : List α) {k j : Nat} (bs : List α) (hk : k + bs.length ≤ j)
    (hj : j ≤ l.length) :
    slice (blit l k bs) k j = bs ++ slice l (k + bs.length) j := by
  apply List.ext_getElem?
  intro n
  rw [getElem?_slice, getElem?_blit _ _ _ _ (by omega), List.getElem?_append, getElem?_slice]
  by_cases hn : n < bs.length
  · simp [hn, show k + n < j by omega, show ¬ k + n < k by omega]
  · have e : k + bs.length + (n - bs.length) = k + n := by omega
    simp [hn, e, show ¬ k + n < k by omega]

theorem slice_slide [Inhabited α] (l : List α) {src dst n : Nat} (hd : dst ≤ src)
    (h : src + n ≤ l.length) :
    slice (slide l src dst n) dst (dst + n) = slice l src (src + n) := by
  apply List.ext_getElem?
  intro k
  rw [getElem?_slice, getElem?_slice, getElem?_slide _ _ _ _ _ hd h]
  by_cases hk : k < n
  · simp [hk, show ¬ dst + k < dst by omega, Nat.add_comm k src]
  · simp [hk]

theorem slice_resize [Inhabited α] (l : List α) {i j n : Nat} (hj : j ≤ l.length) (hn : j ≤ n) :
    slice (resize l n) i j = slice l i j := by
  apply List.ext_getElem?
  intro k
  rw [getElem?_slice, getElem?_slice, resize, List.getElem?_append]
  split
  · have hk : i + k < (l.take n).length := by simp; omega
    rw [if_pos hk, List.getElem?_take, if_pos (by omega)]
  · rfl

theorem slice_drop (l : List α) (i j n : Nat) : slice l (i + n) j = (slice l i j).drop n := by
  simp [slice]

theorem slice_take (l : List α) {i j n : Nat} (h : i + n ≤ j) :
    slice l i (i + n) = (slice l i j).take n := by
  apply List.ext_getElem?
  intro k
  rw [getElem?_slice, List.getElem?_take, getElem?_slice]
  grind

@[simp] theorem slice_self (l : List α) (i : Nat) : slice l i i = [] := by
  simp [slice]

end Muduo.Lib
