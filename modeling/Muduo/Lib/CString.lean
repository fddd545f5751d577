import Mathlib.Data.List.Basic

/-!
Strings in memory that end with a null byte, and the functions of `string.h`
that search them. Memory is a list of characters, from a pointer on; a result
is an offset from that pointer.

* `strchr_first`, `strchr_none`: the first occurrence;
* `strrchr_last`, `strrchr_none`: the last one.
-/

namespace Muduo.Lib

def nul : Char := Char.ofNat 0

/-- The characters up to the null byte. -/
def cText : List Char → List Char
  | [] => []
  | x :: m => if x = nul then [] else x :: cText m

def strlen : List Char → Nat
  | [] => 0
  | x :: m => if x = nul then 0 else strlen m + 1

def strchr (c : Char) : List Char → Option Nat
  | [] => none
  | x :: m => if x = nul then none else if x = c then some 0 else (strchr c m).map (· + 1)

def strrchr (c : Char) : List Char → Option Nat
  | [] => none
  | x :: m =>
    if x = nul then none
    else match strrchr c m with
      | some i => some (i + 1)
      | none => if x = c then some 0 else none

variable {c : Char} {s : List Char}

theorem cText_append (h : nul ∉ s) (m : List Char) : cText (s ++ nul :: m) = s := by
  induction s with
  | nil => simp [cText]
  | cons x s ih =>
    obtain ⟨hx, hs⟩ := not_or.mp (mt List.mem_cons.mpr h)
    rw [List.cons_append, cText, if_neg (Ne.symm hx), ih hs]

theorem strlen_eq (m : List Char) : strlen m = (cText m).length := by
  induction m with
  | nil => rfl
  | cons x m ih =>
    rw [strlen, cText]
    split
    · rfl
    · rw [ih, List.length_cons]

theorem strchr_first (hnul : nul ∉ s) (hc : c ≠ nul) (h : c ∉ s) (m : List Char) :
    strchr c (s ++ c :: m) = some s.length := by
  induction s with
  | nil => simp [strchr, hc]
  | cons x s ih =>
    obtain ⟨hx, hs⟩ := not_or.mp (mt List.mem_cons.mpr hnul)
    obtain ⟨hxc, hcs⟩ := not_or.mp (mt List.mem_cons.mpr h)
    rw [List.cons_append, strchr, if_neg (Ne.symm hx), if_neg (Ne.symm hxc), ih hs hcs]
    rfl

theorem strchr_none (hnul : nul ∉ s) (h : c ∉ s) (m : List Char) :
    strchr c (s ++ nul :: m) = none := by
  induction s with
  | nil => simp [strchr]
  | cons x s ih =>
    obtain ⟨hx, hs⟩ := not_or.mp (mt List.mem_cons.mpr hnul)
    obtain ⟨hxc, hcs⟩ := not_or.mp (mt List.mem_cons.mpr h)
    rw [List.cons_append, strchr, if_neg (Ne.symm hx), if_neg (Ne.symm hxc), ih hs hcs]
    rfl

theorem strrchr_none (hnul : nul ∉ s) (h : c ∉ s) (m : List Char) :
    strrchr c (s ++ nul :: m) = none := by
  induction s with
  | nil => simp [strrchr]
  | cons x s ih =>
    obtain ⟨hx, hs⟩ := not_or.mp (mt List.mem_cons.mpr hnul)
    obtain ⟨hxc, hcs⟩ := not_or.mp (mt List.mem_cons.mpr h)
    rw [List.cons_append, strrchr, if_neg (Ne.symm hx), ih hs hcs]
    exact if_neg (Ne.symm hxc)

theorem strrchr_last (hnul : nul ∉ s) (hc : c ≠ nul) {m : List Char} (h : strrchr c m = none) :
    strrchr c (s ++ c :: m) = some s.length := by
  induction s with
  | nil => simp [strrchr, hc, h]
  | cons x s ih =>
    obtain ⟨hx, hs⟩ := not_or.mp (mt List.mem_cons.mpr hnul)
    rw [List.cons_append, strrchr, if_neg (Ne.symm hx), ih hs]
    rfl

end Muduo.Lib
