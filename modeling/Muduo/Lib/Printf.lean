import Mathlib.Algebra.Group.Nat.Defs
import Mathlib.Data.List.Basic

/-!
Numbers as `printf` writes them, and texts made of them.

* `padded_inj`, `padded_lt`: a text of fixed width stands for one number, and
  texts of one width are ordered as their numbers are;
* `printed_lt`: the same of a sequence of such texts with separators;
* `fraction_append`: what stands behind the point.
-/

namespace Muduo.Lib

/-- `%lu` -/
def decimal (n : Nat) : List Char := Nat.toDigits 10 n

/-- `%ld` -/
def signed (n : Int) : List Char := if n < 0 then '-' :: decimal n.natAbs else decimal n.natAbs

/-- `%0wlu` -/
def padded (w n : Nat) : List Char := List.replicate (w - (decimal n).length) '0' ++ decimal n

/-- `%0wld` -/
def signedPadded (w : Nat) (n : Int) : List Char :=
  if n < 0 then '-' :: padded (w - 1) n.natAbs else padded w n.natAbs

/-- `%wld` -/
def spaced (w : Nat) (n : Int) : List Char :=
  List.replicate (w - (signed n).length) ' ' ++ signed n

/-- What `snprintf` leaves of a text in a buffer. -/
def fit (size : Nat) (text : List Char) : List Char := text.take (size - 1)

/-- The characters behind the first point. -/
def fraction (text : List Char) : List Char := (text.dropWhile (· ≠ '.')).drop 1

theorem fit_short {size : Nat} {text : List Char} (h : text.length < size) : fit size text = text :=
  List.take_of_length_le (Nat.le_sub_one_of_lt h)

/-! ## Digits -/

@[simp] theorem signed_natCast (n : Nat) : signed n = decimal n :=
  if_neg (Int.not_lt.mpr (Int.natCast_nonneg n))

@[simp] theorem signedPadded_natCast (w n : Nat) : signedPadded w n = padded w n :=
  if_neg (Int.not_lt.mpr (Int.natCast_nonneg n))

theorem decimal_ne_nil (n : Nat) : decimal n ≠ [] := Nat.toDigits_ne_nil

theorem length_decimal_le {w n : Nat} (hw : 0 < w) (h : n < 10 ^ w) : (decimal n).length ≤ w :=
  (Nat.length_toDigits_le_iff (by decide) hw).mpr h

theorem lt_length_decimal {w n : Nat} (hw : 0 < w) (h : 10 ^ w ≤ n) : w < (decimal n).length := by
  by_contra hshort
  have hlt := (Nat.length_toDigits_le_iff (by decide) hw).mp (Nat.le_of_not_lt hshort)
  omega

/-- A number as wide as its field is not padded. -/
theorem padded_wide {w n : Nat} (hw : 0 < w) (h : 10 ^ w ≤ n) : padded (w + 1) n = decimal n := by
  rw [padded, Nat.sub_eq_zero_of_le (lt_length_decimal hw h)]
  rfl

theorem isDigit_of_mem_decimal {n : Nat} {c : Char} (h : c ∈ decimal n) : c.isDigit = true :=
  Nat.isDigit_of_mem_toDigits (by decide) (by decide) h

theorem isDigit_of_mem_padded {w n : Nat} {c : Char} (h : c ∈ padded w n) : c.isDigit = true := by
  rcases List.mem_append.mp h with h | h
  · rw [List.eq_of_mem_replicate h]
    rfl
  · exact isDigit_of_mem_decimal h

/-- Reading the digits back. -/
theorem ofDigitChars_padded (w n : Nat) : Nat.ofDigitChars 10 (padded w n) 0 = n := by
  rw [padded, Nat.ofDigitChars_append, Nat.ofDigitChars_replicate_zero, Nat.mul_zero]
  exact Nat.ofDigitChars_ten_toDigits

theorem padded_inj {w n m : Nat} (h : padded w n = padded w m) : n = m := by
  rw [← ofDigitChars_padded w n, h, ofDigitChars_padded]

theorem decimal_inj {n m : Nat} (h : decimal n = decimal m) : n = m := by
  have hn := Nat.ofDigitChars_ten_toDigits (n := n)
  rw [show Nat.toDigits 10 n = Nat.toDigits 10 m from h, Nat.ofDigitChars_ten_toDigits] at hn
  exact hn.symm

theorem length_padded {w n : Nat} (hw : 0 < w) (h : n < 10 ^ w) : (padded w n).length = w := by
  have hle := length_decimal_le hw h
  rw [padded, List.length_append, List.length_replicate]
  omega

theorem length_padded_le {w v n : Nat} (hw : w ≤ v) (hv : 0 < v) (h : n < 10 ^ v) :
    (padded w n).length ≤ v := by
  have hle := length_decimal_le hv h
  rw [padded, List.length_append, List.length_replicate]
  omega

theorem spaced_natCast (w n : Nat) :
    spaced w n = List.replicate (w - (decimal n).length) ' ' ++ decimal n := by
  rw [spaced, signed_natCast]

theorem spaced_wide {w n : Nat} (hw : 0 < w) (h : 10 ^ w ≤ n) : spaced (w + 1) n = decimal n := by
  rw [spaced_natCast, Nat.sub_eq_zero_of_le (lt_length_decimal hw h)]
  rfl

theorem length_spaced_le {w v n : Nat} (hw : w ≤ v) (hv : 0 < v) (h : n < 10 ^ v) :
    (spaced w n).length ≤ v := by
  have hle := length_decimal_le hv h
  rw [spaced_natCast, List.length_append, List.length_replicate]
  omega

/-- The last digit apart. -/
theorem padded_succ {w : Nat} (hw : 0 < w) (n : Nat) :
    padded (w + 1) n = padded w (n / 10) ++ [(n % 10).digitChar] := by
  by_cases hn : n < 10
  · have hzero : padded w 0 = List.replicate w '0' := by
      obtain ⟨v, rfl⟩ : ∃ v, w = v + 1 := ⟨w - 1, by omega⟩
      simp [padded, decimal, List.replicate_succ']
    rw [Nat.div_eq_of_lt hn, Nat.mod_eq_of_lt hn, hzero]
    simp [padded, decimal, Nat.toDigits_of_lt_base hn]
  · have hsplit : decimal n = decimal (n / 10) ++ [(n % 10).digitChar] :=
      Nat.toDigits_of_base_le (by decide) (Nat.le_of_not_lt hn)
    simp [padded, hsplit]

/-! ## Order -/

/-- Texts of one length are ordered by their first parts. -/
theorem append_lt_append {a b : List Char} (hlen : a.length = b.length) (h : a < b)
    (c d : List Char) : a ++ c < b ++ d := by
  induction a generalizing b with
  | nil =>
    rw [List.length_nil, eq_comm, List.length_eq_zero_iff] at hlen
    subst hlen
    exact absurd h (List.lt_irrefl _)
  | cons x a ih =>
    cases b with
    | nil => cases hlen
    | cons y b =>
      rw [List.cons_lt_cons_iff] at h
      rw [List.cons_append, List.cons_append, List.cons_lt_cons_iff]
      rcases h with hxy | ⟨rfl, hab⟩
      · exact .inl hxy
      · exact .inr ⟨rfl, ih (Nat.succ.inj hlen) hab⟩

theorem digitChar_lt {n m : Nat} (h : n < m) (hm : m < 10) : n.digitChar < m.digitChar := by
  rw [Char.lt_def, UInt32.lt_iff_toNat_lt]
  change n.digitChar.toNat < m.digitChar.toNat
  rw [Nat.toNat_digitChar_of_lt_ten (Nat.lt_trans h hm), Nat.toNat_digitChar_of_lt_ten hm]
  omega

/-- **Fixed width.** Numbers of at most `w` digits are ordered as their texts. -/
theorem padded_lt {w n m : Nat} (hw : 0 < w) (h : n < m) (hm : m < 10 ^ w) :
    padded w n < padded w m := by
  obtain ⟨w, rfl⟩ : ∃ v, w = v + 1 := ⟨w - 1, by omega⟩
  induction w generalizing n m with
  | zero =>
    have hone : ∀ k < 10, padded 1 k = [k.digitChar] := by
      intro k hk
      simp [padded, decimal, Nat.toDigits_of_lt_base hk]
    rw [hone n (by omega), hone m (by omega), List.cons_lt_cons_iff]
    exact .inl (digitChar_lt h (by omega))
  | succ w ih =>
    have hw : 0 < w + 1 := Nat.succ_pos w
    rw [Nat.pow_succ] at hm
    rw [padded_succ hw, padded_succ hw]
    rcases Nat.lt_or_ge (n / 10) (m / 10) with hdiv | hdiv
    · have hlen : (padded (w + 1) (n / 10)).length = (padded (w + 1) (m / 10)).length := by
        rw [length_padded hw (by omega), length_padded hw (by omega)]
      exact append_lt_append hlen (ih hdiv hw (by omega)) _ _
    · have heq : n / 10 = m / 10 := by omega
      rw [heq]
      apply List.append_left_lt
      rw [List.cons_lt_cons_iff]
      exact .inl (digitChar_lt (by omega) (by omega))

/-- A number of a fixed width, and what follows it. -/
structure Field where
  width : Nat
  value : Nat
  separator : List Char

def Field.text (f : Field) : List Char := padded f.width f.value ++ f.separator

def printed (fs : List Field) : List Char := fs.flatMap Field.text

/-- The values of two sequences of fields in lexicographic order. -/
inductive Precedes : List Field → List Field → Prop
  | head {w n m : Nat} {s t : List Char} {fs gs : List Field} :
      0 < w → n < m → m < 10 ^ w → Precedes (⟨w, n, s⟩ :: fs) (⟨w, m, t⟩ :: gs)
  | tail {f : Field} {fs gs : List Field} : Precedes fs gs → Precedes (f :: fs) (f :: gs)

theorem Precedes.cons {w n m : Nat} {s : List Char} {fs gs : List Field} (hw : 0 < w)
    (hm : m < 10 ^ w) (h : n < m ∨ n = m ∧ Precedes fs gs) :
    Precedes (⟨w, n, s⟩ :: fs) (⟨w, m, s⟩ :: gs) := by
  rcases h with hlt | ⟨rfl, h⟩
  · exact .head hw hlt hm
  · exact .tail h

/-- **Lexicographic order** of the values is that of the texts. -/
theorem printed_lt {fs gs : List Field} (h : Precedes fs gs) : printed fs < printed gs := by
  induction h with
  | @head w n m s t fs gs hw hlt hm =>
    have hlen : (padded w n).length = (padded w m).length := by
      rw [length_padded hw (by omega), length_padded hw hm]
    simp only [printed, List.flatMap_cons, Field.text, List.append_assoc]
    exact append_lt_append hlen (padded_lt hw hlt hm) _ _
  | tail _ ih => exact List.append_left_lt ih

/-! ## Separators -/

/-- A text is split at the first separator in one way. -/
theorem append_cons_unique {c : Char} {a a' b b' : List Char} (h : c ∉ a) (h' : c ∉ a')
    (heq : a ++ c :: b = a' ++ c :: b') : a = a' ∧ b = b' := by
  induction a generalizing a' with
  | nil =>
    cases a' with
    | nil => exact ⟨rfl, (List.cons.inj heq).2⟩
    | cons x a' => exact absurd (List.cons.inj heq).1 (not_or.mp (mt List.mem_cons.mpr h')).1
  | cons x a ih =>
    obtain ⟨hx, ha⟩ := not_or.mp (mt List.mem_cons.mpr h)
    cases a' with
    | nil => exact absurd (List.cons.inj heq).1.symm hx
    | cons y a' =>
      obtain ⟨-, ha'⟩ := not_or.mp (mt List.mem_cons.mpr h')
      obtain ⟨rfl, hrest⟩ := List.cons.inj heq
      obtain ⟨rfl, hb⟩ := ih ha ha' hrest
      exact ⟨rfl, hb⟩

/-- And at the last one. -/
theorem append_cons_unique_last {c : Char} {a a' b b' : List Char} (h : c ∉ b) (h' : c ∉ b')
    (heq : a ++ c :: b = a' ++ c :: b') : a = a' ∧ b = b' := by
  have hreverse := congrArg List.reverse heq
  simp only [List.reverse_append, List.reverse_cons, List.append_assoc, List.singleton_append]
    at hreverse
  obtain ⟨hb, ha⟩ := append_cons_unique (mt List.mem_reverse.mp h) (mt List.mem_reverse.mp h')
    hreverse
  exact ⟨List.reverse_inj.mp ha, List.reverse_inj.mp hb⟩

theorem not_mem_decimal {c : Char} (hc : c.isDigit = false) (n : Nat) : c ∉ decimal n := by
  intro h
  rw [isDigit_of_mem_decimal h] at hc
  cases hc

theorem not_mem_padded {c : Char} (hc : c.isDigit = false) (w n : Nat) : c ∉ padded w n := by
  intro h
  rw [isDigit_of_mem_padded h] at hc
  cases hc

theorem fraction_append {front : List Char} (h : '.' ∉ front) (back : List Char) :
    fraction (front ++ '.' :: back) = back := by
  induction front with
  | nil => simp [fraction]
  | cons c front ih =>
    obtain ⟨hc, hfront⟩ := not_or.mp (mt List.mem_cons.mpr h)
    rw [fraction, List.cons_append, List.dropWhile_cons, if_pos (by simpa using Ne.symm hc)]
    exact ih hfront

theorem point_not_mem_spaced (w n : Nat) : '.' ∉ spaced w n := by
  rw [spaced_natCast]
  intro h
  rcases List.mem_append.mp h with h | h
  · exact absurd (List.eq_of_mem_replicate h) (by decide)
  · exact not_mem_decimal rfl n h

end Muduo.Lib
