import Mathlib.Algebra.Group.Nat.Defs
import Muduo.Assertion
import Muduo.Lib.CString

/-!
`Logger::SourceFIle` of `src/Logging.h`, which cuts the directories off a path.
One constructor takes an array of characters, as the macros do with `__FILE__`;
the other one takes a pointer.

* `ofPointer_name`: the pointer's constructor finds the last slash;
* `ofArray_name_iff`: the array's finds the first one, which is the last one in
  a path with at most one;
* `agree_iff`: names and sizes agree exactly on the paths with one slash that
  have one character less in front of it than behind it.
-/

namespace Muduo

open Lib

namespace Logger

/-- `const char (&arr)[N]`, with a path in it. What is behind the path's null
byte is in the array too. -/
structure CharArray where
  path : List Char
  rest : List Char
  noNull : nul ∉ path
  /-- `N` is an `int`. -/
  small : path.length + 1 + rest.length < 2 ^ 31

def CharArray.chars (arr : CharArray) : List Char := arr.path ++ nul :: arr.rest

/-- `N` -/
def CharArray.size (arr : CharArray) : Nat := arr.chars.length

structure SourceFIle where
  /-- what `data_` points into -/
  memory : List Char
  /-- `data_`, counted from there -/
  data_ : Nat
  /-- none, where the constructor leaves it as it is -/
  size_ : Option Int
  deriving DecidableEq

/-- `static_cast<int>` -/
def toInt (n : Nat) : Int := (n : Int).bmod (2 ^ 32)

namespace SourceFIle

/-- `SourceFIle(const char (&arr)[N])` -/
def ofArray (arr : CharArray) : SourceFIle :=
  match strchr '/' arr.chars with
  | some slash => ⟨arr.chars, slash + 1, some (toInt (slash + 1))⟩
  | none => ⟨arr.chars, 0, some (arr.size - 1)⟩

/-- `SourceFIle(const char * arr)` -/
def ofPointer (arr : List Char) : SourceFIle :=
  match strrchr '/' arr with
  | some slash => ⟨arr, slash + 1, some (toInt (strlen (arr.drop (slash + 1))))⟩
  | none => ⟨arr, 0, none⟩

/-- The text that `name()` points to. -/
def name (f : SourceFIle) : List Char := cText (f.memory.drop f.data_)

end SourceFIle

inductive LogLevel where
  | TRACE
  | DEBUG
  | INFO
  | WARN
  | ERROR
  | FATAL
  deriving DecidableEq, Repr

/-- `LogLevelName` -/
def LogLevel.name : LogLevel → String
  | TRACE => "TRACE"
  | DEBUG => "DEBUG"
  | INFO => "INFO"
  | WARN => "WARN"
  | ERROR => "ERROR"
  | FATAL => "FATAL"

/-- What the constructor of `Logger` writes to `logBuf_`, in the second
`timeStamp`. -/
def logBuf (timeStamp : Nat) (file : SourceFIle) (level : LogLevel) (func : String) : String :=
  timeStamp.repr ++ "-" ++ String.ofList file.name ++ "-" ++ level.name ++ "-" ++ func ++ ": "

/-! ## The name of a file -/

/-- The part behind the last slash, or all of it. -/
def baseName : List Char → List Char
  | [] => []
  | c :: path =>
    if '/' ∈ path then baseName path else if c = '/' then path else c :: path

theorem baseName_of_not_mem {path : List Char} (h : '/' ∉ path) : baseName path = path := by
  cases path with
  | nil => rfl
  | cons c path =>
    obtain ⟨hc, hpath⟩ := not_or.mp (mt List.mem_cons.mpr h)
    rw [baseName, if_neg hpath, if_neg (Ne.symm hc)]

theorem baseName_append (dir : List Char) {base : List Char} (h : '/' ∉ base) :
    baseName (dir ++ '/' :: base) = base := by
  induction dir with
  | nil => rw [List.nil_append, baseName, if_neg h, if_pos rfl]
  | cons c dir ih =>
    have hmem : '/' ∈ dir ++ '/' :: base := by simp
    rw [List.cons_append, baseName, if_pos hmem, ih]

/-- A path has no slash, or a last one. -/
theorem exists_last {path : List Char} (h : '/' ∈ path) :
    ∃ dir base, path = dir ++ '/' :: base ∧ '/' ∉ base := by
  induction path with
  | nil => cases h
  | cons c path ih =>
    by_cases hpath : '/' ∈ path
    · obtain ⟨dir, base, rfl, hbase⟩ := ih hpath
      exact ⟨c :: dir, base, rfl, hbase⟩
    · have hc : '/' = c := (List.mem_cons.mp h).resolve_right hpath
      exact ⟨[], path, by rw [← hc]; rfl, hpath⟩

/-- And a first one. -/
theorem exists_first {path : List Char} (h : '/' ∈ path) :
    ∃ dir base, path = dir ++ '/' :: base ∧ '/' ∉ dir := by
  induction path with
  | nil => cases h
  | cons c path ih =>
    by_cases hc : c = '/'
    · exact ⟨[], path, by rw [hc]; rfl, List.not_mem_nil⟩
    · obtain ⟨dir, base, rfl, hdir⟩ := ih ((List.mem_cons.mp h).resolve_left (Ne.symm hc))
      exact ⟨c :: dir, base, rfl, by simp [hdir, Ne.symm hc]⟩

theorem toInt_eq {n : Nat} (h : n < 2 ^ 31) : toInt n = n :=
  Int.bmod_eq_of_le (by omega) (by omega)

namespace SourceFIle

variable {arr : CharArray} {dir base : List Char}

/-- The memory behind a part of the path. -/
theorem drop_chars (h : arr.path = dir ++ '/' :: base) :
    arr.chars.drop (dir.length + 1) = base ++ nul :: arr.rest := by
  have hchars : arr.chars = (dir ++ ['/']) ++ (base ++ nul :: arr.rest) := by
    simp [CharArray.chars, h]
  rw [hchars]
  exact List.drop_left' (by simp)

theorem noNull_parts (h : arr.path = dir ++ '/' :: base) : nul ∉ dir ∧ nul ∉ base := by
  have hnul := arr.noNull
  rw [h] at hnul
  constructor
  · intro hd
    exact hnul (List.mem_append_left _ hd)
  · intro hb
    exact hnul (List.mem_append_right _ (List.mem_cons_of_mem _ hb))

theorem length_lt (h : arr.path = dir ++ '/' :: base) : dir.length + 1 + base.length < 2 ^ 31 := by
  have hsmall := arr.small
  simp only [h, List.length_append, List.length_cons] at hsmall
  omega

/-- A path with a slash, of which the last is behind `dir`. -/
theorem ofPointer_last (h : arr.path = dir ++ '/' :: base) (hbase : '/' ∉ base) :
    (ofPointer arr.chars).name = base ∧ (ofPointer arr.chars).size_ = some (base.length : Int) := by
  obtain ⟨hdir, hnul⟩ := noNull_parts h
  have hchars : arr.chars = dir ++ '/' :: (base ++ nul :: arr.rest) := by
    simp [CharArray.chars, h]
  have hslash : strrchr '/' arr.chars = some dir.length := by
    rw [hchars]
    exact strrchr_last hdir (by decide) (strrchr_none hnul hbase _)
  have hlen : strlen (base ++ nul :: arr.rest) = base.length := by
    rw [strlen_eq, cText_append hnul]
  have hlt := length_lt h
  simp only [ofPointer, hslash, name, drop_chars h, cText_append hnul, hlen, true_and]
  rw [toInt_eq (by omega)]

/-- A path without one: `size_` is not set. -/
theorem ofPointer_none (h : '/' ∉ arr.path) :
    (ofPointer arr.chars).name = arr.path ∧ (ofPointer arr.chars).size_ = none := by
  have hslash : strrchr '/' arr.chars = none := strrchr_none arr.noNull h _
  simp only [ofPointer, hslash, name, List.drop_zero, and_true]
  exact cText_append arr.noNull _

/-- A path with a slash, of which the first is behind `dir`. -/
theorem ofArray_first (h : arr.path = dir ++ '/' :: base) (hdir : '/' ∉ dir) :
    (ofArray arr).name = base ∧ (ofArray arr).size_ = some (dir.length + 1 : Int) := by
  obtain ⟨hnul, hbase⟩ := noNull_parts h
  have hchars : arr.chars = dir ++ '/' :: (base ++ nul :: arr.rest) := by
    simp [CharArray.chars, h]
  have hslash : strchr '/' arr.chars = some dir.length := by
    rw [hchars]
    exact strchr_first hnul (by decide) hdir _
  have hlt := length_lt h
  simp only [ofArray, hslash, name, drop_chars h, cText_append hbase, true_and]
  rw [toInt_eq (by omega)]
  norm_cast

/-- A path without one: `size_` is that of the array without one character. -/
theorem ofArray_none (h : '/' ∉ arr.path) :
    (ofArray arr).name = arr.path ∧ (ofArray arr).size_ = some (arr.size - 1 : Int) := by
  have hslash : strchr '/' arr.chars = none := strchr_none arr.noNull h _
  simp only [ofArray, hslash, name, List.drop_zero, and_true]
  exact cText_append arr.noNull _

/-- **The pointer's constructor** finds the name in every path. -/
theorem ofPointer_name (arr : CharArray) : (ofPointer arr.chars).name = baseName arr.path := by
  by_cases h : '/' ∈ arr.path
  · obtain ⟨dir, base, hpath, hbase⟩ := exists_last h
    rw [(ofPointer_last hpath hbase).1, hpath, baseName_append dir hbase]
  · rw [(ofPointer_none h).1, baseName_of_not_mem h]

/-- **The array's constructor** finds it in the paths with at most one slash. -/
theorem ofArray_name_iff (arr : CharArray) :
    (ofArray arr).name = baseName arr.path ↔ arr.path.count '/' ≤ 1 := by
  by_cases h : '/' ∈ arr.path
  · obtain ⟨dir, base, hpath, hdir⟩ := exists_first h
    have hcount : arr.path.count '/' = base.count '/' + 1 := by
      simp [hpath, List.count_eq_zero_of_not_mem hdir]
    rw [(ofArray_first hpath hdir).1, hcount]
    by_cases hbase : '/' ∈ base
    · -- the name has a slash, and a base name has none
      obtain ⟨dir', base', rfl, hbase'⟩ := exists_last hbase
      have hname : baseName arr.path = base' := by
        rw [hpath, ← List.cons_append, ← List.append_assoc, baseName_append _ hbase']
      have hpos := List.count_pos_iff.mpr hbase
      refine iff_of_false ?_ (by omega)
      rw [hname]
      intro heq
      rw [heq] at hbase
      exact hbase' hbase
    · rw [hpath, baseName_append dir hbase, List.count_eq_zero_of_not_mem hbase]
      exact iff_of_true rfl (Nat.le_refl 1)
  · rw [(ofArray_none h).1, baseName_of_not_mem h, List.count_eq_zero_of_not_mem h]
    exact iff_of_true rfl (Nat.zero_le 1)

/-- Both constructors give the name, and its length as `size_`. -/
structure Agree (arr : CharArray) : Prop where
  array_name : (ofArray arr).name = baseName arr.path
  pointer_name : (ofPointer arr.chars).name = baseName arr.path
  array_size : (ofArray arr).size_ = some ((baseName arr.path).length : Int)
  pointer_size : (ofPointer arr.chars).size_ = some ((baseName arr.path).length : Int)

/-- **The two constructors** agree exactly on the paths with a single slash that
have one character less in front of it than behind it. -/
theorem agree_iff (arr : CharArray) :
    Agree arr ↔ ∃ dir base, arr.path = dir ++ '/' :: base ∧ '/' ∉ dir ∧ '/' ∉ base ∧
      base.length = dir.length + 1 := by
  constructor
  · intro h
    have hslash : '/' ∈ arr.path := by
      by_contra hnone
      have hsize := h.pointer_size
      rw [(ofPointer_none hnone).2] at hsize
      cases hsize
    obtain ⟨dir, base, hpath, hdir⟩ := exists_first hslash
    obtain ⟨hname, hsize⟩ := ofArray_first hpath hdir
    have hbase : base = baseName arr.path := hname.symm.trans h.array_name
    have hone := (ofArray_name_iff arr).mp h.array_name
    have hnone : '/' ∉ base := by
      intro hmem
      have hpos := List.count_pos_iff.mpr hmem
      simp only [hpath, List.count_append, List.count_cons_self] at hone
      omega
    have hlen := h.array_size
    rw [hsize, ← hbase, Option.some.injEq] at hlen
    exact ⟨dir, base, hpath, hdir, hnone, by omega⟩
  · rintro ⟨dir, base, hpath, hdir, hbase, hlen⟩
    have hname : baseName arr.path = base := by rw [hpath, baseName_append dir hbase]
    obtain ⟨harray, hsize⟩ := ofArray_first hpath hdir
    obtain ⟨hpointer, hsize'⟩ := ofPointer_last hpath hbase
    refine ⟨by rw [harray, hname], by rw [hpointer, hname], ?_, by rw [hsize', hname]⟩
    rw [hsize, hname, hlen]
    rfl

/-- `"/a/b.c"` as a literal: the array's constructor cuts off the first slash
only, and takes its position for the length. -/
theorem nested_path_disagrees :
    ∃ arr : CharArray, arr.path = "/a/b.c".toList ∧ arr.rest = [] ∧
      (ofArray arr).name = "a/b.c".toList ∧ (ofArray arr).size_ = some 1 ∧
      (ofPointer arr.chars).name = "b.c".toList ∧ (ofPointer arr.chars).size_ = some 3 ∧
      ¬ Agree arr := by
  let arr : CharArray := ⟨"/a/b.c".toList, [], by decide, by decide⟩
  have hname : (ofArray arr).name = "a/b.c".toList := by decide
  refine ⟨arr, rfl, rfl, hname, by decide, by decide, by decide, ?_⟩
  intro h
  have hbase : baseName arr.path = "b.c".toList := by decide
  have heq := hname.symm.trans (h.array_name.trans hbase)
  revert heq
  decide

end SourceFIle

/-- The macros print the name of the file if there is no slash in its path but
one. -/
theorem logBuf_macro (arr : CharArray) (timeStamp : Nat) (level : LogLevel) (func : String)
    (h : arr.path.count '/' ≤ 1) :
    logBuf timeStamp (.ofArray arr) level func =
      logBuf timeStamp (.ofPointer arr.chars) level func := by
  rw [logBuf, logBuf, (SourceFIle.ofArray_name_iff arr).mpr h, SourceFIle.ofPointer_name]

end Logger

end Muduo
