import Mathlib.Data.List.Infix

/-!
Streams cut at a separator.

`first sep xs` is where the separator first stands in `xs`. A stream is framed
by pieces in which it does not stand before their end, each followed by it.

* `first_append`, `first_drop`: what is appended does not move the first place,
  and a search may begin behind places that are known not to be one;
* `Framed.comparable`, `Framed.complete`: a stream has one framing.
-/

namespace Muduo.Lib

variable {α : Type*} {sep xs : List α}

theorem length_le_of_prefix {i : ℕ} (h : sep <+: xs.drop i) (hsep : sep ≠ []) :
    i + sep.length ≤ xs.length := by
  have hle := h.length_le
  have hpos := List.length_pos_iff.mpr hsep
  rw [List.length_drop] at hle
  omega

variable [DecidableEq α]

def first (sep : List α) : List α → Option ℕ
  | [] => none
  | x :: xs => if sep <+: x :: xs then some 0 else (first sep xs).map (· + 1)

/-! ## The first place -/

theorem first_eq_none (hsep : sep ≠ []) : first sep xs = none ↔ ∀ j, ¬ sep <+: xs.drop j := by
  induction xs with
  | nil => simp [first, hsep]
  | cons x xs ih =>
    by_cases h : sep <+: x :: xs
    · simp only [first, if_pos h]
      exact iff_of_false (by simp) fun hno => hno 0 h
    · simp only [first, if_neg h, Option.map_eq_none_iff, ih]
      constructor
      · intro hno j
        cases j with
        | zero => exact h
        | succ j => exact hno j
      · exact fun hno j => hno (j + 1)

theorem first_eq_some (hsep : sep ≠ []) {i : ℕ} :
    first sep xs = some i ↔ sep <+: xs.drop i ∧ ∀ j < i, ¬ sep <+: xs.drop j := by
  induction xs generalizing i with
  | nil => simp [first, hsep]
  | cons x xs ih =>
    by_cases h : sep <+: x :: xs
    · simp only [first, if_pos h, Option.some.injEq]
      constructor
      · rintro rfl
        exact ⟨h, by simp⟩
      · rintro ⟨-, hno⟩
        by_contra hi
        exact hno 0 (Nat.pos_of_ne_zero (Ne.symm hi)) h
    · simp only [first, if_neg h]
      cases i with
      | zero => simp [h]
      | succ i =>
        rw [Option.map_eq_some_iff]
        simp only [Nat.add_right_cancel_iff, exists_eq_right, ih, List.drop_succ_cons]
        refine and_congr_right fun _ => ⟨fun hno j hj => ?_, fun hno j hj => hno (j + 1) (by omega)⟩
        cases j with
        | zero => exact h
        | succ j => exact hno j (by omega)

/-- A place that is there stays the first one. -/
theorem first_append (hsep : sep ≠ []) {i : ℕ} (h : first sep xs = some i) (ys : List α) :
    first sep (xs ++ ys) = some i := by
  obtain ⟨hi, hno⟩ := (first_eq_some hsep).mp h
  have hle := length_le_of_prefix hi hsep
  refine (first_eq_some hsep).mpr ⟨?_, fun j hj hpre => hno j hj ?_⟩
  · rw [List.drop_append_of_le_length (by omega)]
    exact hi.trans (List.prefix_append ..)
  · rw [List.drop_append_of_le_length (by omega)] at hpre
    exact List.prefix_of_prefix_length_le hpre (List.prefix_append ..) (by
      rw [List.length_drop]
      omega)

/-- **A search that is resumed** finds what one from the beginning does. -/
theorem first_drop (hsep : sep ≠ []) {k : ℕ} (h : ∀ j < k, ¬ sep <+: xs.drop j) :
    (first sep (xs.drop k)).map (k + ·) = first sep xs := by
  cases hk : first sep (xs.drop k) with
  | none =>
    rw [first_eq_none hsep] at hk
    refine ((first_eq_none hsep).mpr fun j hpre => ?_).symm
    rcases Nat.lt_or_ge j k with hj | hj
    · exact h j hj hpre
    · refine hk (j - k) ?_
      rwa [List.drop_drop, Nat.add_sub_cancel' hj]
  | some i =>
    obtain ⟨hi, hno⟩ := (first_eq_some hsep).mp hk
    refine ((first_eq_some hsep).mpr ⟨?_, fun j hj hpre => ?_⟩).symm
    · rwa [List.drop_drop] at hi
    · rcases Nat.lt_or_ge j k with hlt | hge
      · exact h j hlt hpre
      · have hlt : j < k + i := hj
        refine hno (j - k) (by omega) ?_
        rwa [List.drop_drop, Nat.add_sub_cancel' hge]

/-! ## Framings -/

/-- `lines`, each with a separator behind it, and then `rest`. -/
structure Framed (sep s : List α) (lines : List (List α)) (rest : List α) : Prop where
  stream : s = lines.flatMap (· ++ sep) ++ rest
  ends : ∀ l ∈ lines, first sep (l ++ sep) = some l.length

variable {s rest rest' : List α} {lines lines' : List (List α)}

theorem Framed.nil (s : List α) : Framed sep s [] s := ⟨rfl, by simp⟩

/-- What arrives is in the rest. -/
theorem Framed.append (h : Framed sep s lines rest) (ys : List α) :
    Framed sep (s ++ ys) lines (rest ++ ys) :=
  ⟨by rw [h.stream, List.append_assoc], h.ends⟩

/-- The next line is taken from the rest. -/
theorem Framed.take (h : Framed sep s lines rest) (hsep : sep ≠ []) {i : ℕ}
    (hi : first sep rest = some i) :
    Framed sep s (lines ++ [rest.take i]) (rest.drop (i + sep.length)) := by
  obtain ⟨hpre, hno⟩ := (first_eq_some hsep).mp hi
  have hle := length_le_of_prefix hpre hsep
  have hlength : (rest.take i).length = i := by
    rw [List.length_take]
    omega
  have hrest : rest.take i ++ sep ++ rest.drop (i + sep.length) = rest := by
    obtain ⟨tail, htail⟩ := hpre
    have hdrop : rest.drop (i + sep.length) = tail := by
      rw [← List.drop_drop, ← htail, List.drop_left]
    rw [hdrop, List.append_assoc, htail, List.take_append_drop]
  refine ⟨?_, fun l hl => ?_⟩
  · rw [h.stream, List.flatMap_append, List.append_assoc]
    simp [hrest]
  · rcases List.mem_append.mp hl with hl | hl
    · exact h.ends l hl
    · rw [List.mem_singleton.mp hl, hlength]
      refine (first_eq_some hsep).mpr ⟨?_, fun j hj hj' => hno j hj ?_⟩
      · rw [List.drop_append_of_le_length (by omega), List.drop_take_self]
        simp
      · rw [← hrest, List.drop_append_of_le_length (by simp; omega)]
        exact hj'.trans (List.prefix_append ..)

/-- The first line is where the separator first stands. -/
theorem Framed.first_eq {l : List α} (h : Framed sep s (l :: lines) rest) (hsep : sep ≠ []) :
    first sep s = some l.length := by
  have hfirst := first_append hsep (h.ends l (List.mem_cons_self ..))
    (lines.flatMap (· ++ sep) ++ rest)
  rw [h.stream, List.flatMap_cons]
  simpa using hfirst

/-- **One framing.** Of two framings of a stream one goes on with the other. -/
theorem Framed.comparable (h : Framed sep s lines rest) (h' : Framed sep s lines' rest')
    (hsep : sep ≠ []) : lines <+: lines' ∨ lines' <+: lines := by
  induction lines generalizing s lines' with
  | nil => exact .inl (List.nil_prefix ..)
  | cons l lines ih =>
    cases lines' with
    | nil => exact .inr (List.nil_prefix ..)
    | cons l' lines' =>
      have hlength : l.length = l'.length :=
        Option.some.inj ((h.first_eq hsep).symm.trans (h'.first_eq hsep))
      have hsplit : l ++ (sep ++ (lines.flatMap (· ++ sep) ++ rest)) =
          l' ++ (sep ++ (lines'.flatMap (· ++ sep) ++ rest')) := by
        have hs := h.stream.symm.trans h'.stream
        simpa using hs
      obtain ⟨rfl, htail⟩ := List.append_inj hsplit hlength
      have hrest := List.append_cancel_left htail
      have htail : Framed sep (lines.flatMap (· ++ sep) ++ rest) lines rest :=
        ⟨rfl, fun l hl => h.ends l (List.mem_cons_of_mem _ hl)⟩
      have htail' : Framed sep (lines.flatMap (· ++ sep) ++ rest) lines' rest' :=
        ⟨hrest, fun l hl => h'.ends l (List.mem_cons_of_mem _ hl)⟩
      rcases ih htail htail' with hih | hih
      · exact .inl ((List.prefix_cons_inj l).mpr hih)
      · exact .inr ((List.prefix_cons_inj l).mpr hih)

/-- A framing with no line in its rest goes on with all others. -/
theorem Framed.complete (h : Framed sep s lines rest) (h' : Framed sep s lines' rest')
    (hsep : sep ≠ []) (hrest : first sep rest = none) : lines' <+: lines := by
  rcases h.comparable h' hsep with ⟨more, rfl⟩ | hpre
  · cases more with
    | nil => simp
    | cons l more =>
      have hs := h.stream.symm.trans h'.stream
      rw [List.flatMap_append, List.append_assoc, List.append_cancel_left_eq] at hs
      have hframed : Framed sep rest (l :: more) rest' :=
        ⟨hs, fun x hx => h'.ends x (List.mem_append_right _ hx)⟩
      rw [hframed.first_eq hsep] at hrest
      cases hrest
  · exact hpre

end Muduo.Lib
