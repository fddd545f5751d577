import Muduo.Acceptor

/-!
The acceptor when the process runs out of descriptors. `idleFd_` is given up for
the moment in which a connection is accepted and closed. As long as no other
code takes a descriptor in that moment, the kernel has no other failure, peers
do not give up meanwhile and the log leaves `errno` alone, `idleFd_` is never
lost, and each report that the channel is readable takes one connection.

* `overload_served`: the connections are served as the state at each report
  says, turned away exactly where the table was full.
-/

namespace Muduo

open Lib

namespace Acceptor

variable {n : Nat}

/-- What the world leaves to the acceptor. A report comes when a connection waits. -/
def Sheltered (s : Acceptor n) : Label n → Prop
  | .handleRead fails log => fails = none ∧ log = .none ∧ s.backlog ≠ []
  | .next fails => fails = none
  | .abort _ => s.place = .rest
  | .openOther => s.place = .rest ∨ s.place = .closeIdle ∨ s.place = .gone ∨
      ∃ fd c, s.place = .closeConn fd c
  | _ => True

/-- What a report is to do with the connection in front. -/
def promised (s : Acceptor n) : Label n → List (Nat × Fate)
  | .handleRead _ _ => s.backlog.head?.toList.map fun c =>
    (c, if s.newConnectionCallback ∧ ¬ s.descriptors.Full then .handed else .turnedAway)
  | _ => []

/-- The connection that the rest of `handleRead` turns away. -/
def pending (s : Acceptor n) : List (Nat × Fate) :=
  match s.place with
  | .closeConn _ c | .closeAccepted (some c) => [(c, .turnedAway)]
  | .closeIdle | .acceptIdle => s.backlog.head?.toList.map fun c => (c, .turnedAway)
  | _ => []

/-- The fates of the connections that reports have been made for. -/
def fates (s : Acceptor n) : List (Nat × Fate) := s.served ++ s.pending

/-- `idleFd_` is there when it is needed, or there is room for it, and the
connection to turn away is there. -/
structure Kept (s : Acceptor n) : Prop where
  inv : s.Inv
  idle : s.place = .rest ∨ s.place = .closeIdle ∨ (∃ fd c, s.place = .closeConn fd c) →
    s.idleFd ≠ none
  room : s.place = .acceptIdle ∨ s.place = .openIdle → ¬ s.descriptors.Full
  waiting : s.place = .closeIdle ∨ s.place = .acceptIdle → s.backlog ≠ []
  accepted : s.place ≠ .closeAccepted none

theorem Kept.of_new {opened : Fin n → Bool} {newConnectionCallback : Bool} {s : Acceptor n}
    (h : new opened newConnectionCallback = .ok s) : s.Kept ∧ s.place = .rest ∧ s.served = [] := by
  have hinv := new_inv h
  dsimp only [new] at h
  split at h
  · cases h
  split at h
  · cases h
  cases h
  exact ⟨⟨hinv, by simp, by simp, by simp, by simp⟩, rfl, rfl⟩

/-- With room and a connection, `accept4` succeeds. -/
theorem accept4_of_room {s : Acceptor n} (hroom : ¬ s.descriptors.Full) {c : Nat} {rest : List Nat}
    (hbacklog : s.backlog = c :: rest) :
    ∃ fd, s.accept4 none = .ok (fd, c) ∧ s.descriptors.lowest = some fd := by
  obtain ⟨fd, hlow⟩ := Descriptors.exists_lowest hroom
  exact ⟨fd, by simp [accept4, hlow, hbacklog], hlow⟩

theorem accept4_full {s : Acceptor n} (hfull : s.descriptors.Full) (fails : Option AcceptErrno) :
    s.accept4 fails = .error .EMFILE := by
  have hlow : s.descriptors.lowest = none := hfull
  simp [accept4, hlow]

/-- A step keeps `idleFd_` and does what was promised. -/
def Serves (s : Acceptor n) (a : Label n) (s' : Acceptor n) : Prop :=
  s'.Kept ∧ s'.fates = s.fates ++ s.promised a

theorem Kept.handleRead {s : Acceptor n} (h : s.Kept) (hrest : s.place = .rest)
    (hback : s.backlog ≠ []) (hinv : (s.handleRead none .none).Inv) :
    s.Serves (.handleRead none .none) (s.handleRead none .none) := by
  obtain ⟨c, rest, hbacklog⟩ := List.exists_cons_of_ne_nil hback
  have hidle : s.idleFd ≠ none := h.idle (.inl hrest)
  by_cases hfull : s.descriptors.Full
  · have hread : s.handleRead none .none = { s with place := .closeIdle } := by
      simp [Acceptor.handleRead, accept4_full hfull, acceptErrno, Clobber.none]
    rw [hread] at hinv ⊢
    refine ⟨⟨hinv, fun _ => hidle, by simp, fun _ => hback, by simp⟩, ?_⟩
    simp [fates, pending, promised, hrest, hbacklog, hfull]
  · obtain ⟨fd, hacc, -⟩ := accept4_of_room hfull hbacklog
    cases hcb : s.newConnectionCallback with
    | true =>
      have hread : s.handleRead none .none =
          { s.take fd (.handed c) with served := s.served ++ [(c, .handed)] } := by
        simp [Acceptor.handleRead, hacc, hcb]
      rw [hread] at hinv ⊢
      refine ⟨⟨hinv, fun _ => hidle, by simp [take, hrest], by simp [take, hrest],
        by simp [take, hrest]⟩, ?_⟩
      simp [fates, pending, promised, take, hrest, hbacklog, hfull, hcb]
    | false =>
      have hread : s.handleRead none .none =
          { s.take fd (.peer c) with place := .closeConn fd c } := by
        simp [Acceptor.handleRead, hacc, hcb]
      rw [hread] at hinv ⊢
      refine ⟨⟨hinv, fun _ => hidle, by simp, by simp, by simp⟩, ?_⟩
      simp [fates, pending, promised, take, hrest, hbacklog, hcb]

theorem Kept.next {s s' : Acceptor n} (h : s.Kept) (hplace : s.place ≠ .rest)
    (hs : s.next none = .ok s') (hinv : s'.Inv) : s.Serves (.next none) s' := by
  unfold Acceptor.next at hs
  cases hp : s.place with simp only [hp] at hs
  | rest => exact absurd hp hplace
  | gone =>
    cases hs
    exact ⟨h, by simp [promised]⟩
  | closeConn connfd c =>
    rw [close_own h.inv.owns (f := .peer c) trivial (by simp [Holds, hp])] at hs
    cases hs
    refine ⟨⟨hinv, fun _ => h.idle (.inr (.inr ⟨_, _, hp⟩)), by simp, by simp, by simp⟩, ?_⟩
    simp [fates, pending, promised, hp, turnedAway]
  | closeIdle =>
    obtain ⟨idle, hidle⟩ := Option.ne_none_iff_exists'.mp (h.idle (.inr (.inl hp)))
    rw [hidle, close_own h.inv.owns (f := .devNull) trivial (by simp [Holds, hp, hidle])] at hs
    cases hs
    refine ⟨⟨hinv, by simp, fun _ => Descriptors.not_full_close _ _,
      fun _ => h.waiting (.inl hp), by simp⟩, ?_⟩
    simp [fates, pending, promised, hp, turnedAway]
  | acceptIdle =>
    obtain ⟨c, rest, hbacklog⟩ := List.exists_cons_of_ne_nil (h.waiting (.inr hp))
    obtain ⟨fd, hacc, -⟩ := accept4_of_room (h.room (.inl hp)) hbacklog
    rw [hacc] at hs
    cases hs
    refine ⟨⟨hinv, by simp, by simp, by simp, by simp⟩, ?_⟩
    simp [fates, pending, promised, take, hp, hbacklog]
  | closeAccepted c =>
    cases c with
    | none => exact absurd hp h.accepted
    | some c =>
      obtain ⟨fd, hidle⟩ := Option.isSome_iff_exists.mp (h.inv.accepted (some c) hp)
      rw [hidle, close_own h.inv.owns (f := .peer c) trivial (by simp [Holds, hp, hidle])] at hs
      cases hs
      refine ⟨⟨hinv, by simp, fun _ => Descriptors.not_full_close _ _, by simp, by simp⟩, ?_⟩
      simp [fates, pending, promised, hp, turnedAway]
  | openIdle =>
    obtain ⟨fd, hlow⟩ := Descriptors.exists_lowest (h.room (.inr hp))
    rw [hlow] at hs
    cases hs
    refine ⟨⟨hinv, by simp, by simp, by simp, by simp⟩, ?_⟩
    simp [fates, pending, promised, hp]

theorem Kept.step {s s' : Acceptor n} (h : s.Kept) {a : Label n} (ha : s.Enabled a)
    (hsh : s.Sheltered a) (hs : s.step a = .ok s') : s.Serves a s' := by
  obtain ⟨_, hs', hinv, -⟩ := h.inv.step ha
  cases hs'.symm.trans hs
  cases a with
  | listen =>
    cases hs
    exact ⟨⟨hinv, h.idle, h.room, h.waiting, h.accepted⟩, by simp [fates, promised, pending]⟩
  | handleRead fails log =>
    obtain ⟨rfl, rfl, hback⟩ := hsh
    cases hs
    exact h.handleRead ha.1 hback hinv
  | next fails =>
    obtain rfl : fails = none := hsh
    exact h.next ha.1 hs hinv
  | dtor =>
    have hrest : s.place = .rest := ha
    obtain ⟨idle, hidle⟩ := Option.ne_none_iff_exists'.mp (h.idle (.inl hrest))
    simp only [Acceptor.step, Acceptor.dtor] at hs
    rw [hidle, close_own h.inv.owns (f := .devNull) trivial (by simp [Holds, hrest, hidle])] at hs
    cases hs
    exact ⟨⟨hinv, by simp, by simp, by simp, by simp⟩, by simp [fates, pending, promised, hrest, turnedAway]⟩
  | arrive =>
    cases hs
    refine ⟨⟨hinv, h.idle, h.room, by simp, h.accepted⟩, ?_⟩
    have hhead : s.place = .closeIdle ∨ s.place = .acceptIdle →
        (s.backlog ++ [s.arrived]).head? = s.backlog.head? :=
      fun hp => List.head?_append_of_ne_nil _ (h.waiting hp)
    cases hp : s.place with
    | closeAccepted c => cases c <;> simp [fates, pending, promised, hp]
    | _ => simp_all [fates, pending, promised]
  | abort c =>
    have hrest : s.place = .rest := hsh
    cases hs
    refine ⟨⟨hinv, h.idle, by simp [hrest], by simp [hrest], h.accepted⟩, ?_⟩
    simp [fates, pending, promised, hrest]
  | openOther =>
    simp only [Acceptor.step] at hs
    split at hs
    · cases hs
      exact ⟨h, by simp [promised]⟩
    · cases hs
      refine ⟨⟨hinv, h.idle, fun hp => ?_, h.waiting, h.accepted⟩, by simp [fates, promised, pending]⟩
      rcases hsh with hsh | hsh | hsh | ⟨fd, c, hsh⟩ <;> simp [hsh] at hp
  | closeOther fd =>
    cases hs
    exact ⟨⟨hinv, h.idle, fun _ => Descriptors.not_full_close _ _, h.waiting, h.accepted⟩,
      by simp [fates, promised, pending]⟩

/-- **Overload.** Under shelter, whatever arrives and whatever other code opens
and closes, the connections are served one a report and in order: the one in
front is handed to the callback when a descriptor is free at the report, and is
turned away when none is. `idleFd_` is there again behind every report. -/
theorem overload_served {opened : Fin n → Bool} {newConnectionCallback : Bool} {s t : Acceptor n}
    (hnew : new opened newConnectionCallback = .ok s) {steps : List (Label n)}
    (hrun : Run step s steps t) (hsteps : Along step Enabled s steps)
    (hsheltered : Along step Sheltered s steps) (hrest : t.place = .rest) :
    t.served = yields step promised s steps ∧ t.idleFd ≠ none := by
  obtain ⟨hkept, hplace, hserved⟩ := Kept.of_new hnew
  have hE := hsteps.and hsheltered
  have hstep : ∀ (s : Acceptor n) a s', s.Kept → s.Enabled a ∧ s.Sheltered a →
      s.step a = .ok s' → s.Serves a s' := fun s a s' h ha hs => h.step ha.1 ha.2 hs
  have hend : t.Kept := hrun.invariant hE hkept fun s a s' h ha hs => (hstep s a s' h ha hs).1
  have hall : t.fates = s.fates ++ yields step promised s steps :=
    hrun.gathered hE hkept (fun s a s' h ha hs => (hstep s a s' h ha hs).1)
      fun s a s' h ha hs => (hstep s a s' h ha hs).2
  refine ⟨?_, hend.idle (.inl hrest)⟩
  simpa [fates, pending, hrest, hplace, hserved] using hall

/-- One connection is handed over, the next one turned away, although other code
has taken the last descriptor. -/
theorem overload_served_sample :
    ∃ s t : Acceptor 4, new (fun _ => false) true = .ok s ∧
      t.served = yields step promised s [.listen, .arrive, .arrive, .handleRead none .none,
        .openOther, .handleRead none .none, .next none, .next none, .next none, .next none] ∧
      t.idleFd ≠ none := by
  have hnew : new (n := 4) (fun _ => false) true = .ok _ := rfl
  refine ⟨_, _, hnew, @overload_served 4 _ _ _ _ hnew
    [.listen, .arrive, .arrive, .handleRead none .none, .openOther, .handleRead none .none,
      .next none, .next none, .next none, .next none]
    (.cons rfl (.cons rfl (.cons rfl (.cons rfl (.cons rfl (.cons rfl (.cons rfl (.cons rfl
      (.cons rfl (.cons rfl (.nil _))))))))))) ?_ ?_ rfl⟩
  · refine (steps_cons_ok rfl).mpr ⟨rfl, ?_⟩
    refine (steps_cons_ok rfl).mpr ⟨rfl, ?_⟩
    refine (steps_cons_ok rfl).mpr ⟨rfl, ?_⟩
    refine (steps_cons_ok rfl).mpr ⟨⟨rfl, rfl, by decide⟩, ?_⟩
    refine (steps_cons_ok rfl).mpr ⟨trivial, ?_⟩
    refine (steps_cons_ok rfl).mpr ⟨⟨rfl, rfl, by decide⟩, ?_⟩
    refine (steps_cons_ok rfl).mpr ⟨⟨by decide, by decide⟩, ?_⟩
    refine (steps_cons_ok rfl).mpr ⟨⟨by decide, by decide⟩, ?_⟩
    refine (steps_cons_ok rfl).mpr ⟨⟨by decide, by decide⟩, ?_⟩
    exact (steps_cons_ok rfl).mpr ⟨⟨by decide, by decide⟩, trivial⟩
  · refine (steps_cons_ok rfl).mpr ⟨trivial, ?_⟩
    refine (steps_cons_ok rfl).mpr ⟨trivial, ?_⟩
    refine (steps_cons_ok rfl).mpr ⟨trivial, ?_⟩
    refine (steps_cons_ok rfl).mpr ⟨⟨rfl, rfl, nofun⟩, ?_⟩
    refine (steps_cons_ok rfl).mpr ⟨.inl rfl, ?_⟩
    refine (steps_cons_ok rfl).mpr ⟨⟨rfl, rfl, nofun⟩, ?_⟩
    refine (steps_cons_ok rfl).mpr ⟨rfl, ?_⟩
    refine (steps_cons_ok rfl).mpr ⟨rfl, ?_⟩
    refine (steps_cons_ok rfl).mpr ⟨rfl, ?_⟩
    exact (steps_cons_ok rfl).mpr ⟨rfl, trivial⟩

end Acceptor

end Muduo
