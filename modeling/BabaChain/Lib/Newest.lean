import Mathlib.Tactic

/-! A register that takes a value only if it is newer than the one it has. Of several values that
are equally new it keeps the first. -/
namespace Newest

variable {α β : Type*} [LinearOrder β] (time : α → β)

/-- The newer of two values, and the second one of two that are equally new. -/
def newer (a b : α) : α := if time b < time a then a else b

def receive (s a : α) : α := if time s < time a then newer time s a else s

variable {time}

theorem newer_self (a : α) : newer time a a = a := ite_self a

theorem newer_of_lt {a b : α} (h : time b < time a) : newer time a b = a := if_pos h

theorem newer_of_le {a b : α} (h : time a ≤ time b) : newer time a b = b := if_neg (not_lt.mpr h)

theorem newer_assoc (a b c : α) :
    newer time (newer time a b) c = newer time a (newer time b c) := by
  rcases lt_or_ge (time c) (time b) with hbc | hbc
  · rw [newer_of_lt hbc]
    rcases lt_or_ge (time b) (time a) with hab | hab
    · rw [newer_of_lt hab, newer_of_lt (hbc.trans hab)]
    · rw [newer_of_le hab, newer_of_lt hbc]
  · rw [newer_of_le hbc]
    rcases lt_or_ge (time b) (time a) with hab | hab
    · rw [newer_of_lt hab]
    · rw [newer_of_le hab, newer_of_le hbc, newer_of_le (hab.trans hbc)]

/-- The order does not matter but for values that are equally new. -/
theorem newer_comm_iff (a b : α) :
    newer time a b = newer time b a ↔ (time a = time b → a = b) := by
  rcases lt_trichotomy (time a) (time b) with h | h | h
  · rw [newer_of_le h.le, newer_of_lt h]
    exact iff_of_true rfl fun heq => absurd heq h.ne
  · rw [newer_of_le h.le, newer_of_le h.ge]
    exact ⟨fun heq _ => heq.symm, fun heq => (heq h).symm⟩
  · rw [newer_of_lt h, newer_of_le h.le]
    exact iff_of_true rfl fun heq => absurd heq h.ne'

theorem receive_of_lt {s a : α} (h : time s < time a) : receive time s a = a := by
  rw [receive, if_pos h, newer_of_le h.le]

theorem receive_of_le {s a : α} (h : time a ≤ time s) : receive time s a = s :=
  if_neg (not_lt.mpr h)

variable (time) in
/-- A register ends with its first value, where none is newer, or with one that is newer than
the first and as new as any. -/
theorem foldl_receive (s : α) (l : List α) :
    (l.foldl (receive time) s = s ∧ ∀ a ∈ l, time a ≤ time s) ∨
      (l.foldl (receive time) s ∈ l ∧ time s < time (l.foldl (receive time) s) ∧
        ∀ a ∈ l, time a ≤ time (l.foldl (receive time) s)) := by
  induction l generalizing s with
  | nil => exact Or.inl ⟨rfl, fun a ha => absurd ha List.not_mem_nil⟩
  | cons a l ih =>
    rw [List.foldl_cons]
    rcases lt_or_ge (time s) (time a) with h | h
    · rw [receive_of_lt h]
      right
      rcases ih a with ⟨hfinal, hle⟩ | ⟨hmem, hlt, hle⟩
      · rw [hfinal]
        exact ⟨List.mem_cons_self, h, List.forall_mem_cons.mpr ⟨le_rfl, hle⟩⟩
      · exact ⟨List.mem_cons_of_mem a hmem, h.trans hlt, List.forall_mem_cons.mpr ⟨hlt.le, hle⟩⟩
    · rw [receive_of_le h]
      rcases ih s with ⟨hfinal, hle⟩ | ⟨hmem, hlt, hle⟩
      · exact Or.inl ⟨hfinal, List.forall_mem_cons.mpr ⟨h, hle⟩⟩
      · exact Or.inr ⟨List.mem_cons_of_mem a hmem, hlt,
          List.forall_mem_cons.mpr ⟨h.trans hlt.le, hle⟩⟩

theorem foldl_receive_of_newest {s a : α} {l : List α} (hlt : time s < time a)
    (hle : ∀ b ∈ l, time b ≤ time a) : (a :: l).foldl (receive time) s = a := by
  rw [List.foldl_cons, receive_of_lt hlt]
  rcases foldl_receive time a l with ⟨hfinal, -⟩ | ⟨hmem, hnewer, -⟩
  · exact hfinal
  · exact absurd hnewer (not_lt.mpr (hle _ hmem))

variable (time) in
/-- How new the last value is does not depend on the order of the values. -/
theorem time_foldl_receive_eq {l l' : List α} (hsame : ∀ a, a ∈ l ↔ a ∈ l') (s : α) :
    time (l.foldl (receive time) s) = time (l'.foldl (receive time) s) := by
  rcases foldl_receive time s l with ⟨hfinal, hle⟩ | ⟨hmem, hlt, hle⟩ <;>
    rcases foldl_receive time s l' with ⟨hfinal', hle'⟩ | ⟨hmem', hlt', hle'⟩
  · rw [hfinal, hfinal']
  · exact absurd hlt' (not_lt.mpr (hle _ ((hsame _).mpr hmem')))
  · exact absurd hlt (not_lt.mpr (hle' _ ((hsame _).mp hmem)))
  · exact le_antisymm (hle' _ ((hsame _).mp hmem)) (hle _ ((hsame _).mpr hmem'))

/-- Two values are both the newest ones of a list, and newer than the first value. -/
def Tied (time : α → β) (s : α) (l : List α) (a b : α) : Prop :=
  a ∈ l ∧ b ∈ l ∧ time s < time a ∧ time a = time b ∧ ∀ c ∈ l, time c ≤ time a

/-- All orders of the same values end alike if no two different values are tied. -/
theorem foldl_receive_eq {s : α} {l l' : List α} (hsame : ∀ a, a ∈ l ↔ a ∈ l')
    (htied : ∀ a b, Tied time s l a b → a = b) :
    l.foldl (receive time) s = l'.foldl (receive time) s := by
  have htime := time_foldl_receive_eq time hsame s
  rcases foldl_receive time s l with ⟨hfinal, hle⟩ | ⟨hmem, hlt, hle⟩ <;>
    rcases foldl_receive time s l' with ⟨hfinal', hle'⟩ | ⟨hmem', hlt', hle'⟩
  · rw [hfinal, hfinal']
  · exact absurd hlt' (not_lt.mpr (hle _ ((hsame _).mpr hmem')))
  · exact absurd hlt (not_lt.mpr (hle' _ ((hsame _).mp hmem)))
  · exact htied _ _ ⟨hmem, (hsame _).mpr hmem', hlt, htime, hle⟩

end Newest
