import Mathlib.Tactic

/-! Signed machine integers as integers with a range, and counting loops over
them. An overflow is `none`, as is a loop that has not ended within its fuel. -/
namespace MachineInt

/-- The values of a signed two's complement type of `w` bits. -/
def InRange (w : ℕ) (x : ℤ) : Prop := -2^(w-1) ≤ x ∧ x < 2^(w-1)

instance (w : ℕ) (x : ℤ) : Decidable (InRange w x) :=
  inferInstanceAs (Decidable (_ ∧ _))

/-- A signed integer variable of `w` bits. -/
abbrev SInt (w : ℕ) := {x : ℤ // InRange w x}

def intMax (w : ℕ) : ℤ := 2^(w-1)-1

/-- The result of a signed operation, `none` where it overflows. -/
def checked (w : ℕ) (x : ℤ) : Option ℤ := if InRange w x then some x else none

/-- The result of an operation that wraps around. -/
def wrap (w : ℕ) (x : ℤ) : ℤ := x.bmod (2^w)

/-- The quotient of two signed values, truncated towards zero, `none` for a zero divisor and
for the one quotient that does not fit. -/
def checkedDiv (w : ℕ) (x y : ℤ) : Option ℤ := if y = 0 then none else checked w (x.tdiv y)

theorem checked_of_inRange {w : ℕ} {x : ℤ} (hx : InRange w x) : checked w x = some x :=
  if_pos hx

theorem checked_eq_none {w : ℕ} {x : ℤ} (hx : ¬InRange w x) : checked w x = none :=
  if_neg hx

theorem checked_eq_some_iff {w : ℕ} {x y : ℤ} :
    checked w x = some y ↔ InRange w x ∧ x = y := by
  unfold checked
  split
  · rename_i hx
    simp only [Option.some.injEq, hx, true_and]
  · rename_i hx
    simp only [reduceCtorEq, hx, false_and]

theorem checkedDiv_eq_some_iff {w : ℕ} {x y z : ℤ} :
    checkedDiv w x y = some z ↔ y ≠ 0 ∧ InRange w z ∧ x.tdiv y = z := by
  unfold checkedDiv
  by_cases hy : y = 0
  · rw [if_pos hy]
    exact iff_of_false (Option.some_ne_none z).symm fun h => h.1 hy
  · rw [if_neg hy, checked_eq_some_iff]
    constructor
    · rintro ⟨hr, rfl⟩
      exact ⟨hy, hr, rfl⟩
    · rintro ⟨-, hr, rfl⟩
      exact ⟨hr, rfl⟩

theorem inRange_iff_le_intMax {w : ℕ} {x : ℤ} :
    InRange w x ↔ -intMax w-1 ≤ x ∧ x ≤ intMax w := by
  unfold InRange intMax
  omega

@[simp] theorem intMax_32 : intMax 32 = 2147483647 := rfl

@[simp] theorem intMax_64 : intMax 64 = 9223372036854775807 := rfl

theorem inRange_of_between {w : ℕ} {x : ℤ} (h0 : 0 ≤ x) (hx : x ≤ intMax w) : InRange w x := by
  have hpos : (0:ℤ) < 2^(w-1) := by positivity
  unfold InRange
  unfold intMax at hx
  constructor <;> omega

/-- What a loop body asks for next. -/
inductive Flow (σ : Type*) where
  | next (s : σ)
  | stop (s : σ)
deriving DecidableEq, Repr

variable {σ : Type*}

/-- `for (i; i <= hi; i += step)` with a counter of `w` bits. -/
def forLoop (w : ℕ) (hi step : ℤ) (body : ℤ → σ → Option (Flow σ)) : ℕ → ℤ → σ → Option σ
  | 0, _, _ => none
  | fuel+1, i, s =>
    if i ≤ hi then
      match body i s with
      | none => none
      | some (.stop s') => some s'
      | some (.next s') => (checked w (i+step)).bind fun i' => forLoop w hi step body fuel i' s'
    else
      some s

section Rules

variable {w : ℕ} {hi step : ℤ} {body : ℤ → σ → Option (Flow σ)}

theorem forLoop_exit {fuel : ℕ} {i : ℤ} {s : σ} (hi' : hi < i) :
    forLoop w hi step body (fuel+1) i s = some s := by
  rw [forLoop, if_neg (by omega)]

theorem forLoop_stop {fuel : ℕ} {i : ℤ} {s s' : σ} (hle : i ≤ hi)
    (hb : body i s = some (.stop s')) : forLoop w hi step body (fuel+1) i s = some s' := by
  rw [forLoop, if_pos hle, hb]

theorem forLoop_next {fuel : ℕ} {i : ℤ} {s s' : σ} (hle : i ≤ hi)
    (hb : body i s = some (.next s')) (hr : InRange w (i+step)) :
    forLoop w hi step body (fuel+1) i s = forLoop w hi step body fuel (i+step) s' := by
  rw [forLoop, if_pos hle, hb]
  simp only [checked_of_inRange hr, Option.bind_some]

theorem forLoop_overflow {fuel : ℕ} {i : ℤ} {s s' : σ} (hle : i ≤ hi)
    (hb : body i s = some (.next s')) (hr : ¬InRange w (i+step)) :
    forLoop w hi step body (fuel+1) i s = none := by
  rw [forLoop, if_pos hle, hb]
  simp only [checked_eq_none hr, Option.bind_none]

/-- A loop with a positive step ends in a state satisfying `Q` when every body
run either stops there or keeps the invariant and moves the counter without
overflow. -/
theorem forLoop_total (Inv : ℤ → σ → Prop) (Q : σ → Prop) (hstep : 0 < step)
    (hbody : ∀ i s, i ≤ hi → Inv i s →
      (∃ s', body i s = some (.stop s') ∧ Q s') ∨
      (∃ s', body i s = some (.next s') ∧ InRange w (i+step) ∧ Inv (i+step) s'))
    (hexit : ∀ i s, hi < i → Inv i s → Q s) :
    ∀ (fuel : ℕ) (i : ℤ) (s : σ), Inv i s → hi-i+1 < fuel → 0 < fuel →
      ∃ s', forLoop w hi step body fuel i s = some s' ∧ Q s' := by
  intro fuel
  induction fuel with
  | zero => intro i s _ _ h0; omega
  | succ fuel ih =>
    intro i s hinv hfuel _
    by_cases hle : i ≤ hi
    · rcases hbody i s hle hinv with ⟨s', hb, hq⟩ | ⟨s', hb, hr, hinv'⟩
      · exact ⟨s', forLoop_stop hle hb, hq⟩
      · rw [forLoop_next hle hb hr]
        exact ih (i+step) s' hinv' (by push_cast at hfuel; omega) (by push_cast at hfuel; omega)
    · exact ⟨s, forLoop_exit (by omega), hexit i s (by omega) hinv⟩

/-- A loop whose body always continues below the bound, from every counter it
can move to without overflow, returns on no amount of fuel. -/
theorem forLoop_diverges (Inv : ℤ → σ → Prop)
    (hbody : ∀ i s, Inv i s → i ≤ hi ∧
      ∃ s', body i s = some (.next s') ∧ (InRange w (i+step) → Inv (i+step) s')) :
    ∀ (fuel : ℕ) (i : ℤ) (s : σ), Inv i s → forLoop w hi step body fuel i s = none := by
  intro fuel
  induction fuel with
  | zero => intro i s _; rfl
  | succ fuel ih =>
    intro i s hinv
    obtain ⟨hle, s', hb, hnext⟩ := hbody i s hinv
    by_cases hr : InRange w (i+step)
    · rw [forLoop_next hle hb hr]
      exact ih (i+step) s' (hnext hr)
    · exact forLoop_overflow hle hb hr

end Rules

/-- A sum taken from the left. -/
def checkedSum (w : ℕ) : List ℤ → ℤ → Option ℤ
  | [], s => some s
  | x :: xs, s => (checked w (s+x)).bind (checkedSum w xs)

theorem checkedSum_some {w : ℕ} {xs : List ℤ} {s t : ℤ} (h : checkedSum w xs s = some t) :
    t = s+xs.sum := by
  induction xs generalizing s with
  | nil =>
    rw [List.sum_nil, add_zero]
    exact (Option.some.inj h).symm
  | cons x xs ih =>
    rw [checkedSum, Option.bind_eq_some_iff] at h
    obtain ⟨s', hs', h⟩ := h
    rw [ih h, ← (checked_eq_some_iff.mp hs').2, List.sum_cons, add_assoc]

/-- Nothing overflows on the way to a total of terms that are not negative when the total
fits. -/
theorem checkedSum_of_nonneg {w : ℕ} {xs : List ℤ} {s : ℤ} (hxs : ∀ x ∈ xs, 0 ≤ x)
    (h0 : 0 ≤ s) (hs : InRange w s) : checkedSum w xs s = checked w (s+xs.sum) := by
  induction xs generalizing s with
  | nil => simp [checkedSum, checked_of_inRange hs]
  | cons x xs ih =>
    obtain ⟨hx, hrest⟩ := List.forall_mem_cons.mp hxs
    have hsum := List.sum_nonneg hrest
    rw [checkedSum, List.sum_cons, ← add_assoc]
    by_cases hr : InRange w (s+x)
    · rw [checked_of_inRange hr]
      exact ih hrest (by omega) hr
    · have hbig : ¬InRange w (s+x+xs.sum) := by
        intro hin
        obtain ⟨hlo, -⟩ := hs
        obtain ⟨-, hhi⟩ := hin
        exact hr ⟨by omega, by omega⟩
      rw [checked_eq_none hr, checked_eq_none hbig]
      rfl

end MachineInt
