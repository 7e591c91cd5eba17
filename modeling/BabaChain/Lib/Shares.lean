import BabaChain.Lib.MachineInt

/-! Shares of a reward in proportion to stakes. Each is truncated towards zero, and the
remainders of the divisions are what the shares leave of the reward. -/
namespace Shares

/-- The share of the stake `s` in the reward `R`, out of the total stake `T`. -/
def share (R T s : ℤ) : ℤ := (R*s).tdiv T

/-- What the truncation cuts off, in units of one `T`-th. -/
def rest (R T s : ℤ) : ℤ := (R*s).tmod T

variable {R T s : ℤ} {ss : List ℤ}

theorem mul_share_add_rest (R T s : ℤ) : T*share R T s+rest R T s = R*s :=
  Int.mul_tdiv_add_tmod (R*s) T

theorem mul_sum_add_rests (R T : ℤ) (ss : List ℤ) :
    T*(ss.map (share R T)).sum+(ss.map (rest R T)).sum = R*ss.sum := by
  induction ss with
  | nil => rw [List.map_nil, List.map_nil, List.sum_nil, mul_zero, mul_zero, add_zero]
  | cons s ss ih =>
    rw [List.map_cons, List.map_cons, List.sum_cons, List.sum_cons, List.sum_cons]
    linarith [mul_share_add_rest R T s]

theorem share_nonneg (hR : 0 ≤ R) (hT : 0 ≤ T) (hs : 0 ≤ s) : 0 ≤ share R T s :=
  Int.tdiv_nonneg (mul_nonneg hR hs) hT

theorem rest_nonneg (hR : 0 ≤ R) (hs : 0 ≤ s) : 0 ≤ rest R T s :=
  Int.tmod_nonneg T (mul_nonneg hR hs)

theorem abs_rest_lt (hT : T ≠ 0) : |rest R T s| < |T| := by
  have h := Int.natAbs_tmod (R*s) T
  have hlt : (R*s).natAbs % T.natAbs < T.natAbs := Nat.mod_lt _ (Int.natAbs_pos.mpr hT)
  rw [rest, Int.abs_eq_natAbs, Int.abs_eq_natAbs, h]
  exact_mod_cast hlt

theorem share_mono (hR : 0 ≤ R) (hT : 0 < T) (hs : 0 ≤ s) {s' : ℤ} (hle : s ≤ s') :
    share R T s ≤ share R T s' := by
  rw [share, share, Int.tdiv_eq_ediv_of_nonneg (mul_nonneg hR hs),
    Int.tdiv_eq_ediv_of_nonneg (mul_nonneg hR (hs.trans hle))]
  exact Int.ediv_le_ediv hT (mul_le_mul_of_nonneg_left hle hR)

theorem sum_shares_nonneg (hR : 0 ≤ R) (hT : 0 ≤ T) (hss : ∀ s ∈ ss, 0 ≤ s) :
    0 ≤ (ss.map (share R T)).sum := by
  refine List.sum_nonneg fun q hq => ?_
  obtain ⟨s, hs, rfl⟩ := List.mem_map.mp hq
  exact share_nonneg hR hT (hss s hs)

theorem sum_rests_nonneg (hR : 0 ≤ R) (hss : ∀ s ∈ ss, 0 ≤ s) : 0 ≤ (ss.map (rest R T)).sum := by
  refine List.sum_nonneg fun q hq => ?_
  obtain ⟨s, hs, rfl⟩ := List.mem_map.mp hq
  exact rest_nonneg hR (hss s hs)

/-- The shares of stakes that are not negative do not exceed the reward. -/
theorem sum_shares_le (hR : 0 ≤ R) (hT : 0 < T) (hss : ∀ s ∈ ss, 0 ≤ s) (hsum : ss.sum ≤ T) :
    (ss.map (share R T)).sum ≤ R := by
  have htotal := mul_sum_add_rests R T ss
  have hrests := sum_rests_nonneg (T := T) hR hss
  have hle : R*ss.sum ≤ R*T := mul_le_mul_of_nonneg_left hsum hR
  exact le_of_mul_le_mul_left (by linarith) hT

/-- They give out all of it exactly when every division leaves nothing. -/
theorem sum_shares_eq_iff (hR : 0 ≤ R) (hss : ∀ s ∈ ss, 0 ≤ s) (hT : 0 < ss.sum) :
    (ss.map (share R ss.sum)).sum = R ↔ ∀ s ∈ ss, ss.sum ∣ R*s := by
  have htotal := mul_sum_add_rests R ss.sum ss
  have hrests : (ss.map (rest R ss.sum)).sum = 0 ↔ ∀ s ∈ ss, ss.sum ∣ R*s := by
    constructor
    · intro hzero s hs
      refine Int.dvd_of_tmod_eq_zero (List.all_zero_of_le_zero_le_of_sum_eq_zero ?_ hzero
        (List.mem_map_of_mem hs))
      intro m hm
      obtain ⟨s', hs', rfl⟩ := List.mem_map.mp hm
      exact rest_nonneg hR (hss s' hs')
    · intro hdvd
      refine List.sum_eq_zero fun m hm => ?_
      obtain ⟨s', hs', rfl⟩ := List.mem_map.mp hm
      exact Int.tmod_eq_zero_of_dvd (hdvd s' hs')
  rw [← hrests]
  constructor
  · intro h
    rw [h] at htotal
    linarith
  · intro h
    rw [h, add_zero, mul_comm R] at htotal
    exact mul_left_cancel₀ hT.ne' htotal

section Signed

/-! A total may be negative too, where stakes may be. Its sign goes into the products. -/

theorem sign_mul_self_eq_abs (T : ℤ) : T.sign*T = |T| := by
  rw [Int.sign_mul_self, Int.abs_eq_natAbs]

theorem share_eq_sign_mul (R T s : ℤ) : share R T s = (T.sign*(R*s)).tdiv |T| := by
  rcases lt_trichotomy T 0 with hT | rfl | hT
  · rw [Int.sign_eq_neg_one_of_neg hT, abs_of_neg hT, neg_one_mul, Int.neg_tdiv_neg, share]
  · rw [share, abs_zero, Int.tdiv_zero, Int.tdiv_zero]
  · rw [Int.sign_eq_one_of_pos hT, abs_of_pos hT, one_mul, share]

theorem sign_mul_eq (R T s : ℤ) : T.sign*(R*s) = |T| * share R T s+T.sign*rest R T s := by
  rw [← mul_share_add_rest R T s, mul_add, ← mul_assoc, sign_mul_self_eq_abs]

theorem sign_mul_sum_rests (R : ℤ) (ss : List ℤ) :
    ss.sum.sign*(ss.map (rest R ss.sum)).sum = |ss.sum| * (R-(ss.map (share R ss.sum)).sum) := by
  have htotal := mul_sum_add_rests R ss.sum ss
  have hrests : (ss.map (rest R ss.sum)).sum = ss.sum*(R-(ss.map (share R ss.sum)).sum) := by
    linarith
  rw [hrests, ← mul_assoc, sign_mul_self_eq_abs]

theorem abs_sign_mul_rest_lt (hT : T ≠ 0) : |T.sign*rest R T s| < |T| := by
  have hsign : |T.sign| = 1 := by
    rcases Int.lt_or_gt_of_ne hT with h | h
    · rw [Int.sign_eq_neg_one_of_neg h, abs_neg, abs_one]
    · rw [Int.sign_eq_one_of_pos h, abs_one]
  rw [abs_mul, hsign, one_mul]
  exact abs_rest_lt hT

/-- A share is not negative exactly when the exact one is more than minus one. -/
theorem share_nonneg_iff (hT : T ≠ 0) : 0 ≤ share R T s ↔ -|T| < T.sign*(R*s) := by
  constructor
  · intro h
    have hmul : 0 ≤ |T| * share R T s := mul_nonneg (abs_nonneg T) h
    rw [sign_mul_eq]
    linarith [neg_lt_of_abs_lt (abs_sign_mul_rest_lt (R := R) (s := s) hT)]
  · intro h
    rw [share_eq_sign_mul]
    rcases le_or_gt 0 (T.sign*(R*s)) with hnonneg | hneg
    · exact Int.tdiv_nonneg hnonneg (abs_nonneg T)
    · -- the truncation of a number between minus one and zero is zero
      rw [← neg_neg (T.sign*(R*s)), Int.neg_tdiv,
        Int.tdiv_eq_zero_of_lt (by linarith) (by linarith), neg_zero]

/-- Two shares of one reward, where the one stake is at most as far below zero as the other
is above. -/
theorem neg_share_le (hR : 0 ≤ R) (hT : T < 0) {s' : ℤ} (hs : 0 ≤ s) (hle : s ≤ -s') :
    -share R T s ≤ share R T s' := by
  have hsign : ∀ x, share R T x = share R (-T) (-x) := by
    intro x
    rw [share, share, mul_neg, Int.neg_tdiv_neg]
  rw [hsign s', share, ← Int.tdiv_neg]
  exact share_mono hR (neg_pos.mpr hT) hs hle

end Signed

/-- A part of a list sums up to no less than the one entry of the list that may be negative. -/
theorem min_le_sum_of_sublist {a b p : List ℤ} {x : ℤ} (ha : ∀ y ∈ a, 0 ≤ y) (hb : ∀ y ∈ b, 0 ≤ y)
    (hp : p.Sublist (a++x :: b)) : min 0 x ≤ p.sum := by
  obtain ⟨p₁, p₂, rfl, h₁, h₂⟩ := List.sublist_append_iff.mp hp
  have hfirst : 0 ≤ p₁.sum := List.sum_nonneg fun y hy => ha y (h₁.subset hy)
  rw [List.sum_append]
  rcases List.sublist_cons_iff.mp h₂ with h | ⟨p₃, rfl, h⟩
  · have hsecond : 0 ≤ p₂.sum := List.sum_nonneg fun y hy => hb y (h.subset hy)
    omega
  · have hthird : 0 ≤ p₃.sum := List.sum_nonneg fun y hy => hb y (h.subset hy)
    rw [List.sum_cons]
    omega

/-- All entries of a list but one are not negative. -/
def NonnegBut (qs : List ℤ) (i : ℕ) : Prop := ∀ j (hj : j < qs.length), j ≠ i → 0 ≤ qs[j]

section NonnegBut

variable {qs : List ℤ} {i : ℕ}

theorem NonnegBut.set (h : NonnegBut qs i) (j : ℕ) : NonnegBut (qs.set j 0) i := by
  intro k hk hne
  rw [List.getElem_set]
  split_ifs with hj
  · exact le_rfl
  · exact h k (by rwa [List.length_set] at hk) hne

theorem NonnegBut.sum_take_bounds (h : NonnegBut qs i) (hi : i < qs.length) (k : ℕ) :
    min 0 qs[i] ≤ (qs.take k).sum ∧ (qs.take k).sum ≤ qs.sum-min 0 qs[i] := by
  have hsplit : qs.take i++qs[i] :: qs.drop (i+1) = qs := by
    rw [← List.drop_eq_getElem_cons hi, List.take_append_drop]
  have ha : ∀ y ∈ qs.take i, 0 ≤ y := by
    intro y hy
    obtain ⟨j, hj, rfl⟩ := List.mem_take_iff_getElem.mp hy
    exact h j (by omega) (by omega)
  have hb : ∀ y ∈ qs.drop (i+1), 0 ≤ y := by
    intro y hy
    obtain ⟨j, hj, rfl⟩ := List.mem_drop_iff_getElem.mp hy
    exact h _ (by omega) (by omega)
  have hpart : ∀ p : List ℤ, p.Sublist qs → min 0 qs[i] ≤ p.sum := by
    intro p hp
    rw [← hsplit] at hp
    exact min_le_sum_of_sublist ha hb hp
  have htake := hpart _ (List.take_sublist k qs)
  have hdrop := hpart _ (List.drop_sublist k qs)
  have hsum : (qs.take k).sum+(qs.drop k).sum = qs.sum := List.sum_take_add_sum_drop qs k
  omega

theorem NonnegBut.min_le_sum (h : NonnegBut qs i) (hi : i < qs.length) : min 0 qs[i] ≤ qs.sum := by
  have hbounds := (h.sum_take_bounds hi qs.length).1
  rwa [List.take_length] at hbounds

/-- The exception is at most the sum. -/
theorem NonnegBut.getElem_le (h : NonnegBut qs i) (hi : i < qs.length) : qs[i] ≤ qs.sum := by
  have hrest := (h.set i).min_le_sum (by rwa [List.length_set])
  rw [List.getElem_set_self, min_self, List.sum_set', dif_pos hi] at hrest
  linarith

/-- Another entry is at most the sum less the exception. -/
theorem NonnegBut.getElem_le_of_ne (h : NonnegBut qs i) (hi : i < qs.length) {j : ℕ}
    (hj : j < qs.length) (hne : j ≠ i) : qs[j] ≤ qs.sum-min 0 qs[i] := by
  have hrest := (h.set j).min_le_sum (by rwa [List.length_set])
  rw [List.getElem_set_ne hne, List.sum_set', dif_pos hj] at hrest
  linarith

end NonnegBut

/-- How far an amount is from the exact share. -/
theorem abs_sub_exact_lt (hT : T ≠ 0) {r : ℤ} {n : ℕ} (h : |T*r-R*s| < n * |T|) :
    |(r : ℚ)-R*s/T| < n := by
  have hT' : (T : ℚ) ≠ 0 := by exact_mod_cast hT
  have hsub : (r : ℚ)-R*s/T = ((T*r-R*s : ℤ) : ℚ)/T := by
    push_cast
    field_simp
  rw [hsub, abs_div, div_lt_iff₀ (abs_pos.mpr hT')]
  exact_mod_cast h

theorem abs_sum_le {xs : List ℤ} {b : ℤ} (h : ∀ x ∈ xs, |x| ≤ b) : |xs.sum| ≤ xs.length*b := by
  induction xs with
  | nil => simp
  | cons x xs ih =>
    obtain ⟨hx, hxs⟩ := List.forall_mem_cons.mp h
    rw [List.sum_cons, List.length_cons]
    push_cast
    linarith [abs_add_le x xs.sum, ih hxs]

end Shares
