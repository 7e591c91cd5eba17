import Mathlib.Tactic

/-! A bucket that leaks one unit a round and is poured into. It is full from the pour on that brings
its level to the limit, and then it leaks no more. -/
namespace LeakyBucket

@[ext]
structure Bucket where
  level : ℤ
  full : Bool
deriving DecidableEq, Repr

def leak (b : Bucket) : Bucket :=
  if b.full = false ∧ 0 < b.level then {b with level := b.level-1} else b

def pour (limit amount : ℤ) (b : Bucket) : Bucket where
  level := min limit (b.level+amount)
  full := b.full || decide (limit ≤ min limit (b.level+amount))

/-- It leaks once and is then poured into a number of times. -/
def round (limit amount : ℤ) (pours : ℕ) (b : Bucket) : Bucket :=
  (pour limit amount)^[pours] (leak b)

/-- The bucket after a number of rounds. -/
def rounds (limit amount : ℤ) (pours : ℕ → ℕ) (b : Bucket) : ℕ → Bucket
  | 0 => b
  | n+1 => round limit amount (pours n) (rounds limit amount pours b n)

variable {limit amount : ℤ} {pours pours' : ℕ → ℕ} {b c d : Bucket}

theorem rounds_congr {n : ℕ} (h : ∀ i < n, pours i = pours' i) :
    rounds limit amount pours b n = rounds limit amount pours' b n := by
  induction n with
  | zero => rfl
  | succ n ih =>
    rw [rounds, rounds, h n n.lt_succ_self, ih fun i hi => h i (hi.trans n.lt_succ_self)]

/-- Rounds without a pour only leak. -/
theorem rounds_quiet {m n : ℕ} (h : ∀ i, m ≤ i → i < m+n → pours i = 0) :
    rounds limit amount pours b (m+n) = leak^[n] (rounds limit amount pours b m) := by
  induction n with
  | zero => rfl
  | succ n ih =>
    have hlast : pours (m+n) = 0 := h (m+n) (by omega) (by omega)
    rw [← Nat.add_assoc, rounds, hlast, ih fun i hm hi => h i hm (by omega),
      Function.iterate_succ_apply']
    rfl

theorem rounds_poured {m : ℕ} (h : pours m = 1) :
    rounds limit amount pours b (m+1) =
      pour limit amount (leak (rounds limit amount pours b m)) := by
  rw [rounds, h]
  rfl

/-! ### More pours fill it no later -/

/-- The second bucket is full, or neither of them is and it has no less in it. -/
def Below (b c : Bucket) : Prop := c.full = true ∨ b.full = false ∧ b.level ≤ c.level

theorem below_refl (b : Bucket) : Below b b := by
  cases hb : b.full with
  | true => exact Or.inl hb
  | false => exact Or.inr ⟨hb, le_rfl⟩

theorem Below.trans (h : Below b c) (h' : Below c d) : Below b d := by
  rcases h' with hd | ⟨hc, hle'⟩
  · exact Or.inl hd
  · rcases h with hc' | ⟨hb, hle⟩
    · rw [hc] at hc'
      exact absurd hc' Bool.false_ne_true
    · exact Or.inr ⟨hb, hle.trans hle'⟩

theorem leak_full (b : Bucket) : (leak b).full = b.full := by
  rw [leak]
  split_ifs <;> rfl

theorem leak_level (h : b.full = false) :
    (leak b).level = if 0 < b.level then b.level-1 else b.level := by
  rw [leak]
  simp only [h, true_and]
  split_ifs <;> rfl

theorem leak_mono (h : Below b c) : Below (leak b) (leak c) := by
  rcases h with hc | ⟨hb, hle⟩
  · exact Or.inl ((leak_full c).trans hc)
  · cases hc : c.full with
    | true => exact Or.inl ((leak_full c).trans hc)
    | false =>
      refine Or.inr ⟨(leak_full b).trans hb, ?_⟩
      rw [leak_level hb, leak_level hc]
      split_ifs <;> omega

theorem pour_mono (h : Below b c) : Below (pour limit amount b) (pour limit amount c) := by
  rcases h with hc | ⟨hb, hle⟩
  · exact Or.inl (Bool.or_eq_true_iff.mpr (Or.inl hc))
  · by_cases hfull : limit ≤ c.level+amount
    · refine Or.inl (Bool.or_eq_true_iff.mpr (Or.inr (decide_eq_true ?_)))
      exact le_min le_rfl hfull
    · refine Or.inr ⟨?_, min_le_min le_rfl (by omega)⟩
      have hnot : ¬limit ≤ min limit (b.level+amount) := by
        rw [le_min_iff]
        omega
      rw [pour, hb, decide_eq_false hnot]
      rfl

theorem below_pour (hamount : 0 ≤ amount) (b : Bucket) : Below b (pour limit amount b) := by
  cases hb : b.full with
  | true => exact Or.inl (Bool.or_eq_true_iff.mpr (Or.inl hb))
  | false =>
    by_cases hfull : limit ≤ b.level+amount
    · refine Or.inl (Bool.or_eq_true_iff.mpr (Or.inr (decide_eq_true ?_)))
      exact le_min le_rfl hfull
    · refine Or.inr ⟨hb, ?_⟩
      exact le_min (by omega) (by omega)

theorem iterate_pour_mono (hamount : 0 ≤ amount) (h : Below b c) {m n : ℕ} (hmn : m ≤ n) :
    Below ((pour limit amount)^[m] b) ((pour limit amount)^[n] c) := by
  induction hmn with
  | refl =>
    induction m with
    | zero => exact h
    | succ m ih =>
      rw [Function.iterate_succ_apply', Function.iterate_succ_apply']
      exact pour_mono ih
  | step _ ih =>
    rw [Function.iterate_succ_apply']
    exact ih.trans (below_pour hamount _)

theorem rounds_mono (hamount : 0 ≤ amount) {n : ℕ} (h : ∀ i < n, pours i ≤ pours' i) :
    Below (rounds limit amount pours b n) (rounds limit amount pours' b n) := by
  induction n with
  | zero => exact below_refl b
  | succ n ih =>
    have hrest := ih fun i hi => h i (hi.trans n.lt_succ_self)
    exact iterate_pour_mono hamount (leak_mono hrest) (h n n.lt_succ_self)

theorem Below.full (h : Below b c) (hb : b.full = true) : c.full = true := by
  rcases h with hc | ⟨hnot, _⟩
  · exact hc
  · rw [hb] at hnot
    exact absurd hnot.symm Bool.false_ne_true

/-! ### Three pours with rounds between them -/

theorem iterate_leak (n : ℕ) (h : b.full = false) :
    (leak^[n] b).full = false ∧
      (leak^[n] b).level = if 0 < b.level then max (b.level-n) 0 else b.level := by
  induction n with
  | zero =>
    refine ⟨h, ?_⟩
    rw [Function.iterate_zero_apply]
    split_ifs <;> omega
  | succ n ih =>
    obtain ⟨hfull, hlevel⟩ := ih
    rw [Function.iterate_succ_apply']
    refine ⟨(leak_full _).trans hfull, ?_⟩
    rw [leak_level hfull, hlevel]
    split_ifs <;> omega

theorem pour_full_iff (h : b.full = false) :
    (pour limit amount b).full = true ↔ limit ≤ b.level+amount := by
  rw [pour, h, Bool.false_or, decide_eq_true_iff, le_min_iff]
  exact and_iff_right le_rfl

theorem pour_level (h : b.level+amount < limit) : (pour limit amount b).level = b.level+amount :=
  min_eq_right h.le

theorem iterate_leak_full (n : ℕ) (h : b.full = true) : (leak^[n] b).full = true := by
  induction n with
  | zero => exact h
  | succ n ih =>
    rw [Function.iterate_succ_apply', leak_full]
    exact ih

theorem pour_full (h : b.full = true) : (pour limit amount b).full = true :=
  Bool.or_eq_true_iff.mpr (Or.inl h)

/-- One pour a round in three rounds, the later ones `d` and `e` rounds after the one before. -/
def spaced (d e n : ℕ) : ℕ := if n = 0 ∨ n = d ∨ n = d+e then 1 else 0

theorem rounds_spaced {d e : ℕ} (hd : 0 < d) (he : 0 < e) :
    rounds limit amount (spaced d e) b (d+e+1) =
      pour limit amount (leak^[e] (pour limit amount (leak^[d] (pour limit amount (leak b))))) := by
  have hquiet (m n : ℕ) (hm : ∀ i, m ≤ i → i < m+n → ¬(i = 0 ∨ i = d ∨ i = d+e)) :
      rounds limit amount (spaced d e) b (m+n) =
        leak^[n] (rounds limit amount (spaced d e) b m) :=
    rounds_quiet fun i hi hn => if_neg (hm i hi hn)
  have hpoured (m : ℕ) (hm : m = 0 ∨ m = d ∨ m = d+e) :
      rounds limit amount (spaced d e) b (m+1) =
        pour limit amount (leak (rounds limit amount (spaced d e) b m)) :=
    rounds_poured (if_pos hm)
  -- the quiet rounds and the leak of the round with the next pour
  have hleaks (m n : ℕ) (hn : 0 < n)
      (hm : ∀ i, m < i → i < m+n → ¬(i = 0 ∨ i = d ∨ i = d+e)) :
      leak (rounds limit amount (spaced d e) b (m+n)) =
        leak^[n] (rounds limit amount (spaced d e) b (m+1)) := by
    have hsum : m+1+(n-1) = m+n := by omega
    have hrun := hquiet (m+1) (n-1) fun i hi hin => hm i (by omega) (by omega)
    rw [hsum] at hrun
    rw [hrun, ← Function.iterate_succ_apply' leak, Nat.succ_eq_add_one, Nat.sub_add_cancel hn]
  have hfirst : rounds limit amount (spaced d e) b (0+1) = pour limit amount (leak b) :=
    hpoured 0 (Or.inl rfl)
  have hsecond := hleaks 0 d hd fun i hi hid => by omega
  have hthird := hleaks d e he fun i hi hie => by omega
  rw [hpoured (d+e) (by omega), hthird, hpoured d (by omega)]
  rw [Nat.zero_add] at hsecond
  rw [hsecond, ← hfirst]

/-- When three pours into a bucket with a level of `a` fill it: the first one does, or the first
two, or the last two, or all three do. -/
def Fills (limit amount a : ℤ) (d e : ℕ) : Prop :=
  limit ≤ a+amount ∨ limit+d ≤ a+2*amount ∨ limit+e ≤ 2*amount+min 0 (a+amount) ∨
    limit+d+e ≤ a+3*amount

theorem full_iff_fills (hamount : 0 < amount) (hlimit : amount < limit) {d e : ℕ}
    (h : b.full = false) :
    (pour limit amount (leak^[e]
        (pour limit amount (leak^[d] (pour limit amount b))))).full = true ↔
      Fills limit amount b.level d e := by
  rw [Fills]
  by_cases hone : limit ≤ b.level+amount
  · have hfull := iterate_leak_full d ((pour_full_iff h).mpr hone)
    have hfull' := iterate_leak_full e (@pour_full limit amount _ hfull)
    exact iff_of_true (pour_full hfull') (Or.inl hone)
  · have hnot : (pour limit amount b).full = false :=
      Bool.eq_false_iff.mpr fun hfull => hone ((pour_full_iff h).mp hfull)
    have hlevel := pour_level (lt_of_not_ge hone)
    obtain ⟨hnot₁, hlevel₁⟩ := iterate_leak d hnot
    generalize leak^[d] (pour limit amount b) = b₁ at hnot₁ hlevel₁
    rw [hlevel] at hlevel₁
    by_cases htwo : limit ≤ b₁.level+amount
    · have hfull := iterate_leak_full e ((pour_full_iff hnot₁).mpr htwo)
      refine iff_of_true (pour_full hfull) (Or.inr (Or.inl ?_))
      split_ifs at hlevel₁ <;> omega
    · have hnot' : (pour limit amount b₁).full = false :=
        Bool.eq_false_iff.mpr fun hfull => htwo ((pour_full_iff hnot₁).mp hfull)
      have hlevel' := pour_level (lt_of_not_ge htwo)
      obtain ⟨hnot₂, hlevel₂⟩ := iterate_leak e hnot'
      rw [pour_full_iff hnot₂, hlevel₂, hlevel']
      split_ifs at hlevel₁ ⊢ <;> omega

theorem rounds_spaced_full_iff (hamount : 0 < amount) (hlimit : amount < limit) {d e : ℕ}
    (hd : 0 < d) (he : 0 < e) (h : b.full = false) :
    (rounds limit amount (spaced d e) b (d+e+1)).full = true ↔
      Fills limit amount (leak b).level d e := by
  rw [rounds_spaced hd he]
  exact full_iff_fills hamount hlimit ((leak_full b).trans h)

/-- Further pours, before, between or with the three, do not keep it from filling. -/
theorem rounds_full_of_fills (hamount : 0 < amount) (hlimit : amount < limit) {d e : ℕ}
    (hd : 0 < d) (he : 0 < e) (h : b.full = false)
    (hpours : ∀ i < d+e+1, spaced d e i ≤ pours i)
    (hfills : Fills limit amount (leak b).level d e) :
    (rounds limit amount pours b (d+e+1)).full = true :=
  (rounds_mono hamount.le hpours).full
    ((rounds_spaced_full_iff hamount hlimit hd he h).mpr hfills)

end LeakyBucket
