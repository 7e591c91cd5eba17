import BabaChain.ValidatorSelection

/-! How often each validator is selected, over all assignments of selection hashes. -/
namespace BabaChain.PoS
open Contest

section Gap

variable {n a b S sp sm : ℤ}

/-- Two validators: the larger stake has at most `b` times the smaller one. -/
theorem stake_gap_two (hb : S < (b+1)*sm) (hb2 : 2 ≤ b) (hsm : 1 ≤ sm) (hsum : sp+sm ≤ S) :
    2^100*sp*(2^64+2) < (2^100-1)*(2*b-1)*((2^64-2)*sm) := by
  have hsp : sp < b*sm := by linarith
  have hcoef : 2^100*(2^64+2)*b ≤ (2^100-1)*(2^64-2)*(2*b-1) := by omega
  calc 2^100*sp*(2^64+2) = 2^100*(2^64+2)*sp := by ring
    _ < 2^100*(2^64+2)*(b*sm) := mul_lt_mul_of_pos_left hsp (by norm_num)
    _ = 2^100*(2^64+2)*b*sm := by ring
    _ ≤ (2^100-1)*(2^64-2)*(2*b-1)*sm := mul_le_mul_of_nonneg_right hcoef (by omega)
    _ = (2^100-1)*(2*b-1)*((2^64-2)*sm) := by ring

/-- Three validators or more, as long as the tolerance stays below a quarter. -/
theorem stake_gap_moderate (hn : 3 ≤ n) (hn' : n ≤ 2^62) (ha : a ≤ n-1) (hsp : a*sp ≤ S)
    (hb : S < (b+1)*sm) (hnb : n ≤ b) (hsm : 1 ≤ sm) :
    2^100*(a*sp)*(2^64+n) < (2^100-1)*(a+n*(b-a))*((2^64-n)*sm) := by
  obtain ⟨c, rfl⟩ : ∃ c, b = n+c := ⟨b-n, by ring⟩
  have hc : 0 ≤ c := by linarith
  have h64 : 0 < (2:ℤ)^64-n := by linarith
  have hX : n*c+2*n-1 ≤ a+n*(n+c-a) := by nlinarith
  have hsquare : 31*(n*n)+n ≤ 2^64*(9*n-21) := by
    rcases le_or_gt n 16 with h | h
    · have hsmall : n*n ≤ 16*16 := by nlinarith
      linarith
    · have hlarge : n*n ≤ 2^62*n := by nlinarith
      linarith
  -- both coefficients of `c` and what is left leave a tenth over
  have hconst : 11*((n+1)*(2^64+n)) ≤ 10*((2*n-1)*(2^64-n)) := by nlinarith
  have hslope : 11*(2^64+n) ≤ 10*(n*(2^64-n)) := by
    have hthree : 3*(2^64-n) ≤ n*(2^64-n) := mul_le_mul_of_nonneg_right hn h64.le
    linarith
  have hcoef : 11*((n+1+c)*(2^64+n)) ≤ 10*((n*c+2*n-1)*(2^64-n)) := by
    have hscaled := mul_le_mul_of_nonneg_left hslope hc
    linarith
  have hfactor : 2^100*((n+1+c)*(2^64+n)) ≤ (2^100-1)*((n*c+2*n-1)*(2^64-n)) := by
    have hnonneg : 0 ≤ (n*c+2*n-1)*(2^64-n) := mul_nonneg (by nlinarith) h64.le
    linarith
  have hstake : a*sp < (n+c+1)*sm := by linarith
  calc 2^100*(a*sp)*(2^64+n) = 2^100*(2^64+n)*(a*sp) := by ring
    _ < 2^100*(2^64+n)*((n+c+1)*sm) := mul_lt_mul_of_pos_left hstake (by positivity)
    _ = 2^100*((n+1+c)*(2^64+n))*sm := by ring
    _ ≤ (2^100-1)*((n*c+2*n-1)*(2^64-n))*sm := mul_le_mul_of_nonneg_right hfactor (by linarith)
    _ ≤ (2^100-1)*((a+n*(n+c-a))*(2^64-n))*sm := by
        apply mul_le_mul_of_nonneg_right _ (by linarith)
        apply mul_le_mul_of_nonneg_left _ (by norm_num)
        exact mul_le_mul_of_nonneg_right hX h64.le
    _ = (2^100-1)*(a+n*(n+c-a))*((2^64-n)*sm) := by ring

/-- So many validators that the smallest stake is one satoshi. -/
theorem stake_gap_large (hn : 2^62 < n) (hn' : n < 2^63) (ha : 1 ≤ a) (hsp : 2 ≤ sp)
    (hasp : a*sp ≤ S) :
    2^100*(a*sp)*(2^64+n) < (2^100-1)*(a+n*(S-a))*((2^64-n)*1) := by
  have htwice : 2*a ≤ S := by nlinarith
  have hS : 0 < S := by linarith
  have hX : n*S ≤ 2*(a+n*(S-a)) := by nlinarith
  have h64 : 0 < (2:ℤ)^64-n := by linarith
  have hcoef : 2*(2^100*(2^64+n)) < (2^100-1)*(n*(2^64-n)) := by nlinarith
  have hscaled := mul_lt_mul_of_pos_right hcoef hS
  have hstake : 2^100*(2^64+n)*(a*sp) ≤ 2^100*(2^64+n)*S :=
    mul_le_mul_of_nonneg_left hasp (by positivity)
  have hquot : (2^100-1)*(n*S)*(2^64-n) ≤ (2^100-1)*(2*(a+n*(S-a)))*(2^64-n) := by
    apply mul_le_mul_of_nonneg_right _ h64.le
    exact mul_le_mul_of_nonneg_left hX (by norm_num)
  linarith

/-- The largest stake against the smallest, where these differ. -/
theorem stake_gap (hn : 2 ≤ n) (ha : 1 ≤ a) (hasp : a*sp ≤ S) (han : a ≤ n-1)
    (hb : S < (b+1)*sm) (hbsm : b*sm ≤ S) (hnb : n ≤ b) (hsm : 1 ≤ sm) (hlt : sm < sp)
    (hsum : sp+sm ≤ S) (hnS : n*sm ≤ S) (hS : S < 2^63) :
    2^100*(a*sp)*(2^64+n) < (2^100-1)*(a+n*(b-a))*((2^64-n)*sm) := by
  rcases le_or_gt n (2^62) with hsmall | hlarge
  · rcases hn.eq_or_lt with rfl | h3
    · obtain rfl : a = 1 := le_antisymm (by linarith) ha
      have h := stake_gap_two hb hnb hsm hsum
      have hX : 1+2*(b-1) = 2*b-1 := by ring
      rwa [hX, one_mul]
    · exact stake_gap_moderate h3 hsmall han hasp hb hnb hsm
  · -- twice as many would exceed the sum of the stakes
    obtain rfl : sm = 1 := by nlinarith
    obtain rfl : b = S := by linarith
    exact stake_gap_large hlarge (by linarith) ha (by linarith) hasp

end Gap

/-- `W` of the assignments are the share of a stake `s` in the sum `S`, up to `n`
parts in `2^64` of it. -/
structure Share (n s S W : ℕ) : Prop where
  low : ((2:ℤ)^64-n)*(s*(2^256)^n) ≤ 2^64*(W*S)
  high : 2^64*((W:ℤ)*S) ≤ (2^64+n)*(s*(2^256)^n)

section Equal

/-- A power slightly below that of `2^256`. -/
theorem low_of_power {n : ℕ} {z w : ℤ} (hz : (n : ℤ) = z) (h0 : 0 < z) (h63 : z < 2^63)
    (hpower : (2^256-2*z)^n ≤ w) : (2^64-z)*(2^256)^n ≤ 2^64*w := by
  have hbernoulli := sub_mul_pow_le (y := 2^256) (d := 2*z) (by positivity) (by linarith) n
  rw [hz] at hbernoulli
  have hcoef : (2^64-z)*2^256 ≤ 2^64*(2^256-z*(2*z)) := by nlinarith
  have hscaled : (2^64-z)*2^256*(2^256)^n ≤ 2^64*(2^256-z*(2*z))*(2^256)^n :=
    mul_le_mul_of_nonneg_right hcoef (by positivity)
  -- both sides times `2^256`
  have h256 : (0:ℤ) < 2^256 := by positivity
  apply le_of_mul_le_mul_right _ h256
  calc (2^64-z)*(2^256)^n*2^256 = (2^64-z)*2^256*(2^256)^n := by ring
    _ ≤ 2^64*((2^256-z*(2*z))*(2^256)^n) := hscaled.trans_eq (by ring)
    _ ≤ 2^64*(2^256*(2^256-2*z)^n) := mul_le_mul_of_nonneg_left hbernoulli (by norm_num)
    _ ≤ 2^64*(2^256*w) := by
        apply mul_le_mul_of_nonneg_left _ (by norm_num)
        exact mul_le_mul_of_nonneg_left hpower h256.le
    _ = 2^64*w*2^256 := by ring

/-- A power slightly above it. -/
theorem high_of_power {n : ℕ} {z w : ℤ} (hz : (n : ℤ) = z) (h0 : 0 < z) (h63 : z < 2^63)
    (hpower : w ≤ (2^256+2*z)^n) : 2^64*w ≤ (2^64+z)*(2^256)^n := by
  have hbernoulli := sub_mul_pow_le (y := 2^256+2*z) (d := 2*z) (by positivity) (by linarith) n
  rw [add_sub_cancel_right, hz] at hbernoulli
  have hpos : 0 < 2^256+2*z-z*(2*z) := by nlinarith
  have hcoef : 2^64*(2^256+2*z) ≤ (2^64+z)*(2^256+2*z-z*(2*z)) := by nlinarith
  have hscaled : 2^64*(2^256+2*z)*(2^256)^n ≤ (2^64+z)*(2^256+2*z-z*(2*z))*(2^256)^n :=
    mul_le_mul_of_nonneg_right hcoef (by positivity)
  -- both sides times the factor that Bernoulli's inequality leaves
  apply le_of_mul_le_mul_left _ hpos
  calc (2^256+2*z-z*(2*z))*(2^64*w) ≤ (2^256+2*z-z*(2*z))*(2^64*(2^256+2*z)^n) := by
        apply mul_le_mul_of_nonneg_left _ hpos.le
        exact mul_le_mul_of_nonneg_left hpower (by norm_num)
    _ = 2^64*((2^256+2*z-z*(2*z))*(2^256+2*z)^n) := by ring
    _ ≤ 2^64*((2^256+2*z)*(2^256)^n) := mul_le_mul_of_nonneg_left hbernoulli (by norm_num)
    _ = 2^64*(2^256+2*z)*(2^256)^n := by ring
    _ ≤ (2^256+2*z-z*(2*z))*((2^64+z)*(2^256)^n) := hscaled.trans_eq (by ring)

/-- Validators with equal stakes all divide by their number. -/
theorem share_of_equal {n c W : ℕ} (hn : 0 < n) (hn' : n < 2^63)
    (hwin : n^n*(2^256/n-1)^n ≤ n*W) (hlead : n*W ≤ n^n*(2^256/n+2)^n) :
    Share n c (n*c) W := by
  have hz0 : (0:ℤ) < n := by exact_mod_cast hn
  have hz63 : (n:ℤ) < 2^63 := by exact_mod_cast hn'
  have hquot : 1 ≤ 2^256/n := (Nat.one_le_div_iff hn).mpr (hn'.le.trans (by norm_num))
  have hdiv := Nat.div_add_mod (2^256) n
  have hmod := Nat.mod_lt (2^256) hn
  have hbelow : (2:ℤ)^256-2*n ≤ (n*(2^256/n-1) : ℕ) := by
    have hsplit : n*(2^256/n-1)+n = n*(2^256/n) := by
      rw [← Nat.mul_add_one, Nat.sub_add_cancel hquot]
    omega
  have habove : ((n*(2^256/n+2) : ℕ) : ℤ) ≤ 2^256+2*n := by
    have hsplit : n*(2^256/n+2) = n*(2^256/n)+2*n := by ring
    omega
  have hlow : ((2:ℤ)^256-2*n)^n ≤ n*W := by
    calc ((2:ℤ)^256-2*n)^n ≤ ((n*(2^256/n-1) : ℕ) : ℤ)^n :=
          pow_le_pow_left₀ (by linarith) hbelow n
      _ ≤ n*W := by
          rw [← Nat.cast_pow, Nat.mul_pow]
          exact_mod_cast hwin
  have hhigh : (n:ℤ)*W ≤ (2^256+2*n)^n := by
    calc (n:ℤ)*W ≤ ((n*(2^256/n+2) : ℕ) : ℤ)^n := by
          rw [← Nat.cast_pow, Nat.mul_pow]
          exact_mod_cast hlead
      _ ≤ (2^256+2*n)^n := pow_le_pow_left₀ (by positivity) habove n
  have hc : (0:ℤ) ≤ c := Int.natCast_nonneg c
  have hlow' := mul_le_mul_of_nonneg_right (low_of_power rfl hz0 hz63 hlow) hc
  have hhigh' := mul_le_mul_of_nonneg_right (high_of_power rfl hz0 hz63 hhigh) hc
  constructor
  · refine le_of_eq_of_le ?_ (hlow'.trans_eq ?_)
    · ring
    · push_cast
      ring
  · refine le_of_eq_of_le ?_ (hhigh'.trans_eq ?_)
    · push_cast
      ring
    · ring

end Equal

section Unequal

variable {n : ℕ} {z a b V S sp sm Wp Wm P X : ℤ}

/-- If both validators had their share, the count of the one would bound that of the
other. -/
theorem cross_shares {T : ℤ} (hT : 0 < T) (hS : 0 < S) (hz : z < 2^64) (hsp : 0 ≤ sp)
    (hsm : 0 ≤ sm) (hz0 : 0 ≤ z) (hhigh : 2^64*(Wp*S) ≤ (2^64+z)*(sp*T))
    (hlow : (2^64-z)*(sm*T) ≤ 2^64*(Wm*S)) :
    Wp*((2^64-z)*sm) ≤ (2^64+z)*sp*Wm := by
  have hfactor : 0 < 2^64*S*T := by positivity
  have hm : 0 ≤ (2^64-z)*(sm*T) := mul_nonneg (by linarith) (by positivity)
  have hp : 0 ≤ (2^64+z)*(sp*T) := by positivity
  apply le_of_mul_le_mul_right _ hfactor
  calc Wp*((2^64-z)*sm)*(2^64*S*T) = 2^64*(Wp*S)*((2^64-z)*(sm*T)) := by ring
    _ ≤ (2^64+z)*(sp*T)*((2^64-z)*(sm*T)) := mul_le_mul_of_nonneg_right hhigh hm
    _ ≤ (2^64+z)*(sp*T)*(2^64*(Wm*S)) := mul_le_mul_of_nonneg_left hlow hp
    _ = (2^64+z)*sp*Wm*(2^64*S*T) := by ring

/-- The counts from above and below, with the powers of neighbouring numbers
cancelled. -/
theorem stakes_of_shares (hn : (n : ℤ) = z) (hV : 2^193 ≤ V) (hz0 : 0 ≤ z) (hz : z < 2^63)
    (hP : 0 < P) (ha : 0 ≤ a) (hsp : 0 ≤ sp) (hsm : 0 ≤ sm) (hX : 0 ≤ X)
    (hwin : P*((V-1)^n*X) ≤ a*(z*Wp)) (hlead : z*Wm ≤ P*(V+2)^n)
    (hcross : Wp*((2^64-z)*sm) ≤ (2^64+z)*sp*Wm) :
    (2^100-1)*X*((2^64-z)*sm) ≤ 2^100*(a*sp)*(2^64+z) := by
  have hK : 0 ≤ (2^64-z)*sm := mul_nonneg (by linarith) hsm
  have hL : 0 ≤ (2^64+z)*sp := by positivity
  have hpowers : (V-1)^n*(X*((2^64-z)*sm)) ≤ a*sp*(2^64+z)*(V+2)^n := by
    apply le_of_mul_le_mul_left _ hP
    calc P*((V-1)^n*(X*((2^64-z)*sm))) = P*((V-1)^n*X)*((2^64-z)*sm) := by ring
      _ ≤ a*(z*Wp)*((2^64-z)*sm) := mul_le_mul_of_nonneg_right hwin hK
      _ = a*z*(Wp*((2^64-z)*sm)) := by ring
      _ ≤ a*z*((2^64+z)*sp*Wm) := mul_le_mul_of_nonneg_left hcross (mul_nonneg ha hz0)
      _ = a*((2^64+z)*sp)*(z*Wm) := by ring
      _ ≤ a*((2^64+z)*sp)*(P*(V+2)^n) := mul_le_mul_of_nonneg_left hlead (mul_nonneg ha hL)
      _ = P*(a*sp*(2^64+z)*(V+2)^n) := by ring
  have hbernoulli := sub_mul_pow_le (y := V+2) (d := 3) (by norm_num) (by linarith) n
  rw [hn, show V+2-3 = V-1 by ring] at hbernoulli
  have hV2 : 0 < V+2 := by linarith
  have hlinear : (V+2-z*3)*(X*((2^64-z)*sm)) ≤ (V+2)*(a*sp*(2^64+z)) := by
    have hpos : 0 < (V+2)^n := pow_pos hV2 n
    apply le_of_mul_le_mul_right _ hpos
    calc (V+2-z*3)*(X*((2^64-z)*sm))*(V+2)^n
        = (V+2-z*3)*(V+2)^n*(X*((2^64-z)*sm)) := by ring
      _ ≤ (V+2)*(V-1)^n*(X*((2^64-z)*sm)) :=
          mul_le_mul_of_nonneg_right hbernoulli (mul_nonneg hX hK)
      _ = (V+2)*((V-1)^n*(X*((2^64-z)*sm))) := by ring
      _ ≤ (V+2)*(a*sp*(2^64+z)*(V+2)^n) := mul_le_mul_of_nonneg_left hpowers hV2.le
      _ = (V+2)*(a*sp*(2^64+z))*(V+2)^n := by ring
  have hslack : (2^100-1)*(V+2) ≤ 2^100*(V+2-z*3) := by linarith
  apply le_of_mul_le_mul_left _ hV2
  calc (V+2)*((2^100-1)*X*((2^64-z)*sm)) = (2^100-1)*(V+2)*(X*((2^64-z)*sm)) := by ring
    _ ≤ 2^100*(V+2-z*3)*(X*((2^64-z)*sm)) :=
        mul_le_mul_of_nonneg_right hslack (mul_nonneg hX hK)
    _ = 2^100*((V+2-z*3)*(X*((2^64-z)*sm))) := by ring
    _ ≤ 2^100*((V+2)*(a*sp*(2^64+z))) := mul_le_mul_of_nonneg_left hlinear (by norm_num)
    _ = (V+2)*(2^100*(a*sp)*(2^64+z)) := by ring

end Unequal

section Shares

open Finset

variable {ι : Type*} [Fintype ι] [DecidableEq ι] {s W : ι → ℕ}

theorem share_of_forall_eq (hs : ∀ i, 0 < s i) (hS : ∑ i, s i < 2^63)
    (hlead : ∀ i, W i ≤ #(leading (2^256) (fun j => (∑ i, s i)/s j) i))
    (hwin : ∀ i, #(winning (2^256) (fun j => (∑ i, s i)/s j) i) ≤ W i)
    (heq : ∀ i j, s i = s j) (k : ι) :
    Share (Fintype.card ι) (s k) (∑ i, s i) (W k) := by
  have hn : 0 < Fintype.card ι := Fintype.card_pos_iff.mpr ⟨k⟩
  have hsum : ∑ i, s i = Fintype.card ι*s k := by
    rw [sum_congr rfl (fun i _ => heq i k), sum_const, card_univ, smul_eq_mul]
  have hq (j : ι) : (∑ i, s i)/s j = Fintype.card ι := by
    rw [hsum, heq j k, Nat.mul_div_cancel _ (hs k)]
  have hn63 : Fintype.card ι < 2^63 := by
    apply lt_of_le_of_lt _ hS
    rw [hsum]
    exact Nat.le_mul_of_pos_right _ (hs k)
  have hquot : 0 < 2^256/Fintype.card ι := Nat.div_pos (hn63.le.trans (by norm_num)) hn
  have hprod : ∏ j, (∑ i, s i)/s j = Fintype.card ι^Fintype.card ι := by
    rw [prod_congr rfl (fun j _ => hq j), prod_const, card_univ]
  have hpos (j : ι) : 0 < (∑ i, s i)/s j := hq j ▸ hn
  have hupper := @card_leading_le ι _ _ (2^256) _ hpos k
  have hlower := @le_card_winning ι _ _ (2^256) _ hpos k _ hquot
    (fun j => by rw [hq j]; exact Nat.mul_div_le _ _)
  rw [hprod, hq k] at hupper hlower
  rw [hsum]
  apply share_of_equal hn hn63
  · apply Nat.le_of_mul_le_mul_left _ hn
    calc Fintype.card ι*(Fintype.card ι^Fintype.card ι*
            (2^256/Fintype.card ι-1)^Fintype.card ι)
        = Fintype.card ι^Fintype.card ι*
            (Fintype.card ι*(2^256/Fintype.card ι-1)^Fintype.card ι) := Nat.mul_left_comm _ _ _
      _ ≤ _ := Nat.mul_le_mul_left _ (Nat.le_add_right _ _)
      _ ≤ _ := hlower
      _ ≤ Fintype.card ι*(Fintype.card ι*W k) :=
          Nat.mul_le_mul_left _ (Nat.mul_le_mul_left _ (hwin k))
  · exact (Nat.mul_le_mul_left _ (hlead k)).trans hupper

/-- Where a stake `s m` is the smallest and `s p` the largest, and they differ, not
both have their share. -/
theorem not_share_of_lt (hs : ∀ i, 0 < s i) (hS : ∑ i, s i < 2^63)
    (hlead : ∀ i, W i ≤ #(leading (2^256) (fun j => (∑ i, s i)/s j) i))
    (hwin : ∀ i, #(winning (2^256) (fun j => (∑ i, s i)/s j) i) ≤ W i) {m p : ι}
    (hm : ∀ i, s m ≤ s i) (hp : ∀ i, s i ≤ s p) (hlt : s m < s p)
    (hsharem : Share (Fintype.card ι) (s m) (∑ i, s i) (W m))
    (hsharep : Share (Fintype.card ι) (s p) (∑ i, s i) (W p)) : False := by
  have hmp : p ≠ m := fun h => hlt.ne (congrArg s h.symm)
  have hnS : Fintype.card ι*s m ≤ ∑ i, s i := by
    have h := card_nsmul_le_sum univ s (s m) fun i _ => hm i
    rwa [card_univ, smul_eq_mul] at h
  have hSn : ∑ i, s i < Fintype.card ι*s p := by
    have h := sum_lt_sum (fun i (_ : i ∈ univ) => hp i) ⟨m, mem_univ m, hlt⟩
    rwa [sum_const, card_univ, smul_eq_mul] at h
  have hpair : s p+s m ≤ ∑ i, s i := by
    rw [← sum_pair hmp]
    exact sum_le_sum_of_subset (subset_univ _)
  -- the divisors: everybody's is between that of `p` and that of `m`
  generalize hSdef : ∑ i, s i = S at *
  have hS0 : 0 < S := (hs p).trans_le ((Nat.le_add_right _ _).trans hpair)
  have hle (i : ι) : s i ≤ S := (hp i).trans ((Nat.le_add_right _ _).trans hpair)
  have hpos (j : ι) : 0 < S/s j := Nat.div_pos (hle j) (hs j)
  have hqb (j : ι) : S/s j ≤ S/s m := Nat.div_le_div_left (hm j) (hs m)
  have hb63 : S/s m < 2^63 := (Nat.div_le_self _ _).trans_lt hS
  -- even the largest divisor leaves a long range of quotients
  have hV193 : 2^193 ≤ 2^256/(S/s m) := by
    rw [Nat.le_div_iff_mul_le (hpos m)]
    calc 2^193*(S/s m) ≤ 2^193*2^63 := Nat.mul_le_mul_left _ hb63.le
      _ = 2^256 := by norm_num
  have hV : 0 < 2^256/(S/s m) := (Nat.two_pow_pos 193).trans_le hV193
  have hbV := Nat.mul_div_le (2^256) (S/s m)
  -- the counts: of `m` from above, of `p` from below
  have hupper := @card_leading_le ι _ _ (2^256) _ hpos m
  have hlower := @le_card_winning ι _ _ (2^256) _ hpos p _ hV
    (fun j => (Nat.mul_le_mul_right _ (hqb j)).trans hbV)
  have hP : 0 < ∏ j, S/s j := prod_pos fun j _ => hpos j
  generalize hn : Fintype.card ι = n at *
  generalize hVdef : 2^256/(S/s m) = V at *
  generalize hPdef : ∏ j, S/s j = P at *
  have hab : S/s p ≤ S/s m := hqb p
  have ha := hpos p
  have hasp := Nat.div_mul_le_self S (s p)
  have hbsm := Nat.div_mul_le_self S (s m)
  have hbS : S < (S/s m+1)*s m := by
    rw [Nat.mul_comm]
    exact Nat.lt_mul_div_succ S (hs m)
  have han : S/s p < n := Nat.div_lt_of_lt_mul (Nat.mul_comm n _ ▸ hSn)
  have hnb : n ≤ S/s m := (Nat.le_div_iff_mul_le (hs m)).mpr hnS
  have hnS' : n ≤ S := hnb.trans (Nat.div_le_self _ _)
  generalize S/s p = a at *
  generalize S/s m = b at *
  -- what is left over above `a*V` is at least `(b-a)*V`
  have hrest : (b-a)*(V-1)^n ≤ (2^256-a*V)*V^(n-1) := by
    have hn1 : n = n-1+1 := by omega
    have hpow : (V-1)^n ≤ V*V^(n-1) := by
      calc (V-1)^n ≤ V^n := Nat.pow_le_pow_left (Nat.sub_le V 1) n
        _ = V*V^(n-1) := by rw [← pow_succ', ← hn1]
    have hover : (b-a)*V ≤ 2^256-a*V := by
      rw [Nat.sub_mul]
      exact Nat.sub_le_sub_right hbV _
    calc (b-a)*(V-1)^n ≤ (b-a)*(V*V^(n-1)) := Nat.mul_le_mul_left _ hpow
      _ = (b-a)*V*V^(n-1) := (Nat.mul_assoc _ _ _).symm
      _ ≤ (2^256-a*V)*V^(n-1) := Nat.mul_le_mul_right _ hover
  have hcount : P*((V-1)^n*(a+n*(b-a))) ≤ a*(n*W p) := by
    calc P*((V-1)^n*(a+n*(b-a))) = P*(a*(V-1)^n+n*((b-a)*(V-1)^n)) := by ring
      _ ≤ P*(a*(V-1)^n+n*((2^256-a*V)*V^(n-1))) :=
          Nat.mul_le_mul_left _ (Nat.add_le_add_left (Nat.mul_le_mul_left _ hrest) _)
      _ ≤ _ := hlower
      _ ≤ a*(n*W p) := Nat.mul_le_mul_left _ (Nat.mul_le_mul_left _ (hwin p))
  have hcount' : n*W m ≤ P*(V+2)^n := (Nat.mul_le_mul_left _ (hlead m)).trans hupper
  -- both shares together would bound the one count by the other
  have hcross := cross_shares (T := (2^256)^n) (by positivity) (by exact_mod_cast hS0)
    (by omega) (Int.natCast_nonneg _) (Int.natCast_nonneg _) (Int.natCast_nonneg _)
    hsharep.high hsharem.low
  -- the same over the integers, where the differences need no side condition
  have hV1 : 1 ≤ V := hV
  have hcountZ : (P:ℤ)*(((V:ℤ)-1)^n*((a:ℤ)+n*((b:ℤ)-a))) ≤ a*(n*W p) := by
    have h : ((P*((V-1)^n*(a+n*(b-a))) : ℕ) : ℤ) ≤ (a*(n*W p) : ℕ) := by exact_mod_cast hcount
    push_cast [Nat.cast_sub hV1, Nat.cast_sub hab] at h
    exact h
  have hcountZ' : (n:ℤ)*W m ≤ P*((V:ℤ)+2)^n := by exact_mod_cast hcount'
  have hX : 0 ≤ (a:ℤ)+n*((b:ℤ)-a) := by
    have hba : (0:ℤ) ≤ (b:ℤ)-a := by omega
    positivity
  have hstakes := stakes_of_shares (n := n) rfl (by exact_mod_cast hV193) (Int.natCast_nonneg _)
    (by omega) (by exact_mod_cast hP) (Int.natCast_nonneg _) (Int.natCast_nonneg _)
    (Int.natCast_nonneg _) hX hcountZ hcountZ' hcross
  -- but the stakes differ by more than the rounding allows
  have hn2 : 2 ≤ n := by omega
  apply not_le.mpr _ hstakes
  apply stake_gap (S := (S:ℤ)) (by omega) (by omega) (by exact_mod_cast hasp) (by omega)
    (by exact_mod_cast hbS) (by exact_mod_cast hbsm) (by omega) (by have := hs m; omega) (by omega)
    (by omega) (by exact_mod_cast hnS) (by omega)

/-- Everybody has the share of the stake exactly when all stakes are equal. -/
theorem forall_share_iff (hs : ∀ i, 0 < s i) (hS : ∑ i, s i < 2^63)
    (hlead : ∀ i, W i ≤ #(leading (2^256) (fun j => (∑ i, s i)/s j) i))
    (hwin : ∀ i, #(winning (2^256) (fun j => (∑ i, s i)/s j) i) ≤ W i) :
    (∀ i, Share (Fintype.card ι) (s i) (∑ i, s i) (W i)) ↔ ∀ i j, s i = s j := by
  refine ⟨fun hshare => ?_, share_of_forall_eq hs hS hlead hwin⟩
  by_contra hne
  push Not at hne
  obtain ⟨i, j, hij⟩ := hne
  -- the smallest and the largest stake differ as soon as any two do
  obtain ⟨m, -, hm⟩ := exists_min_image univ s ⟨i, mem_univ i⟩
  obtain ⟨p, -, hp⟩ := exists_max_image univ s ⟨i, mem_univ i⟩
  have hlt : s m < s p := by
    have hi := hm i (mem_univ i)
    have hj := hm j (mem_univ j)
    have hi' := hp i (mem_univ i)
    have hj' := hp j (mem_univ j)
    omega
  exact not_share_of_lt hs hS hlead hwin (fun k => hm k (mem_univ k)) (fun k => hp k (mem_univ k))
    hlt (hshare m) (hshare p)

end Shares

/-- Every validator is picked by its share of the assignments, up to a relative error
of `2^-64` for each validator. -/
def Proportional (validators : List CValidator) : Prop :=
  ∀ i : Fin validators.length,
    let expected := calculateSelectionProbability (validators.get i) (totalStake validators)*
      Fintype.card (Fin validators.length → arith_uint256)
    |(picks validators i : ℚ)-expected| ≤ (validators.length : ℚ)/2^64*expected

theorem card_assignments (n : ℕ) : Fintype.card (Fin n → arith_uint256) = (2^256)^n := by
  rw [Fintype.card_fun, Fintype.card_fin, Fintype.card_congr arith_uint256.equivFin,
    Fintype.card_fin]

/-- A relative error bound without its fractions. -/
theorem relative_error_iff {n s S W T K : ℕ} (hS : 0 < S) (hK : 0 < K) :
    |(W : ℚ)-s/S*T| ≤ (n : ℚ)/K*((s : ℚ)/S*T) ↔
      ((K:ℤ)-n)*(s*T) ≤ K*(W*S) ∧ (K:ℤ)*(W*S) ≤ (K+n)*(s*T) := by
  have hS0 : (0:ℚ) < S := by exact_mod_cast hS
  have hK0 : (0:ℚ) < K := by exact_mod_cast hK
  have hscale : (0:ℚ) < K*S := by positivity
  have hexpected : (s : ℚ)/S*T*S = s*T := by
    field_simp
  generalize (s : ℚ)/S*T = x at hexpected ⊢
  have hlow : -((n : ℚ)/K*x) ≤ (W : ℚ)-x ↔ ((K:ℤ)-n)*(s*T) ≤ K*(W*S) := by
    have hscaled : (K*S)*((W : ℚ)-x-(-((n : ℚ)/K*x))) = K*(W*S)-(K-n)*(s*T) := by
      rw [← hexpected]
      field_simp
      ring
    rw [← sub_nonneg, ← mul_nonneg_iff_of_pos_left hscale, hscaled, sub_nonneg]
    exact_mod_cast Iff.rfl
  have hhigh : (W : ℚ)-x ≤ (n : ℚ)/K*x ↔ (K:ℤ)*(W*S) ≤ (K+n)*(s*T) := by
    have hscaled : (K*S)*((n : ℚ)/K*x-((W : ℚ)-x)) = (K+n)*(s*T)-K*(W*S) := by
      rw [← hexpected]
      field_simp
      ring
    rw [← sub_nonneg, ← mul_nonneg_iff_of_pos_left hscale, hscaled, sub_nonneg]
    exact_mod_cast Iff.rfl
  rw [abs_le, hlow, hhigh]

section Validators

open CValidatorManager

variable {validators : List CValidator}

theorem sum_stakes (hpos : ∀ v ∈ validators, 0 < v.nStakeAmount) :
    ∑ i : Fin validators.length, (validators.get i).nStakeAmount.toNat =
      (totalStake validators).toNat := by
  have hcast : ((∑ i : Fin validators.length, (validators.get i).nStakeAmount.toNat : ℕ) : ℤ) =
      totalStake validators := by
    have hterm (i : Fin validators.length) :
        (((validators.get i).nStakeAmount.toNat : ℕ) : ℤ) = (validators.get i).nStakeAmount :=
      Int.toNat_of_nonneg (hpos _ (List.get_mem validators i)).le
    rw [Nat.cast_sum, Finset.sum_congr rfl fun i _ => hterm i, totalStake,
      ← List.ofFn_getElem_eq_map validators CValidator.nStakeAmount, List.sum_ofFn]
    rfl
  omega

theorem proportional_iff_share (hpos : ∀ v ∈ validators, 0 < v.nStakeAmount) :
    Proportional validators ↔ ∀ i : Fin validators.length,
      Share validators.length (validators.get i).nStakeAmount.toNat (totalStake validators).toNat
        (picks validators i) := by
  refine forall_congr' fun i => ?_
  have hstake := hpos _ (List.get_mem validators i)
  have htotal : (validators.get i).nStakeAmount ≤ totalStake validators :=
    nStakeAmount_le_totalStake hpos (List.get_mem validators i)
  have htotal0 : 0 < (totalStake validators).toNat := by omega
  have hprobability : calculateSelectionProbability (validators.get i) (totalStake validators) =
      ((validators.get i).nStakeAmount.toNat : ℚ)/(totalStake validators).toNat := by
    have hs : (((validators.get i).nStakeAmount.toNat : ℤ) : ℚ) = (validators.get i).nStakeAmount := by
      rw [Int.toNat_of_nonneg hstake.le]
    have hS : (((totalStake validators).toNat : ℤ) : ℚ) = totalStake validators := by
      rw [Int.toNat_of_nonneg (hstake.le.trans htotal)]
    have hnonzero : ¬(totalStake validators ≤ 0 ∨ (validators.get i).nStakeAmount ≤ 0) := by omega
    rw [calculateSelectionProbability, if_neg hnonzero, ← hs, ← hS]
    rfl
  have herror := @relative_error_iff validators.length (validators.get i).nStakeAmount.toNat _
    (picks validators i) ((2^256)^validators.length) (2^64) htotal0 (Nat.two_pow_pos 64)
  push_cast at herror
  rw [hprobability, card_assignments]
  push_cast
  exact herror.trans ⟨fun h => ⟨h.1, h.2⟩, fun h => ⟨h.low, h.high⟩⟩

theorem picks_share_iff (hkeys : (validators.map CValidator.pubkey).Nodup)
    (hpos : ∀ v ∈ validators, 0 < v.nStakeAmount) (hsum : totalStake validators < 2^63) :
    (∀ i : Fin validators.length, Share validators.length (validators.get i).nStakeAmount.toNat
        (totalStake validators).toNat (picks validators i)) ↔
      ∀ i j : Fin validators.length,
        (validators.get i).nStakeAmount.toNat = (validators.get j).nStakeAmount.toNat := by
  have hsums := sum_stakes hpos
  have hstake (i : Fin validators.length) : 0 < (validators.get i).nStakeAmount :=
    hpos _ (List.get_mem validators i)
  have hshares := forall_share_iff (s := fun i : Fin validators.length =>
      (validators.get i).nStakeAmount.toNat) (W := picks validators)
    (fun i => by have := hstake i; omega) (by omega)
    (fun i => by rw [hsums]; exact picks_le_leading hkeys hpos hsum i)
    (fun i => by rw [hsums]; exact winning_le_picks hkeys hpos hsum i)
  rwa [hsums, Fintype.card_fin] at hshares

/-- The registry has one entry for each key. -/
theorem eligible_pubkeys_nodup {Hash : List UInt8 → uint256} {r : CValidatorRegistry}
    (hr : Consistent Hash r) (currentTime : ℤ) :
    ((getEligibleValidators currentTime r).map CValidator.pubkey).Nodup := by
  unfold getEligibleValidators
  rw [List.Nodup, List.pairwise_map, List.pairwise_filterMap]
  refine r.setActiveValidators.distinct_toList.imp fun hdistinct v hv v' hv' hsame => ?_
  -- both hashes are those of the one key
  have hkey := hr.key _ v (eligible_entry.mp hv).1
  have hkey' := hr.key _ v' (eligible_entry.mp hv').1
  apply hdistinct
  rw [← hkey, ← hkey', hsame]
  exact Std.ReflCmp.compare_self

/-- Over all assignments of hashes, the selection is proportional to stake exactly
when all stakes are equal. -/
theorem selection_proportional_iff (validators : List CValidator)
    (hkeys : (validators.map CValidator.pubkey).Nodup)
    (hpos : ∀ v ∈ validators, 0 < v.nStakeAmount) (hsum : totalStake validators < 2^63) :
    Proportional validators ↔
      ∀ v ∈ validators, ∀ w ∈ validators, v.nStakeAmount = w.nStakeAmount := by
  rw [proportional_iff_share hpos, picks_share_iff hkeys hpos hsum]
  constructor
  · intro heq v hv w hw
    obtain ⟨i, rfl⟩ := List.mem_iff_get.mp hv
    obtain ⟨j, rfl⟩ := List.mem_iff_get.mp hw
    have h := heq i j
    have hvi := hpos _ hv
    have hwj := hpos _ hw
    omega
  · intro heq i j
    exact congrArg Int.toNat (heq _ (List.get_mem validators i) _ (List.get_mem validators j))

/-- A validator with a stake of so many coins. -/
def sampleValidator (key : UInt8) (coins : ℤ) : CValidator :=
  .create 1000 (sampleKey key) (Vector.replicate 48 0) ⟨⟨key.toNat, 0⟩, coins*COIN, 900, 5⟩

theorem selection_proportional_iff_two :
    Proportional [sampleValidator 1 1000, sampleValidator 2 3000] ↔
      ∀ v ∈ [sampleValidator 1 1000, sampleValidator 2 3000],
        ∀ w ∈ [sampleValidator 1 1000, sampleValidator 2 3000],
          v.nStakeAmount = w.nStakeAmount :=
  selection_proportional_iff [sampleValidator 1 1000, sampleValidator 2 3000] (by decide +kernel)
    (by decide +kernel) (by decide +kernel)

/-- A quarter of the stake is not selected for a quarter of the assignments. -/
theorem quarter_not_proportional :
    ¬Proportional [sampleValidator 1 1000, sampleValidator 2 3000] := by
  intro h
  rw [proportional_iff_share (by decide +kernel),
    picks_share_iff (by decide +kernel) (by decide +kernel) (by decide +kernel)] at h
  have hequal := h ⟨0, by decide⟩ ⟨1, by decide⟩
  revert hequal
  decide +kernel

end Validators

end BabaChain.PoS
