import BabaChain.ArithUint256

/-! The target of the next block, readjusted from block to block. -/
namespace BabaChain.PoSTarget
open arith_uint256

/-- A chain is the list of its blocks, the tip first, so that the height of a block is
the number of those after it. -/
structure CBlockIndex where
  nTime : BitVec 32
  nBits : BitVec 32
deriving DecidableEq

def CBlockIndex.getBlockTime (pindex : CBlockIndex) : ℤ := pindex.nTime.toNat

/-- The part of `Consensus::Params` that the adjustment reads. -/
structure TargetParams where
  powLimit : uint256
  nStakeTargetSpacing : ℤ := 150

/-- At most `i` steps back, while there is a previous block. -/
def pindexFirst : ℕ → CBlockIndex → List CBlockIndex → CBlockIndex
  | 0, pindex, _ => pindex
  | _+1, pindex, [] => pindex
  | i+1, _, pprev :: rest => pindexFirst i pprev rest

/-- The time span of the last blocks, within the limits of the adjustment. -/
def actualTimespan (params : TargetParams) (pindexLast : CBlockIndex) (rest : List CBlockIndex) :
    ℤ :=
  let nActualTimespan := pindexLast.getBlockTime-(pindexFirst 9 pindexLast rest).getBlockTime
  let nTargetTimespan := 9*params.nStakeTargetSpacing
  let nActualTimespan :=
    if nActualTimespan < nTargetTimespan.tdiv 4 then nTargetTimespan.tdiv 4 else nActualTimespan
  if nTargetTimespan*4 < nActualTimespan then nTargetTimespan*4 else nActualTimespan

/-- The chain ends with `pindexLast`; the empty one stands for a null pointer. -/
def getNextPoSTarget (params : TargetParams) : List CBlockIndex → Except String (BitVec 32)
  | [] => (ofUint256 params.powLimit).getCompact false
  | pindexLast :: rest =>
    if rest.length < 10 then (ofUint256 params.powLimit).getCompact false
    else
      let nActualTimespan := actualTimespan params pindexLast rest
      let nTargetTimespan := 9*params.nStakeTargetSpacing
      let bnNew := (setCompact pindexLast.nBits).1
      -- for an int64_t the overload with uint32_t is the one that fits
      let bnNew := bnNew.mul (BitVec.ofInt 32 nActualTimespan)
      match bnNew.div (ofUInt64 (BitVec.ofInt 64 nTargetTimespan)) with
      | .error e => .error e
      | .ok bnNew =>
        let bnPowLimit := ofUint256 params.powLimit
        let bnNew := if bnNew.compareTo bnPowLimit = .gt then bnPowLimit else bnNew
        bnNew.getCompact false

def checkProofOfStakeTarget (nBits : BitVec 32) (params : TargetParams) : Bool :=
  let (bnTarget, fNegative, fOverflow) := setCompact nBits
  !(fNegative || bnTarget.equalTo 0 || fOverflow ||
    decide (bnTarget.compareTo (ofUint256 params.powLimit) = .gt))

/-- Every block has the target that its predecessors ask for. -/
def Produced (params : TargetParams) : List CBlockIndex → Prop
  | [] => True
  | pindex :: rest => getNextPoSTarget params rest = .ok pindex.nBits ∧ Produced params rest

instance Produced.decidable (params : TargetParams) : ∀ chain, Decidable (Produced params chain)
  | [] => .isTrue trivial
  | pindex :: rest =>
    have : Decidable (Produced params rest) := Produced.decidable params rest
    inferInstanceAs (Decidable (getNextPoSTarget params rest = .ok pindex.nBits ∧ _))

/-- The target that a block states. -/
def target (pindex : CBlockIndex) : ℕ := (setCompact pindex.nBits).1.toNat

def TargetParams.limit (params : TargetParams) : ℕ := (ofUint256 params.powLimit).toNat

/-- The time that the last nine intervals took, clamped to a quarter and to the
fourfold of what they should. -/
def clampedSpan (spacing : ℤ) (pindexLast : CBlockIndex) (rest : List CBlockIndex) : ℤ :=
  max (9*spacing/4)
    (min (36*spacing) (pindexLast.getBlockTime-(rest.getD 8 pindexLast).getBlockTime))

/-- The target before the limit is applied, in exact arithmetic. -/
def exactProduct (params : TargetParams) (pindexLast : CBlockIndex) (rest : List CBlockIndex) : ℕ :=
  target pindexLast*(clampedSpan params.nStakeTargetSpacing pindexLast rest).toNat

def targetTimespan (params : TargetParams) : ℕ := (9*params.nStakeTargetSpacing).toNat

/-- The product fits 256 bits and the target is the greatest compact number up to the
limited quotient. -/
structure Exact (params : TargetParams) (pindexLast : CBlockIndex) (rest : List CBlockIndex)
    (nBits : BitVec 32) : Prop where
  fits : exactProduct params pindexLast rest < 2^256
  rounds : IsGreatest {v | IsCompact v ∧
    v ≤ min params.limit (exactProduct params pindexLast rest/targetTimespan params)}
    (setCompact nBits).1.toNat

/-- The next block has a target that the header check accepts, and above height 10 it
is the exact one. -/
def TargetFound (params : TargetParams) (chain : List CBlockIndex) : Prop :=
  ∃ nBits, getNextPoSTarget params chain = .ok nBits ∧
    checkProofOfStakeTarget nBits params = true ∧
    ∀ pindexLast rest, chain = pindexLast :: rest → 10 ≤ rest.length →
      Exact params pindexLast rest nBits

section Adjustment

variable {params : TargetParams} {pindexLast : CBlockIndex} {rest : List CBlockIndex}

theorem pindexFirst_eq (i : ℕ) (pindex : CBlockIndex) {rest : List CBlockIndex}
    (h : i < rest.length) : pindexFirst (i+1) pindex rest = rest.getD i pindex := by
  induction i generalizing pindex rest with
  | zero =>
    cases rest with
    | nil => exact absurd h (Nat.lt_irrefl 0)
    | cons pprev rest => rfl
  | succ i ih =>
    cases rest with
    | nil => exact absurd h (Nat.not_lt_zero _)
    | cons pprev rest =>
      have hi : i < rest.length := Nat.lt_of_succ_lt_succ h
      rw [pindexFirst, ih pprev hi, List.getD_cons_succ, List.getD_eq_getElem _ _ hi,
        List.getD_eq_getElem _ _ hi]

theorem actualTimespan_eq (hs : 0 ≤ params.nStakeTargetSpacing) (hrest : 8 < rest.length) :
    actualTimespan params pindexLast rest =
      clampedSpan params.nStakeTargetSpacing pindexLast rest := by
  have hquarter : (9*params.nStakeTargetSpacing).tdiv 4 = 9*params.nStakeTargetSpacing/4 :=
    Int.tdiv_eq_ediv_of_nonneg (by omega)
  unfold actualTimespan clampedSpan
  rw [pindexFirst_eq 8 pindexLast hrest]
  dsimp only
  rw [hquarter]
  split_ifs <;> omega

theorem clampedSpan_bounds (hs : 0 ≤ params.nStakeTargetSpacing) :
    9*params.nStakeTargetSpacing/4 ≤ clampedSpan params.nStakeTargetSpacing pindexLast rest ∧
      clampedSpan params.nStakeTargetSpacing pindexLast rest ≤ 36*params.nStakeTargetSpacing := by
  unfold clampedSpan
  omega

/-- Above height 10 the target comes from the wrapped product. -/
theorem getNextPoSTarget_eq (hs : 1 ≤ params.nStakeTargetSpacing)
    (hs' : params.nStakeTargetSpacing ≤ 10^6) (hrest : 10 ≤ rest.length) :
    ∃ bnNew : arith_uint256,
      bnNew.toNat = min params.limit
        (exactProduct params pindexLast rest % 2^256/targetTimespan params) ∧
      getNextPoSTarget params (pindexLast :: rest) = bnNew.getCompact false := by
  have hspan := @actualTimespan_eq params pindexLast rest (by omega) (by omega)
  obtain ⟨hlow, hhigh⟩ := @clampedSpan_bounds params pindexLast rest (by omega)
  -- neither conversion of the source loses anything: the spans are below 2^32
  have hfactor : (BitVec.ofInt 32 (actualTimespan params pindexLast rest)).toNat =
      (clampedSpan params.nStakeTargetSpacing pindexLast rest).toNat := by
    rw [hspan]
    exact toNat_ofInt_of_lt (by omega) (by omega)
  have hdivisor : (ofUInt64 (BitVec.ofInt 64 (9*params.nStakeTargetSpacing))).toNat =
      targetTimespan params := by
    rw [toNat_ofUInt64, targetTimespan]
    exact toNat_ofInt_of_lt (by omega) (by omega)
  have hpos : 0 < targetTimespan params := by
    unfold targetTimespan
    omega
  rw [← hdivisor] at hpos
  obtain ⟨quotient, hdiv, hquotient⟩ := @div_of_pos ((setCompact pindexLast.nBits).1.mul
    (BitVec.ofInt 32 (actualTimespan params pindexLast rest))) _ hpos
  -- the product is where bits are lost
  have hvalue : quotient.toNat =
      exactProduct params pindexLast rest % 2^256/targetTimespan params := by
    rw [hquotient, toNat_mul, hfactor, hdivisor]
    rfl
  rw [getNextPoSTarget, if_neg (by omega)]
  dsimp only
  rw [hdiv]
  dsimp only
  refine ⟨_, ?_, rfl⟩
  have hgreater : quotient.compareTo (ofUint256 params.powLimit) = .gt ↔
      params.limit < quotient.toNat := by
    rw [compareTo_eq, Nat.compare_eq_gt]
    rfl
  -- the cut at the limit is a minimum
  split
  · rename_i h
    rw [← hvalue]
    exact (Nat.min_eq_left (hgreater.mp h).le).symm
  · rename_i h
    rw [← hvalue]
    exact (Nat.min_eq_right (not_lt.mp (mt hgreater.mpr h))).symm

/-- The check accepts an encoded target exactly when it is not zero. -/
theorem getCompact_checked {bnNew : arith_uint256} (hlimit : bnNew.toNat ≤ params.limit) :
    ∃ nBits, bnNew.getCompact false = .ok nBits ∧
      IsGreatest {v | IsCompact v ∧ v ≤ bnNew.toNat} (setCompact nBits).1.toNat ∧
      (checkProofOfStakeTarget nBits params = true ↔ 0 < bnNew.toNat) := by
  obtain ⟨nBits, hcompact, hrounds, hflags⟩ := getCompact_rounds bnNew
  refine ⟨nBits, hcompact, hrounds.isGreatest, ?_⟩
  have hle : (setCompact nBits).1.toNat ≤ params.limit := hrounds.isGreatest.1.2.trans hlimit
  have hgreater : (setCompact nBits).1.compareTo (ofUint256 params.powLimit) ≠ .gt := by
    rw [compareTo_eq, ne_eq, Nat.compare_eq_gt]
    exact not_lt.mpr hle
  have hzero : (setCompact nBits).1.equalTo 0 = true ↔ bnNew.toNat = 0 := by
    rw [equalTo_zero_iff]
    exact hrounds.eq_zero_iff
  -- of the four reasons to refuse a target only zero is left
  unfold checkProofOfStakeTarget
  dsimp only
  rw [congrArg Prod.fst hflags, congrArg Prod.snd hflags, decide_eq_false hgreater, Bool.false_or, Bool.or_false, Bool.or_false,
    Bool.not_eq_true', Bool.eq_false_iff, ne_eq, hzero]
  omega

/-- A block up to height 10 has the limit as its target. -/
theorem getNextPoSTarget_of_short {chain : List CBlockIndex} (hchain : chain.length ≤ 10) :
    getNextPoSTarget params chain = (ofUint256 params.powLimit).getCompact false := by
  cases chain with
  | nil => rfl
  | cons pindexLast rest =>
    rw [List.length_cons] at hchain
    rw [getNextPoSTarget, if_pos (by omega)]

theorem targetFound_of_short (hlimit : 0 < params.limit) {chain : List CBlockIndex}
    (hchain : chain.length ≤ 10) : TargetFound params chain := by
  have hle : (ofUint256 params.powLimit).toNat ≤ params.limit := le_refl _
  obtain ⟨nBits, hcompact, -, hcheck⟩ := getCompact_checked hle
  refine ⟨nBits, ?_, hcheck.mpr hlimit, fun pindexLast rest heq hrest => ?_⟩
  · rw [getNextPoSTarget_of_short hchain, hcompact]
  · rw [heq, List.length_cons] at hchain
    omega

/-- Above height 10 the next target is fine exactly when the product fits and is at
least one nine-interval span. -/
theorem targetFound_iff (hs : 1 ≤ params.nStakeTargetSpacing)
    (hs' : params.nStakeTargetSpacing ≤ 10^6) (hlimit : 0 < params.limit)
    (hrest : 10 ≤ rest.length) :
    TargetFound params (pindexLast :: rest) ↔
      targetTimespan params ≤ exactProduct params pindexLast rest ∧
        exactProduct params pindexLast rest < 2^256 := by
  obtain ⟨bnNew, hvalue, hnext⟩ := @getNextPoSTarget_eq params pindexLast rest hs hs' hrest
  have hle : bnNew.toNat ≤ params.limit := hvalue ▸ Nat.min_le_left _ _
  have hpos : 0 < targetTimespan params := by
    unfold targetTimespan
    omega
  obtain ⟨nBits, hcompact, hgreatest, hcheck⟩ := getCompact_checked hle
  rw [hcompact] at hnext
  constructor
  · -- what fits and passes the check is at least one span
    rintro ⟨nBits', hnext', hcheck', hexact⟩
    obtain rfl : nBits = nBits' := Except.ok.inj (hnext.symm.trans hnext')
    have hfits := (hexact pindexLast rest rfl hrest).fits
    have hnonzero := hcheck.mp hcheck'
    rw [hvalue, Nat.mod_eq_of_lt hfits, lt_min_iff] at hnonzero
    exact ⟨(Nat.div_pos_iff.mp hnonzero.2).2, hfits⟩
  · -- nothing wraps, so the encoded value is the exact one
    rintro ⟨hlarge, hfits⟩
    rw [Nat.mod_eq_of_lt hfits] at hvalue
    refine ⟨nBits, hnext, hcheck.mpr ?_, fun pindexLast' rest' heq hrest' => ?_⟩
    · rw [hvalue, lt_min_iff]
      exact ⟨hlimit, Nat.div_pos hlarge hpos⟩
    · obtain ⟨rfl, rfl⟩ := List.cons.inj heq
      exact ⟨hfits, hvalue ▸ hgreatest⟩

/-- A target is always found, and it is at most the limit. -/
theorem getNextPoSTarget_le (hs : 1 ≤ params.nStakeTargetSpacing)
    (hs' : params.nStakeTargetSpacing ≤ 10^6) (chain : List CBlockIndex) :
    ∃ nBits, getNextPoSTarget params chain = .ok nBits ∧
      (setCompact nBits).1.toNat ≤ params.limit := by
  have hencoded : ∃ bnNew : arith_uint256, bnNew.toNat ≤ params.limit ∧
      getNextPoSTarget params chain = bnNew.getCompact false := by
    by_cases hchain : chain.length ≤ 10
    · exact ⟨_, le_refl _, getNextPoSTarget_of_short hchain⟩
    · cases chain with
      | nil => exact absurd (Nat.zero_le 10) hchain
      | cons pindexLast rest =>
        rw [List.length_cons] at hchain
        obtain ⟨bnNew, hvalue, hnext⟩ :=
          @getNextPoSTarget_eq params pindexLast rest hs hs' (by omega)
        exact ⟨bnNew, hvalue ▸ Nat.min_le_left _ _, hnext⟩
  obtain ⟨bnNew, hle, hnext⟩ := hencoded
  obtain ⟨nBits, hcompact, hgreatest, -⟩ := getCompact_checked hle
  exact ⟨nBits, hnext.trans hcompact, hgreatest.1.2.trans hle⟩

/-- No block of a chain states more than the limit, even where products overflow. -/
theorem Produced.target_le (hs : 1 ≤ params.nStakeTargetSpacing)
    (hs' : params.nStakeTargetSpacing ≤ 10^6) {chain : List CBlockIndex}
    (hproduced : Produced params chain) :
    (∃ nBits, getNextPoSTarget params chain = .ok nBits) ∧
      ∀ pindex ∈ chain, target pindex ≤ params.limit := by
  refine ⟨(getNextPoSTarget_le hs hs' chain).imp fun _ => And.left, ?_⟩
  induction chain with
  | nil => exact fun pindex hmem => absurd hmem List.not_mem_nil
  | cons pindex rest ih =>
    obtain ⟨nBits, hnext, hle⟩ := getNextPoSTarget_le hs hs' rest
    have hbits : nBits = pindex.nBits := Except.ok.inj (hnext.symm.trans hproduced.1)
    rw [hbits] at hle
    exact List.forall_mem_cons.mpr ⟨hle, ih hproduced.2⟩

end Adjustment

/-- Along a chain every target is exact and accepted, exactly when above height 10
no product overflows or falls below what it is divided by. -/
theorem targets_exact_iff (params : TargetParams) (hs : 1 ≤ params.nStakeTargetSpacing)
    (hs' : params.nStakeTargetSpacing ≤ 10^6) (hlimit : 0 < params.limit)
    (chain : List CBlockIndex) :
    (∀ c, c <:+ chain → TargetFound params c) ↔
      ∀ pindexLast rest, pindexLast :: rest <:+ chain → 10 ≤ rest.length →
        targetTimespan params ≤ exactProduct params pindexLast rest ∧
          exactProduct params pindexLast rest < 2^256 := by
  constructor
  · intro h pindexLast rest hsuffix hrest
    exact (targetFound_iff hs hs' hlimit hrest).mp (h _ hsuffix)
  · intro h c hsuffix
    by_cases hc : c.length ≤ 10
    · exact targetFound_of_short hlimit hc
    · cases c with
      | nil => exact absurd (Nat.zero_le 10) hc
      | cons pindexLast rest =>
        have hrest : 10 ≤ rest.length := by
          rw [List.length_cons] at hc
          omega
        exact (targetFound_iff hs hs' hlimit hrest).mpr (h pindexLast rest hsuffix hrest)

/-- The limit of the test networks, with blocks at exactly the spacing asked for. -/
def regtestParams : TargetParams where
  powLimit := BitVec.ofNat 256 (2^256-0x81)

def regularChain : List CBlockIndex :=
  (List.range 11).reverse.map fun height => ⟨BitVec.ofNat 32 (150*height), 0x207fffff#32⟩

theorem targets_exact_iff_regtest :
    (∀ c, c <:+ regularChain → TargetFound regtestParams c) ↔
      ∀ pindexLast rest, pindexLast :: rest <:+ regularChain → 10 ≤ rest.length →
        targetTimespan regtestParams ≤ exactProduct regtestParams pindexLast rest ∧
          exactProduct regtestParams pindexLast rest < 2^256 :=
  targets_exact_iff regtestParams (by decide) (by decide) (by decide +kernel) regularChain

theorem target_le_regtest : (∃ nBits, getNextPoSTarget regtestParams regularChain = .ok nBits) ∧
    ∀ pindex ∈ regularChain, target pindex ≤ regtestParams.limit :=
  Produced.target_le (by decide) (by decide) (by decide +kernel)

/-- The very first readjustment overflows. -/
theorem regtest_product_overflows :
    Produced regtestParams regularChain ∧
      (2^200 ≤ regtestParams.limit ∧ regtestParams.limit = 2^255-1) ∧
      ¬∀ c, c <:+ regularChain → TargetFound regtestParams c := by
  refine ⟨by decide +kernel, by decide +kernel, fun h => ?_⟩
  obtain ⟨nBits, -, -, hexact⟩ := h regularChain (List.suffix_refl _)
  have hfits := (hexact _ _ rfl (by decide)).fits
  revert hfits
  decide +kernel

end BabaChain.PoSTarget
