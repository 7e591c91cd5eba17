import BabaChain.ChainLockOrder
import BabaChain.ChainLockDelivery
import Mathlib

/-! The ChainLock that a miner puts into the coinbase, and whether every node on the same
chain accepts it. -/
namespace BabaChain.ChainLock
open MachineInt

variable {G : Type*} {p : Params} {P : CBlockIndex G} {hash : uint256} {cbTx : CCbTx G}

/-! ### The miner -/

/-- What `CalcCbTxBestChainlock` returns and writes. -/
structure Chosen (G : Type*) where
  found : Bool
  bestCLHeightDiff : BitVec 32
  bestCLSignature : CBLSSignature G

/-- `CalcCbTxBestChainlock`, where the handler gives the same answer twice; `none` is an
`int` overflow. -/
def calcCbTxBestChainlock (p : Params) (V19Height : ℕ) (handler : ChainLockSig G)
    (pindexPrev : CBlockIndex G) : Option (Chosen G) :=
  let best_clsig := if handler.nHeight < V19Height then ChainLockSig.null else handler
  if best_clsig.nHeight = nHeight pindexPrev then
    -- the newest one possible
    some ⟨true, 0, best_clsig.sig⟩
  else
    match getNonNullCoinbaseChainlock p pindexPrev with
    | some prev =>
      if best_clsig.isNull then
        some ⟨true, prev.2+1, prev.1⟩
      else
        (curBlockCoinbaseCLHeight pindexPrev prev.2).map fun prevCLHeight =>
          if best_clsig.nHeight < prevCLHeight then
            ⟨true, prev.2+1, prev.1⟩
          else
            ⟨true, BitVec.ofInt 32 (nHeight pindexPrev-best_clsig.nHeight), best_clsig.sig⟩
    | none =>
      if best_clsig.isNull then
        some ⟨false, 0, none⟩
      else
        some ⟨true, BitVec.ofInt 32 (nHeight pindexPrev-best_clsig.nHeight), handler.sig⟩

/-! ### Chains -/

/-- `VerifyChainLock` for a block on top of a chain: what it accepts are the signed
ChainLocks of ancestors. -/
def verifies [DecidableEq G] (signed : ChainLockSig G → Bool) (P : CBlockIndex G)
    (clsig : ChainLockSig G) : Bool :=
  signed clsig &&
    (getAncestor P clsig.nHeight).any fun ancestor => getBlockHash ancestor == clsig.blockHash

/-- The best ChainLock of a handler that has none. -/
def BestChainLock.null : BestChainLock G where
  toChainLockSig := .null
  wellFormed := Or.inl rfl

theorem getAncestor_range {height : ℤ} {ancestor : CBlockIndex G}
    (hancestor : getAncestor P height = some ancestor) : 0 ≤ height ∧ height ≤ nHeight P := by
  unfold getAncestor at hancestor
  split_ifs at hancestor with hout
  omega

theorem getNonNull_of_clHeights (hnil : clHeights p P = []) :
    getNonNullCoinbaseChainlock p P = none := by
  cases P with
  | nil => rfl
  | cons b rest =>
    cases hp : getNonNullCoinbaseChainlock p (b :: rest) with
    | none => rfl
    | some entry =>
      rw [clHeights, hp] at hnil
      contradiction

theorem getNonNull_sig {entry : CBLSSignature G × BitVec 32}
    (he : getNonNullCoinbaseChainlock p P = some entry) : entry.1.isSome = true := by
  cases P with
  | nil => contradiction
  | cons b rest =>
    unfold getNonNullCoinbaseChainlock at he
    dsimp only at he
    split_ifs at he
    cases hcb : b.cbTx with
    | none =>
      rw [hcb] at he
      contradiction
    | some cbTx =>
      rw [hcb] at he
      dsimp only at he
      split_ifs at he with hs
      rw [Option.some.injEq] at he
      rw [← he]
      exact hs

theorem curBlockCoinbaseCLHeight_some {pindex : CBlockIndex G} {diff : BitVec 32} {height : ℤ}
    (h : curBlockCoinbaseCLHeight pindex diff = some height) :
    height = committedHeight pindex diff := by
  unfold curBlockCoinbaseCLHeight checked at h
  unfold committedHeight
  split_ifs at h
  · rw [Option.bind_some] at h
    split_ifs at h
    exact (Option.some.inj h).symm
  · contradiction

theorem getAncestor_cons {b : Block G} {height : ℤ} (hle : height ≤ nHeight P) :
    getAncestor (b :: P) height = getAncestor P height :=
  getAncestor_of_suffix (List.suffix_cons b P) hle

theorem checkAgainstPrev_ok {prev : Option (CBLSSignature G × BitVec 32)}
    (hs : cbTx.bestCLSignature.isSome = true)
    (hle : ∀ entry, prev = some entry → ¬entry.2+1 < cbTx.bestCLHeightDiff) :
    checkAgainstPrev cbTx prev = .ok () := by
  cases prev with
  | none => rfl
  | some entry =>
    have hsome : cbTx.bestCLSignature.isNone = false := by
      rw [Option.isNone_eq_false_iff]
      exact hs
    simp only [checkAgainstPrev, hsome, Bool.false_eq_true, if_false, hle entry rfl]

theorem nHeight_eq (P : CBlockIndex G) : nHeight P = (P.length : ℤ)-1 := rfl

theorem calc_of_none (hne : P ≠ []) {V19Height : ℕ} {best : ChainLockSig G}
    (hlow : best.nHeight < V19Height) :
    calcCbTxBestChainlock p V19Height best P =
      match getNonNullCoinbaseChainlock p P with
      | some prev => some ⟨true, prev.2+1, prev.1⟩
      | none => some ⟨false, 0, none⟩ := by
  have hzero := nHeight_nonneg hne
  have htip : ¬(ChainLockSig.null : ChainLockSig G).nHeight = nHeight P := by
    change ¬(-1 : ℤ) = _
    omega
  unfold calcCbTxBestChainlock
  dsimp only
  rw [if_pos hlow, if_neg htip]
  rfl

variable [DecidableEq G]

/-- The chains that a node accepts which knows no ChainLock, as one that catches up. -/
inductive Accepted (p : Params) (signed : ChainLockSig G → Bool) : CBlockIndex G → Prop
  | start {P : CBlockIndex G} (hne : P ≠ []) (hnil : clHeights p P = []) : Accepted p signed P
  | connect {P : CBlockIndex G} {hash : uint256} {cbTx : CCbTx G} (h : Accepted p signed P)
      (hcb : checkCbTx p cbTx P = .ok ())
      (hcheck : (checkCbTxBestChainlock p .null (verifies signed P) cbTx
        (⟨hash, some cbTx⟩ :: P) {}).map Prod.fst = some (.ok ())) :
      Accepted p signed (⟨hash, some cbTx⟩ :: P)

/-- A signed ChainLock of an ancestor at some height. -/
def SignedAt (signed : ChainLockSig G → Bool) (P : CBlockIndex G) (height : ℤ)
    (sig : CBLSSignature G) : Prop :=
  ∃ ancestor, getAncestor P height = some ancestor ∧
    signed ⟨height, getBlockHash ancestor, sig⟩ = true

variable {signed : ChainLockSig G → Bool}

theorem verifies_iff {height : ℤ} {ancestor : CBlockIndex G} {sig : CBLSSignature G}
    (hancestor : getAncestor P height = some ancestor) :
    verifies signed P ⟨height, getBlockHash ancestor, sig⟩ = true ↔
      signed ⟨height, getBlockHash ancestor, sig⟩ = true := by
  rw [verifies, hancestor, Option.any_some, beq_self_eq_true, Bool.and_true]

theorem Accepted.ne_nil (h : Accepted p signed P) : P ≠ [] := by
  cases h with
  | start hne hnil => exact hne
  | connect h hcb hcheck => exact List.cons_ne_nil _ _

/-- What a node without a ChainLock accepts, it has verified. -/
theorem judge_null {prev : Option (CBLSSignature G × BitVec 32)} {verify : ChainLockSig G → Bool}
    {pindex : CBlockIndex G} (hpos : 0 < nHeight pindex) {cached : Bool}
    (hs : cbTx.bestCLSignature.isSome = true)
    (hjudge : judgeChainlock .null verify cbTx pindex
      prev = some (.ok cached)) :
    ∃ height ancestor, curBlockCoinbaseCLHeight pindex cbTx.bestCLHeightDiff = some height ∧
      getAncestor pindex height = some ancestor ∧
      verify ⟨height, getBlockHash ancestor, cbTx.bestCLSignature⟩ = true := by
  have hfast : ¬((.null : ChainLockSig G).nHeight = nHeight pindex-1 ∧
      cbTx.bestCLHeightDiff = 0 ∧ cbTx.bestCLSignature = (.null : ChainLockSig G).sig) := by
    rintro ⟨hheight, -, -⟩
    change (-1 : ℤ) = _ at hheight
    omega
  rw [judgeChainlock, if_neg hfast] at hjudge
  cases hprev : checkAgainstPrev cbTx prev with
  | error reason =>
    rw [hprev] at hjudge
    simp at hjudge
  | ok u =>
    rw [hprev] at hjudge
    dsimp only at hjudge
    rw [if_pos hs] at hjudge
    cases hheight : curBlockCoinbaseCLHeight pindex cbTx.bestCLHeightDiff with
    | none =>
      rw [hheight] at hjudge
      contradiction
    | some height =>
      rw [hheight] at hjudge
      dsimp only at hjudge
      have hother : ¬((.null : ChainLockSig G).nHeight = height ∧
          (.null : ChainLockSig G).sig = cbTx.bestCLSignature) := by
        rintro ⟨-, hsig⟩
        rw [← hsig] at hs
        contradiction
      rw [if_neg hother] at hjudge
      cases hancestor : getAncestor pindex height with
      | none =>
        rw [hancestor] at hjudge
        contradiction
      | some ancestor =>
        rw [hancestor] at hjudge
        dsimp only at hjudge
        split_ifs at hjudge with hverify
        · exact ⟨height, ancestor, rfl, hancestor, hverify⟩
        · simp at hjudge

/-- What a node without a ChainLock accepts is a signed ChainLock of an ancestor. -/
theorem signedAt_of_check (hne : P ≠ []) (hv : ¬cbTx.nVersion < 3) {cache : Cache G}
    (hs : cbTx.bestCLSignature.isSome = true)
    (hcheck : (checkCbTxBestChainlock p .null (verifies signed P) cbTx (⟨hash, some cbTx⟩ :: P)
      cache).map Prod.fst = some (.ok ())) :
    SignedAt signed P (committedHeight (⟨hash, some cbTx⟩ :: P) cbTx.bestCLHeightDiff)
      cbTx.bestCLSignature := by
  have hpos : 0 < nHeight (⟨hash, some cbTx⟩ :: P) := by
    have hlen := List.length_pos_iff.mpr hne
    rw [nHeight_cons]
    omega
  unfold checkCbTxBestChainlock at hcheck
  rw [if_neg hv, List.tail_cons] at hcheck
  cases hjudge : judgeChainlock .null (verifies signed P) cbTx (⟨hash, some cbTx⟩ :: P)
      (prevBlockCoinbaseChainlock p P cache) with
  | none =>
    rw [hjudge] at hcheck
    contradiction
  | some r =>
    rw [hjudge] at hcheck
    cases r with
    | error reason => simp at hcheck
    | ok cached =>
      obtain ⟨height, ancestor, hheight, hancestor, hverify⟩ := judge_null hpos hs hjudge
      rw [← curBlockCoinbaseCLHeight_some hheight]
      rw [verifies, Bool.and_eq_true, Option.any_eq_true] at hverify
      obtain ⟨hsigned, ancestor', hbelow, -⟩ := hverify
      dsimp only at hbelow
      rw [getAncestor_cons (getAncestor_range hbelow).2] at hancestor
      exact ⟨ancestor, hancestor, hsigned⟩

/-- The ChainLock that the tip commits to is one of a block below it. -/
theorem Accepted.tip (h : Accepted p signed P) {prev : CBLSSignature G × BitVec 32}
    (hprev : getNonNullCoinbaseChainlock p P = some prev) :
    SignedAt signed P (committedHeight P prev.2) prev.1 ∧
      committedHeight P prev.2 < nHeight P := by
  cases h with
  | start hne hnil =>
    rw [getNonNull_of_clHeights hnil] at hprev
    contradiction
  | @connect P hash cbTx h hcb hcheck =>
    have hversion := checkCbTx_version hcb h.ne_nil
    unfold getNonNullCoinbaseChainlock at hprev
    dsimp only at hprev
    split_ifs at hprev with hv20 hs
    rw [nHeight_cons, ← hversion] at hv20
    rw [Option.some.injEq] at hprev
    subst hprev
    obtain ⟨ancestor, hancestor, hsigned⟩ := signedAt_of_check h.ne_nil hv20 hs hcheck
    have hrange := (getAncestor_range hancestor).2
    refine ⟨⟨ancestor, ?_, hsigned⟩, ?_⟩
    · rw [getAncestor_cons hrange]
      exact hancestor
    · rw [nHeight_cons]
      unfold nHeight at hrange
      dsimp only
      omega

/-! ### What the miner's choice passes -/

/-- The chosen ChainLock passes the check of the next block on every node, whatever best
ChainLock it holds and whatever else the coinbase says, and is not below the last one. -/
def AlwaysAccepted (p : Params) (signed : ChainLockSig G → Bool) (P : CBlockIndex G)
    (chosen : Chosen G) : Prop :=
  (∀ (other : BestChainLock G) (cache : Cache G) (hash : uint256) (cbTx : CCbTx G),
    CacheSound p cache → cbTx.bestCLHeightDiff = chosen.bestCLHeightDiff →
      cbTx.bestCLSignature = chosen.bestCLSignature →
      (checkCbTxBestChainlock p other.toChainLockSig (verifies signed P) cbTx
        (⟨hash, some cbTx⟩ :: P) cache).map Prod.fst = some (.ok ())) ∧
  ∀ prev, getNonNullCoinbaseChainlock p P = some prev →
    chosen.bestCLSignature.isSome = true ∧
      committedHeight P prev.2 ≤ (P.length : ℤ)-chosen.bestCLHeightDiff.toInt-1

/-- The best ChainLock is none, is older than the one that the tip commits to, or is for the
tip or a block below it. -/
def Usable (p : Params) (V19Height : ℕ) (signed : ChainLockSig G → Bool) (P : CBlockIndex G)
    (best : ChainLockSig G) : Prop :=
  best.nHeight < V19Height ∨
    (∃ prev, getNonNullCoinbaseChainlock p P = some prev ∧
      best.nHeight < committedHeight P prev.2) ∨
    SignedAt signed P best.nHeight best.sig

/-- A signed ChainLock of an ancestor, not older than the last one, passes everywhere. -/
theorem check_of_signed (hmax : (P.length : ℤ) < intMax 32)
    (other : BestChainLock G) {cache : Cache G} (hcache : CacheSound p cache)
    (hs : cbTx.bestCLSignature.isSome = true)
    (hle : ∀ entry, getNonNullCoinbaseChainlock p P = some entry →
      ¬entry.2+1 < cbTx.bestCLHeightDiff)
    (hsigned : SignedAt signed P ((P.length : ℤ)-cbTx.bestCLHeightDiff.toInt-1)
      cbTx.bestCLSignature) :
    (checkCbTxBestChainlock p other.toChainLockSig (verifies signed P) cbTx
      (⟨hash, some cbTx⟩ :: P) cache).map Prod.fst = some (.ok ()) := by
  obtain ⟨ancestor, hancestor, hsigned⟩ := hsigned
  obtain ⟨hzero, htop⟩ := getAncestor_range hancestor
  have hlen : nHeight (⟨hash, some cbTx⟩ :: P) = P.length := nHeight_cons
  have hbelow : nHeight P = (P.length : ℤ)-1 := rfl
  have hheight : curBlockCoinbaseCLHeight (⟨hash, some cbTx⟩ :: P) cbTx.bestCLHeightDiff =
      some ((P.length : ℤ)-cbTx.bestCLHeightDiff.toInt-1) := by
    rw [curBlockCoinbaseCLHeight_eq (by omega), committedHeight, hlen]
    · rw [committedHeight, hlen]
      exact hzero
    · rw [committedHeight, hlen]
      omega
  have hjudge : judgeChainlock other.toChainLockSig (verifies signed P) cbTx
      (⟨hash, some cbTx⟩ :: P) (getNonNullCoinbaseChainlock p P) = some (.ok true) := by
    unfold judgeChainlock
    rw [checkAgainstPrev_ok hs hle]
    dsimp only
    rw [if_pos hs, hheight]
    dsimp only
    rw [getAncestor_cons htop, hancestor]
    dsimp only
    rw [if_pos ((verifies_iff hancestor).mpr hsigned)]
    split_ifs
    · rfl
    · rfl
    · rfl
  unfold checkCbTxBestChainlock
  split_ifs
  · rfl
  · rw [List.tail_cons, hcache.prev_eq, hjudge]
    rfl

/-- Without any ChainLock so far, none is needed. -/
theorem check_of_none (other : BestChainLock G) {cache : Cache G} (hcache : CacheSound p cache)
    (hnone : getNonNullCoinbaseChainlock p P = none) (hdiff : cbTx.bestCLHeightDiff = 0)
    (hs : cbTx.bestCLSignature = none) :
    (checkCbTxBestChainlock p other.toChainLockSig (verifies signed P) cbTx
      (⟨hash, some cbTx⟩ :: P) cache).map Prod.fst = some (.ok ()) := by
  have hjudge : ∃ cached, judgeChainlock other.toChainLockSig (verifies signed P) cbTx
      (⟨hash, some cbTx⟩ :: P) none = some (.ok cached) := by
    unfold judgeChainlock checkAgainstPrev
    dsimp only
    rw [hs, hdiff]
    split_ifs with hbest h h
    · exact ⟨true, rfl⟩
    · contradiction
    · exact absurd rfl h
    · exact ⟨false, rfl⟩
  obtain ⟨cached, hjudge⟩ := hjudge
  unfold checkCbTxBestChainlock
  split_ifs
  · rfl
  · rw [List.tail_cons, hcache.prev_eq, hnone, hjudge]
    cases cached
    · rfl
    · rfl

theorem toInt_ofInt_32 {x : ℤ} (hlow : -2147483648 ≤ x) (hhigh : x ≤ 2147483647) :
    (BitVec.ofInt 32 x).toInt = x := by
  rw [BitVec.toInt_ofInt]
  norm_num
  rw [Int.bmod_def]
  split_ifs <;> omega

/-- The difference that the tip commits to is that of a block below it. -/
theorem Accepted.diff (h : Accepted p signed P) (hmax : (P.length : ℤ) < intMax 32)
    {prev : CBLSSignature G × BitVec 32} (hprev : getNonNullCoinbaseChainlock p P = some prev) :
    prev.2.toInt = prev.2.toNat ∧ (prev.2.toNat : ℤ) < nHeight P ∧
      (prev.2+1).toInt = prev.2.toNat+1 ∧ (prev.2+1).toNat = prev.2.toNat+1 := by
  obtain ⟨⟨ancestor, hancestor, -⟩, hlt⟩ := h.tip hprev
  have hzero := (getAncestor_range hancestor).1
  unfold committedHeight at hzero hlt
  have hn : nHeight P = (P.length : ℤ)-1 := rfl
  rw [intMax_32] at hmax
  have hbits := prev.2.isLt
  have hadd : (prev.2+1).toNat = (prev.2.toNat+1)%2^32 := BitVec.toNat_add _ _
  rw [BitVec.toInt_eq_toNat_cond] at hzero hlt ⊢
  rw [BitVec.toInt_eq_toNat_cond]
  norm_num at hadd hzero hlt hbits ⊢
  split_ifs at hzero hlt ⊢ <;> omega

/-- The ChainLock of the tip passes once more. -/
theorem Accepted.repeated (h : Accepted p signed P) (hmax : (P.length : ℤ) < intMax 32)
    {prev : CBLSSignature G × BitVec 32} (hprev : getNonNullCoinbaseChainlock p P = some prev)
    (found : Bool) : AlwaysAccepted p signed P ⟨found, prev.2+1, prev.1⟩ := by
  obtain ⟨hint, -, hnext, -⟩ := h.diff hmax hprev
  have hheight : (P.length : ℤ)-(prev.2+1).toInt-1 = committedHeight P prev.2 := by
    rw [committedHeight, hnext, hint, nHeight_eq]
    omega
  constructor
  · intro other cache hash cbTx hcache hdiff hsig
    apply check_of_signed hmax other hcache
    · rw [hsig]
      exact getNonNull_sig hprev
    · intro entry hentry
      rw [hprev, Option.some.injEq] at hentry
      rw [← hentry, hdiff]
      exact BitVec.lt_irrefl _
    · rw [hdiff, hsig, hheight]
      exact (h.tip hprev).1
  · intro entry hentry
    rw [hprev, Option.some.injEq] at hentry
    rw [← hentry, hheight]
    exact ⟨getNonNull_sig hprev, le_rfl⟩

/-- A signed ChainLock of the tip or a block below it passes, if it is not older than the
last one. -/
theorem Accepted.newer (h : Accepted p signed P) (hmax : (P.length : ℤ) < intMax 32)
    {height : ℤ} {sig : CBLSSignature G} (hs : sig.isSome = true)
    (hsigned : SignedAt signed P height sig)
    (hle : ∀ prev, getNonNullCoinbaseChainlock p P = some prev →
      committedHeight P prev.2 ≤ height) (found : Bool) :
    AlwaysAccepted p signed P ⟨found, BitVec.ofInt 32 (nHeight P-height), sig⟩ := by
  obtain ⟨hzero, htop⟩ := getAncestor_range hsigned.choose_spec.1
  rw [intMax_32] at hmax
  have hn := nHeight_eq P
  have hdiffInt : (BitVec.ofInt 32 (nHeight P-height)).toInt = nHeight P-height :=
    toInt_ofInt_32 (by omega) (by omega)
  have hheight : (P.length : ℤ)-(BitVec.ofInt 32 (nHeight P-height)).toInt-1 = height := by
    rw [hdiffInt]
    omega
  constructor
  · intro other cache hash cbTx hcache hdiff hsig
    apply check_of_signed (by rw [intMax_32]; exact hmax) other hcache
    · rw [hsig]
      exact hs
    · intro entry hentry
      obtain ⟨hint, -, hnext, hnat⟩ := h.diff (by rw [intMax_32]; exact hmax) hentry
      have hlast := hle entry hentry
      rw [committedHeight, hint] at hlast
      rw [hdiff, BitVec.lt_def, hnat]
      have hcond := BitVec.toInt_eq_toNat_cond (BitVec.ofInt 32 (nHeight P-height))
      rw [hdiffInt] at hcond
      dsimp only
      split_ifs at hcond <;> omega
    · rw [hdiff, hsig, hheight]
      exact hsigned
  · intro entry hentry
    rw [hheight]
    exact ⟨hs, hle entry hentry⟩

theorem alwaysAccepted_none (hnone : getNonNullCoinbaseChainlock p P = none) :
    AlwaysAccepted p signed P ⟨false, 0, none⟩ := by
  constructor
  · intro other cache hash cbTx hcache hdiff hsig
    exact check_of_none other hcache hnone hdiff hsig
  · intro prev hprev
    rw [hnone] at hprev
    contradiction

/-- What is accepted everywhere is accepted by a node without a ChainLock. -/
theorem signedAt_of_alwaysAccepted (hne : P ≠ []) {chosen : Chosen G}
    (hs : chosen.bestCLSignature.isSome = true) (haccepted : AlwaysAccepted p signed P chosen) :
    SignedAt signed P ((P.length : ℤ)-chosen.bestCLHeightDiff.toInt-1)
      chosen.bestCLSignature := by
  have hcheck := haccepted.1 .null {} 0 ⟨3, 0, chosen.bestCLHeightDiff, chosen.bestCLSignature⟩
    cacheSound_empty rfl rfl
  have hsigned := signedAt_of_check hne (BitVec.lt_irrefl 3) hs hcheck
  rw [committedHeight, nHeight_cons] at hsigned
  exact hsigned

/-! ### What the miner chooses -/

/-- A best ChainLock that is not older than the last one is chosen. -/
theorem calc_of_some (h : Accepted p signed P) (hmax : (P.length : ℤ) < intMax 32)
    {V19Height : ℕ} {best : ChainLockSig G} (hhigh : ¬best.nHeight < V19Height)
    (hle : ∀ prev, getNonNullCoinbaseChainlock p P = some prev →
      ¬best.nHeight < committedHeight P prev.2) :
    calcCbTxBestChainlock p V19Height best P =
      some ⟨true, BitVec.ofInt 32 (nHeight P-best.nHeight), best.sig⟩ := by
  have hnull : best.isNull = false := by
    rw [ChainLockSig.isNull, Bool.and_eq_false_iff]
    left
    rw [beq_eq_false_iff_ne]
    omega
  unfold calcCbTxBestChainlock
  dsimp only
  rw [if_neg hhigh]
  by_cases htip : best.nHeight = nHeight P
  · rw [if_pos htip, htip, sub_self]
    rfl
  · rw [if_neg htip]
    cases hprev : getNonNullCoinbaseChainlock p P with
    | none =>
      dsimp only
      rw [hnull]
      rfl
    | some prev =>
      obtain ⟨⟨ancestor, hancestor, -⟩, hlt⟩ := h.tip hprev
      have hrange := getAncestor_range hancestor
      have hn := nHeight_eq P
      dsimp only
      rw [hnull, curBlockCoinbaseCLHeight_eq (by omega) hrange.1 hrange.2]
      simp only [Bool.false_eq_true, if_false, Option.map_some, if_neg (hle prev hprev)]

/-- An older one is not. -/
theorem calc_of_older (h : Accepted p signed P) (hmax : (P.length : ℤ) < intMax 32)
    {V19Height : ℕ} {best : ChainLockSig G} (hhigh : ¬best.nHeight < V19Height)
    {prev : CBLSSignature G × BitVec 32} (hprev : getNonNullCoinbaseChainlock p P = some prev)
    (hlt : best.nHeight < committedHeight P prev.2) :
    calcCbTxBestChainlock p V19Height best P = some ⟨true, prev.2+1, prev.1⟩ := by
  obtain ⟨⟨ancestor, hancestor, -⟩, htop⟩ := h.tip hprev
  have hrange := getAncestor_range hancestor
  have hn := nHeight_eq P
  have hnull : best.isNull = false := by
    rw [ChainLockSig.isNull, Bool.and_eq_false_iff]
    left
    rw [beq_eq_false_iff_ne]
    omega
  unfold calcCbTxBestChainlock
  dsimp only
  rw [if_neg hhigh, if_neg (by omega), hprev, hnull]
  simp only [Bool.false_eq_true, if_false]
  rw [curBlockCoinbaseCLHeight_eq (by omega) hrange.1 hrange.2, Option.map_some, if_pos hlt]

/-- The ChainLock that the miner puts into the next block's coinbase is accepted on every
node with the same chain, and not below the last one, exactly when the best ChainLock of the
miner's handler is none, older than the last one, or one of the tip or a block below it. -/
theorem miner_chainlock_accepted_iff (p : Params) (V19Height : ℕ) (signed : ChainLockSig G → Bool)
    (P : CBlockIndex G) (best : BestChainLock G) (h : Accepted p signed P)
    (hmax : (P.length : ℤ) < intMax 32) (hint : best.nHeight ≤ intMax 32) :
    (∃ chosen, calcCbTxBestChainlock p V19Height best.toChainLockSig P = some chosen ∧
      AlwaysAccepted p signed P chosen) ↔ Usable p V19Height signed P best.toChainLockSig := by
  have hn := nHeight_eq P
  constructor
  · rintro ⟨chosen, hchosen, haccepted⟩
    by_cases hhigh : best.nHeight < V19Height
    · exact Or.inl hhigh
    by_cases holder : ∃ prev, getNonNullCoinbaseChainlock p P = some prev ∧
        best.nHeight < committedHeight P prev.2
    · exact Or.inr (Or.inl holder)
    right
    right
    have hle : ∀ prev, getNonNullCoinbaseChainlock p P = some prev →
        ¬best.nHeight < committedHeight P prev.2 := fun prev hprev hlt => holder ⟨prev, hprev, hlt⟩
    rw [calc_of_some h hmax hhigh hle, Option.some.injEq] at hchosen
    subst hchosen
    have hs : best.sig.isSome = true := best.wellFormed.resolve_left (by omega)
    have hsigned := signedAt_of_alwaysAccepted h.ne_nil hs haccepted
    have hzero := nHeight_nonneg h.ne_nil
    rw [intMax_32] at hmax hint
    dsimp only at hsigned
    rw [toInt_ofInt_32 (by omega) (by omega)] at hsigned
    have hheight : (P.length : ℤ)-(nHeight P-best.nHeight)-1 = best.nHeight := by omega
    rw [hheight] at hsigned
    exact hsigned
  · intro husable
    by_cases hhigh : best.nHeight < V19Height
    · rw [calc_of_none h.ne_nil hhigh]
      cases hprev : getNonNullCoinbaseChainlock p P with
      | none => exact ⟨_, rfl, alwaysAccepted_none hprev⟩
      | some prev => exact ⟨_, rfl, h.repeated hmax hprev true⟩
    by_cases holder : ∃ prev, getNonNullCoinbaseChainlock p P = some prev ∧
        best.nHeight < committedHeight P prev.2
    · obtain ⟨prev, hprev, hlt⟩ := holder
      exact ⟨_, calc_of_older h hmax hhigh hprev hlt, h.repeated hmax hprev true⟩
    · have hsigned := (husable.resolve_left hhigh).resolve_left holder
      have hle : ∀ prev, getNonNullCoinbaseChainlock p P = some prev →
          ¬best.nHeight < committedHeight P prev.2 :=
        fun prev hprev hlt => holder ⟨prev, hprev, hlt⟩
      have hs : best.sig.isSome = true := best.wellFormed.resolve_left (by omega)
      exact ⟨_, calc_of_some h hmax hhigh hle,
        h.newer hmax hs hsigned (fun prev hprev => not_lt.mp (hle prev hprev)) true⟩

section Examples

theorem one_inRange : InRange 32 1 := by decide

/-- A network where v20 is active from the first block on. -/
def earlyParams : Params :=
  {mainParams with DIP0008Height := ⟨1, one_inRange⟩, V20Height := ⟨1, one_inRange⟩}

/-- The ChainLocks of blocks 1, 2 and 3 are signed. -/
def signedBlocks (clsig : ChainLockSig Unit) : Bool :=
  (clsig.nHeight == 0 && clsig.blockHash == 1) || (clsig.nHeight == 1 && clsig.blockHash == 2) ||
    (clsig.nHeight == 2 && clsig.blockHash == 3)

/-- Two blocks, the second of which commits to the ChainLock of the first. -/
def twoBlockChain : CBlockIndex Unit := [⟨2, some ⟨3, 1, 0, some ()⟩⟩, ⟨1, none⟩]

theorem twoBlockChain_accepted : Accepted earlyParams signedBlocks twoBlockChain :=
  .connect (.start (List.cons_ne_nil _ _) (by decide +kernel)) (by decide +kernel)
    (by decide +kernel)

/-- With a best ChainLock for the block after the tip, the miner's own node refuses the
block. -/
theorem miner_chainlock_refused : Accepted earlyParams signedBlocks twoBlockChain ∧
    ¬∃ chosen, calcCbTxBestChainlock earlyParams 0 ⟨2, 3, some ()⟩ twoBlockChain = some chosen ∧
      AlwaysAccepted earlyParams signedBlocks twoBlockChain chosen := by
  refine ⟨twoBlockChain_accepted, ?_⟩
  rintro ⟨chosen, hchosen, haccepted⟩
  have hcalc : calcCbTxBestChainlock earlyParams 0 ⟨2, 3, some ()⟩ twoBlockChain =
      some ⟨true, 0xFFFFFFFF, some ()⟩ := by rfl
  rw [hcalc, Option.some.injEq] at hchosen
  subst hchosen
  have hcheck := haccepted.1 ⟨⟨2, 3, some ()⟩, Or.inr rfl⟩ {} 4 ⟨3, 2, 0xFFFFFFFF, some ()⟩
    cacheSound_empty rfl rfl
  exact absurd hcheck (by decide +kernel)

theorem miner_chainlock_accepted_tip :
    (∃ chosen, calcCbTxBestChainlock earlyParams 0 ⟨1, 2, some ()⟩ twoBlockChain = some chosen ∧
      AlwaysAccepted earlyParams signedBlocks twoBlockChain chosen) ↔
    Usable earlyParams 0 signedBlocks twoBlockChain ⟨1, 2, some ()⟩ :=
  miner_chainlock_accepted_iff earlyParams 0 signedBlocks twoBlockChain
    ⟨⟨1, 2, some ()⟩, Or.inr rfl⟩ twoBlockChain_accepted (by decide) (by decide)

end Examples

end BabaChain.ChainLock
