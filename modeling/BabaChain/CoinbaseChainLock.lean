import BabaChain.Consensus
import BabaChain.Primitives

/-! The ChainLock that a coinbase transaction commits to, and its check against
the chain, the best known ChainLock and the entry cached by the previous check. -/
namespace BabaChain.ChainLock
open MachineInt

variable {G : Type*} [DecidableEq G]

/-- A `CBLSSignature`: a group element, or nothing while it is not valid. -/
abbrev CBLSSignature (G : Type*) := Option G

structure CCbTx (G : Type*) where
  nVersion : BitVec 16
  nHeight : ℤ
  bestCLHeightDiff : BitVec 32
  bestCLSignature : CBLSSignature G
deriving DecidableEq

/-- A block in the index, with the coinbase payload stored on disk. -/
structure Block (G : Type*) where
  hash : uint256
  cbTx : Option (CCbTx G)
deriving DecidableEq

/-- A `CBlockIndex` pointer: the block and its ancestors, newest first. The null
pointer is the empty list. -/
abbrev CBlockIndex (G : Type*) := List (Block G)

def nHeight (pindex : CBlockIndex G) : ℤ := (pindex.length : ℤ)-1

def getBlockHash : CBlockIndex G → uint256
  | [] => 0
  | b :: _ => b.hash

/-- `GetAncestor`: the walk back ends at the block of the given height. -/
def getAncestor (pindex : CBlockIndex G) (height : ℤ) : Option (CBlockIndex G) :=
  if nHeight pindex < height ∨ height < 0 then
    none
  else
    some (pindex.drop (nHeight pindex-height).toNat)

structure ChainLockSig (G : Type*) where
  nHeight : ℤ
  blockHash : uint256
  sig : CBLSSignature G
deriving DecidableEq

/-- What `GetBestChainLock` returns: the null ChainLock or a verified one, so one
with a valid signature. -/
structure BestChainLock (G : Type*) extends ChainLockSig G where
  wellFormed : nHeight = -1 ∨ sig.isSome

/-- `CheckCbTx`. -/
def checkCbTx (p : Params) (cbTx : CCbTx G) (pindexPrev : CBlockIndex G) : Except String Unit :=
  if cbTx.nVersion = 0 ∨ 4 ≤ cbTx.nVersion then
    .error "bad-cbtx-version"
  -- the genesis block has only its version checked
  else if pindexPrev = [] then
    .ok ()
  else if nHeight pindexPrev+1 ≠ cbTx.nHeight then
    .error "bad-cbtx-height"
  else if (p.DIP0008Height : ℤ) ≤ nHeight pindexPrev ∧ cbTx.nVersion < 2 then
    .error "bad-cbtx-version"
  else
    let isV20 := (p.V20Height : ℤ) ≤ nHeight pindexPrev+1
    if (isV20 ∧ cbTx.nVersion < 3) ∨ (¬isV20 ∧ 3 ≤ cbTx.nVersion) then
      .error "bad-cbtx-version"
    else
      .ok ()

/-- `GetNonNullCoinbaseChainlock`, the block being readable from disk. -/
def getNonNullCoinbaseChainlock (p : Params) :
    CBlockIndex G → Option (CBLSSignature G × BitVec 32)
  | [] => none
  | b :: pprev =>
    if nHeight (b :: pprev) < p.V20Height then
      none
    else
      match b.cbTx with
      | none => none
      | some cbTx =>
        if cbTx.bestCLSignature.isSome then some (cbTx.bestCLSignature, cbTx.bestCLHeightDiff)
        else none

/-- The static `cached_pindex` and `cached_chainlock`. -/
structure Cache (G : Type*) where
  cached_pindex : CBlockIndex G := []
  cached_chainlock : Option (CBLSSignature G × BitVec 32) := none
deriving DecidableEq

/-- The ChainLock of the previous block, from the cache or from disk. -/
def prevBlockCoinbaseChainlock (p : Params) (pprev : CBlockIndex G) (cache : Cache G) :
    Option (CBLSSignature G × BitVec 32) :=
  match if cache.cached_pindex = pprev then cache.cached_chainlock else none with
  | some entry => some entry
  | none => getNonNullCoinbaseChainlock p pprev

/-- The two rules that hold once the previous block commits to a ChainLock. -/
def checkAgainstPrev (cbTx : CCbTx G) :
    Option (CBLSSignature G × BitVec 32) → Except String Unit
  | none => .ok ()
  | some prev =>
    if cbTx.bestCLSignature.isNone then .error "bad-cbtx-null-clsig"
    else if prev.2+1 < cbTx.bestCLHeightDiff then .error "bad-cbtx-older-clsig"
    else .ok ()

/-- `curBlockCoinbaseCLHeight`, computed with `int`s. -/
def curBlockCoinbaseCLHeight (pindex : CBlockIndex G) (diff : BitVec 32) : Option ℤ :=
  (checked 32 (nHeight pindex-diff.toInt)).bind fun n => checked 32 (n-1)

/-- The part of `CheckCbTxBestChainlock` that decides. An accepted coinbase comes
with whether its ChainLock is to be cached; `none` is an `int` overflow or the
dereference of a missing ancestor. -/
def judgeChainlock (best : ChainLockSig G) (verifyChainLock : ChainLockSig G → Bool)
    (cbTx : CCbTx G) (pindex : CBlockIndex G) (prev : Option (CBLSSignature G × BitVec 32)) :
    Option (Except String Bool) :=
  if best.nHeight = nHeight pindex-1 ∧ cbTx.bestCLHeightDiff = 0 ∧
      cbTx.bestCLSignature = best.sig then
    some (.ok true)
  else
    match checkAgainstPrev cbTx prev with
    | .error reason => some (.error reason)
    | .ok () =>
      if cbTx.bestCLSignature.isSome then
        match curBlockCoinbaseCLHeight pindex cbTx.bestCLHeightDiff with
        | none => none
        | some height =>
          if best.nHeight = height ∧ best.sig = cbTx.bestCLSignature then
            -- matches the best ChainLock, which was verified before
            some (.ok true)
          else
            match getAncestor pindex height with
            | none => none
            | some ancestor =>
              if verifyChainLock ⟨height, getBlockHash ancestor, cbTx.bestCLSignature⟩ then
                some (.ok true)
              else
                some (.error "bad-cbtx-invalid-clsig")
      else if cbTx.bestCLHeightDiff ≠ 0 then
        some (.error "bad-cbtx-cldiff")
      else
        some (.ok false)

/-- `CheckCbTxBestChainlock`. -/
def checkCbTxBestChainlock (p : Params) (best : ChainLockSig G)
    (verifyChainLock : ChainLockSig G → Bool) (cbTx : CCbTx G) (pindex : CBlockIndex G)
    (cache : Cache G) : Option (Except String Unit × Cache G) :=
  if cbTx.nVersion < 3 then
    some (.ok (), cache)
  else
    (judgeChainlock best verifyChainLock cbTx pindex
      (prevBlockCoinbaseChainlock p pindex.tail cache)).map fun
      | .error reason => (.error reason, cache)
      | .ok false => (.ok (), cache)
      -- a signature found valid is remembered for the next block
      | .ok true => (.ok (), ⟨pindex, some (cbTx.bestCLSignature, cbTx.bestCLHeightDiff)⟩)

/-- A node's accepted blocks, as a tree of indexes, and the cache. -/
structure Node (G : Type*) where
  tree : List (CBlockIndex G)
  cache : Cache G := {}

/-- A block offered on top of `pprev`, with the best ChainLock and the verifier of
that moment; or a restart, which empties the static cache. -/
inductive Input (G : Type*) where
  | connect (best : BestChainLock G) (verifyChainLock : ChainLockSig G → Bool) (hash : uint256)
      (cbTx : CCbTx G) (pprev : CBlockIndex G)
  | restart

/-- The checks of the coinbase when a block is connected; `none` is undefined
behaviour. A block is offered only on an accepted one, and heights are `int`s. -/
def step (p : Params) (s : Node G) : Input G → Option (Except String Unit) × Node G
  | .restart => (some (.ok ()), {s with cache := {}})
  | .connect best verifyChainLock hash cbTx pprev =>
    if pprev ∈ s.tree ∧ (pprev.length : ℤ) < intMax 32 then
      match checkCbTx p cbTx pprev with
      | .error reason => (some (.error reason), s)
      | .ok () =>
        let pindex := ⟨hash, some cbTx⟩ :: pprev
        match checkCbTxBestChainlock p best.toChainLockSig verifyChainLock cbTx pindex s.cache with
        | none => (none, s)
        | some (.error reason, cache) => (some (.error reason), {s with cache := cache})
        | some (.ok (), cache) => (some (.ok ()), ⟨pindex :: s.tree, cache⟩)
    else
      (some (.error "prev-blk-not-found"), s)

end BabaChain.ChainLock
