import BabaChain.CreditPoolLedger
import BabaChain.Lib.ByteWriter
import BabaChain.Lib.SlidingWindow
import Mathlib

/-! The limit of what may be unlocked within the period of the credit pool. -/
namespace BabaChain.CreditPool
open MNHF (CBlock CBlockIndex BlockIndex Failure nHeight getAncestor deploymentActiveAt)
open SlidingWindow ByteWriter

section Statements

variable (env : Environment) (p : ChainParams)

/-- The balance that the last block of a chain commits to. -/
def balance : CBlockIndex → ℤ
  | [] => 0
  | block :: _ => committed env block

/-- The blocks of one period before v20 unlock nothing: their unlocks would leave
the window without ever having been in it. -/
def QuietBeforeV20 (pindex : CBlockIndex) : Prop :=
  ∀ block pprev, block :: pprev <:+ pindex →
    p.V20Height-p.nCreditPoolPeriodBlocks ≤ nHeight (block :: pprev) →
      nHeight (block :: pprev) < p.V20Height → unlocks env block = []

/-- Under the v24 rules, the unlocks of a block and of the period before it stay
within the limit, and those of the block within the pool. -/
def WithinLimitV24 (block : CBlock) (pprev : CBlockIndex) : Prop :=
  p.v24ActiveAt pprev = true → unlocks env block ≠ [] →
    windowSum (unlockedIn env) (p.nCreditPoolPeriodBlocks+1) (block :: pprev) ≤ LimitAmountV24 ∧
      unlockedIn env block ≤ balance env pprev

end Statements

variable {env : Environment} {p : ChainParams} {T : BlockIndex} {block : CBlock}
  {pprev pindex : CBlockIndex} {pool : CCreditPool}

theorem Connected.mem (h : Connected env p T pindex) (hne : pindex ≠ []) : pindex ∈ T.entries := by
  cases h with
  | nil => exact absurd rfl hne
  | connect _ hindex => exact hindex

theorem Connected.of_suffix (h : Connected env p T pindex) (hs : pprev <:+ pindex) :
    Connected env p T pprev := by
  induction h with
  | nil => exact List.suffix_nil.mp hs ▸ .nil
  | connect h hindex hman hok ih =>
    rcases List.suffix_cons_iff.mp hs with rfl | hs
    · exact .connect h hindex hman hok
    · exact ih hs

theorem Connected.accepts (h : Connected env p T (block :: pprev)) : Accepts env p block pprev :=
  ((connected_cons_iff (h.mem nofun)).mp h).2

theorem Connected.tail (h : Connected env p T (block :: pprev)) : Connected env p T pprev :=
  h.of_suffix (List.suffix_cons block pprev)

theorem QuietBeforeV20.of_suffix (h : QuietBeforeV20 env p pindex) (hs : pprev <:+ pindex) :
    QuietBeforeV20 env p pprev :=
  fun b rest hb => h b rest (hb.trans hs)

/-- A block among the newest ones of a chain, with the chain that it ends. -/
theorem suffix_of_mem_take {w : ℕ} (h : block ∈ pindex.take w) :
    ∃ rest, block :: rest <:+ pindex ∧ nHeight pindex-w < nHeight (block :: rest) := by
  obtain ⟨i, hi, rfl⟩ := List.mem_iff_getElem.mp h
  rw [List.length_take, lt_min_iff] at hi
  refine ⟨pindex.drop (i+1), ?_, ?_⟩
  · rw [List.getElem_take, ← List.drop_eq_getElem_cons hi.2]
    exact List.drop_suffix i pindex
  · have hlen : (pindex.drop (i+1)).length = pindex.length-(i+1) := List.length_drop
    unfold nHeight
    rw [List.length_cons, hlen]
    omega

/-- The unlocks that leave the window with a block are those of its ancestor one
period back. -/
theorem getDistantUnlocked_eq (h : Connected env p T pindex) :
    getDistantUnlocked env p pindex =
      .ok (leaving (unlockedIn env) p.nCreditPoolPeriodBlocks pindex) := by
  unfold getDistantUnlocked leaving
  by_cases hlt : p.nCreditPoolPeriodBlocks < pindex.length
  · have hheight : ¬(nHeight pindex < nHeight pindex-p.nCreditPoolPeriodBlocks ∨
        nHeight pindex-p.nCreditPoolPeriodBlocks < 0) := by
      unfold nHeight
      omega
    have hdrop : (nHeight pindex-(nHeight pindex-p.nCreditPoolPeriodBlocks)).toNat =
        p.nCreditPoolPeriodBlocks := by omega
    have hcons := List.drop_eq_getElem_cons hlt
    have hsuffix : pindex[p.nCreditPoolPeriodBlocks] ::
        pindex.drop (p.nCreditPoolPeriodBlocks+1) <:+ pindex := by
      rw [← hcons]
      exact List.drop_suffix _ _
    obtain ⟨data, hdata, hunlocked⟩ := getCreditData_unlocked (h.of_suffix hsuffix).accepts
    rw [getAncestor, if_neg hheight, hdrop, hcons]
    dsimp only
    rw [hdata, List.getElem?_eq_getElem hlt, Option.map_some, Option.getD_some, ← hunlocked]
    rfl
  · have hheight : nHeight pindex < nHeight pindex-p.nCreditPoolPeriodBlocks ∨
        nHeight pindex-p.nCreditPoolPeriodBlocks < 0 := by
      unfold nHeight
      omega
    rw [getAncestor, if_pos hheight, List.getElem?_eq_none (not_lt.mp hlt)]
    rfl

/-- What `ConstructCreditPool` comes to for an accepted block. -/
theorem constructCreditPool_eq (h : Connected env p T (block :: pprev))
    (hactive : deploymentActiveAt (block :: pprev) p.V20Height = true) (prev : CCreditPool) :
    constructCreditPool env p block pprev prev =
      (addIndexes prev.indexes (env.hashOrder (gatheredIndexes env block))).bind fun indexes =>
        let latelyUnlocked := prev.latelyUnlocked+unlockedIn env block
          -leaving (unlockedIn env) p.nCreditPoolPeriodBlocks (block :: pprev)
        let currentLimit := limitFor p (block :: pprev) (committed env block) latelyUnlocked
        if currentLimit < 0 then .error (.exception "Negative limit for CreditPool")
        else .ok ⟨committed env block, currentLimit, latelyUnlocked, indexes⟩ := by
  have hdip3 := activeAt_of_le p.dip3_le_v20 hactive
  unfold constructCreditPool
  rw [getCreditData_since_dip3 h.accepts hdip3, getDistantUnlocked_eq h]
  rfl

/-- The pool of a block since v20, from that of the block before. -/
theorem poolOf_cons (hactive : deploymentActiveAt (block :: pprev) p.V20Height = true) :
    poolOf env p (block :: pprev) =
      (poolOf env p pprev).bind (constructCreditPool env p block pprev) := by
  rw [poolOf, if_neg (by rw [hactive]; exact Bool.noConfusion)]

theorem poolOf_inactive (hactive : deploymentActiveAt (block :: pprev) p.V20Height = false) :
    poolOf env p (block :: pprev) = .ok {} := by
  rw [poolOf, if_pos hactive]

/-- The fields of a pool that was built, and of the one before. -/
theorem pool_spec (h : Connected env p T (block :: pprev))
    (hactive : deploymentActiveAt (block :: pprev) p.V20Height = true)
    (hpool : poolOf env p (block :: pprev) = .ok pool) :
    ∃ prev, poolOf env p pprev = .ok prev ∧ pool.locked = committed env block ∧
      pool.latelyUnlocked = prev.latelyUnlocked+unlockedIn env block
        -leaving (unlockedIn env) p.nCreditPoolPeriodBlocks (block :: pprev) ∧
      pool.currentLimit =
        limitFor p (block :: pprev) (committed env block) pool.latelyUnlocked ∧
      0 ≤ pool.currentLimit ∧
      addIndexes prev.indexes (env.hashOrder (gatheredIndexes env block)) = .ok pool.indexes := by
  rw [poolOf_cons hactive] at hpool
  cases hprev : poolOf env p pprev with
  | error failure =>
    rw [hprev] at hpool
    contradiction
  | ok prev =>
    rw [hprev] at hpool
    change constructCreditPool env p block pprev prev = .ok pool at hpool
    rw [constructCreditPool_eq h hactive] at hpool
    cases hindexes : addIndexes prev.indexes (env.hashOrder (gatheredIndexes env block)) with
    | error failure =>
      rw [hindexes] at hpool
      contradiction
    | ok indexes =>
      rw [hindexes] at hpool
      dsimp only [Except.bind] at hpool
      split at hpool
      · contradiction
      · next hlimit =>
        rw [← Except.ok.inj hpool]
        exact ⟨prev, rfl, rfl, rfl, rfl, not_lt.mp hlimit, hindexes⟩

theorem activeAt_iff {height : ℤ} : deploymentActiveAt pindex height = true ↔ height ≤ nHeight pindex :=
  decide_eq_true_iff

/-- The running sum is that of the window. -/
theorem latelyUnlocked_eq (h : Connected env p T pindex) (hquiet : QuietBeforeV20 env p pindex)
    (hheight : p.V20Height ≤ nHeight pindex+1) (hpool : poolOf env p pindex = .ok pool) :
    pool.latelyUnlocked = windowSum (unlockedIn env) p.nCreditPoolPeriodBlocks pindex := by
  induction pindex generalizing pool with
  | nil =>
    rw [← Except.ok.inj hpool, windowSum_nil]
  | cons block pprev ih =>
    cases hactive : deploymentActiveAt (block :: pprev) p.V20Height with
    | true =>
      obtain ⟨prev, hprev, -, hlately, -⟩ := pool_spec h hactive hpool
      have hle := activeAt_iff.mp hactive
      rw [MNHF.nHeight_cons] at hle
      have hsuffix := List.suffix_cons block pprev
      rw [hlately, ih h.tail (hquiet.of_suffix hsuffix) hle hprev, windowSum_cons]
    | false =>
      -- the last block before v20: the whole window lies before v20
      rw [poolOf_inactive hactive] at hpool
      rw [← Except.ok.inj hpool]
      refine (windowSum_eq_zero _ _ _ fun b hb => ?_).symm
      obtain ⟨rest, hs, hlt⟩ := suffix_of_mem_take hb
      have hbefore : nHeight (block :: pprev) < p.V20Height := by
        by_contra hle
        exact absurd (hactive.symm.trans (activeAt_iff.mpr (not_lt.mp hle))) Bool.noConfusion
      have hle := hs.length_le
      have hquietb := hquiet b rest hs (by omega) (by
        unfold nHeight at hbefore ⊢
        omega)
      rw [unlockedIn, hquietb, List.map_nil, List.sum_nil]

/-- The checks of a block since v20 against the pool before it. -/
theorem diff_spec (h : Connected env p T (block :: pprev))
    (hactive : deploymentActiveAt (block :: pprev) p.V20Height = true) :
    ∃ pool d d', poolOf env p pprev = .ok pool ∧ pprev ≠ [] ∧
      CCreditPoolDiff.create p pool pprev (env.getBlockSubsidy (block :: pprev)) = .ok d ∧
      Session env d d' block.vtx.tail ∧ committed env block = d'.getTotalLocked ∧
      (∃ cbTx, HasPayload env block cbTx) := by
  have hacc := h.accepts
  rcases hacc.special with ⟨-, hinactive, -⟩ | ⟨pool, cbTx, -, hcb, hpool, -, hdiff⟩
  · exact absurd (hactive.symm.trans hinactive) Bool.noConfusion
  · unfold checkDiff at hdiff
    cases hcreate : CCreditPoolDiff.create p pool pprev (env.getBlockSubsidy (block :: pprev)) with
    | error failure =>
      rw [hcreate] at hdiff
      contradiction
    | ok d =>
      rw [hcreate] at hdiff
      dsimp only [bind, Except.bind] at hdiff
      cases hproc : processTransactions env d block.vtx.tail with
      | error failure =>
        rw [hproc] at hdiff
        contradiction
      | ok verdict =>
        rw [hproc] at hdiff
        dsimp only at hdiff
        cases verdict with
        | error reason => exact absurd (Except.ok.inj hdiff) nofun
        | ok d' =>
          dsimp only at hdiff
          split at hdiff
          · exact absurd (Except.ok.inj hdiff) nofun
          · next heq =>
            have hpay := hasPayload_of_blockCbTx hcb
            have hne : pprev ≠ [] := fun hnil => by
              rw [CCreditPoolDiff.create, if_pos hnil] at hcreate
              contradiction
            exact ⟨pool, d, d', hpool, hne, hcreate,
              processTransactions_spec hacc.goodUnlocks hproc,
              hpay.committed_eq.trans (not_not.mp heq), cbTx, hpay⟩

theorem create_spec {d : CCreditPoolDiff} {blockSubsidy : ℤ}
    (h : CCreditPoolDiff.create p pool pprev blockSubsidy = .ok d) :
    d.pool = pool ∧ d.sessionLocked = 0 ∧ d.sessionUnlocked = 0 ∧ d.newIndexes = [] := by
  unfold CCreditPoolDiff.create at h
  split at h
  · contradiction
  · split at h
    · cases hshare : platformShare (getMasternodePayment p (nHeight pprev+1) blockSubsidy true) with
      | error failure =>
        rw [hshare] at h
        contradiction
      | ok reward =>
        rw [hshare] at h
        rw [← Except.ok.inj h]
        exact ⟨rfl, rfl, rfl, rfl⟩
    · rw [← Except.ok.inj h]
      exact ⟨rfl, rfl, rfl, rfl⟩

/-- What a block since v20 unlocks is within the limit of the pool before it. -/
theorem unlockedIn_le_limit (h : Connected env p T (block :: pprev))
    (hactive : deploymentActiveAt (block :: pprev) p.V20Height = true) :
    ∃ pool, poolOf env p pprev = .ok pool ∧
      (unlocks env block = [] ∨ unlockedIn env block ≤ pool.currentLimit) := by
  obtain ⟨pool, d, d', hpool, -, hcreate, hs, -, cbTx, hpay⟩ := diff_spec h hactive
  obtain ⟨rfl, -, hzero, -⟩ := create_spec hcreate
  refine ⟨d.pool, hpool, ?_⟩
  rw [unlockedIn, hpay.unlocks_eq]
  rcases hs.within with hnil | hle
  · exact .inl hnil
  · right
    rw [hs.sessionUnlocked, hzero, zero_add] at hle
    exact hle

/-- Every unlock of an accepted block takes something out. -/
theorem Accepts.unlock_pos (h : Accepts env p block pprev) : ∀ u ∈ unlocks env block, 0 < u.2 := by
  intro u hu
  cases hdip3 : deploymentActiveAt (block :: pprev) p.DIP0003Height with
  | false =>
    rw [h.unlocks_eq_nil hdip3] at hu
    exact absurd hu List.not_mem_nil
  | true =>
    obtain ⟨cbTx, hpay⟩ := h.hasPayload hdip3
    rw [hpay.unlocks_eq] at hu
    obtain ⟨tx, hmem, hof⟩ := List.mem_filterMap.mp hu
    have hunlock : isUnlock tx = true := by
      by_contra hnot
      rw [unlockOf_eq_none (Bool.not_eq_true _ ▸ hnot)] at hof
      contradiction
    obtain ⟨index, toUnlock, hof', -, hpos⟩ := h.goodUnlocks tx hmem hunlock
    rw [← Option.some.inj (hof'.symm.trans hof)]
    exact hpos

theorem Accepts.unlockedIn_nonneg (h : Accepts env p block pprev) : 0 ≤ unlockedIn env block := by
  apply List.sum_nonneg
  intro n hn
  obtain ⟨u, hmem, rfl⟩ := List.mem_map.mp hn
  exact (h.unlock_pos u hmem).le

theorem Accepts.unlockedIn_pos (h : Accepts env p block pprev) (hne : unlocks env block ≠ []) :
    0 < unlockedIn env block := by
  have hpos := h.unlock_pos
  obtain ⟨u, rest, hcons⟩ := List.exists_cons_of_ne_nil hne
  rw [hcons, List.forall_mem_cons] at hpos
  rw [unlockedIn, hcons, List.map_cons, List.sum_cons]
  have hrest : 0 ≤ (rest.map Prod.snd).sum := by
    apply List.sum_nonneg
    intro n hn
    obtain ⟨u', hmem, rfl⟩ := List.mem_map.mp hn
    exact (hpos.2 u' hmem).le
  omega

/-- A chain whose blocks just before v20 unlock nothing keeps to the v24 limit in
every block. -/
theorem withdrawal_limit_v24 (h : Connected env p T pindex)
    (hquiet : QuietBeforeV20 env p pindex) :
    ∀ block pprev, block :: pprev <:+ pindex → WithinLimitV24 env p block pprev := by
  intro block pprev hs hv24 hne
  have hc := h.of_suffix hs
  have hle := p.v20_le_v24 pprev.tail hv24
  have hheight : p.V20Height ≤ nHeight pprev+1 := by
    unfold nHeight at hle ⊢
    rw [List.length_tail] at hle
    omega
  have hactive : deploymentActiveAt (block :: pprev) p.V20Height = true :=
    activeAt_iff.mpr (by rwa [MNHF.nHeight_cons])
  obtain ⟨pool, hpool, hwithin⟩ := unlockedIn_le_limit hc hactive
  have hlimit := hwithin.resolve_left hne
  have hpos := hc.accepts.unlockedIn_pos hne
  have hwindow := latelyUnlocked_eq hc.tail
    (hquiet.of_suffix ((List.suffix_cons block pprev).trans hs)) hheight hpool
  cases pprev with
  | nil =>
    -- the pool before the first block is empty
    rw [← Except.ok.inj hpool] at hlimit
    exact absurd hpos (not_lt.mpr hlimit)
  | cons last rest =>
    have hlast : deploymentActiveAt (last :: rest) p.V20Height = true := by
      rw [List.tail_cons] at hle
      exact activeAt_iff.mpr (by rwa [MNHF.nHeight_cons])
    obtain ⟨-, -, -, -, hcurrent, -⟩ := pool_spec hc.tail hlast hpool
    rw [hcurrent, limitFor, if_pos hv24] at hlimit
    have hmin : unlockedIn env block ≤
        min (committed env last) (LimitAmountV24-pool.latelyUnlocked) := by
      rcases le_max_iff.mp hlimit with hzero | hmin
      · exact absurd hpos (not_lt.mpr hzero)
      · exact hmin
    obtain ⟨hbalance, hroom⟩ := le_min_iff.mp hmin
    refine ⟨?_, hbalance⟩
    rw [windowSum_succ_cons, ← hwindow]
    omega

theorem quietBeforeV20_nil : QuietBeforeV20 env p [] :=
  fun _ _ hs => absurd (List.suffix_nil.mp hs) nofun

theorem quietBeforeV20_cons : QuietBeforeV20 env p (block :: pprev) ↔
    (p.V20Height-p.nCreditPoolPeriodBlocks ≤ nHeight (block :: pprev) →
      nHeight (block :: pprev) < p.V20Height → unlocks env block = []) ∧
        QuietBeforeV20 env p pprev := by
  constructor
  · exact fun h => ⟨h block pprev List.suffix_rfl, h.of_suffix (List.suffix_cons block pprev)⟩
  · rintro ⟨hblock, hprev⟩ b rest hs
    rcases List.suffix_cons_iff.mp hs with heq | hs
    · obtain ⟨rfl, rfl⟩ := List.cons.inj heq
      exact hblock
    · exact hprev b rest hs

instance QuietBeforeV20.decidable : ∀ pindex, Decidable (QuietBeforeV20 env p pindex)
  | [] => .isTrue quietBeforeV20_nil
  | _ :: pprev =>
    have : Decidable (QuietBeforeV20 env p pprev) := QuietBeforeV20.decidable pprev
    decidable_of_iff _ quietBeforeV20_cons.symm

section Chains

/-- A pay-to-public-key-hash script. -/
def keyHashScript : List UInt8 := [0x76, 0xa9, 0x14]++List.replicate 20 1++[0x88, 0xac]

theorem special_version : MachineInt.InRange 16 3 := by decide

def coinbaseTx (height balance : ℕ) : Tx where
  hash := BitVec.ofNat 256 (2*height)
  nType := TRANSACTION_COINBASE
  vin := [⟨0, 0xffffffff⟩]
  vout := [⟨0, keyHashScript⟩]
  vExtraPayload := writeLE 2 3++writeLE 4 height++writeLE 64 0++writeLE 1 0++writeLE 96 0
    ++writeLE 8 balance
  nVersion := ⟨3, special_version⟩

def assetLockTx (height amount : ℕ) : Tx where
  hash := BitVec.ofNat 256 (2*height+1)
  nType := TRANSACTION_ASSET_LOCK
  vin := [⟨BitVec.ofNat 256 (2*height-2), 0⟩]
  vout := [⟨amount, [OP_RETURN, 0]⟩]
  vExtraPayload := writeLE 1 1++writeLE 1 1++writeLE 8 amount++writeLE 1 25++keyHashScript
  nVersion := ⟨3, special_version⟩

def assetUnlockTx (height index amount : ℕ) : Tx where
  hash := BitVec.ofNat 256 (2*height+1)
  nType := TRANSACTION_ASSET_UNLOCK
  vin := []
  vout := [⟨amount-1, keyHashScript⟩]
  vExtraPayload := writeLE 1 1++writeLE 8 index++writeLE 4 1++writeLE 4 height++writeLE 32 1
    ++writeLE 96 1
  nVersion := ⟨3, special_version⟩

def blockAt (height balance : ℕ) (txs : List Tx) : CBlock where
  hash := BitVec.ofNat 256 (height+1)
  nTime := BitVec.ofNat 32 height
  vtx := coinbaseTx height balance :: txs

def genesisTx : Tx where
  hash := 0
  nType := 0
  vin := [⟨0, 0xffffffff⟩]
  vout := [⟨0, [OP_RETURN]⟩]
  vExtraPayload := []
  nVersion := ⟨1, by decide⟩

def genesisBlock : CBlock where
  hash := 1
  nTime := 0
  vtx := [genesisTx]

/-- Blocks without locks and unlocks. -/
def idle (balance : ℕ) : ℕ → CBlockIndex → CBlockIndex
  | 0, pindex => pindex
  | n+1, pindex => idle balance n (blockAt pindex.length balance [] :: pindex)

/-- An environment whose signatures all verify. -/
def signedEnvironment : Environment where
  readSignature := ByteReader.readBytes 96
  lookupBlockIndex _ := true
  verifySig _ _ _ := .ok ()
  getBlockSubsidy _ := 500000000
  hashOrder l := l
  hashOrder_perm _ := .refl _

/-- A network with v20 and v24 active at height 3. -/
def earlyParams : ChainParams where
  DIP0003Height := 1
  DIP0008Height := 1
  V20Height := 3
  MN_RRHeight := 600
  WithdrawalsHeight := 600
  v24ActiveAfter pindex := decide (3 ≤ nHeight pindex+1)
  nMasternodePaymentsIncreaseBlock := 350
  nMasternodePaymentsIncreasePeriod := 10
  BRRHeight := 1
  nSuperblockCycle := 20
  nCreditPoolPeriodBlocks := 100
  dip3_le_v20 := by decide
  dip8_le_v20 := by decide
  v20_le_v24 _ h := of_decide_eq_true h
  v24_stays block pprev h := by
    have hle := of_decide_eq_true h
    apply decide_eq_true
    rw [MNHF.nHeight_cons]
    omega

/-- 5000 coins are unlocked in the last block before v20, and 9000 locked in the
first one since; the unlock has left the window when 4001 more are unlocked. -/
def unlockedBeforeV20 : CBlockIndex :=
  blockAt 103 499900000000 [assetUnlockTx 103 1 400100000000] ::
    idle 900000000000 99 [blockAt 3 900000000000 [assetLockTx 3 900000000000],
      blockAt 2 0 [assetUnlockTx 2 0 500000000000], blockAt 1 0 [], genesisBlock]

theorem unlockedBeforeV20_nodup : (unlockedBeforeV20.map CBlock.hash).Nodup := by decide +kernel

/-- A node connects the chain, and its last block exceeds the limit. -/
theorem withdrawal_limit_exceeded :
    Connected signedEnvironment earlyParams (chainIndex unlockedBeforeV20 unlockedBeforeV20_nodup)
        unlockedBeforeV20 ∧
      ¬∀ block pprev, block :: pprev <:+ unlockedBeforeV20 →
        WithinLimitV24 signedEnvironment earlyParams block pprev := by
  have hall : (connectAll signedEnvironment earlyParams unlockedBeforeV20).isSome = true := by
    decide +kernel
  obtain ⟨man, hman⟩ := Option.isSome_iff_exists.mp hall
  refine ⟨(connected_of_connectAll (T := chainIndex _ unlockedBeforeV20_nodup) (fun _ hs => hs)
    hman).1, fun h => ?_⟩
  have hlimit := (h _ _ List.suffix_rfl (by decide +kernel) (by decide +kernel)).1
  exact absurd hlimit (by decide +kernel)

/-- 1000 coins are locked, then 300 of them unlocked. -/
def lockedThenUnlocked : CBlockIndex :=
  [blockAt 4 70000000000 [assetUnlockTx 4 1 30000000000],
    blockAt 3 100000000000 [assetLockTx 3 100000000000], blockAt 2 0 [], blockAt 1 0 [],
    genesisBlock]

theorem lockedThenUnlocked_nodup : (lockedThenUnlocked.map CBlock.hash).Nodup := by decide +kernel

theorem lockedThenUnlocked_connected : Connected signedEnvironment earlyParams
    (chainIndex lockedThenUnlocked lockedThenUnlocked_nodup) lockedThenUnlocked := by
  have hall : (connectAll signedEnvironment earlyParams lockedThenUnlocked).isSome = true := by
    decide +kernel
  obtain ⟨man, hman⟩ := Option.isSome_iff_exists.mp hall
  exact (connected_of_connectAll (T := chainIndex _ lockedThenUnlocked_nodup) (fun _ hs => hs) hman).1

theorem withdrawal_limit_v24_kept : WithinLimitV24 signedEnvironment earlyParams
    (blockAt 4 70000000000 [assetUnlockTx 4 1 30000000000]) lockedThenUnlocked.tail :=
  withdrawal_limit_v24 lockedThenUnlocked_connected (by decide +kernel) _ _ List.suffix_rfl

end Chains

end BabaChain.CreditPool
