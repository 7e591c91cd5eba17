import BabaChain.CreditPoolCache

/-! What the transactions of a block move into and out of the credit pool, and what
the checks of a block make of it. -/
namespace BabaChain.CreditPool
open MNHF (CBlock CBlockIndex BlockIndex Failure nHeight deploymentActiveAt deploymentActiveAfter)

section Movements

variable (env : Environment) (p : ChainParams)

/-- The index of an asset unlock and the amount that it takes out: its outputs and
its fee. -/
def unlockOf (tx : Tx) : Option (UInt64 × ℤ) :=
  if isUnlock tx = true then
    (getAssetUnlock env tx).map fun assetUnlockTx =>
      (assetUnlockTx.index, assetUnlockTx.fee.toNat+(tx.vout.map CTxOut.nValue).sum)
  else
    none

def unlocks (block : CBlock) : List (UInt64 × ℤ) := block.vtx.filterMap (unlockOf env)

def unlockedIn (block : CBlock) : ℤ := ((unlocks env block).map Prod.snd).sum

/-- The amount that an asset lock puts in: its output without a spender. -/
def lockOf (tx : Tx) : ℤ :=
  if isLock tx = true then
    ((tx.vout.find? fun txout => isOpReturn txout.scriptPubKey).map CTxOut.nValue).getD 0
  else
    0

def lockedIn (block : CBlock) : ℤ := (block.vtx.map lockOf).sum

/-- The share of the masternode payment of a block that goes to the pool. -/
def platformRewardIn (block : CBlock) (pprev : CBlockIndex) : ℤ :=
  if deploymentActiveAfter pprev p.MN_RRHeight = true then
    (getMasternodePayment p (nHeight pprev+1) (env.getBlockSubsidy (block :: pprev)) true*375).tdiv
      1000
  else
    0

/-- The balance in the coinbase payload of a block. -/
def committed (block : CBlock) : ℤ :=
  ((block.vtx.head?.bind (getCbTx env)).map CCbTx.creditPoolBalance).getD 0

end Movements

variable {env : Environment} {p : ChainParams} {block : CBlock} {pprev : CBlockIndex} {tx : Tx}

theorem moneyRange_iff {n : ℤ} : moneyRange n = true ↔ 0 ≤ n ∧ n ≤ MAX_MONEY := decide_eq_true_iff

theorem checkOutputs_spec {vout : List CTxOut} {n : ℤ} (h : checkOutputs n vout = .ok ()) :
    ∀ txout ∈ vout, moneyRange txout.nValue = true := by
  induction vout generalizing n with
  | nil => exact fun _ hmem => absurd hmem List.not_mem_nil
  | cons txout vout ih =>
    rw [checkOutputs] at h
    split at h
    · contradiction
    · split at h
      · contradiction
      · split at h
        · contradiction
        · intro a ha
          rcases List.mem_cons.mp ha with rfl | ha
          · exact moneyRange_iff.mpr (by omega)
          · exact ih h a ha

theorem checkTransaction_outputs (h : checkTransaction tx = .ok ()) :
    ∀ txout ∈ tx.vout, moneyRange txout.nValue = true := by
  unfold checkTransaction at h
  split at h
  · contradiction
  · split at h
    · contradiction
    · exact checkOutputs_spec h

theorem addOutputs_eq {vout : List CTxOut}
    (h : ∀ txout ∈ vout, moneyRange txout.nValue = true) (n : ℤ) :
    addOutputs n vout = .ok (n+(vout.map CTxOut.nValue).sum) := by
  induction vout generalizing n with
  | nil => rw [addOutputs, List.map_nil, List.sum_nil, add_zero]
  | cons txout vout ih =>
    rw [List.forall_mem_cons] at h
    rw [addOutputs, if_neg (by rw [h.1]; exact Bool.noConfusion), ih h.2, List.map_cons,
      List.sum_cons, add_assoc]

theorem outputs_nonneg {vout : List CTxOut}
    (h : ∀ txout ∈ vout, moneyRange txout.nValue = true) : 0 ≤ (vout.map CTxOut.nValue).sum := by
  apply List.sum_nonneg
  intro n hn
  obtain ⟨txout, hmem, rfl⟩ := List.mem_map.mp hn
  exact (moneyRange_iff.mp (h txout hmem)).1

/-- An unlock that passed the checks has its payload, and takes something out. -/
structure GoodUnlock (env : Environment) (tx : Tx) (index : UInt64) (toUnlock : ℤ) : Prop where
  of : unlockOf env tx = some (index, toUnlock)
  data : getDataFromUnlockTx env tx = .ok (toUnlock, index)
  pos : 0 < toUnlock

theorem goodUnlock_of_checked (hunlock : isUnlock tx = true) (hchecked : checkTransaction tx = .ok ())
    (hfee : checkUnlockFee env tx = .ok ()) : ∃ index toUnlock, GoodUnlock env tx index toUnlock := by
  have houts := checkTransaction_outputs hchecked
  unfold checkUnlockFee at hfee
  rw [if_neg (by rw [hunlock]; exact Bool.noConfusion)] at hfee
  split at hfee
  · contradiction
  · next assetUnlockTx hpayload =>
    split at hfee
    · contradiction
    · next hne =>
      rw [not_or] at hne
      refine ⟨assetUnlockTx.index, assetUnlockTx.fee.toNat+(tx.vout.map CTxOut.nValue).sum, ?_⟩
      have hpos : 0 < assetUnlockTx.fee.toNat :=
        Nat.pos_of_ne_zero fun h => hne.1 (UInt32.toNat_inj.mp h)
      have hnonneg := outputs_nonneg houts
      refine ⟨?_, ?_, by omega⟩
      · rw [unlockOf, if_pos hunlock, hpayload, Option.map_some]
      · unfold getDataFromUnlockTx
        rw [hpayload]
        dsimp only
        rw [addOutputs_eq houts, Except.map]

theorem unlockOf_eq_none (h : isUnlock tx = false) : unlockOf env tx = none := by
  rw [unlockOf, if_neg (by rw [h]; exact Bool.noConfusion)]

/-- Every transaction of a list that is an unlock is a good one. -/
def GoodUnlocks (env : Environment) (vtx : List Tx) : Prop :=
  ∀ tx ∈ vtx, isUnlock tx = true → ∃ index toUnlock, GoodUnlock env tx index toUnlock

/-- The loop over the transactions adds up their unlocks. -/
theorem collectUnlocks_spec {vtx : List Tx} (h : GoodUnlocks env vtx)
    (blockData : CreditPoolDataPerBlock) :
    collectUnlocks env blockData vtx = .ok {blockData with
      unlocked := blockData.unlocked+((vtx.filterMap (unlockOf env)).map Prod.snd).sum
      indexes := (vtx.filterMap (unlockOf env)).foldl (fun l u => l.insert u.1)
        blockData.indexes} := by
  induction vtx generalizing blockData with
  | nil =>
    rw [collectUnlocks, List.filterMap_nil, List.map_nil, List.sum_nil, add_zero, List.foldl_nil]
  | cons tx vtx ih =>
    have hrest : GoodUnlocks env vtx := fun tx' hmem => h tx' (List.mem_cons_of_mem tx hmem)
    rw [collectUnlocks]
    cases hunlock : isUnlock tx with
    | false =>
      rw [if_pos rfl, ih hrest, List.filterMap_cons, unlockOf_eq_none hunlock]
    | true =>
      obtain ⟨index, toUnlock, hgood⟩ := h tx List.mem_cons_self hunlock
      rw [if_neg Bool.noConfusion, hgood.data]
      dsimp only
      rw [ih hrest, List.filterMap_cons, hgood.of]
      dsimp only
      rw [List.map_cons, List.sum_cons, add_assoc, List.foldl_cons]

/-- What a block with a coinbase payload is found to contain. -/
structure HasPayload (env : Environment) (block : CBlock) (cbTx : CCbTx) : Prop where
  coinbase : ∃ cb vtx, block.vtx = cb :: vtx ∧ cb.nType = TRANSACTION_COINBASE ∧
    env.readCbTx cb.vExtraPayload = some cbTx

theorem hasPayload_of_blockCbTx {cbTx : CCbTx}
    (h : blockCbTx env p block pprev = .ok (some cbTx)) : HasPayload env block cbTx := by
  unfold blockCbTx at h
  split at h
  · split at h
    · contradiction
    · exact absurd (Except.ok.inj h) nofun
  · next tx htx =>
    obtain ⟨hhead, htype⟩ := Option.filter_eq_some_iff.mp htx
    obtain ⟨vtx, hvtx⟩ := List.head?_eq_some_iff.mp hhead
    have htype := of_decide_eq_true htype
    split at h
    · contradiction
    · split at h
      · contradiction
      · next cbTx' hread =>
        rw [getCbTx, if_pos htype, Option.some.inj (Except.ok.inj h)] at hread
        exact ⟨tx, vtx, hvtx, htype, hread⟩

namespace HasPayload

variable {cbTx : CCbTx}

theorem committed_eq (h : HasPayload env block cbTx) : committed env block = cbTx.creditPoolBalance := by
  obtain ⟨cb, vtx, hvtx, htype, hread⟩ := h.coinbase
  rw [committed, hvtx, List.head?_cons, Option.bind_some, getCbTx, if_pos htype, hread,
    Option.map_some, Option.getD_some]

theorem unlocks_eq (h : HasPayload env block cbTx) :
    unlocks env block = block.vtx.tail.filterMap (unlockOf env) := by
  obtain ⟨cb, vtx, hvtx, htype, -⟩ := h.coinbase
  have hnot : isUnlock cb = false := by
    rw [isUnlock, htype]
    exact Bool.and_false _
  rw [unlocks, hvtx, List.filterMap_cons, unlockOf_eq_none hnot, List.tail_cons]

theorem lockedIn_eq (h : HasPayload env block cbTx) :
    lockedIn block = (block.vtx.tail.map lockOf).sum := by
  obtain ⟨cb, vtx, hvtx, htype, -⟩ := h.coinbase
  have hnot : isLock cb = false := by
    rw [isLock, htype]
    exact Bool.and_false _
  rw [lockedIn, hvtx, List.map_cons, List.sum_cons, lockOf, hnot,
    if_neg Bool.noConfusion, zero_add, List.tail_cons]

end HasPayload

/-- The unlocks of an accepted block are good ones. -/
theorem Accepts.goodUnlocks (h : Accepts env p block pprev) : GoodUnlocks env block.vtx.tail :=
  fun tx hmem hunlock => goodUnlock_of_checked hunlock
    (h.checked tx (List.mem_of_mem_tail hmem)) (h.fees tx hmem)

section BlockData

/-- Since DIP3 an accepted block has its coinbase payload. -/
theorem Accepts.hasPayload (h : Accepts env p block pprev)
    (hdip3 : deploymentActiveAt (block :: pprev) p.DIP0003Height = true) :
    ∃ cbTx, HasPayload env block cbTx := by
  rcases h.special with ⟨opt_cbTx, -, hcb, -⟩ | ⟨-, cbTx, -, hcb, -⟩
  · obtain ⟨cbTx, rfl⟩ := Option.isSome_iff_exists.mp (blockCbTx_isSome hdip3 hcb)
    exact ⟨cbTx, hasPayload_of_blockCbTx hcb⟩
  · exact ⟨cbTx, hasPayload_of_blockCbTx hcb⟩

/-- Before DIP3 a block contains no unlocks. -/
theorem Accepts.unlocks_eq_nil (h : Accepts env p block pprev)
    (hdip3 : deploymentActiveAt (block :: pprev) p.DIP0003Height = false) :
    unlocks env block = [] := by
  have hafter : deploymentActiveAfter pprev p.DIP0003Height = false :=
    (MNHF.activeAt_cons p.DIP0003Height).symm.trans hdip3
  have hchecked : ∃ indexes, ∀ tx ∈ uncheckedTxs block, checkSpecialTx env p pprev indexes tx = .ok ()
      := by
    rcases h.special with ⟨-, -, -, hall⟩ | ⟨pool, -, -, -, -, hall, -⟩
    · exact ⟨{}, hall⟩
    · exact ⟨pool.indexes, hall⟩
  obtain ⟨indexes, hall⟩ := hchecked
  apply List.filterMap_eq_nil_iff.mpr
  intro tx hmem
  apply unlockOf_eq_none
  by_cases hunchecked : tx ∈ uncheckedTxs block
  · have hok := hall tx hunchecked
    unfold checkSpecialTx at hok
    split at hok
    · next hnone => exact hnone.2
    · exact absurd hok nofun
  · -- the only transaction that is left out is the coinbase
    have htype : tx.nType = TRANSACTION_COINBASE := by
      unfold uncheckedTxs at hunchecked
      cases hvtx : block.vtx with
      | nil =>
        rw [hvtx] at hmem
        exact absurd hmem List.not_mem_nil
      | cons cb vtx =>
        rw [hvtx] at hmem hunchecked
        dsimp only at hunchecked
        split at hunchecked
        · next hcb =>
          rcases List.mem_cons.mp hmem with rfl | hmem
          · exact hcb
          · exact absurd hmem hunchecked
        · exact absurd hmem hunchecked
    rw [isUnlock, htype]
    exact Bool.and_false _

/-- The indexes of a block as the node gathers them. -/
def gatheredIndexes (env : Environment) (block : CBlock) : List UInt64 :=
  (unlocks env block).foldl (fun l u => l.insert u.1) []

/-- What the node reads back of an accepted block is what moved in it. -/
theorem getCreditData_since_dip3 (h : Accepts env p block pprev)
    (hdip3 : deploymentActiveAt (block :: pprev) p.DIP0003Height = true) :
    getCreditDataFromBlock env p block pprev =
      .ok (some ⟨committed env block, unlockedIn env block, gatheredIndexes env block⟩) := by
  obtain ⟨cbTx, hpay⟩ := h.hasPayload hdip3
  obtain ⟨cb, vtx, hvtx, htype, hread⟩ := hpay.coinbase
  have hmem : cb ∈ block.vtx := hvtx ▸ List.mem_cons_self
  have hspecial : cb.isSpecialTxVersion = true := by
    have hheight : ¬nHeight pprev+1 < p.DIP0003Height := by
      have hle := of_decide_eq_true hdip3
      rw [MNHF.nHeight_cons] at hle
      omega
    by_contra hnot
    have hok := h.contextual cb hmem
    unfold contextualCheckTransaction at hok
    rw [if_neg hheight, if_neg hnot, if_pos (by rw [htype]; decide)] at hok
    contradiction
  have hpayload : cb.vExtraPayload ≠ [] := fun hnil => by
    rw [hnil, env.readCbTx_nil] at hread
    contradiction
  have hnot : isUnlock cb = false := by
    rw [isUnlock, htype]
    exact Bool.and_false _
  have hgood : GoodUnlocks env block.vtx := by
    intro tx htx hunlock
    rw [hvtx] at htx
    rcases List.mem_cons.mp htx with rfl | htx
    · exact absurd (hnot.symm.trans hunlock) Bool.noConfusion
    · exact h.goodUnlocks tx (by rw [hvtx]; exact htx) hunlock
  unfold getCreditDataFromBlock
  rw [if_neg (by rw [hdip3]; exact Bool.noConfusion), hpay.committed_eq]
  split
  · next hnil => exact absurd (hvtx.symm.trans hnil) nofun
  · next cb' vtx' hvtx' =>
    obtain ⟨rfl, -⟩ := List.cons.inj (hvtx.symm.trans hvtx')
    rw [if_neg (by rw [not_or, hspecial]; exact ⟨hpayload, Bool.noConfusion⟩), hread]
    dsimp only
    rw [collectUnlocks_spec hgood, zero_add]
    rfl

theorem getCreditData_before_dip3
    (hdip3 : deploymentActiveAt (block :: pprev) p.DIP0003Height = false) :
    getCreditDataFromBlock env p block pprev = .ok none := by
  rw [getCreditDataFromBlock, if_pos hdip3]

/-- Before and since DIP3, the amount read back is the amount unlocked. -/
theorem getCreditData_unlocked (h : Accepts env p block pprev) :
    ∃ data, getCreditDataFromBlock env p block pprev = .ok data ∧
      (data.map CreditPoolDataPerBlock.unlocked).getD 0 = unlockedIn env block := by
  cases hdip3 : deploymentActiveAt (block :: pprev) p.DIP0003Height with
  | true => exact ⟨_, getCreditData_since_dip3 h hdip3, rfl⟩
  | false =>
    refine ⟨none, getCreditData_before_dip3 hdip3, ?_⟩
    rw [unlockedIn, h.unlocks_eq_nil hdip3]
    rfl

end BlockData

section Session

/-- What a block's transactions do to the session of its pool. -/
structure Session (env : Environment) (d d' : CCreditPoolDiff) (vtx : List Tx) : Prop where
  pool : d'.pool = d.pool
  pindexPrev : d'.pindexPrev = d.pindexPrev
  platformReward : d'.platformReward = d.platformReward
  sessionLocked : d'.sessionLocked = d.sessionLocked+(vtx.map lockOf).sum
  sessionUnlocked : d'.sessionUnlocked =
    d.sessionUnlocked+((vtx.filterMap (unlockOf env)).map Prod.snd).sum
  within : vtx.filterMap (unlockOf env) = [] ∨ d'.sessionUnlocked ≤ d.pool.currentLimit
  nodup : ((vtx.filterMap (unlockOf env)).map Prod.fst).Nodup
  fresh : ∀ index ∈ (vtx.filterMap (unlockOf env)).map Prod.fst,
    d.pool.indexes.contains index = false ∧ index ∉ d.newIndexes

theorem isLock_of_isUnlock (h : isUnlock tx = true) : isLock tx = false := by
  rw [isUnlock, Bool.and_eq_true] at h
  rw [isLock, of_decide_eq_true h.2]
  exact Bool.and_false _

/-- One transaction: a lock, an unlock within the limit that is new, or neither. -/
theorem processLockUnlock_spec {d d' : CCreditPoolDiff}
    (hgood : isUnlock tx = true → ∃ index toUnlock, GoodUnlock env tx index toUnlock)
    (h : d.processLockUnlockTransaction env tx = .ok d') :
    (unlockOf env tx = none ∧ d' = {d with sessionLocked := d.sessionLocked+lockOf tx}) ∨
      ∃ index toUnlock, unlockOf env tx = some (index, toUnlock) ∧ lockOf tx = 0 ∧
        d.sessionUnlocked+toUnlock ≤ d.pool.currentLimit ∧
        d.pool.indexes.contains index = false ∧ index ∉ d.newIndexes ∧
        d' = {d with
          newIndexes := index :: d.newIndexes
          sessionUnlocked := d.sessionUnlocked+toUnlock} := by
  unfold CCreditPoolDiff.processLockUnlockTransaction at h
  cases hunlock : isUnlock tx with
  | false =>
    left
    refine ⟨unlockOf_eq_none hunlock, ?_⟩
    cases hlock : isLock tx with
    | false =>
      rw [if_neg (by rw [hlock]; exact Bool.noConfusion),
        if_neg (by rw [hunlock]; exact Bool.noConfusion)] at h
      rw [← Except.ok.inj h, lockOf, hlock, if_neg Bool.noConfusion, add_zero]
    | true =>
      rw [if_pos hlock] at h
      cases hcheck : checkAssetLockUnlockTx env tx d.pindexPrev d.pool.indexes with
      | error invalid =>
        rw [hcheck] at h
        contradiction
      | ok u =>
        rw [hcheck] at h
        change d.lock env tx = .ok d' at h
        unfold CCreditPoolDiff.lock at h
        split at h
        · contradiction
        · split at h
          · contradiction
          · next txout hfind =>
            rw [← Except.ok.inj h, lockOf, if_pos hlock, hfind, Option.map_some, Option.getD_some]
  | true =>
    right
    have hlock := isLock_of_isUnlock hunlock
    obtain ⟨index, toUnlock, hof, hdata, -⟩ := hgood hunlock
    rw [if_neg (by rw [hlock]; exact Bool.noConfusion), if_pos hunlock] at h
    refine ⟨index, toUnlock, hof, by rw [lockOf, if_neg (by rw [hlock]; exact Bool.noConfusion)], ?_⟩
    cases hcheck : checkAssetLockUnlockTx env tx d.pindexPrev d.pool.indexes with
    | error invalid =>
      rw [hcheck] at h
      contradiction
    | ok u =>
      rw [hcheck] at h
      change d.unlock env tx = .ok d' at h
      unfold CCreditPoolDiff.unlock at h
      rw [hdata] at h
      dsimp only at h
      split at h
      · contradiction
      · next hle =>
        split at h
        · contradiction
        · next hnew =>
          rw [not_or, Bool.not_eq_true] at hnew
          exact ⟨not_lt.mp hle, hnew.1, hnew.2, (Except.ok.inj h).symm⟩

theorem processTransactions_spec {vtx : List Tx} {d d' : CCreditPoolDiff}
    (hgood : GoodUnlocks env vtx) (h : processTransactions env d vtx = .ok (.ok d')) :
    Session env d d' vtx := by
  induction vtx generalizing d with
  | nil =>
    rw [processTransactions] at h
    rw [Except.ok.inj (Except.ok.inj h)]
    constructor
    case within => exact .inl rfl
    case nodup => exact List.nodup_nil
    case fresh => exact fun _ hmem => absurd hmem List.not_mem_nil
    all_goals simp only [List.map_nil, List.filterMap_nil, List.sum_nil, add_zero]
  | cons tx vtx ih =>
    have hrest : GoodUnlocks env vtx := fun tx' hmem => hgood tx' (List.mem_cons_of_mem tx hmem)
    rw [processTransactions] at h
    split at h
    · next d₁ hstep =>
      have hs := ih hrest h
      rcases processLockUnlock_spec (hgood tx List.mem_cons_self) hstep with
        ⟨hof, rfl⟩ | ⟨index, toUnlock, hof, hlock, hle, hcontains, hnew, rfl⟩
      · constructor
        case pool => exact hs.pool
        case pindexPrev => exact hs.pindexPrev
        case platformReward => exact hs.platformReward
        case sessionLocked => rw [hs.sessionLocked, List.map_cons, List.sum_cons, add_assoc]
        all_goals rw [List.filterMap_cons, hof]
        case sessionUnlocked => exact hs.sessionUnlocked
        case within => exact hs.within
        case nodup => exact hs.nodup
        case fresh => exact hs.fresh
      · constructor
        case pool => exact hs.pool
        case pindexPrev => exact hs.pindexPrev
        case platformReward => exact hs.platformReward
        case sessionLocked =>
          rw [hs.sessionLocked, List.map_cons, List.sum_cons, hlock, zero_add]
        all_goals rw [List.filterMap_cons, hof]
        case sessionUnlocked =>
          rw [hs.sessionUnlocked, List.map_cons, List.sum_cons, add_assoc]
        case within =>
          right
          rcases hs.within with hnil | hwithin
          · rw [hs.sessionUnlocked, hnil, List.map_nil, List.sum_nil, add_zero]
            exact hle
          · exact hwithin
        case nodup =>
          rw [List.map_cons, List.nodup_cons]
          exact ⟨fun hmem => (hs.fresh index hmem).2 List.mem_cons_self, hs.nodup⟩
        case fresh =>
          intro i hi
          rw [List.map_cons] at hi
          rcases List.mem_cons.mp hi with rfl | hi
          · exact ⟨hcontains, hnew⟩
          · have hfresh := hs.fresh i hi
            exact ⟨hfresh.1, fun hmem => hfresh.2 (List.mem_cons_of_mem index hmem)⟩
    · split at h
      · exact absurd (Except.ok.inj h) nofun
      · contradiction

end Session

end BabaChain.CreditPool
