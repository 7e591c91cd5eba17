import BabaChain.CreditPoolLimits

/-! The balance of the credit pool is what has been put in less what has been taken
out, and each withdrawal is made once. -/
namespace BabaChain.CreditPool
open MNHF (CBlock CBlockIndex BlockIndex Failure nHeight deploymentActiveAt deploymentActiveAfter)
open SlidingWindow

section Statements

variable (env : Environment) (p : ChainParams)

/-- The blocks of a chain since v20, each with the chain before it. -/
def sinceV20 : CBlockIndex → List (CBlock × CBlockIndex)
  | [] => []
  | block :: pprev =>
    if deploymentActiveAt (block :: pprev) p.V20Height = true then
      (block, pprev) :: sinceV20 pprev
    else
      []

def totalLocked (pindex : CBlockIndex) : ℤ :=
  ((sinceV20 p pindex).map fun b => lockedIn b.1).sum

def totalRewards (pindex : CBlockIndex) : ℤ :=
  ((sinceV20 p pindex).map fun b => platformRewardIn env p b.1 b.2).sum

def totalUnlocked (pindex : CBlockIndex) : ℤ :=
  ((sinceV20 p pindex).map fun b => unlockedIn env b.1).sum

/-- The indexes of the unlocks in the blocks since v20. -/
def unlockedIndexes (pindex : CBlockIndex) : List UInt64 :=
  (sinceV20 p pindex).flatMap fun b => (unlocks env b.1).map Prod.fst

/-- No unlock since v20 has the index that no range can end with. -/
def NoGreatestIndex (pindex : CBlockIndex) : Prop :=
  ∀ index ∈ unlockedIndexes env p pindex, index ≠ 0xffffffffffffffff

instance NoGreatestIndex.decidable (pindex : CBlockIndex) :
    Decidable (NoGreatestIndex env p pindex) :=
  List.decidableBAll _ _

/-- The pool of a chain: it can be built, its balance is accounted for and is not
negative, and no index occurs twice. -/
structure Conserved (T : BlockIndex) (pindex : CBlockIndex) : Prop where
  constructed : ∃ pool, ∀ man, Reachable env p T man →
    (getCreditPool env p pindex man).1 = .ok pool
  balance_eq : deploymentActiveAt pindex p.V20Height = true → balance env pindex =
    totalLocked p pindex+totalRewards env p pindex-totalUnlocked env p pindex
  nonneg : deploymentActiveAt pindex p.V20Height = true → 0 ≤ balance env pindex
  distinct : (unlockedIndexes env p pindex).Nodup

/-- What the pool of a chain knows, once the next block can be one since v20. -/
structure PoolInv (pindex : CBlockIndex) (pool : CCreditPool) : Prop where
  separated : pool.indexes.Separated
  members : ∀ index, index ∈ pool.indexes.members ↔ index ∈ unlockedIndexes env p pindex
  locked : pool.locked = totalLocked p pindex+totalRewards env p pindex-totalUnlocked env p pindex
  limit_nonneg : 0 ≤ pool.currentLimit
  limit_le : pool.currentLimit ≤ pool.locked
  lately_nonneg : 0 ≤ pool.latelyUnlocked
  early : p.v24ActiveAt pindex = false → deploymentActiveAt pindex p.WithdrawalsHeight = false →
    pool.latelyUnlocked+pool.currentLimit ≤ LimitAmountHigh
  distinct : (unlockedIndexes env p pindex).Nodup

end Statements

variable {env : Environment} {p : ChainParams} {T : BlockIndex} {block : CBlock}
  {pprev pindex : CBlockIndex} {pool : CCreditPool}

theorem sinceV20_active (h : deploymentActiveAt (block :: pprev) p.V20Height = true) :
    sinceV20 p (block :: pprev) = (block, pprev) :: sinceV20 p pprev := if_pos h

theorem sinceV20_inactive (h : deploymentActiveAt pindex p.V20Height = false) :
    sinceV20 p pindex = [] := by
  cases pindex with
  | nil => rfl
  | cons block pprev => exact if_neg (by rw [h]; exact Bool.noConfusion)

/-- New indexes all go into the ranges. -/
theorem addIndexes_spec {s : CRangesSet} {l : List UInt64} (h : s.Separated) (hnodup : l.Nodup)
    (hmax : ∀ index ∈ l, index ≠ 0xffffffffffffffff) (hnew : ∀ index ∈ l, index ∉ s.members) :
    ∃ s', addIndexes s l = .ok s' ∧ s'.Separated ∧
      ∀ index, index ∈ s'.members ↔ index ∈ l ∨ index ∈ s.members := by
  induction l generalizing s with
  | nil => exact ⟨s, rfl, h, fun index => by simp only [List.not_mem_nil, false_or]⟩
  | cons i l ih =>
    rw [List.nodup_cons] at hnodup
    rw [List.forall_mem_cons] at hmax hnew
    obtain ⟨s₁, hadd, hsep, hmem⟩ := CRangesSet.add_spec h hmax.1 hnew.1
    have hnew' : ∀ index ∈ l, index ∉ s₁.members := by
      intro index hl hin
      rw [hmem, Set.mem_insert_iff] at hin
      rcases hin with rfl | hin
      · exact hnodup.1 hl
      · exact hnew.2 index hl hin
    obtain ⟨s', hrest, hsep', hmem'⟩ := ih hsep hnodup.2 hmax.2 hnew'
    refine ⟨s', ?_, hsep', fun index => ?_⟩
    · rw [addIndexes, hadd]
      exact hrest
    · rw [hmem', hmem, Set.mem_insert_iff, List.mem_cons]
      tauto

theorem foldl_insert_spec (us : List (UInt64 × ℤ)) (l : List UInt64) (hl : l.Nodup) :
    (us.foldl (fun l u => l.insert u.1) l).Nodup ∧
      ∀ index, index ∈ us.foldl (fun l u => l.insert u.1) l ↔ index ∈ us.map Prod.fst ∨ index ∈ l
    := by
  induction us generalizing l with
  | nil => exact ⟨hl, fun index => by simp only [List.foldl_nil, List.map_nil, List.not_mem_nil,
      false_or]⟩
  | cons u us ih =>
    obtain ⟨hnodup, hmem⟩ := ih (l.insert u.1) (List.Nodup.insert hl)
    refine ⟨hnodup, fun index => ?_⟩
    rw [List.foldl_cons, hmem, List.mem_insert_iff, List.map_cons, List.mem_cons]
    tauto

/-- The limit that a pool gives is not negative and not above its balance. -/
theorem limitFor_spec {credit_pool latelyUnlocked : ℤ} (hpool : 0 ≤ credit_pool)
    (hlately : 0 ≤ latelyUnlocked)
    (hearly : p.v24ActiveAt pindex = false → deploymentActiveAt pindex p.WithdrawalsHeight = false →
      latelyUnlocked ≤ LimitAmountHigh) :
    0 ≤ limitFor p pindex credit_pool latelyUnlocked ∧
      limitFor p pindex credit_pool latelyUnlocked ≤ credit_pool ∧
      (p.v24ActiveAt pindex = false → deploymentActiveAt pindex p.WithdrawalsHeight = false →
        latelyUnlocked+limitFor p pindex credit_pool latelyUnlocked ≤ LimitAmountHigh) := by
  have hconst : LimitAmountLow = 10000000000 ∧ LimitAmountV22 = 200000000000 := by decide
  unfold limitFor
  cases hv24 : p.v24ActiveAt pindex with
  | true =>
    rw [if_pos rfl]
    refine ⟨le_max_left _ _, max_le hpool (min_le_left _ _), fun h => absurd h Bool.noConfusion⟩
  | false =>
    rw [if_neg Bool.noConfusion]
    cases hwith : deploymentActiveAt pindex p.WithdrawalsHeight with
    | true =>
      rw [if_pos rfl]
      refine ⟨le_min hpool ?_, min_le_left _ _, fun _ h => absurd h Bool.noConfusion⟩
      omega
    | false =>
      rw [if_neg Bool.noConfusion]
      have hroom := hearly hv24 hwith
      have htenth : credit_pool.tdiv 10 ≤ credit_pool := by
        rw [Int.tdiv_eq_ediv_of_nonneg hpool]
        omega
      dsimp only
      split
      · next hbranch =>
        refine ⟨le_min (le_max_left _ _) (by omega), ?_, fun _ _ => ?_⟩
        · apply (min_le_left _ _).trans
          apply max_le hpool
          rcases max_cases LimitAmountLow (credit_pool.tdiv 10) with ⟨heq, -⟩ | ⟨heq, -⟩
          · omega
          · omega
        · have hle := min_le_right
            (max 0 (max LimitAmountLow (credit_pool.tdiv 10)-latelyUnlocked))
            (LimitAmountHigh-latelyUnlocked)
          omega
      · refine ⟨le_min hpool (by omega), min_le_left _ _, fun _ _ => ?_⟩
        have hle := min_le_right credit_pool (LimitAmountHigh-latelyUnlocked)
        omega

/-- What a block since v20 moves is not negative. -/
theorem lockedIn_nonneg (h : Accepts env p block pprev) : 0 ≤ lockedIn block := by
  apply List.sum_nonneg
  intro n hn
  obtain ⟨tx, hmem, rfl⟩ := List.mem_map.mp hn
  unfold lockOf
  split
  · cases hfind : tx.vout.find? fun txout => isOpReturn txout.scriptPubKey with
    | none => exact le_rfl
    | some txout =>
      have houts := checkTransaction_outputs (h.checked tx hmem)
      exact (moneyRange_iff.mp (houts txout (List.mem_of_find?_eq_some hfind))).1
  · exact le_rfl

theorem create_reward {d : CCreditPoolDiff} (h : CCreditPoolDiff.create p pool pprev
    (env.getBlockSubsidy (block :: pprev)) = .ok d) :
    d.platformReward = platformRewardIn env p block pprev ∧ 0 ≤ d.platformReward := by
  unfold CCreditPoolDiff.create at h
  unfold platformRewardIn
  split at h
  · contradiction
  · split at h
    · next hrr =>
      rw [if_pos hrr]
      unfold platformShare at h
      dsimp only at h
      split at h
      · next hrange =>
        rw [← Except.ok.inj h]
        exact ⟨rfl, (moneyRange_iff.mp hrange).1⟩
      · contradiction
    · next hrr =>
      rw [if_neg hrr, ← Except.ok.inj h]
      exact ⟨rfl, le_rfl⟩

theorem poolInv_empty (h : sinceV20 p pindex = []) : PoolInv env p pindex {} := by
  constructor
  case separated => exact CRangesSet.separated_empty
  case members =>
    intro index
    rw [CRangesSet.members_empty, unlockedIndexes, h]
    exact iff_of_false (Set.notMem_empty index) List.not_mem_nil
  case locked =>
    rw [totalLocked, totalRewards, totalUnlocked, h]
    rfl
  case early => exact fun _ _ => by decide
  case distinct =>
    rw [unlockedIndexes, h]
    exact List.nodup_nil
  all_goals exact le_rfl

/-- What the checks make sure of for the next block, given the pool before it. -/
structure Balanced (env : Environment) (p : ChainParams) (block : CBlock) (pprev : CBlockIndex)
    (prev : CCreditPool) : Prop where
  committed_eq : committed env block =
    prev.locked+lockedIn block+platformRewardIn env p block pprev-unlockedIn env block
  reward_nonneg : 0 ≤ platformRewardIn env p block pprev
  within : unlockedIn env block ≤ prev.currentLimit
  nodup : ((unlocks env block).map Prod.fst).Nodup
  fresh : ∀ index ∈ (unlocks env block).map Prod.fst, prev.indexes.contains index = false

theorem balanced_of_connected {prev : CCreditPool} (h : Connected env p T (block :: pprev))
    (hactive : deploymentActiveAt (block :: pprev) p.V20Height = true)
    (hprev : poolOf env p pprev = .ok prev) (hlimit : 0 ≤ prev.currentLimit) :
    Balanced env p block pprev prev := by
  obtain ⟨pool, d, d', hpool, -, hcreate, hs, hcommitted, cbTx, hpay⟩ := diff_spec h hactive
  obtain rfl := Except.ok.inj (hpool.symm.trans hprev)
  obtain ⟨hdpool, hlocked, hunlocked, -⟩ := create_spec hcreate
  obtain ⟨hreward, hnonneg⟩ := create_reward hcreate
  have hout : d'.sessionUnlocked = unlockedIn env block := by
    rw [hs.sessionUnlocked, hunlocked, zero_add, unlockedIn, hpay.unlocks_eq]
  have hin : d'.sessionLocked = lockedIn block := by
    rw [hs.sessionLocked, hlocked, zero_add, hpay.lockedIn_eq]
  constructor
  case committed_eq =>
    rw [hcommitted, CCreditPoolDiff.getTotalLocked, hs.pool, hdpool, hin, hout,
      hs.platformReward, hreward]
    ring
  case reward_nonneg => exact hreward ▸ hnonneg
  case within =>
    rcases hs.within with hnil | hle
    · rw [unlockedIn, hpay.unlocks_eq, hnil]
      exact hlimit
    · rw [hout, hdpool] at hle
      exact hle
  case nodup =>
    rw [hpay.unlocks_eq]
    exact hs.nodup
  case fresh =>
    intro index hmem
    rw [hpay.unlocks_eq] at hmem
    have hfresh := (hs.fresh index hmem).1
    rwa [hdpool] at hfresh

theorem activeAt_of_cons {height : ℤ}
    (h : deploymentActiveAt (block :: pprev) height = false) :
    deploymentActiveAt pprev height = false := by
  by_contra hactive
  have hle := activeAt_iff.mp (Bool.not_eq_false _ ▸ hactive)
  have hactive' : deploymentActiveAt (block :: pprev) height = true := by
    apply activeAt_iff.mpr
    rw [MNHF.nHeight_cons]
    omega
  exact absurd (h.symm.trans hactive') Bool.noConfusion

theorem v24_of_cons (h : p.v24ActiveAt (block :: pprev) = false) : p.v24ActiveAt pprev = false := by
  by_contra hactive
  rw [Bool.not_eq_false] at hactive
  cases pprev with
  | nil => exact absurd (h.symm.trans hactive) Bool.noConfusion
  | cons b rest => exact absurd (h.symm.trans (p.v24_stays b rest hactive)) Bool.noConfusion

theorem gatheredIndexes_spec : (gatheredIndexes env block).Nodup ∧
    ∀ index, index ∈ gatheredIndexes env block ↔ index ∈ (unlocks env block).map Prod.fst := by
  obtain ⟨hnodup, hmem⟩ := foldl_insert_spec (unlocks env block) [] List.nodup_nil
  refine ⟨hnodup, fun index => ?_⟩
  rw [gatheredIndexes, hmem]
  simp only [List.not_mem_nil, or_false]

theorem unlockedIndexes_cons (hactive : deploymentActiveAt (block :: pprev) p.V20Height = true) :
    unlockedIndexes env p (block :: pprev) =
      (unlocks env block).map Prod.fst++unlockedIndexes env p pprev := by
  rw [unlockedIndexes, sinceV20_active hactive, List.flatMap_cons, unlockedIndexes]

/-- The indexes of a block are new to the ranges of the pool before it. -/
theorem indexes_added {prev : CCreditPool} (hinv : PoolInv env p pprev prev)
    (hbal : Balanced env p block pprev prev)
    (hmax : ∀ index ∈ (unlocks env block).map Prod.fst, index ≠ 0xffffffffffffffff) :
    ∃ indexes, addIndexes prev.indexes (env.hashOrder (gatheredIndexes env block)) = .ok indexes ∧
      indexes.Separated ∧ ∀ index, index ∈ indexes.members ↔
        index ∈ (unlocks env block).map Prod.fst ∨ index ∈ unlockedIndexes env p pprev := by
  obtain ⟨hnodup, hmem⟩ := @gatheredIndexes_spec env block
  have hmem' : ∀ index, index ∈ env.hashOrder (gatheredIndexes env block) ↔
      index ∈ (unlocks env block).map Prod.fst := fun index => by
    rw [(env.hashOrder_perm _).mem_iff, hmem]
  have hnew : ∀ index ∈ env.hashOrder (gatheredIndexes env block), index ∉ prev.indexes.members :=
    fun index hin hold => by
      have hcontains := (CRangesSet.contains_iff hinv.separated).mpr hold
      have hfresh := hbal.fresh index ((hmem' index).mp hin)
      exact absurd (hcontains.symm.trans hfresh) Bool.noConfusion
  obtain ⟨indexes, hadd, hsep, hmembers⟩ := addIndexes_spec hinv.separated
    ((env.hashOrder_perm _).nodup_iff.mpr hnodup)
    (fun index hin => hmax index ((hmem' index).mp hin)) hnew
  refine ⟨indexes, hadd, hsep, fun index => ?_⟩
  rw [hmembers, hmem', hinv.members]

theorem Connected.unlockedIn_nonneg (h : Connected env p T pindex) :
    ∀ b ∈ pindex, 0 ≤ unlockedIn env b := by
  intro b hb
  obtain ⟨l, rest, heq⟩ := List.append_of_mem hb
  exact (h.of_suffix ⟨l, heq.symm⟩ : Connected env p T (b :: rest)).accepts.unlockedIn_nonneg

/-- The pool of a block since v20, given that of the block before. -/
theorem poolInv_cons {prev : CCreditPool} (h : Connected env p T (block :: pprev))
    (hquiet : QuietBeforeV20 env p (block :: pprev))
    (hmax : NoGreatestIndex env p (block :: pprev))
    (hactive : deploymentActiveAt (block :: pprev) p.V20Height = true)
    (hprev : poolOf env p pprev = .ok prev) (hinv : PoolInv env p pprev prev) :
    ∃ pool, poolOf env p (block :: pprev) = .ok pool ∧ PoolInv env p (block :: pprev) pool := by
  have hle := activeAt_iff.mp hactive
  rw [MNHF.nHeight_cons] at hle
  have hbal := balanced_of_connected h hactive hprev hinv.limit_nonneg
  rw [NoGreatestIndex, unlockedIndexes_cons hactive] at hmax
  obtain ⟨indexes, hadd, hsep, hmembers⟩ := indexes_added hinv hbal fun index hin =>
    hmax index (List.mem_append_left _ hin)
  have hlately : prev.latelyUnlocked+unlockedIn env block
      -leaving (unlockedIn env) p.nCreditPoolPeriodBlocks (block :: pprev) =
        windowSum (unlockedIn env) p.nCreditPoolPeriodBlocks (block :: pprev) := by
    rw [latelyUnlocked_eq h.tail (hquiet.of_suffix (List.suffix_cons block pprev)) hle hprev,
      windowSum_cons]
  have hwindow := windowSum_nonneg p.nCreditPoolPeriodBlocks h.unlockedIn_nonneg
  have hleaving := leaving_nonneg p.nCreditPoolPeriodBlocks h.unlockedIn_nonneg
  have hwithin := hbal.within
  have hnonneg : 0 ≤ committed env block := by
    have hlocks := lockedIn_nonneg h.accepts
    have hlimit := hinv.limit_le
    have hreward := hbal.reward_nonneg
    have hcommitted := hbal.committed_eq
    omega
  obtain ⟨hlow, hhigh, hearly⟩ := @limitFor_spec p (block :: pprev) _ _ hnonneg
    hwindow (fun hv24 hwith => by
      have hprevEarly := hinv.early (v24_of_cons hv24) (activeAt_of_cons hwith)
      omega)
  refine ⟨⟨committed env block, limitFor p (block :: pprev) (committed env block)
    (windowSum (unlockedIn env) p.nCreditPoolPeriodBlocks (block :: pprev)),
    windowSum (unlockedIn env) p.nCreditPoolPeriodBlocks (block :: pprev), indexes⟩, ?_, ?_⟩
  · rw [poolOf_cons hactive, hprev]
    change constructCreditPool env p block pprev prev = _
    rw [constructCreditPool_eq h hactive, hadd]
    dsimp only [Except.bind]
    rw [hlately, if_neg (not_lt.mpr hlow)]
  · constructor
    case separated => exact hsep
    case members =>
      intro index
      rw [hmembers, unlockedIndexes_cons hactive, List.mem_append]
    case locked =>
      dsimp only
      rw [hbal.committed_eq, hinv.locked, totalLocked, totalLocked, totalRewards, totalRewards,
        totalUnlocked, totalUnlocked, sinceV20_active hactive]
      simp only [List.map_cons, List.sum_cons]
      ring
    case limit_nonneg => exact hlow
    case limit_le => exact hhigh
    case lately_nonneg => exact hwindow
    case early => exact hearly
    case distinct =>
      rw [unlockedIndexes_cons hactive, List.nodup_append]
      refine ⟨hbal.nodup, hinv.distinct, fun index hin index' hold => ?_⟩
      rintro rfl
      have hmem := (hinv.members index).mpr hold
      have hcontains := (CRangesSet.contains_iff hinv.separated).mpr hmem
      exact absurd (hcontains.symm.trans (hbal.fresh index hin)) Bool.noConfusion

theorem NoGreatestIndex.tail (h : NoGreatestIndex env p (block :: pprev)) :
    NoGreatestIndex env p pprev := by
  intro index hmem
  cases hactive : deploymentActiveAt (block :: pprev) p.V20Height with
  | true =>
    apply h index
    rw [unlockedIndexes_cons hactive]
    exact List.mem_append_right _ hmem
  | false =>
    rw [unlockedIndexes, sinceV20_inactive (activeAt_of_cons hactive)] at hmem
    exact absurd hmem List.not_mem_nil

theorem NoGreatestIndex.of_suffix (h : NoGreatestIndex env p pindex) {s : CBlockIndex}
    (hs : s <:+ pindex) : NoGreatestIndex env p s := by
  induction pindex with
  | nil => exact List.suffix_nil.mp hs ▸ h
  | cons block pprev ih =>
    rcases List.suffix_cons_iff.mp hs with rfl | hs
    · exact h
    · exact ih h.tail hs

/-- The pool of every block since v20 can be built, and what it says is so. -/
theorem exists_poolInv (h : Connected env p T pindex) (hquiet : QuietBeforeV20 env p pindex)
    (hmax : NoGreatestIndex env p pindex) (hheight : p.V20Height ≤ nHeight pindex+1) :
    ∃ pool, poolOf env p pindex = .ok pool ∧ PoolInv env p pindex pool := by
  induction pindex with
  | nil => exact ⟨{}, rfl, poolInv_empty rfl⟩
  | cons block pprev ih =>
    cases hactive : deploymentActiveAt (block :: pprev) p.V20Height with
    | false => exact ⟨{}, poolOf_inactive hactive, poolInv_empty (sinceV20_inactive hactive)⟩
    | true =>
      have hle := activeAt_iff.mp hactive
      rw [MNHF.nHeight_cons] at hle
      obtain ⟨prev, hprev, hinv⟩ := ih h.tail
        (hquiet.of_suffix (List.suffix_cons block pprev)) hmax.tail hle
      exact poolInv_cons h hquiet hmax hactive hprev hinv

/-- The pool of a connected chain can be built, with what the node has stored or
without. -/
theorem getCreditPool_ok (h : Connected env p T pindex) (hpool : poolOf env p pindex = .ok pool) :
    ∀ man, Reachable env p T man → (getCreditPool env p pindex man).1 = .ok pool := by
  intro man hman
  cases pindex with
  | nil => exact hpool
  | cons block pprev => exact (getCreditPool_spec hman.sound (h.mem nofun)).1.trans hpool

theorem conserved_of_connected (h : Connected env p T pindex) (hquiet : QuietBeforeV20 env p pindex)
    (hmax : NoGreatestIndex env p pindex) : Conserved env p T pindex := by
  cases hactive : deploymentActiveAt pindex p.V20Height with
  | false =>
    have hpool : poolOf env p pindex = .ok {} := by
      cases pindex with
      | nil => rfl
      | cons block pprev => exact poolOf_inactive hactive
    have hno : ∀ {q : Prop}, deploymentActiveAt pindex p.V20Height = true → q :=
      fun htrue => absurd (hactive.symm.trans htrue) Bool.noConfusion
    refine ⟨⟨{}, getCreditPool_ok h hpool⟩, hno, hno, ?_⟩
    rw [unlockedIndexes, sinceV20_inactive hactive]
    exact List.nodup_nil
  | true =>
    have hheight := activeAt_iff.mp hactive
    obtain ⟨pool, hpool, hinv⟩ := exists_poolInv h hquiet hmax (by omega)
    have hbalance : pool.locked = balance env pindex := by
      cases pindex with
      | nil => rw [← Except.ok.inj hpool, balance]
      | cons block pprev =>
        obtain ⟨-, -, hlocked, -⟩ := pool_spec h hactive hpool
        exact hlocked
    refine ⟨⟨pool, getCreditPool_ok h hpool⟩, fun _ => ?_, fun _ => ?_, hinv.distinct⟩
    · rw [← hbalance, hinv.locked]
    · rw [← hbalance]
      exact hinv.limit_nonneg.trans hinv.limit_le

/-- Every chain without the greatest index, whose blocks just before v20 unlock
nothing, keeps its pool in balance, whatever limit rules it goes through. -/
theorem credit_pool_conserved (h : Connected env p T pindex)
    (hquiet : QuietBeforeV20 env p pindex) (hmax : NoGreatestIndex env p pindex) :
    ∀ s, s <:+ pindex → Conserved env p T s :=
  fun _ hs => conserved_of_connected (h.of_suffix hs) (hquiet.of_suffix hs) (hmax.of_suffix hs)

/-- Whatever a node has stored, it finds one pool for a chain since v20, with the unlocks of the
last period and a limit within what is locked. -/
theorem getCreditPool_inv (h : Connected env p T pindex) (hquiet : QuietBeforeV20 env p pindex)
    (hmax : NoGreatestIndex env p pindex) (hheight : p.V20Height ≤ nHeight pindex+1) :
    ∃ pool, (∀ man, Reachable env p T man → (getCreditPool env p pindex man).1 = .ok pool) ∧
      PoolInv env p pindex pool ∧
      pool.latelyUnlocked = windowSum (unlockedIn env) p.nCreditPoolPeriodBlocks pindex := by
  obtain ⟨pool, hpool, hinv⟩ := exists_poolInv h hquiet hmax hheight
  exact ⟨pool, getCreditPool_ok h hpool, hinv, latelyUnlocked_eq h hquiet hheight hpool⟩

section Chains

theorem credit_pool_conserved_locked : Conserved signedEnvironment earlyParams
    (chainIndex lockedThenUnlocked lockedThenUnlocked_nodup) lockedThenUnlocked :=
  credit_pool_conserved lockedThenUnlocked_connected (by decide +kernel) (by decide +kernel) _
    List.suffix_rfl

theorem getCreditPool_inv_locked : ∃ pool, (∀ man, Reachable signedEnvironment earlyParams
      (chainIndex lockedThenUnlocked lockedThenUnlocked_nodup) man →
        (getCreditPool signedEnvironment earlyParams lockedThenUnlocked man).1 = .ok pool) ∧
    PoolInv signedEnvironment earlyParams lockedThenUnlocked pool ∧
    pool.latelyUnlocked = windowSum (unlockedIn signedEnvironment) 100 lockedThenUnlocked :=
  getCreditPool_inv lockedThenUnlocked_connected (by decide +kernel) (by decide +kernel)
    (by decide +kernel)

/-- Two blocks unlock 100 coins each under the greatest index. -/
def greatestIndexTwice : CBlockIndex :=
  [blockAt 5 80000000000 [assetUnlockTx 5 (2^64-1) 10000000000],
    blockAt 4 90000000000 [assetUnlockTx 4 (2^64-1) 10000000000],
    blockAt 3 100000000000 [assetLockTx 3 100000000000], blockAt 2 0 [], blockAt 1 0 [],
    genesisBlock]

theorem greatestIndexTwice_nodup : (greatestIndexTwice.map CBlock.hash).Nodup := by decide +kernel

/-- The same network, with v24 never active. -/
def withoutV24 : ChainParams :=
  {earlyParams with
    v24ActiveAfter := fun _ => false
    v20_le_v24 := fun _ h => absurd h Bool.noConfusion
    v24_stays := fun _ _ h => absurd h Bool.noConfusion}

/-- 999 coins are unlocked in the last block before v20, and 1100 locked in the first
one since; the unlock has left the window when 1109 are unlocked. -/
def overdrawnPool : CBlockIndex :=
  blockAt 103 (2^64-900000000) [assetUnlockTx 103 1 110900000000] ::
    idle 110000000000 99 [blockAt 3 110000000000 [assetLockTx 3 110000000000],
      blockAt 2 0 [assetUnlockTx 2 0 99900000000], blockAt 1 0 [], genesisBlock]

theorem overdrawnPool_nodup : (overdrawnPool.map CBlock.hash).Nodup := by decide +kernel

/-- A node connects both chains: in one an index comes twice and the pool can no
longer be built, in the other the balance is negative. -/
theorem credit_pool_not_conserved :
    (Connected signedEnvironment earlyParams (chainIndex greatestIndexTwice greatestIndexTwice_nodup)
        greatestIndexTwice ∧
      (getCreditPool signedEnvironment earlyParams greatestIndexTwice {}).1 = .error .assertion ∧
      ¬Conserved signedEnvironment earlyParams
        (chainIndex greatestIndexTwice greatestIndexTwice_nodup) greatestIndexTwice) ∧
    Connected signedEnvironment withoutV24 (chainIndex overdrawnPool overdrawnPool_nodup)
        overdrawnPool ∧
      balance signedEnvironment overdrawnPool < 0 ∧
      ¬Conserved signedEnvironment withoutV24 (chainIndex overdrawnPool overdrawnPool_nodup)
        overdrawnPool := by
  have hall : (connectAll signedEnvironment earlyParams greatestIndexTwice).isSome = true := by
    decide +kernel
  have hall' : (connectAll signedEnvironment withoutV24 overdrawnPool).isSome = true := by
    decide +kernel
  have hnegative : balance signedEnvironment overdrawnPool < 0 := by decide +kernel
  obtain ⟨man, hman⟩ := Option.isSome_iff_exists.mp hall
  obtain ⟨man', hman'⟩ := Option.isSome_iff_exists.mp hall'
  refine ⟨⟨?_, by decide +kernel, fun h => ?_⟩, ?_, hnegative, fun h => ?_⟩
  · exact (connected_of_connectAll (T := chainIndex _ greatestIndexTwice_nodup) (fun _ hs => hs)
      hman).1
  · exact absurd h.distinct (by decide +kernel)
  · exact (connected_of_connectAll (T := chainIndex _ overdrawnPool_nodup) (fun _ hs => hs) hman').1
  · exact absurd hnegative (not_lt.mpr (h.nonneg (by decide +kernel)))

end Chains

end BabaChain.CreditPool
