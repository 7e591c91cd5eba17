import BabaChain.CreditPool
import BabaChain.EhfConsistency

/-! The pool of a chain as its blocks alone determine it: neither the cache nor the
snapshots of a node can be told from it. -/
namespace BabaChain.CreditPool
open MNHF (CBlock CBlockIndex BlockIndex Failure nHeight deploymentActiveAt deploymentActiveAfter)
open LruCache

section Pools

variable (env : Environment) (p : ChainParams)

/-- The pool after the last block of a chain, built from its first block on. -/
def poolOf : CBlockIndex → Except Failure CCreditPool
  | [] => .ok {}
  | block :: pprev =>
    if deploymentActiveAt (block :: pprev) p.V20Height = false then .ok {}
    else (poolOf pprev).bind (constructCreditPool env p block pprev)

/-- What may be stored under a hash. -/
def Known (T : BlockIndex) (hash : uint256) (pool : CCreditPool) : Prop :=
  ∀ block pprev, block :: pprev ∈ T.entries → block.hash = hash →
    poolOf env p (block :: pprev) = .ok pool

/-- All that the manager has stored is right. -/
structure Sound (T : BlockIndex) (man : CCreditPoolManager) : Prop where
  cache : Holds (Known env p T) man.creditPoolCache
  snapshots : ∀ hash pool, man.snapshots hash = some pool → Known env p T hash pool

/-- What the checks before the pool's leave to be true of a block before v20, and
with the pool's of one since. -/
inductive SpecialAccepts (block : CBlock) (pprev : CBlockIndex) : Prop
  | beforeV20 (opt_cbTx : Option CCbTx)
      (inactive : deploymentActiveAt (block :: pprev) p.V20Height = false)
      (cbTx : blockCbTx env p block pprev = .ok opt_cbTx)
      (special : ∀ tx ∈ uncheckedTxs block, checkSpecialTx env p pprev {} tx = .ok ())
  | sinceV20 (pool : CCreditPool) (cbTx : CCbTx)
      (active : deploymentActiveAt (block :: pprev) p.V20Height = true)
      (committed : blockCbTx env p block pprev = .ok (some cbTx))
      (previous : poolOf env p pprev = .ok pool)
      (special : ∀ tx ∈ uncheckedTxs block, checkSpecialTx env p pprev pool.indexes tx = .ok ())
      (diff : checkDiff env p block pprev cbTx pool = .ok (.ok ()))

/-- What it takes for a block to be connected. -/
structure Accepts (block : CBlock) (pprev : CBlockIndex) : Prop where
  checked : ∀ tx ∈ block.vtx, checkTransaction tx = .ok ()
  contextual : ∀ tx ∈ block.vtx, contextualCheckTransaction p pprev tx = .ok ()
  special : SpecialAccepts env p block pprev
  fees : ∀ tx ∈ block.vtx.tail, checkUnlockFee env tx = .ok ()

end Pools

variable {env : Environment} {p : ChainParams} {T : BlockIndex} {man : CCreditPoolManager}
  {block : CBlock} {pprev pindex : CBlockIndex}

theorem sound_start (T : BlockIndex) : Sound env p T {} :=
  ⟨holds_create _ _, fun _ _ h => absurd h nofun⟩

theorem forM_eq_ok_iff {α ε : Type} {f : α → Except ε Unit} {l : List α} :
    l.forM f = .ok () ↔ ∀ a ∈ l, f a = .ok () := by
  induction l with
  | nil => exact iff_of_true rfl fun a h => absurd h List.not_mem_nil
  | cons a l ih =>
    rw [List.forall_mem_cons, ← ih]
    change (f a).bind (fun _ => l.forM f) = .ok () ↔ _
    cases f a with
    | error e => exact iff_of_false nofun fun h => nomatch h.1
    | ok u => exact (and_iff_right rfl).symm

/-- The entry with a hash decides what may be stored under it. -/
theorem known_of_entry {pool : CCreditPool} (hT : block :: pprev ∈ T.entries)
    (h : poolOf env p (block :: pprev) = .ok pool) : Known env p T block.hash pool := by
  intro block' pprev' hT' hhash
  rw [T.hash_unique block' pprev' block pprev hT' hT hhash]
  exact h

theorem Sound.with_cache (h : Sound env p T man) {cache : Cache uint256 CCreditPool}
    (hc : Holds (Known env p T) cache) : Sound env p T {man with creditPoolCache := cache} :=
  ⟨hc, h.snapshots⟩

/-- A hit is right, and only a block since v20 is missed. -/
theorem getFromCache_spec (h : Sound env p T man) (hT : block :: pprev ∈ T.entries) :
    Sound env p T (getFromCache p block pprev man).2 ∧
      match (getFromCache p block pprev man).1 with
      | some pool => poolOf env p (block :: pprev) = .ok pool
      | none => deploymentActiveAt (block :: pprev) p.V20Height = true := by
  unfold getFromCache
  cases hactive : deploymentActiveAt (block :: pprev) p.V20Height with
  | false =>
    rw [if_pos rfl]
    refine ⟨h, ?_⟩
    dsimp only
    rw [poolOf, if_pos hactive]
  | true =>
    rw [if_neg Bool.noConfusion]
    have hvalue := @h.cache.get_value _ _ _ _ _ block.hash
    have hstate := h.cache.get_state block.hash
    generalize LruCache.get man.creditPoolCache block.hash = r at hvalue hstate
    obtain ⟨hit, cache⟩ := r
    cases hit with
    | some pool => exact ⟨h.with_cache hstate, hvalue rfl block pprev hT rfl⟩
    | none =>
      dsimp only
      split
      · next pool hfound =>
        split at hfound
        · have hknown := h.snapshots block.hash pool hfound
          exact ⟨h.with_cache (hstate.insert hknown), hknown block pprev hT rfl⟩
        · contradiction
      · exact ⟨h.with_cache hstate, rfl⟩

theorem Sound.addToCache (h : Sound env p T man) {pool : CCreditPool}
    (hknown : Known env p T block.hash pool) :
    Sound env p T (addToCache block pprev pool man) := by
  unfold CreditPool.addToCache
  dsimp only
  split
  · refine ⟨h.cache.insert hknown, fun hash found hfound => ?_⟩
    dsimp only at hfound
    rw [Function.update_apply] at hfound
    split at hfound
    · next heq =>
      rw [heq, ← Option.some.inj hfound]
      exact hknown
    · exact h.snapshots hash found hfound
  · exact ⟨h.cache.insert hknown, h.snapshots⟩

/-- `GetCreditPool` answers with the pool of the chain, whatever is cached. -/
theorem getCreditPool_spec (h : Sound env p T man) (hT : pindex ∈ T.entries) :
    (getCreditPool env p pindex man).1 = poolOf env p pindex ∧
      Sound env p T (getCreditPool env p pindex man).2 := by
  induction pindex generalizing man with
  | nil => exact ⟨rfl, h⟩
  | cons block pprev ih =>
    rw [getCreditPool]
    have hcache := getFromCache_spec h hT
    generalize getFromCache p block pprev man = r at hcache
    obtain ⟨hit, man₁⟩ := r
    dsimp only at hcache
    cases hit with
    | some pool => exact ⟨hcache.2.symm, hcache.1⟩
    | none =>
      obtain ⟨hprev, hsound⟩ := ih hcache.1 (T.pprev_mem block pprev hT)
      dsimp only
      generalize getCreditPool env p pprev man₁ = r at hprev hsound
      obtain ⟨prev, man₂⟩ := r
      dsimp only at hprev hsound
      have hpool : poolOf env p (block :: pprev) =
          prev.bind (constructCreditPool env p block pprev) := by
        rw [poolOf, if_neg (by rw [hcache.2]; exact Bool.noConfusion), hprev]
      cases prev with
      | error failure => exact ⟨hpool.symm, hsound⟩
      | ok prev =>
        dsimp only
        cases hnew : constructCreditPool env p block pprev prev with
        | error failure =>
          refine ⟨?_, hsound⟩
          rw [hpool]
          exact hnew.symm
        | ok pool =>
          have hok : poolOf env p (block :: pprev) = .ok pool := hpool.trans hnew
          exact ⟨hok.symm, hsound.addToCache (known_of_entry hT hok)⟩

theorem spentIndexes_spec (h : Sound env p T man) (hT : pprev ∈ T.entries) :
    (spentIndexes env p block pprev man).1 =
        (if deploymentActiveAt (block :: pprev) p.V20Height = true then
          (poolOf env p pprev).map CCreditPool.indexes else .ok {}) ∧
      Sound env p T (spentIndexes env p block pprev man).2 := by
  obtain ⟨hpool, hsound⟩ := getCreditPool_spec h hT
  unfold spentIndexes
  split
  · exact ⟨congrArg (Except.map CCreditPool.indexes) hpool, hsound⟩
  · exact ⟨rfl, h⟩

theorem activeAt_of_le {height height' : ℤ} (hle : height ≤ height')
    (h : deploymentActiveAt pindex height' = true) : deploymentActiveAt pindex height = true := by
  have hle' := of_decide_eq_true h
  exact decide_eq_true (hle.trans hle')

/-- Once v20 is active the check runs, on the pool of the previous block. -/
theorem checkCreditPoolDiff_spec (h : Sound env p T man) (hT : pprev ∈ T.entries)
    (hactive : deploymentActiveAt (block :: pprev) p.V20Height = true) (cbTx : CCbTx) :
    (checkCreditPoolDiffForBlock env p block pprev cbTx man).1 =
        (match poolOf env p pprev with
        | .error failure => caught "failed-getcreditpooldiff" failure
        | .ok pool => checkDiff env p block pprev cbTx pool) ∧
      Sound env p T (checkCreditPoolDiffForBlock env p block pprev cbTx man).2 := by
  have hdip8 := activeAt_of_le p.dip8_le_v20 hactive
  obtain ⟨hpool, hsound⟩ := getCreditPool_spec h hT
  unfold checkCreditPoolDiffForBlock
  rw [if_neg (by rw [hdip8]; exact Bool.noConfusion),
    if_neg (by rw [hactive]; exact Bool.noConfusion)]
  generalize getCreditPool env p pprev man = r at hpool hsound
  obtain ⟨pool, man'⟩ := r
  dsimp only at hpool hsound
  rw [← hpool]
  cases pool with
  | error failure => exact ⟨rfl, hsound⟩
  | ok pool => exact ⟨rfl, hsound⟩

theorem caught_ne_ok {reason : String} {failure : Failure} :
    caught reason failure ≠ .ok (.ok ()) := by
  cases failure <;> exact nofun

/-- Since DIP3 a block without a coinbase payload is refused. -/
theorem blockCbTx_isSome (hdip3 : deploymentActiveAt (block :: pprev) p.DIP0003Height = true)
    {opt_cbTx : Option CCbTx} (h : blockCbTx env p block pprev = .ok opt_cbTx) :
    opt_cbTx.isSome = true := by
  unfold blockCbTx at h
  split at h
  · rw [if_pos hdip3] at h
    contradiction
  · split at h
    · contradiction
    · split at h
      · contradiction
      · rw [← Except.ok.inj h]
        rfl

/-- Before v20 the pool is neither read nor checked. -/
theorem checkCreditPoolDiff_inactive
    (hactive : deploymentActiveAt (block :: pprev) p.V20Height = false) (cbTx : CCbTx) :
    checkCreditPoolDiffForBlock env p block pprev cbTx man = (.ok (.ok ()), man) := by
  unfold checkCreditPoolDiffForBlock
  rw [if_pos hactive, ite_self]

theorem processSpecialTxs_inactive
    (hactive : deploymentActiveAt (block :: pprev) p.V20Height = false) :
    ((processSpecialTxsInBlock env p block pprev man).1 = .ok (.ok ()) ↔
        SpecialAccepts env p block pprev) ∧
      (processSpecialTxsInBlock env p block pprev man).2 = man := by
  have hspent : spentIndexes env p block pprev man = (.ok {}, man) := by
    rw [spentIndexes, if_neg (by rw [hactive]; exact Bool.noConfusion)]
  unfold processSpecialTxsInBlock
  rw [hspent]
  cases hcb : blockCbTx env p block pprev with
  | error reason =>
    refine ⟨iff_of_false nofun ?_, rfl⟩
    rintro (⟨_, _, hcb', _⟩ | ⟨_, _, _, hcb', _⟩)
    all_goals exact absurd (hcb.symm.trans hcb') nofun
  | ok opt_cbTx =>
    dsimp only
    cases hspecial : (uncheckedTxs block).forM (checkSpecialTx env p pprev {}) with
    | error reason =>
      refine ⟨iff_of_false nofun ?_, rfl⟩
      rintro (⟨_, _, _, hall⟩ | ⟨_, _, hactive', _⟩)
      · exact absurd (hspecial.symm.trans (forM_eq_ok_iff.mpr hall)) nofun
      · exact absurd (hactive.symm.trans hactive') Bool.noConfusion
    | ok u =>
      have hacc : SpecialAccepts env p block pprev :=
        .beforeV20 opt_cbTx hactive hcb (forM_eq_ok_iff.mp hspecial)
      cases opt_cbTx with
      | none => exact ⟨iff_of_true rfl hacc, rfl⟩
      | some cbTx =>
        dsimp only
        rw [checkCreditPoolDiff_inactive hactive]
        exact ⟨iff_of_true rfl hacc, rfl⟩

theorem processSpecialTxs_active (h : Sound env p T man) (hT : pprev ∈ T.entries)
    (hactive : deploymentActiveAt (block :: pprev) p.V20Height = true) :
    ((processSpecialTxsInBlock env p block pprev man).1 = .ok (.ok ()) ↔
        SpecialAccepts env p block pprev) ∧
      Sound env p T (processSpecialTxsInBlock env p block pprev man).2 := by
  have hno : ∀ {q : Prop}, deploymentActiveAt (block :: pprev) p.V20Height = false → q :=
    fun hfalse => absurd (hactive.symm.trans hfalse) Bool.noConfusion
  unfold processSpecialTxsInBlock
  cases hcb : blockCbTx env p block pprev with
  | error reason =>
    refine ⟨iff_of_false nofun ?_, h⟩
    rintro (⟨_, _, hcb', _⟩ | ⟨_, _, _, hcb', _⟩)
    all_goals exact absurd (hcb.symm.trans hcb') nofun
  | ok opt_cbTx =>
    obtain ⟨hspent, hsound⟩ := @spentIndexes_spec env p T man block pprev h hT
    rw [if_pos hactive] at hspent
    generalize spentIndexes env p block pprev man = r at hspent hsound
    obtain ⟨indexes, man₁⟩ := r
    dsimp only at hspent hsound ⊢
    cases hpool : poolOf env p pprev with
    | error failure =>
      rw [hpool] at hspent
      rw [hspent]
      refine ⟨iff_of_false caught_ne_ok ?_, hsound⟩
      rintro (⟨_, hinactive, _⟩ | ⟨_, _, _, _, hpool', _⟩)
      · exact hno hinactive
      · exact absurd (hpool.symm.trans hpool') nofun
    | ok pool =>
      rw [hpool] at hspent
      rw [hspent]
      dsimp only [Except.map]
      cases hspecial : (uncheckedTxs block).forM (checkSpecialTx env p pprev pool.indexes) with
      | error reason =>
        refine ⟨iff_of_false nofun ?_, hsound⟩
        rintro (⟨_, hinactive, _⟩ | ⟨pool', _, _, _, hpool', hall, _⟩)
        · exact hno hinactive
        · rw [← Except.ok.inj (hpool.symm.trans hpool')] at hall
          exact absurd (hspecial.symm.trans (forM_eq_ok_iff.mpr hall)) nofun
      | ok u =>
        have hdip3 := activeAt_of_le p.dip3_le_v20 hactive
        obtain ⟨cbTx, rfl⟩ := Option.isSome_iff_exists.mp (blockCbTx_isSome hdip3 hcb)
        obtain ⟨hdiff, hsound'⟩ := checkCreditPoolDiff_spec hsound hT hactive cbTx
        dsimp only
        rw [hdiff, hpool]
        refine ⟨⟨fun hok => ?_, ?_⟩, hsound'⟩
        · exact .sinceV20 pool cbTx hactive hcb hpool (forM_eq_ok_iff.mp hspecial) hok
        · rintro (⟨_, hinactive, _⟩ | ⟨pool', cbTx', _, hcb', hpool', _, hok⟩)
          · exact hno hinactive
          · rw [← Except.ok.inj (hpool.symm.trans hpool'),
              ← Option.some.inj (Except.ok.inj (hcb.symm.trans hcb'))] at hok
            exact hok

/-- A node accepts a block or refuses it for what is in the chain alone. -/
theorem connectBlock_spec (h : Sound env p T man) (hT : pprev ∈ T.entries) :
    ((connectBlock env p block pprev man).1 = .ok (.ok ()) ↔ Accepts env p block pprev) ∧
      Sound env p T (connectBlock env p block pprev man).2 := by
  have hspecial : ((processSpecialTxsInBlock env p block pprev man).1 = .ok (.ok ()) ↔
      SpecialAccepts env p block pprev) ∧
        Sound env p T (processSpecialTxsInBlock env p block pprev man).2 := by
    cases hactive : deploymentActiveAt (block :: pprev) p.V20Height with
    | true => exact processSpecialTxs_active h hT hactive
    | false =>
      obtain ⟨hiff, hman⟩ := @processSpecialTxs_inactive env p man block pprev hactive
      refine ⟨hiff, ?_⟩
      rw [hman]
      exact h
  unfold connectBlock
  cases hchecked : block.vtx.forM checkTransaction with
  | error reason =>
    refine ⟨iff_of_false nofun fun hacc => ?_, h⟩
    exact absurd (hchecked.symm.trans (forM_eq_ok_iff.mpr hacc.checked)) nofun
  | ok u =>
    cases hcontext : block.vtx.forM (contextualCheckTransaction p pprev) with
    | error reason =>
      refine ⟨iff_of_false nofun fun hacc => ?_, h⟩
      exact absurd (hcontext.symm.trans (forM_eq_ok_iff.mpr hacc.contextual)) nofun
    | ok u =>
      dsimp only
      generalize processSpecialTxsInBlock env p block pprev man = r at hspecial
      obtain ⟨verdict, man'⟩ := r
      dsimp only at hspecial
      obtain ⟨hiff, hsound⟩ := hspecial
      split
      · next hverdict =>
        rw [Prod.mk.injEq] at hverdict
        obtain ⟨rfl, rfl⟩ := hverdict
        refine ⟨⟨fun hfees => ?_, fun hacc => ?_⟩, hsound⟩
        · exact ⟨forM_eq_ok_iff.mp hchecked, forM_eq_ok_iff.mp hcontext, hiff.mp rfl,
            forM_eq_ok_iff.mp (Except.ok.inj hfees)⟩
        · exact congrArg Except.ok (forM_eq_ok_iff.mpr hacc.fees)
      · next hne =>
        refine ⟨iff_of_false (fun hok => ?_) fun hacc => ?_, hsound⟩
        · exact hne man' (by rw [show verdict = .ok (.ok ()) from hok])
        · exact hne man' (by rw [hiff.mpr hacc.special])

/-- What is left of the manager's knowledge after evictions, a rollback of the
database or a restart. -/
def CCreditPoolManager.forget (man : CCreditPoolManager) (keepCached keepSnapshots : uint256 → Bool) :
    CCreditPoolManager where
  creditPoolCache := LruCache.keepOnly man.creditPoolCache keepCached
  snapshots hash := if keepSnapshots hash then man.snapshots hash else none

/-- The states of the manager of a node with the given block index. -/
inductive Reachable (env : Environment) (p : ChainParams) (T : BlockIndex) :
    CCreditPoolManager → Prop
  | start : Reachable env p T {}
  | getCreditPool {man : CCreditPoolManager} {pindex : CBlockIndex} (h : Reachable env p T man)
      (hT : pindex ∈ T.entries) : Reachable env p T (getCreditPool env p pindex man).2
  | connectBlock {man : CCreditPoolManager} {block : CBlock} {pprev : CBlockIndex}
      (h : Reachable env p T man) (hT : pprev ∈ T.entries) :
      Reachable env p T (connectBlock env p block pprev man).2
  | forget {man : CCreditPoolManager} (keepCached keepSnapshots : uint256 → Bool)
      (h : Reachable env p T man) : Reachable env p T (man.forget keepCached keepSnapshots)

/-- A chain that a node has connected, each block with what it had stored then. -/
inductive Connected (env : Environment) (p : ChainParams) (T : BlockIndex) : CBlockIndex → Prop
  | nil : Connected env p T []
  | connect {man : CCreditPoolManager} {block : CBlock} {pprev : CBlockIndex}
      (h : Connected env p T pprev) (hindex : block :: pprev ∈ T.entries)
      (hman : Reachable env p T man)
      (hok : (connectBlock env p block pprev man).1 = .ok (.ok ())) :
      Connected env p T (block :: pprev)

theorem Sound.forget (h : Sound env p T man) (keepCached keepSnapshots : uint256 → Bool) :
    Sound env p T (man.forget keepCached keepSnapshots) := by
  refine ⟨h.cache.keepOnly keepCached, fun hash pool hfound => ?_⟩
  dsimp only [CCreditPoolManager.forget] at hfound
  split at hfound
  · exact h.snapshots hash pool hfound
  · contradiction

theorem Reachable.sound (h : Reachable env p T man) : Sound env p T man := by
  induction h with
  | start => exact sound_start T
  | getCreditPool _ hT ih => exact (getCreditPool_spec ih hT).2
  | connectBlock _ hT ih => exact (connectBlock_spec ih hT).2
  | forget keepCached keepSnapshots _ ih => exact ih.forget keepCached keepSnapshots

/-- The chain alone decides whether a node connects it. -/
theorem connected_cons_iff (hindex : block :: pprev ∈ T.entries) :
    Connected env p T (block :: pprev) ↔ Connected env p T pprev ∧ Accepts env p block pprev := by
  have hT := T.pprev_mem block pprev hindex
  constructor
  · intro h
    cases h with
    | connect h _ hman hok => exact ⟨h, (connectBlock_spec hman.sound hT).1.mp hok⟩
  · rintro ⟨h, hacc⟩
    exact .connect h hindex .start ((connectBlock_spec (sound_start T) hT).1.mpr hacc)

/-- The block index of a node that knows one chain. -/
def chainIndex (pindex : CBlockIndex) (h : (pindex.map CBlock.hash).Nodup) : BlockIndex where
  entries := {s | s <:+ pindex}
  pprev_mem block pprev hs := (List.suffix_cons block pprev).trans hs
  hash_unique := by
    rintro block pprev block' pprev' ⟨l, hl⟩ ⟨l', hl'⟩ hhash
    -- the two blocks are at one place, the only one with their hash
    have hget : ∀ {m : CBlockIndex} {b : CBlock} {rest : CBlockIndex}, m++b :: rest = pindex →
        (pindex.map CBlock.hash)[m.length]? = some b.hash := by
      rintro m b rest rfl
      rw [List.getElem?_map, List.getElem?_append_right le_rfl, Nat.sub_self]
      rfl
    have hlt : l.length < (pindex.map CBlock.hash).length := by
      rw [List.length_map, ← hl, List.length_append, List.length_cons]
      omega
    have heq : l.length = l'.length := by
      apply (List.getElem?_inj hlt h).mp
      rw [hget hl, hget hl', hhash]
    exact (List.append_inj (hl.trans hl'.symm) heq).2

/-- The manager of a node that connects the blocks of a chain one after the other. -/
def connectAll (env : Environment) (p : ChainParams) : CBlockIndex → Option CCreditPoolManager
  | [] => some {}
  | block :: pprev =>
    (connectAll env p pprev).bind fun man =>
      match connectBlock env p block pprev man with
      | (.ok (.ok ()), man) => some man
      | _ => none

theorem connected_of_connectAll (hT : ∀ s, s <:+ pindex → s ∈ T.entries)
    (h : connectAll env p pindex = some man) : Connected env p T pindex ∧ Reachable env p T man := by
  induction pindex generalizing man with
  | nil =>
    rw [← Option.some.inj h]
    exact ⟨.nil, .start⟩
  | cons block pprev ih =>
    have hsuffix := List.suffix_cons block pprev
    obtain ⟨man₀, hprev, hstep⟩ := Option.bind_eq_some_iff.mp h
    obtain ⟨hc, hr⟩ := ih (fun s hs => hT s (hs.trans hsuffix)) hprev
    split at hstep
    · next man₁ hconnect =>
      have hok : (connectBlock env p block pprev man₀).1 = .ok (.ok ()) := by rw [hconnect]
      refine ⟨.connect hc (hT _ List.suffix_rfl) hr hok, ?_⟩
      have hman : man = (connectBlock env p block pprev man₀).2 := by
        rw [hconnect, ← Option.some.inj hstep]
      rw [hman]
      exact hr.connectBlock (hT pprev hsuffix)
    · contradiction

end BabaChain.CreditPool
