import BabaChain.CommitmentExactness
import BabaChain.CommitmentMining

/-! A miner's commitments against the checks of a block: what is kept for mining is valid, and the
block with the commitments that `GetMineableCommitmentsTx` returns is accepted. -/
namespace BabaChain.LLMQ.BlockProcessor
open LruCache OrdMap Triples
open Std (ExtTreeMap)

variable {G₁ G₂ : Type} {c : Signing G₁ G₂} {p : ChainParams G₁ G₂} {m : BlockManager}
  {serializeHash : CFinalCommitment G₁ G₂ → uint256} {node : Receiver G₁ G₂}
  {pool : Mineable G₁ G₂} {qc fqc : CFinalCommitment G₁ G₂}

/-! ### What is kept -/

/-- A commitment that is not null and was verified against its quorum's first block. -/
structure Valid (c : Signing G₁ G₂) (p : ChainParams G₁ G₂) (m : BlockManager)
    (qc : CFinalCommitment G₁ G₂) : Prop where
  notNull : qc.isNull = false
  base : ∃ base, m.lookupBlockIndex qc.quorumHash = some base ∧ verifyMessage c p qc base = true

def PoolCall.commitment : PoolCall G₁ G₂ → CFinalCommitment G₁ G₂
  | message _ qc => qc
  | add fqc => fqc
  | mined qc => qc

/-- Messages reach nodes with blocks that are known. Whoever else adds a commitment has verified
it. -/
def Vouched (c : Signing G₁ G₂) (p : ChainParams G₁ G₂) (m : BlockManager) :
    PoolCall G₁ G₂ → Prop
  | .message node _ => node.blockman.blocks ⊆ m.blocks
  | .add fqc => Valid c p m fqc
  | .mined _ => True

/-- What is kept for a quorum is a valid commitment of it. -/
structure PoolValid (c : Signing G₁ G₂) (p : ChainParams G₁ G₂) (m : BlockManager)
    (serializeHash : CFinalCommitment G₁ G₂ → uint256) (occurs : CFinalCommitment G₁ G₂ → Prop)
    (pool : Mineable G₁ G₂) : Prop where
  named : ∀ (k : QuorumKey) h, pool.minableCommitmentsByQuorum[k]? = some h →
    ∃ qc, pool.minableCommitments[h]? = some qc ∧ quorumKey qc = k
  valid : ∀ (h : uint256) qc, pool.minableCommitments[h]? = some qc →
    Valid c p m qc ∧ serializeHash qc = h ∧ occurs qc

variable {occurs : CFinalCommitment G₁ G₂ → Prop}

theorem checkMessage_ok {base : CBlockIndex} (hok : (checkMessage p node qc).1 = .ok base) :
    qc.isNull = false ∧ node.blockman.lookupBlockIndex qc.quorumHash = some base := by
  unfold checkMessage at hok
  split_ifs at hok with hnull
  rw [Bool.not_eq_true] at hnull
  refine ⟨hnull, ?_⟩
  cases hparams : p.consensus.getLLMQ qc.llmqType with
  | none =>
    rw [hparams] at hok
    contradiction
  | some params =>
    cases hlookup : node.blockman.lookupBlockIndex qc.quorumHash with
    | none =>
      rw [hparams, hlookup] at hok
      contradiction
    | some b =>
      rw [hparams, hlookup] at hok
      dsimp only at hok
      split_ifs at hok
      rcases hmined : node.processor.hasMinedCommitment qc.llmqType qc.quorumHash with ⟨mined, s⟩
      rw [hmined] at hok
      cases mined with
      | true => contradiction
      | false => exact congrArg some (Except.ok.inj hok)

theorem lookup_hash {hash : uint256} {b : CBlockIndex}
    (hlookup : m.lookupBlockIndex hash = some b) : b ∈ m.blocks ∧ b.hash = hash := by
  have hhash := List.find?_some hlookup
  exact ⟨List.mem_of_find?_eq_some hlookup, of_decide_eq_true hhash⟩

/-- A commitment is put where its hash names it. -/
theorem PoolValid.put (h : PoolValid c p m serializeHash occurs pool)
    (hinj : ∀ x y, occurs x → occurs y → serializeHash x = serializeHash y →
      quorumKey x = quorumKey y)
    (hvalid : Valid c p m fqc) (hoccurs : occurs fqc) {pool' : Mineable G₁ G₂}
    (hquorums : ∀ k, pool'.minableCommitmentsByQuorum[k]? =
      if k = quorumKey fqc then some (serializeHash fqc)
      else pool.minableCommitmentsByQuorum[k]?)
    (hput : ∃ qc, pool'.minableCommitments[serializeHash fqc]? = some qc ∧
      (qc = fqc ∨ pool.minableCommitments[serializeHash fqc]? = some qc))
    (hother : ∀ a, a ≠ serializeHash fqc →
      pool'.minableCommitments[a]? = pool.minableCommitments[a]?) :
    PoolValid c p m serializeHash occurs pool' where
  named k hash hk := by
    rw [hquorums] at hk
    split_ifs at hk with hsame
    · rw [Option.some.injEq] at hk
      subst hk
      obtain ⟨qc, hqc, rfl | hold⟩ := hput
      · exact ⟨qc, hqc, hsame.symm⟩
      · obtain ⟨-, hhash, hocc⟩ := h.valid _ qc hold
        exact ⟨qc, hqc, (hinj qc fqc hocc hoccurs hhash).trans hsame.symm⟩
    · obtain ⟨qc, hqc, hkey⟩ := h.named k hash hk
      by_cases hhash : hash = serializeHash fqc
      · obtain ⟨-, heq, hocc⟩ := h.valid hash qc hqc
        exact absurd (hkey.symm.trans (hinj qc fqc hocc hoccurs (heq.trans hhash))) hsame
      · exact ⟨qc, by rw [hother hash hhash, hqc], hkey⟩
  valid hash qc hqc := by
    by_cases hhash : hash = serializeHash fqc
    · subst hhash
      obtain ⟨qc', hqc', hcase⟩ := hput
      rw [hqc', Option.some.injEq] at hqc
      subst hqc
      rcases hcase with rfl | hold
      · exact ⟨hvalid, rfl, hoccurs⟩
      · exact h.valid _ _ hold
    · rw [hother hash hhash] at hqc
      exact h.valid hash qc hqc

theorem PoolValid.add {s : Pool G₁ G₂}
    (h : PoolValid c p m serializeHash occurs s.mineable)
    (hinj : ∀ x y, occurs x → occurs y → serializeHash x = serializeHash y →
      quorumKey x = quorumKey y)
    (hvalid : Valid c p m fqc) (hoccurs : occurs fqc) :
    PoolValid c p m serializeHash occurs (s.add serializeHash fqc).mineable := by
  have hquorums : ∀ k, (s.mineable.minableCommitmentsByQuorum.insert (quorumKey fqc)
      (serializeHash fqc))[k]? = if k = quorumKey fqc then some (serializeHash fqc)
        else s.mineable.minableCommitmentsByQuorum[k]? := by
    intro k
    rw [getElem?_insert]
    simp only [eq_comm]
  unfold Pool.add Mineable.addMineableCommitment
  dsimp only
  cases hk : s.mineable.minableCommitmentsByQuorum[quorumKey fqc]? with
  | none =>
    refine h.put hinj hvalid hoccurs hquorums ?_ fun a ha => ?_
    · cases hold : s.mineable.minableCommitments[serializeHash fqc]? with
      | none => exact ⟨fqc, by rw [getElem?_insertIfNew hold, if_pos rfl], Or.inl rfl⟩
      | some qc =>
        have hmem := mem_iff_exists.mpr ⟨qc, hold⟩
        refine ⟨qc, ?_, Or.inr rfl⟩
        rw [ExtTreeMap.getElem?_insertIfNew, if_neg fun hboth => hboth.2 hmem, hold]
    · rw [ExtTreeMap.getElem?_insertIfNew,
        if_neg fun hboth => ha (Std.LawfulEqCmp.eq_of_compare hboth.1).symm]
  | some hash =>
    obtain ⟨kept, hkept, -⟩ := h.named _ hash hk
    dsimp only
    rw [hkept]
    dsimp only
    split_ifs
    · have herase : (s.mineable.minableCommitments.erase (serializeHash fqc))[serializeHash fqc]? =
          none := by
        rw [getElem?_erase, if_pos rfl]
      refine h.put hinj hvalid hoccurs hquorums
        ⟨fqc, by rw [getElem?_insertIfNew herase, if_pos rfl], Or.inl rfl⟩ fun a ha => ?_
      rw [getElem?_insertIfNew herase, if_neg ha, getElem?_erase, if_neg (Ne.symm ha)]
    · exact h

theorem PoolValid.removeMined {s : Pool G₁ G₂}
    (h : PoolValid c p m serializeHash occurs s.mineable)
    (hinj : ∀ x y, occurs x → occurs y → serializeHash x = serializeHash y →
      quorumKey x = quorumKey y) (hoccurs : occurs qc) :
    PoolValid c p m serializeHash occurs (s.removeMined serializeHash qc).mineable where
  named k hash hk := by
    dsimp only [Pool.removeMined, Mineable.removeMined] at hk ⊢
    rw [getElem?_erase] at hk
    split_ifs at hk with hsame
    obtain ⟨qc', hqc', hkey⟩ := h.named k hash hk
    obtain ⟨-, hhash, hocc⟩ := h.valid hash qc' hqc'
    have hne : serializeHash qc ≠ hash := fun heq =>
      hsame ((hinj qc qc' hoccurs hocc (heq.trans hhash.symm)).trans hkey)
    exact ⟨qc', by rw [getElem?_erase, if_neg hne, hqc'], hkey⟩
  valid hash qc' hqc' := by
    dsimp only [Pool.removeMined, Mineable.removeMined] at hqc'
    rw [getElem?_erase] at hqc'
    split_ifs at hqc'
    exact h.valid hash qc' hqc'

/-- What is kept through a run is valid, if no two quorums' commitments have the same hash. -/
theorem poolValid_run {calls : List (PoolCall G₁ G₂)}
    (hvouched : ∀ call ∈ calls, Vouched c p m call)
    (hinj : ∀ call ∈ calls, ∀ call' ∈ calls,
      serializeHash call.commitment = serializeHash call'.commitment →
        quorumKey call.commitment = quorumKey call'.commitment) :
    PoolValid c p m serializeHash (fun qc => ∃ call ∈ calls, call.commitment = qc)
      (Runs.final (poolStep c p serializeHash) {} calls).mineable := by
  have hinj' : ∀ x y, (∃ call ∈ calls, call.commitment = x) → (∃ call ∈ calls,
      call.commitment = y) → serializeHash x = serializeHash y → quorumKey x = quorumKey y := by
    rintro x y ⟨call, hcall, rfl⟩ ⟨call', hcall', rfl⟩ hhash
    exact hinj call hcall call' hcall' hhash
  have hevery : Runs.EveryStep (poolStep c p serializeHash)
      (fun _ call => call ∈ calls) {} calls :=
    Runs.everyStep_of_forall _ fun call hcall => hcall
  refine Runs.final_invariant (fun s : Pool G₁ G₂ => PoolValid c p m serializeHash
    (fun qc => ∃ call ∈ calls, call.commitment = qc) s.mineable) (fun s call h hcall => ?_) ?_
    hevery
  · have hoccurs : ∃ call' ∈ calls, call'.commitment = call.commitment := ⟨call, hcall, rfl⟩
    have hvouch := hvouched call hcall
    cases call with
    | message node qc =>
      change PoolValid c p m serializeHash _ (s.receive c p serializeHash node qc).mineable
      unfold Pool.receive
      cases hcheck : (checkMessage p node qc).1 with
      | error e => exact h
      | ok base =>
        dsimp only
        split_ifs with hknown hverify
        · exact h
        · exact h
        · obtain ⟨hnull, hlookup⟩ := checkMessage_ok hcheck
          obtain ⟨hmem, hhash⟩ := lookup_hash hlookup
          have hbase : m.lookupBlockIndex qc.quorumHash = some base :=
            hhash ▸ lookup_of_mem (hvouch hmem)
          exact h.add hinj' ⟨hnull, base, hbase, Bool.not_eq_false _ ▸ hverify⟩ hoccurs
    | add fqc => exact h.add hinj' hvouch hoccurs
    | mined qc => exact h.removeMined hinj' hoccurs
  · refine ⟨fun k hash hk => ?_, fun hash qc hqc => ?_⟩
    · rw [ExtTreeMap.getElem?_empty] at hk
      contradiction
    · rw [ExtTreeMap.getElem?_empty] at hqc
      contradiction

/-! ### The commitments of a tip -/

variable {tip : CBlockIndex} {params : LLMQParams} {mined : Mined} {nHeight i : ℕ}

/-- What is kept for a quorum would pass the checks of a block. -/
def KeptPasses (p : ChainParams G₁ G₂) (m : BlockManager) (pool : Mineable G₁ G₂) : Prop :=
  ∀ (k : QuorumKey) h, pool.minableCommitmentsByQuorum[k]? = some h →
    ∃ qc, pool.minableCommitments[h]? = some qc ∧ quorumKey qc = k ∧ qc.isNull = false ∧
      ∃ base, m.lookupBlockIndex qc.quorumHash = some base ∧
        Commitment.verify p qc base = true ∧ p.verifySignatures qc base = true

theorem PoolValid.keptPasses (h : PoolValid c p m serializeHash occurs pool) :
    KeptPasses (c.withSigning p) m pool := by
  intro k hash hk
  obtain ⟨qc, hqc, hkey⟩ := h.named k hash hk
  obtain ⟨hvalid, -, -⟩ := h.valid hash qc hqc
  obtain ⟨base, hlookup, hverify⟩ := hvalid.base
  unfold verifyMessage at hverify
  rw [Bool.and_eq_true, Bool.and_eq_true] at hverify
  exact ⟨qc, hqc, hkey, hvalid.notNull, base, hlookup, hverify.1.1, hverify.2⟩

theorem mem_neededIndexes : i ∈ neededIndexes p params (some tip) nHeight mined ↔
    isMiningPhase p params (some tip) nHeight = some true ∧
      i < quorumsNum p params tip nHeight ∧ Needed params (some tip) nHeight mined i = true := by
  unfold neededIndexes
  cases hphase : isMiningPhase p params (some tip) nHeight with
  | none => exact iff_of_false List.not_mem_nil fun h => absurd h.1 nofun
  | some phase =>
    cases phase with
    | false => exact iff_of_false List.not_mem_nil fun h => absurd h.1 nofun
    | true =>
      dsimp only
      rw [List.mem_filter, List.mem_range]
      exact (and_iff_right rfl).symm

theorem cycle_mod {n d i : ℕ} (hi : i < n%d) : (n-n%d+i)%d = i := by
  have hdiv := Nat.div_add_mod n d
  have hstart : n-n%d = d*(n/d) := by omega
  rw [hstart, Nat.mul_add_mod]
  rcases Nat.eq_zero_or_pos d with rfl | hd
  · exact Nat.mod_zero i
  · exact Nat.mod_eq_of_lt (hi.trans (Nat.mod_lt n hd))

/-- A commitment that a miner may put into the next block for an index. -/
structure Minable (p : ChainParams G₁ G₂) (m : BlockManager) (tip : CBlockIndex)
    (params : LLMQParams) (mined : Mined) (i : ℕ) (f : CFinalCommitment G₁ G₂) : Prop where
  type : f.llmqType = params.type
  hash : f.quorumHash = getQuorumBlockHash params (some tip) (tip.nHeight+1) i
  passes : Passes p m (some tip) (tip.nHeight+1) mined f params
  signed : f.isNull = false → ∃ base, m.lookupBlockIndex f.quorumHash = some base ∧
    p.verifySignatures f base = true

/-- The versions with an index are those of rotation. -/
theorem decoded_index {f : CFinalCommitment G₁ G₂} {rotated basic : Bool}
    (hversion : f.nVersion = getVersion rotated basic) (hindex : f.quorumIndex = i)
    (hzero : rotated = false → i = 0) : decoded f = f := by
  unfold decoded
  split_ifs with hindexed
  · rfl
  · have hnot : rotated = false := by
      cases rotated with
      | false => rfl
      | true =>
        refine absurd ?_ hindexed
        rw [hversion]
        cases basic with
        | false => exact Or.inl rfl
        | true => exact Or.inr rfl
    rw [hzero hnot, Nat.cast_zero] at hindex
    rw [← hindex]

/-- What is kept for a quorum of the cycle, or a null commitment for it, passes. -/
theorem minable_of_needed (hkept : KeptPasses p m pool)
    (hparams : p.consensus.getLLMQ params.type = some params)
    (hcount : params.signingActiveQuorumCount ≤ 2^15) (htip : tip ∈ m.blocks)
    (hne : ∀ b ∈ m.blocks, b.hash ≠ 0)
    (hi : i ∈ neededIndexes p params (some tip) (tip.nHeight+1) mined)
    {f : CFinalCommitment G₁ G₂} (hf : tipCommitment p pool tip params i = some f) :
    Minable p m tip params mined i (decoded f) := by
  obtain ⟨hphase, hlt, hneeded⟩ := mem_neededIndexes.mp hi
  obtain ⟨a, ha, hheight, hle, hhash⟩ : ∃ a ∈ m.blocks,
      a.nHeight = tip.nHeight+1-(tip.nHeight+1)%params.dkgInterval+i ∧
        a.nHeight ≤ tip.nHeight ∧
        getQuorumBlockHash params (some tip) (tip.nHeight+1) i = a.hash := by
    rcases quorumBlock_cases htip params (tip.nHeight+1) i with ⟨-, hzero⟩ | hblock
    · rw [not_needed_of_zero hzero] at hneeded
      contradiction
    · exact hblock
  have hmod := Nat.mod_le (tip.nHeight+1) params.dkgInterval
  -- the tip and the quorum's first block are in the cycle of the next block
  have hcycle : a.nHeight%params.dkgInterval = i := by
    rw [hheight]
    exact cycle_mod (by omega)
  have htipCycle : tip.nHeight%params.dkgInterval = (tip.nHeight+1)%params.dkgInterval-1 := by
    have hbefore : tip.nHeight = tip.nHeight+1-(tip.nHeight+1)%params.dkgInterval+
        ((tip.nHeight+1)%params.dkgInterval-1) := by omega
    conv_lhs => rw [hbefore]
    exact cycle_mod (by omega)
  have hrotation : isQuorumRotationEnabled p.consensus params a =
      isQuorumRotationEnabled p.consensus params tip :=
    isQuorumRotationEnabled_congr (by omega)
  rw [quorumsNum_tip] at hlt
  have hzero : isQuorumRotationEnabled p.consensus params tip = false → i = 0 := by
    intro hnot
    rw [hnot, if_neg Bool.false_ne_true] at hlt
    omega
  have hmined : mined params.type (getQuorumBlockHash params (some tip) (tip.nHeight+1) i) =
      false := by
    rw [needed_of_ne_zero (hhash ▸ hne a ha), Bool.not_eq_true'] at hneeded
    exact hneeded
  unfold tipCommitment mineableCommitment at hf
  dsimp only at hf
  cases hk : pool.minableCommitmentsByQuorum[(⟨params.type,
      getQuorumBlockHash params (some tip) (tip.nHeight+1) i⟩ : QuorumKey)]? with
  | none =>
    rw [hk, Option.some.injEq] at hf
    have hindex : (BitVec.ofNat 16 i).toInt = i := by
      have hsmall : i < 2^15 := by
        split_ifs at hlt
        · omega
        · omega
      have hnat : (BitVec.ofNat 16 i).toNat = i := by
        rw [BitVec.toNat_ofNat]
        exact Nat.mod_eq_of_lt (by omega)
      rw [BitVec.toInt_eq_toNat_of_lt (by rw [hnat]; omega), hnat]
    have hsame : decoded f = f :=
      decoded_index (f := f) (by rw [← hf]) (by rw [← hf]; exact hindex) hzero
    have hnull : f.isNull = true := by
      rw [← hf]
      unfold CFinalCommitment.isNull
      simp
    rw [hsame]
    refine ⟨by rw [← hf], by rw [← hf], ?_, fun hnot => ?_⟩
    · refine ⟨by rw [← hf]; exact hparams, fun _ => ?_, ?_, fun _ => ?_, ?_, ?_, ?_⟩
      · rw [← hf]
        dsimp only
        rw [hindex]
      · rw [← hf]
        dsimp only
        rw [hhash]
        exact hne a ha
      · have htype : f.llmqType = params.type := by rw [← hf]
        unfold Commitment.verifyNull
        rw [htype, hparams]
        dsimp only
        rw [hnull, Bool.true_and, ← hf]
        simp [Commitment.verifySizes]
      all_goals
        intro hnot
        rw [hnull] at hnot
        contradiction
    · rw [hnull] at hnot
      contradiction
  | some hash =>
    obtain ⟨qc, hqc, hkey, hnotNull, base, hlookup, hverify, hsigs⟩ := hkept _ hash hk
    rw [hk] at hf
    dsimp only at hf
    rw [hqc, Option.some.injEq] at hf
    subst hf
    obtain ⟨htype, hquorum⟩ := QuorumKey.mk.inj hkey
    have hbase : base = a := by
      have hlookup' := lookup_of_mem ha
      rw [← hhash, ← hquorum, hlookup, Option.some.injEq] at hlookup'
      exact hlookup'
    subst hbase
    obtain ⟨params', hverified⟩ := verified_of_verify hverify
    have hknown := hverified.known
    rw [htype, hparams, Option.some.injEq] at hknown
    subst hknown
    have hindex : qc.quorumIndex = i := by rw [← hverified.index, hcycle]
    have hversion : qc.nVersion = getVersion (isQuorumRotationEnabled p.consensus params tip)
        (p.V19ActiveAfter base) := by
      unfold Commitment.verify at hverify
      rw [htype, hparams] at hverify
      simp only [Bool.and_eq_true, decide_eq_true_iff] at hverify
      rw [← hrotation]
      exact hverify.1.1.1.1.1.1.1.1.1.1.2
    rw [decoded_index hversion hindex hzero]
    refine ⟨htype, hquorum, ⟨by rw [htype]; exact hparams, fun _ => ?_, ?_, fun hnull => ?_,
      fun _ => ?_, fun _ => hphase, fun _ => ⟨base, hlookup, hverify⟩⟩,
      fun _ => ⟨base, hlookup, hsigs⟩⟩
    · rw [hindex, hquorum]
    · rw [hquorum, hhash]
      exact hne base ha
    · rw [hnotNull] at hnull
      contradiction
    · rw [htype, hquorum]
      exact hmined

/-! ### The block of a miner -/

variable {pindex : CBlockIndex} {qcs ret : List (CFinalCommitment G₁ G₂)}

theorem nHeight_of_parent (hparent : parent pindex = some tip) :
    pindex.nHeight = tip.nHeight+1 := by
  unfold parent at hparent
  cases hpprev : pindex.pprev with
  | nil =>
    rw [hpprev] at hparent
    contradiction
  | cons hash pprev =>
    rw [hpprev, Option.some.injEq] at hparent
    rw [← hparent, CBlockIndex.nHeight, hpprev]
    rfl

/-- Two commitments of one type go together only with rotation. -/
def TypesApart (p : ChainParams G₁ G₂) (pindex : CBlockIndex) (qc qc' : CFinalCommitment G₁ G₂) :
    Prop :=
  qc.llmqType = qc'.llmqType → ∀ params, p.consensus.getLLMQ qc.llmqType = some params →
    isQuorumRotationEnabled p.consensus params pindex = true

theorem addCommitments_ok (hknown : ∀ qc ∈ qcs, ∃ params,
      p.consensus.getLLMQ qc.llmqType = some params)
    (hapart : (ret ++ qcs).Pairwise (TypesApart p pindex)) :
    ∃ ret', (qcs.map some).foldlM (addCommitment p pindex) ret = .ok ret' := by
  induction qcs generalizing ret with
  | nil => exact ⟨ret, rfl⟩
  | cons qc qcs ih =>
    rw [List.forall_mem_cons] at hknown
    obtain ⟨params, hparams⟩ := hknown.1
    have hadd : addCommitment p pindex ret (some qc) = .ok (emplace ret qc) := by
      unfold addCommitment
      dsimp only
      rw [hparams]
      dsimp only
      refine if_neg fun hdup => ?_
      obtain ⟨qc', hqc', htype⟩ := List.countP_pos_iff.mp (Nat.pos_of_ne_zero hdup.2)
      have hrotation := (List.pairwise_append.mp hapart).2.2 qc' hqc' qc List.mem_cons_self
        (of_decide_eq_true htype) params (by rw [of_decide_eq_true htype, hparams])
      rw [hdup.1] at hrotation
      contradiction
    have hperm : (ret ++ qc :: qcs).Perm (emplace ret qc ++ qcs) :=
      List.perm_middle.trans ((emplace_perm ret qc).symm.append_right qcs)
    have hsymm : ∀ {a b : CFinalCommitment G₁ G₂}, TypesApart p pindex a b →
        TypesApart p pindex b a :=
      fun hab hsame params hparams => hab hsame.symm params (hsame ▸ hparams)
    obtain ⟨ret', hret⟩ := ih hknown.2 ((hperm.pairwise_iff hsymm).mp hapart)
    exact ⟨ret', by rw [List.map_cons, List.foldlM_cons, hadd]; exact hret⟩

theorem passAll_of_forall
    (h : ∀ qc ∈ qcs, ∃ params, Passes p m (some tip) nHeight mined qc params) :
    PassAll p m (some tip) nHeight true mined qcs := by
  induction qcs with
  | nil => trivial
  | cons qc qcs ih =>
    rw [List.forall_mem_cons] at h
    exact ⟨h.1, ih h.2⟩

/-- The commitments of one type among those of all. -/
theorem countType_flatMap {fs : LLMQParams → List (CFinalCommitment G₁ G₂)} {l : List LLMQParams}
    (hnodup : (l.map LLMQParams.type).Nodup)
    (htype : ∀ params ∈ l, ∀ qc ∈ fs params, qc.llmqType = params.type) (hparams : params ∈ l) :
    countType (l.flatMap fs) params.type = (fs params).length := by
  induction l with
  | nil => exact absurd hparams List.not_mem_nil
  | cons params' l ih =>
    rw [List.map_cons, List.nodup_cons] at hnodup
    rw [List.forall_mem_cons] at htype
    have hother : ∀ params'' ∈ l, params''.type ≠ params'.type :=
      fun params'' hmem heq => hnodup.1 (heq ▸ List.mem_map_of_mem hmem)
    rw [countType, List.flatMap_cons, List.countP_append]
    rcases List.mem_cons.mp hparams with rfl | hparams
    · rw [List.countP_eq_length.mpr fun qc hqc => decide_eq_true (htype.1 qc hqc),
        List.countP_eq_zero.mpr fun qc hqc => ?_, add_zero]
      obtain ⟨params'', hmem, hqc⟩ := List.mem_flatMap.mp hqc
      rw [decide_eq_true_iff, htype.2 params'' hmem qc hqc]
      exact hother params'' hmem
    · have hrest := ih hnodup.2 htype.2 hparams
      rw [countType] at hrest
      rw [hrest, List.countP_eq_zero.mpr fun qc hqc => ?_, zero_add]
      rw [decide_eq_true_iff, htype.1 qc hqc]
      exact (hother params hparams).symm

/-- The commitments of all types on a tip. -/
def tipCommitments (p : ChainParams G₁ G₂) (tip : CBlockIndex) (mined : Mined)
    (mk : LLMQParams → ℕ → CFinalCommitment G₁ G₂) : List (CFinalCommitment G₁ G₂) :=
  (getEnabledQuorumParams p tip).flatMap fun params =>
    (neededIndexes p params (some tip) (tip.nHeight+1) mined).map fun i => decoded (mk params i)

/-- Needed indexes are in the cycle of the next block. -/
theorem needed_height (htip : tip ∈ m.blocks)
    (hi : i ∈ neededIndexes p params (some tip) (tip.nHeight+1) mined) :
    i < (tip.nHeight+1)%params.dkgInterval ∧ ∃ a ∈ m.blocks,
      a.nHeight = tip.nHeight+1-(tip.nHeight+1)%params.dkgInterval+i ∧
        getQuorumBlockHash params (some tip) (tip.nHeight+1) i = a.hash := by
  obtain ⟨-, -, hneeded⟩ := mem_neededIndexes.mp hi
  rcases quorumBlock_cases htip params (tip.nHeight+1) i with
    ⟨-, hzero⟩ | ⟨a, ha, hheight, hle, hhash⟩
  · rw [not_needed_of_zero hzero] at hneeded
    contradiction
  · have hmod := Nat.mod_le (tip.nHeight+1) params.dkgInterval
    exact ⟨by omega, a, ha, hheight, hhash⟩

theorem rotation_next (htip : tip ∈ m.blocks) (hparent : parent pindex = some tip)
    (hi : i ∈ neededIndexes p params (some tip) (tip.nHeight+1) mined) :
    isQuorumRotationEnabled p.consensus params pindex =
      isQuorumRotationEnabled p.consensus params tip := by
  obtain ⟨hlt, -⟩ := needed_height htip hi
  have hmod := Nat.mod_le (tip.nHeight+1) params.dkgInterval
  have htipCycle : tip.nHeight%params.dkgInterval = (tip.nHeight+1)%params.dkgInterval-1 := by
    have hbefore : tip.nHeight = tip.nHeight+1-(tip.nHeight+1)%params.dkgInterval+
        ((tip.nHeight+1)%params.dkgInterval-1) := by omega
    conv_lhs => rw [hbefore]
    exact cycle_mod (by omega)
  refine isQuorumRotationEnabled_congr ?_
  rw [nHeight_of_parent hparent]
  omega

theorem nodup_neededIndexes :
    (neededIndexes p params (some tip) nHeight mined).Pairwise fun i j => i < j := by
  unfold neededIndexes
  split
  · exact List.pairwise_lt_range.filter _
  · exact List.Pairwise.nil

/-- Two commitments of a tip are for different indexes of one type, or of different types. -/
theorem tipCommitments_pairwise {mk : LLMQParams → ℕ → CFinalCommitment G₁ G₂}
    {R : CFinalCommitment G₁ G₂ → CFinalCommitment G₁ G₂ → Prop}
    (hindexes : ∀ params ∈ getEnabledQuorumParams p tip,
      ∀ i ∈ neededIndexes p params (some tip) (tip.nHeight+1) mined,
      ∀ j ∈ neededIndexes p params (some tip) (tip.nHeight+1) mined, i < j →
        R (decoded (mk params i)) (decoded (mk params j)))
    (htypes : ∀ params ∈ getEnabledQuorumParams p tip, ∀ params' ∈ getEnabledQuorumParams p tip,
      params.type ≠ params'.type →
      ∀ i ∈ neededIndexes p params (some tip) (tip.nHeight+1) mined,
      ∀ j ∈ neededIndexes p params' (some tip) (tip.nHeight+1) mined,
        R (decoded (mk params i)) (decoded (mk params' j))) :
    (tipCommitments p tip mined mk).Pairwise R := by
  unfold tipCommitments
  rw [List.pairwise_flatMap]
  refine ⟨fun params hparams => ?_, ?_⟩
  · rw [List.pairwise_map]
    exact nodup_neededIndexes.imp_of_mem fun hi hj hij => hindexes params hparams _ hi _ hj hij
  · have hnodup : ((getEnabledQuorumParams p tip).map LLMQParams.type).Nodup :=
      p.consensus.nodup.sublist (List.filter_sublist.map LLMQParams.type)
    rw [List.Nodup, List.pairwise_map] at hnodup
    refine hnodup.imp_of_mem fun {params params'} hparams hparams' hne x hx y hy => ?_
    obtain ⟨i, hi, rfl⟩ := List.mem_map.mp hx
    obtain ⟨j, hj, rfl⟩ := List.mem_map.mp hy
    exact htypes params hparams params' hparams' hne i hi j hj

/-- Every commitment of a tip may be mined. -/
def AllMinable (p : ChainParams G₁ G₂) (m : BlockManager) (tip : CBlockIndex) (mined : Mined)
    (mk : LLMQParams → ℕ → CFinalCommitment G₁ G₂) : Prop :=
  ∀ params ∈ getEnabledQuorumParams p tip,
    ∀ i ∈ neededIndexes p params (some tip) (tip.nHeight+1) mined,
      Minable p m tip params mined i (decoded (mk params i))

variable {mk : LLMQParams → ℕ → CFinalCommitment G₁ G₂}

theorem AllMinable.exists (h : AllMinable p m tip mined mk)
    (hqc : qc ∈ tipCommitments p tip mined mk) :
    ∃ params ∈ getEnabledQuorumParams p tip, ∃ i, Minable p m tip params mined i qc := by
  obtain ⟨params, hparams, hqc⟩ := List.mem_flatMap.mp hqc
  obtain ⟨i, hi, rfl⟩ := List.mem_map.mp hqc
  exact ⟨params, hparams, i, h params hparams i hi⟩

theorem enabled_known (hparams : params ∈ getEnabledQuorumParams p tip) :
    p.consensus.getLLMQ params.type = some params :=
  getLLMQ_of_mem (List.mem_of_mem_filter hparams)

/-- The commitments of a tip go together in a block. -/
theorem AllMinable.typesApart (h : AllMinable p m tip mined mk) (htip : tip ∈ m.blocks)
    (hparent : parent pindex = some tip) :
    (tipCommitments p tip mined mk).Pairwise (TypesApart p pindex) := by
  refine tipCommitments_pairwise (fun params hparams i hi j hj hij => ?_)
    fun params hparams params' hparams' hne i hi j hj => ?_
  · intro hsame params' hparams'
    rw [(h params hparams i hi).type, enabled_known hparams, Option.some.injEq] at hparams'
    subst hparams'
    -- a second index needs rotation
    rw [rotation_next htip hparent hi]
    obtain ⟨-, hlt, -⟩ := mem_neededIndexes.mp hj
    rw [quorumsNum_tip] at hlt
    by_contra hnot
    rw [if_neg hnot] at hlt
    omega
  · intro hsame
    rw [(h params hparams i hi).type, (h params' hparams' j hj).type] at hsame
    exact absurd hsame hne

/-- They name different quorums. -/
theorem AllMinable.nodup (h : AllMinable p m tip mined mk) (htip : tip ∈ m.blocks) :
    (namedQuorums (tipCommitments p tip mined mk)).Nodup := by
  have hall : ((tipCommitments p tip mined mk).map fun qc =>
      (qc.llmqType, qc.quorumHash)).Nodup := by
    rw [List.Nodup, List.pairwise_map]
    refine tipCommitments_pairwise (fun params hparams i hi j hj hij hsame => ?_)
      fun params hparams params' hparams' hne i hi j hj hsame => hne ?_
    · obtain ⟨-, a, ha, hheight, hhash⟩ := needed_height htip hi
      obtain ⟨-, b, hb, hheight', hhash'⟩ := needed_height htip hj
      have hblocks : a.hash = b.hash := by
        rw [← hhash, ← hhash', ← (h params hparams i hi).hash, ← (h params hparams j hj).hash]
        exact (Prod.ext_iff.mp hsame).2
      have hblock : a = b := List.inj_on_of_nodup_map m.nodup ha hb hblocks
      rw [hblock] at hheight
      omega
    · rw [← (h params hparams i hi).type, ← (h params' hparams' j hj).type]
      exact (Prod.ext_iff.mp hsame).1
  exact hall.sublist (List.filter_sublist.map _)

/-- The block with the commitments of a tip passes the checks. -/
theorem AllMinable.acceptable (h : AllMinable p m tip mined mk) (htip : tip ∈ m.blocks)
    (hparent : parent pindex = some tip) (fJustCheck fBLSChecks : Bool) :
    pindex.nHeight < p.DIP0003Height ∨ ∃ qcs pprev,
      Acceptable p m pindex (some tip) ⟨(tipCommitments p tip mined mk).map some⟩ fJustCheck
        fBLSChecks mined qcs pprev := by
  by_cases hearly : (pindex.nHeight : ℤ) < p.DIP0003Height
  · exact Or.inl hearly
  refine Or.inr ?_
  have hheight := nHeight_of_parent hparent
  let block : CBlock G₁ G₂ := ⟨(tipCommitments p tip mined mk).map some⟩
  obtain ⟨qcs, hqcs⟩ : ∃ qcs, getCommitmentsFromBlock p pindex block = .ok qcs := by
    have hknown : ∀ qc ∈ tipCommitments p tip mined mk, ∃ params,
        p.consensus.getLLMQ qc.llmqType = some params := by
      intro qc hqc
      obtain ⟨params, -, i, hminable⟩ := h.exists hqc
      exact ⟨params, hminable.passes.known⟩
    have hapart : ([] ++ tipCommitments p tip mined mk).Pairwise (TypesApart p pindex) :=
      h.typesApart htip hparent
    obtain ⟨qcs, hqcs⟩ := addCommitments_ok hknown hapart
    refine ⟨qcs, ?_⟩
    unfold getCommitmentsFromBlock
    rw [hqcs]
    exact if_neg fun hboth => hearly hboth.1
  have hperm : qcs.Perm (tipCommitments p tip mined mk) := by
    have hperm := commitments_perm hqcs
    rwa [List.filterMap_map, Function.id_comp, List.filterMap_some] at hperm
  have hminable : ∀ qc ∈ qcs, ∃ params ∈ getEnabledQuorumParams p tip, ∃ i,
      Minable p m tip params mined i qc :=
    fun qc hqc => h.exists (hperm.mem_iff.mp hqc)
  have hpasses : PassAll p m (some tip) pindex.nHeight true mined qcs := by
    refine passAll_of_forall fun qc hqc => ?_
    obtain ⟨params, -, i, hqc⟩ := hminable qc hqc
    rw [hheight]
    exact ⟨params, hqc.passes⟩
  refine ⟨qcs, tip, hqcs, hparent, fun _ params hparams => ?_, fun _ qc hqc hnull => ?_, ?_⟩
  · rw [hheight]
    constructor
    · unfold isMiningPhase
      rw [if_neg (by change ¬((tip.nHeight : ℤ)+1 < (tip.nHeight+1 : ℕ)); omega)]
      split
      · contradiction
      · trivial
      · rfl
    · have hnodup : ((getEnabledQuorumParams p tip).map LLMQParams.type).Nodup :=
        p.consensus.nodup.sublist (List.filter_sublist.map LLMQParams.type)
      rw [countType, hperm.countP_eq]
      change countType (tipCommitments p tip mined mk) params.type = _
      unfold tipCommitments
      rw [countType_flatMap hnodup ?_ hparams, List.length_map]
      intro params' hparams' qc hqc
      obtain ⟨i, hi, rfl⟩ := List.mem_map.mp hqc
      exact (h params' hparams' i hi).type
  · obtain ⟨params, -, i, hqc⟩ := hminable qc hqc
    exact hqc.signed hnull
  · cases fJustCheck with
    | true => exact hpasses
    | false =>
      exact hpasses.process (fun q _ => rfl)
        ((namedQuorums_perm hperm).nodup_iff.mpr (h.nodup htip))

/-- Every type keeps at least as many answers as it has quorums in a cycle, and their indexes fit
the field of a commitment. -/
structure Fits (params : LLMQParams) : Prop where
  one : 1 ≤ params.keepOldKeys
  active : params.signingActiveQuorumCount ≤ params.keepOldKeys
  small : params.signingActiveQuorumCount ≤ 2^15

theorem tipCommitment_exists (h : KeptPasses p m pool) (tip : CBlockIndex) (params : LLMQParams)
    (i : ℕ) : ∃ f, tipCommitment p pool tip params i = some f := by
  unfold tipCommitment mineableCommitment
  dsimp only
  cases hk : pool.minableCommitmentsByQuorum[(⟨params.type,
      getQuorumBlockHash params (some tip) (tip.nHeight+1) i⟩ : QuorumKey)]? with
  | none => exact ⟨_, rfl⟩
  | some hash =>
    obtain ⟨qc, hqc, -⟩ := h _ hash hk
    exact ⟨qc, hqc⟩

/-- What is needed is counted. -/
theorem mem_candidates (hne : ∀ b ∈ m.blocks, b.hash ≠ 0) (htip : tip ∈ m.blocks)
    (hi : i ∈ neededIndexes p params (some tip) (tip.nHeight+1) mined) :
    getQuorumBlockHash params (some tip) (tip.nHeight+1) i ∈
      candidates p params (some tip) (tip.nHeight+1) := by
  obtain ⟨hphase, hlt, -⟩ := mem_neededIndexes.mp hi
  obtain ⟨-, a, ha, -, hhash⟩ := needed_height htip hi
  unfold candidates
  rw [hphase]
  refine List.mem_filter.mpr ⟨List.mem_map_of_mem (List.mem_range.mpr hlt), decide_eq_true ?_⟩
  rw [hhash]
  exact hne a ha

/-- A block with the commitments of its tip is accepted, by caches that may be wrong. -/
theorem mined_accepted (hkept : KeptPasses p m pool) (hfits : ∀ params ∈ p.consensus.llmqs,
      Fits params) (htip : tip ∈ m.blocks) (hne : ∀ b ∈ m.blocks, b.hash ≠ 0)
    (hparent : parent pindex = some tip) {s : CQuorumBlockProcessor G₁ G₂}
    (hsteady : Steady p (fun _ => []) mined s) :
    ∃ block processor, (createCommitments p pool tip).run.run s = (.ok block, processor) ∧
      ∀ fJustCheck fBLSChecks,
        (processed p m pindex (some tip) block fBLSChecks processor fJustCheck).1 = .ok () := by
  have hmk : ∀ params i, ∃ f, tipCommitment p pool tip params i = some f :=
    tipCommitment_exists hkept tip
  choose mk hmk using hmk
  have hnodup : ((getEnabledQuorumParams p tip).map LLMQParams.type).Nodup :=
    p.consensus.nodup.sublist (List.filter_sublist.map LLMQParams.type)
  have hfit : ∀ params ∈ getEnabledQuorumParams p tip, Fits params :=
    fun params hparams => hfits params (List.mem_of_mem_filter hparams)
  have hquorums : ∀ params ∈ getEnabledQuorumParams p tip,
      quorumsNum p params tip (tip.nHeight+1) ≤ keepOldKeys p params.type := by
    intro params hparams
    have hkeep : keepOldKeys p params.type = params.keepOldKeys := by
      rw [keepOldKeys, enabled_known hparams]
      rfl
    rw [hkeep, quorumsNum_tip]
    split_ifs
    · exact (hfit params hparams).active
    · exact (hfit params hparams).one
  have hcreate : Triple (Steady p (fun _ => []) mined) (createCommitments p pool tip)
      (fun block s => ∃ ks mined, Steady p ks mined s ∧
        (∀ params ∈ getEnabledQuorumParams p tip,
          ∀ hash ∈ candidates p params (some tip) (tip.nHeight+1), hash ∈ ks params.type) ∧
        (∀ t, (ks t).length ≤ keepOldKeys p t) ∧
        block = ⟨(tipCommitments p tip mined mk).map some⟩) fun _ => False := by
    unfold createCommitments
    refine (triple_commitmentTxs htip hne _ hnodup hquorums mk (fun params _ i => hmk params i)
      (fun _ => []) mined (fun _ _ => rfl) fun t => Nat.zero_le _).bind fun qcTx => ?_
    refine triple_pure fun s hs => ?_
    obtain ⟨ks, mined, hsteady, -, hcand, hlength, rfl⟩ := hs
    refine ⟨ks, mined, hsteady, hcand, hlength, ?_⟩
    unfold tipCommitments
    rw [List.map_flatMap]
    simp only [List.map_map]
    rfl
  rcases hrun : (createCommitments p pool tip).run.run s with ⟨result, processor⟩
  cases result with
  | error e => exact absurd (hcreate.error hsteady hrun) id
  | ok block =>
    obtain ⟨ks, mined', hsteady', hcand, hlength, rfl⟩ := hcreate.ok hsteady hrun
    refine ⟨_, processor, rfl, fun fJustCheck fBLSChecks => ?_⟩
    have hall : AllMinable p m tip mined' mk := fun params hparams i hi =>
      minable_of_needed hkept (enabled_known hparams) (hfit params hparams).small htip hne hi
        (hmk params i)
    have hnumbers : ∀ pprev, parent pindex = some pprev → ∀ params ∈ getEnabledQuorumParams p pprev,
        ∀ hash ∈ candidates p params (some tip) pindex.nHeight,
          hash ∈ ks params.type := by
      intro pprev hpprev params hparams hash hhash
      rw [hparent, Option.some.injEq] at hpprev
      subst hpprev
      rw [nHeight_of_parent hparent] at hhash
      exact hcand params hparams hash hhash
    have hblock : ∀ qc, some qc ∈ (tipCommitments p tip mined' mk).map some → qc.isNull = false →
        qc.quorumHash ∈ ks qc.llmqType := by
      intro qc hqc hnull
      obtain ⟨qc', hqc', heq⟩ := List.mem_map.mp hqc
      rw [Option.some.injEq] at heq
      subst heq
      obtain ⟨params, hparams, hqc'⟩ := List.mem_flatMap.mp hqc'
      obtain ⟨i, hi, rfl⟩ := List.mem_map.mp hqc'
      rw [(hall params hparams i hi).type, (hall params hparams i hi).hash]
      exact hcand params hparams _ (mem_candidates hne htip hi)
    obtain ⟨_, hok⟩ := ((decides_processBlock (settles_steady hlength) fJustCheck fBLSChecks
      hnumbers hblock).ok_iff hsteady').mpr (hall.acceptable htip hparent fJustCheck fBLSChecks)
    exact hok

/-! ### Caches of a node -/

/-- What neither the database nor its answers change. -/
structure Keeps (I : CQuorumBlockProcessor G₁ G₂ → Prop) : Prop where
  asks : Asks I
  evoDb : ∀ s evoDb, I s → I {s with evoDb := evoDb}
  eraseCached : ∀ s t hash, I s → I (s.eraseCached t hash)

variable {I : CQuorumBlockProcessor G₁ G₂ → Prop} {active_chain : CChain} {block : CBlock G₁ G₂}

theorem Keeps.processCommitment (hI : Keeps I) (fJustCheck : Bool)
    (qc : CFinalCommitment G₁ G₂) :
    Triple I (processCommitment p pindex m active_chain fJustCheck qc) (fun _ => I) I := by
  have hstop : ∀ s, I s → I s := fun _ hs => hs
  unfold BlockProcessor.processCommitment
  dsimp only
  cases p.consensus.getLLMQ qc.llmqType with
  | none => exact triple_throw hstop
  | some params =>
    refine triple_refuse_bind hstop fun _ => triple_refuse_bind hstop fun _ => ?_
    refine triple_ite (fun _ => ?_) fun _ => ?_
    · exact triple_ite (fun _ => triple_throw hstop) fun _ => triple_pure hstop
    · refine (hI.asks.triple _ _).bind fun mined => triple_refuse_bind hstop fun _ => ?_
      cases isMiningPhase p params active_chain pindex.nHeight with
      | none => exact triple_throw hstop
      | some miningPhase =>
        refine triple_refuse_bind hstop fun _ => ?_
        cases m.lookupBlockIndex qc.quorumHash with
        | none => exact triple_throw hstop
        | some base =>
          refine triple_refuse_bind hstop fun _ => triple_ite (fun _ => triple_pure hstop) ?_
          exact fun _ s hs => hI.eraseCached _ _ _ (hI.evoDb _ _ (hI.evoDb _ _ hs))

theorem Keeps.processBlock (hI : Keeps I) (fJustCheck fBLSChecks : Bool) :
    Triple I (processBlock p pindex m active_chain block fJustCheck fBLSChecks) (fun _ => I) I := by
  have hstop : ∀ s, I s → I s := fun _ hs => hs
  unfold BlockProcessor.processBlock
  refine triple_ite (fun _ => triple_modify fun s hs => hI.evoDb _ _ hs) fun _ => ?_
  cases getCommitmentsFromBlock p pindex block with
  | error e => exact triple_throw hstop
  | ok qcs =>
    cases parent pindex with
    | none => exact triple_throw hstop
    | some pprev =>
      refine (triple_checkNumbers hI.asks pprev).bind fun _ => ?_
      refine (triple_checkSignatures I fBLSChecks).bind fun _ => ?_
      refine (triple_forM (fun _ => I) [] fun _ qc _ => hI.processCommitment fJustCheck qc).bind
        fun _ => ?_
      exact triple_modify fun s hs => hI.evoDb _ _ hs

theorem Keeps.undoBlock (hI : Keeps I) :
    Triple I (undoBlock p pindex block) (fun _ => I) I := by
  have hstop : ∀ s, I s → I s := fun _ hs => hs
  unfold BlockProcessor.undoBlock
  cases getCommitmentsFromBlock p pindex block with
  | error e => exact triple_throw hstop
  | ok qcs =>
    cases parent pindex with
    | none => exact triple_throw hstop
    | some pprev =>
      have hone : ∀ qc, Triple I (undoCommitment p pindex qc) (fun _ => I) I := by
        intro qc
        unfold undoCommitment
        refine triple_ite (fun _ => triple_pure hstop) fun _ => ?_
        cases p.consensus.getLLMQ qc.llmqType with
        | none => exact fun s hs => hI.evoDb _ _ hs
        | some params =>
          exact fun s hs => hI.eraseCached _ _ _ (hI.evoDb _ _ (hI.evoDb _ _ hs))
      refine (triple_forM (fun _ => I) [] fun _ qc _ => hone qc).bind fun _ => ?_
      exact triple_modify fun s hs => hI.evoDb _ _ hs

/-- One call. -/
theorem Keeps.step (hI : Keeps I) {s : Node G₁ G₂} (h : I s.processor) (genesis : uint256)
    (call : Call G₁ G₂) : I (BlockProcessor.step p m genesis s call).2.processor := by
  unfold BlockProcessor.step
  cases call with
  | connect b active_chain fJustCheck fBLSChecks =>
    dsimp only
    split_ifs
    · unfold Node.connect
      rcases hrun : (BlockProcessor.processBlock p b.pindex m active_chain b.block fJustCheck
        fBLSChecks).run.run s.processor with ⟨result, processor⟩
      cases result with
      | ok a => exact (hI.processBlock fJustCheck fBLSChecks).ok h hrun
      | error e => exact (hI.processBlock fJustCheck fBLSChecks).error h hrun
    · exact h
  | disconnect =>
    dsimp only
    split_ifs
    · unfold Node.disconnect
      cases s.chain with
      | nil => exact h
      | cons b chain =>
        dsimp only
        rcases hrun : (BlockProcessor.undoBlock p b.pindex b.block).run.run s.processor with
          ⟨result, processor⟩
        cases result with
        | ok a => exact hI.undoBlock.ok h hrun
        | error e => exact hI.undoBlock.error h hrun
    · exact h
  | commit =>
    dsimp only
    split_ifs
    · exact hI.evoDb _ _ h
    · exact h
  | rollback => exact hI.evoDb _ _ h
  | commitRoot =>
    dsimp only
    cases s.processor.evoDb.commitRootTransaction with
    | none => exact h
    | some evoDb => exact hI.evoDb _ _ h
  | query t hash => exact hI.asks _ t hash h

/-- The caches are of the size of their types and in order. -/
def CachesInOrder (p : ChainParams G₁ G₂) (s : CQuorumBlockProcessor G₁ G₂) : Prop :=
  ∀ t, Stamped (s.mapHasMinedCommitmentCache t) ∧
    (s.mapHasMinedCommitmentCache t).maxSize = keepOldKeys p t

theorem cachesInOrder_setCache {s : CQuorumBlockProcessor G₁ G₂} (h : CachesInOrder p s)
    {t : LLMQType} {cache : LruCache.Cache uint256 Bool} (hstamped : Stamped cache)
    (hsize : cache.maxSize = keepOldKeys p t) : CachesInOrder p (s.setCache t cache) := by
  intro t'
  by_cases ht : t' = t
  · subst ht
    rw [CQuorumBlockProcessor.setCache_self]
    exact ⟨hstamped, hsize⟩
  · rw [CQuorumBlockProcessor.setCache_of_ne ht]
    exact h t'

theorem keeps_cachesInOrder (p : ChainParams G₁ G₂) : Keeps (CachesInOrder p) where
  asks s t hash h := by
    obtain ⟨hstamped, hsize⟩ := (h t).1.asked (existsMined s t) hash
    rw [hasMined_eq_ask]
    exact cachesInOrder_setCache h hstamped (hsize.trans (h t).2)
  evoDb _ _ h := h
  eraseCached s t hash h := cachesInOrder_setCache h ((h t).1.erase hash) (h t).2

theorem cachesInOrder_start : CachesInOrder p (start p).processor :=
  fun _ => ⟨stamped_create _, rfl⟩

theorem CachesInOrder.steady {s : CQuorumBlockProcessor G₁ G₂} (h : CachesInOrder p s)
    (mined : Mined) : Steady p (fun _ => []) mined s where
  stamped t := (h t).1
  maxSize t := (h t).2
  usedLast _ := usedLast_nil _
  answers _ _ hmem := absurd hmem List.not_mem_nil

/-! ### Agreement -/

/-- The types of quorums that a network is put together from. -/
def available_llmqs : List LLMQParams :=
  [⟨100, false, 24, 2, 4⟩, ⟨104, false, 24, 2, 4⟩, ⟨102, false, 24, 2, 4⟩, ⟨103, true, 24, 2, 4⟩,
    ⟨106, false, 24, 2, 24*30*2⟩, ⟨101, false, 24, 4, 8⟩, ⟨105, true, 48, 2, 4⟩,
    ⟨107, false, 24, 4, 24*30*2⟩, ⟨1, false, 24, 24, 48⟩, ⟨5, true, 24*12, 32, 64⟩,
    ⟨2, false, 24*12, 4, 8⟩, ⟨3, false, 24*24, 4, 8⟩, ⟨4, false, 24, 24, 24*30*2⟩,
    ⟨6, false, 24, 24, 24*30*2⟩]

theorem fits_available : ∀ params ∈ available_llmqs, Fits params := by
  have hall : ∀ params ∈ available_llmqs, 1 ≤ params.keepOldKeys ∧
      params.signingActiveQuorumCount ≤ params.keepOldKeys ∧
      params.signingActiveQuorumCount ≤ 2^15 := by decide
  intro params hparams
  obtain ⟨hone, hactive, hsmall⟩ := hall params hparams
  exact ⟨hone, hactive, hsmall⟩

/-- Four members, whose signatures verify. -/
def rotatedSigning : Signing Unit Unit where
  members _ _ := [some (), some (), some (), some ()]
  commitmentHash _ _ _ _ _ := 0
  verify _ _ _ := true
  verifySecure _ _ _ := true

theorem valid_rotatedCommitment : Valid rotatedSigning rotatedParams rotatedBlocks
    rotatedCommitment where
  notNull := by decide +kernel
  base := ⟨testIndex 120, by decide +kernel, by decide +kernel⟩

end BabaChain.LLMQ.BlockProcessor
