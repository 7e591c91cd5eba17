import BabaChain.CommitmentSignatures

/-! The commitments that can be mined: one is kept for each quorum, by its hash. -/
namespace BabaChain.LLMQ.BlockProcessor
open OrdMap
open Std (ExtTreeMap TransOrd LawfulEqOrd TransCmp LawfulEqCmp)

structure QuorumKey where
  llmqType : LLMQType
  quorumHash : uint256
deriving DecidableEq, Repr

instance : Ord QuorumKey :=
  ⟨compareLex (compareOn QuorumKey.llmqType) (compareOn QuorumKey.quorumHash)⟩

instance : TransOrd QuorumKey :=
  inferInstanceAs (TransCmp (compareLex (compareOn QuorumKey.llmqType)
    (compareOn QuorumKey.quorumHash)))

instance : LawfulEqOrd QuorumKey where
  eq_of_compare {a b} h := by
    obtain ⟨atype, ahash⟩ := a
    obtain ⟨btype, bhash⟩ := b
    obtain ⟨ht, hh⟩ := compareLex_eq_eq.mp h
    rw [QuorumKey.mk.injEq]
    exact ⟨LawfulEqOrd.eq_of_compare ht, LawfulEqOrd.eq_of_compare hh⟩

variable {G₁ G₂ : Type}

def quorumKey (qc : CFinalCommitment G₁ G₂) : QuorumKey := ⟨qc.llmqType, qc.quorumHash⟩

def countSigners (qc : CFinalCommitment G₁ G₂) : ℕ := qc.signers.count true

structure Mineable (G₁ G₂ : Type) where
  minableCommitmentsByQuorum : ExtTreeMap QuorumKey uint256 := ∅
  minableCommitments : ExtTreeMap uint256 (CFinalCommitment G₁ G₂) := ∅

namespace Mineable

variable (serializeHash : CFinalCommitment G₁ G₂ → uint256) (pool : Mineable G₁ G₂)

/-- What is relayed, and what is kept. `none` where `minableCommitments.at` throws. -/
def addMineableCommitment (fqc : CFinalCommitment G₁ G₂) :
    Option (Option uint256 × Mineable G₁ G₂) :=
  let commitmentHash := serializeHash fqc
  match pool.minableCommitmentsByQuorum[quorumKey fqc]? with
  | none =>
    some (some commitmentHash,
      { minableCommitmentsByQuorum :=
          pool.minableCommitmentsByQuorum.insert (quorumKey fqc) commitmentHash
        minableCommitments := pool.minableCommitments.insertIfNew commitmentHash fqc })
  | some insertedQuorumHash =>
    match pool.minableCommitments[insertedQuorumHash]? with
    | none => none
    | some oldFqc =>
      if countSigners oldFqc < countSigners fqc then
        -- the reference to the old hash is overwritten before it is erased
        some (some commitmentHash,
          { minableCommitmentsByQuorum :=
              pool.minableCommitmentsByQuorum.insert (quorumKey fqc) commitmentHash
            minableCommitments :=
              (pool.minableCommitments.erase commitmentHash).insertIfNew commitmentHash fqc })
      else
        some (none, pool)

/-- What `ProcessCommitment` drops once a commitment is mined. -/
def removeMined (qc : CFinalCommitment G₁ G₂) : Mineable G₁ G₂ where
  minableCommitmentsByQuorum := pool.minableCommitmentsByQuorum.erase (quorumKey qc)
  minableCommitments := pool.minableCommitments.erase (serializeHash qc)

def hasMineableCommitment (hash : uint256) : Bool := (pool.minableCommitments[hash]?).isSome

def getMineableCommitmentByHash (commitmentHash : uint256) : Option (CFinalCommitment G₁ G₂) :=
  pool.minableCommitments[commitmentHash]?

/-- Whether a commitment that was received is dropped for the one that is kept. -/
def isKnown (qc : CFinalCommitment G₁ G₂) : Bool :=
  match pool.minableCommitmentsByQuorum[quorumKey qc]? with
  | none => false
  | some hash =>
    match pool.minableCommitments[hash]? with
    | none => false
    | some kept => decide (countSigners kept ≤ countSigners qc)

end Mineable

/-! ### Messages -/

structure MessageProcessingResult where
  m_to_erase : uint256
  m_error : Option ℕ := none
  m_inventory : Option uint256 := none

/-- The node that a message reaches. -/
structure Receiver (G₁ G₂ : Type) where
  blockman : BlockManager
  tip : CBlockIndex
  processor : CQuorumBlockProcessor G₁ G₂

variable (c : Signing G₁ G₂) (p : ChainParams G₁ G₂)
  (serializeHash : CFinalCommitment G₁ G₂ → uint256) (node : Receiver G₁ G₂)
  (qc : CFinalCommitment G₁ G₂)

/-- The checks before the commitments that are kept are looked at: the quorum's first block, or
what is answered. -/
def checkMessage : Except (Option ℕ) CBlockIndex × CQuorumBlockProcessor G₁ G₂ :=
  if qc.isNull = true then
    (.error (some 100), node.processor)
  else
    match p.consensus.getLLMQ qc.llmqType, node.blockman.lookupBlockIndex qc.quorumHash with
    | none, _ => (.error (some 100), node.processor)
    | some _, none => (.error none, node.processor)
    | some llmq_params, some pQuorumBaseBlockIndex =>
      let nHeight := pQuorumBaseBlockIndex.nHeight
      if node.tip.getAncestor nHeight ≠ some pQuorumBaseBlockIndex then
        (.error none, node.processor)
      else if (nHeight : ℤ)-(nHeight%llmq_params.dkgInterval : ℕ)+qc.quorumIndex ≠ nHeight then
        (.error (some 100), node.processor)
      else if (nHeight : ℤ) < node.tip.nHeight-llmq_params.dkgInterval then
        (.error none, node.processor)
      else
        match node.processor.hasMinedCommitment qc.llmqType qc.quorumHash with
        | (true, processor) => (.error none, processor)
        | (false, processor) => (.ok pQuorumBaseBlockIndex, processor)

/-- `Verify` with the signatures, which are checked at once. -/
def verifyMessage (pQuorumBaseBlockIndex : CBlockIndex) : Bool :=
  let (verified, checks) := c.verifySignatureAsync p qc pQuorumBaseBlockIndex
  Commitment.verify (c.withSigning p) qc pQuorumBaseBlockIndex && verified && checks.all c.runCheck

/-- `none` where `minableCommitments.at` throws. -/
def processMessage (pool : Mineable G₁ G₂) :
    Option (MessageProcessingResult × CQuorumBlockProcessor G₁ G₂ × Mineable G₁ G₂) :=
  let ret : MessageProcessingResult := {m_to_erase := serializeHash qc}
  match checkMessage p node qc with
  | (.error m_error, processor) => some ({ret with m_error := m_error}, processor, pool)
  | (.ok pQuorumBaseBlockIndex, processor) =>
    if pool.isKnown qc then
      some (ret, processor, pool)
    else if verifyMessage c p qc pQuorumBaseBlockIndex = false then
      some ({ret with m_error := some 100}, processor, pool)
    else
      match pool.addMineableCommitment serializeHash qc with
      | none => none
      | some (inv, pool) => some ({ret with m_inventory := inv}, processor, pool)

/-! ### Runs -/

/-- What is kept, what was added for each quorum since the last removal, and whether a message with
more signers than the kept commitment was dropped as known. -/
structure Pool (G₁ G₂ : Type) where
  mineable : Mineable G₁ G₂ := {}
  added : QuorumKey → List (CFinalCommitment G₁ G₂) := fun _ => []
  rejected : Bool := false

inductive PoolCall (G₁ G₂ : Type)
  | message (node : Receiver G₁ G₂) (qc : CFinalCommitment G₁ G₂)
  | add (fqc : CFinalCommitment G₁ G₂)
  | mined (qc : CFinalCommitment G₁ G₂)

/-- A commitment that is kept for the same quorum has fewer signers. -/
def Mineable.betterThanKept (pool : Mineable G₁ G₂) (qc : CFinalCommitment G₁ G₂) : Bool :=
  ((pool.minableCommitmentsByQuorum[quorumKey qc]?).bind fun hash =>
    pool.minableCommitments[hash]?).any fun kept => countSigners kept < countSigners qc

def Pool.add (s : Pool G₁ G₂) (fqc : CFinalCommitment G₁ G₂) : Pool G₁ G₂ :=
  match s.mineable.addMineableCommitment serializeHash fqc with
  | none => s
  | some (_, mineable) =>
    {s with
      mineable := mineable
      added := Function.update s.added (quorumKey fqc) (fqc :: s.added (quorumKey fqc))}

def Pool.removeMined (s : Pool G₁ G₂) (qc : CFinalCommitment G₁ G₂) : Pool G₁ G₂ :=
  {s with
    mineable := s.mineable.removeMined serializeHash qc
    added := Function.update s.added (quorumKey qc) []}

def Pool.receive (s : Pool G₁ G₂) : Pool G₁ G₂ :=
  match (checkMessage p node qc).1 with
  | .error _ => s
  | .ok pQuorumBaseBlockIndex =>
    if s.mineable.isKnown qc then
      {s with rejected := s.rejected || s.mineable.betterThanKept qc}
    else if verifyMessage c p qc pQuorumBaseBlockIndex = false then
      s
    else
      s.add serializeHash qc

def poolStep (s : Pool G₁ G₂) (call : PoolCall G₁ G₂) : Unit × Pool G₁ G₂ :=
  ((), match call with
  | .message node qc => s.receive c p serializeHash node qc
  | .add fqc => s.add serializeHash fqc
  | .mined qc => s.removeMined serializeHash qc)

/-- The run keeps what `ProcessMessage` keeps. -/
theorem receive_mineable (s : Pool G₁ G₂) :
    (s.receive c p serializeHash node qc).mineable =
      ((processMessage c p serializeHash node qc s.mineable).map fun r => r.2.2).getD
        s.mineable := by
  unfold Pool.receive processMessage
  rcases hcheck : checkMessage p node qc with ⟨result, processor⟩
  cases result with
  | error e => rfl
  | ok base =>
    dsimp only
    split_ifs
    · rfl
    · rfl
    · unfold Pool.add
      cases s.mineable.addMineableCommitment serializeHash qc with
      | none => rfl
      | some r => rfl

/-- The two maps are in bijection, what is kept for a quorum has the most signers of what was added
for it, and no better commitment was dropped as known. -/
structure Consistent (s : Pool G₁ G₂) : Prop where
  named : ∀ (k : QuorumKey) h, s.mineable.minableCommitmentsByQuorum[k]? = some h →
    ∃ qc, s.mineable.minableCommitments[h]? = some qc ∧ quorumKey qc = k
  owned : ∀ (h : uint256) qc, s.mineable.minableCommitments[h]? = some qc →
    s.mineable.minableCommitmentsByQuorum[quorumKey qc]? = some h
  largest : ∀ (h : uint256) qc, s.mineable.minableCommitments[h]? = some qc →
    qc ∈ s.added (quorumKey qc) ∧
      ∀ qc' ∈ s.added (quorumKey qc), countSigners qc' ≤ countSigners qc
  kept : ∀ k, s.added k ≠ [] → (s.mineable.minableCommitmentsByQuorum[k]?).isSome = true
  accepted : s.rejected = false

/-- A commitment is added under a hash that is not there, unless one is kept for its quorum. Then
it has no more signers, or the same hash. -/
def AddsInPlace (pool : Mineable G₁ G₂) (fqc : CFinalCommitment G₁ G₂) : Prop :=
  (pool.minableCommitmentsByQuorum[quorumKey fqc]? = none →
    pool.minableCommitments[serializeHash fqc]? = none) ∧
    (pool.betterThanKept fqc = true →
      pool.minableCommitmentsByQuorum[quorumKey fqc]? = some (serializeHash fqc))

/-- What was mined for a quorum is what is kept for it, or nothing is. -/
def MinesKept (pool : Mineable G₁ G₂) (qc : CFinalCommitment G₁ G₂) : Prop :=
  pool.minableCommitmentsByQuorum[quorumKey qc]? = some (serializeHash qc) ∨
    pool.minableCommitmentsByQuorum[quorumKey qc]? = none ∧
      pool.minableCommitments[serializeHash qc]? = none

/-- The calls that leave the maps consistent. -/
def InPlace (s : Pool G₁ G₂) (call : PoolCall G₁ G₂) : Prop :=
  match call with
  | .message node qc => ∀ base, (checkMessage p node qc).1 = .ok base →
    s.mineable.betterThanKept qc = false ∧
      (verifyMessage c p qc base = true → AddsInPlace serializeHash s.mineable qc)
  | .add fqc => AddsInPlace serializeHash s.mineable fqc
  | .mined qc => MinesKept serializeHash s.mineable qc

variable {c p serializeHash node qc} {s : Pool G₁ G₂} {fqc : CFinalCommitment G₁ G₂}

theorem Consistent.key_inj (h : Consistent s) {k k' : QuorumKey} {hash : uint256}
    (hk : s.mineable.minableCommitmentsByQuorum[k]? = some hash)
    (hk' : s.mineable.minableCommitmentsByQuorum[k']? = some hash) : k = k' := by
  obtain ⟨qc, hqc, rfl⟩ := h.named k hash hk
  obtain ⟨qc', hqc', rfl⟩ := h.named k' hash hk'
  rw [hqc, Option.some.injEq] at hqc'
  rw [hqc']

theorem betterThanKept_of_kept {pool : Mineable G₁ G₂} {hash : uint256}
    {kept : CFinalCommitment G₁ G₂}
    (hk : pool.minableCommitmentsByQuorum[quorumKey fqc]? = some hash)
    (hkept : pool.minableCommitments[hash]? = some kept) :
    pool.betterThanKept fqc = decide (countSigners kept < countSigners fqc) := by
  rw [Mineable.betterThanKept, hk, Option.bind_some, hkept, Option.any_some]

/-- A hash that its quorum may take. -/
def Free (pool : Mineable G₁ G₂) (k : QuorumKey) (hash : uint256) : Prop :=
  pool.minableCommitmentsByQuorum[k]? = some hash ∨
    pool.minableCommitmentsByQuorum[k]? = none ∧ pool.minableCommitments[hash]? = none

/-- No other quorum has the hash, and its quorum no other hash. -/
theorem Consistent.eq_of_free (h : Consistent s) {k k' : QuorumKey} {hash hash' : uint256}
    (hfree : Free s.mineable k hash)
    (hk' : s.mineable.minableCommitmentsByQuorum[k']? = some hash') :
    k' = k ↔ hash' = hash := by
  constructor
  · rintro rfl
    rcases hfree with hk | ⟨hnone, -⟩
    · rw [hk, Option.some.injEq] at hk'
      exact hk'.symm
    · rw [hnone] at hk'
      contradiction
  · rintro rfl
    rcases hfree with hk | ⟨-, hnone⟩
    · exact h.key_inj hk' hk
    · obtain ⟨qc, hqc, -⟩ := h.named k' hash' hk'
      rw [hnone] at hqc
      contradiction

/-- The best commitment of its quorum is kept under a hash that its quorum may take. -/
theorem Consistent.keep (h : Consistent s) {mineable : Mineable G₁ G₂} {hash : uint256}
    (hquorums : ∀ k, mineable.minableCommitmentsByQuorum[k]? =
      if k = quorumKey fqc then some hash else s.mineable.minableCommitmentsByQuorum[k]?)
    (hcommitments : ∀ a, mineable.minableCommitments[a]? =
      if a = hash then some fqc else s.mineable.minableCommitments[a]?)
    (hfree : Free s.mineable (quorumKey fqc) hash)
    (hbest : ∀ qc ∈ s.added (quorumKey fqc), countSigners qc ≤ countSigners fqc) :
    Consistent {s with
      mineable := mineable
      added := Function.update s.added (quorumKey fqc) (fqc :: s.added (quorumKey fqc))} where
  named k hash' hk := by
    rw [hquorums] at hk
    split_ifs at hk with hsame
    · rw [Option.some.injEq] at hk
      exact ⟨fqc, by rw [hcommitments, if_pos hk.symm], hsame.symm⟩
    · obtain ⟨qc, hqc, hkey⟩ := h.named k hash' hk
      have hne : hash' ≠ hash := fun heq => hsame ((h.eq_of_free hfree hk).mpr heq)
      exact ⟨qc, by rw [hcommitments, if_neg hne, hqc], hkey⟩
  owned hash' qc hqc := by
    rw [hcommitments] at hqc
    split_ifs at hqc with hsame
    · rw [Option.some.injEq] at hqc
      rw [hquorums, hqc, if_pos rfl, hsame]
    · have howned := h.owned hash' qc hqc
      have hne : quorumKey qc ≠ quorumKey fqc := fun heq =>
        hsame ((h.eq_of_free hfree howned).mp heq)
      rw [hquorums, if_neg hne, howned]
  largest hash' qc hqc := by
    rw [hcommitments] at hqc
    split_ifs at hqc with hsame
    · rw [Option.some.injEq] at hqc
      subst hqc
      dsimp only
      rw [Function.update_self, List.forall_mem_cons]
      exact ⟨List.mem_cons_self, le_rfl, hbest⟩
    · have hne : quorumKey qc ≠ quorumKey fqc := fun heq =>
        hsame ((h.eq_of_free hfree (h.owned hash' qc hqc)).mp heq)
      dsimp only
      rw [Function.update_of_ne hne]
      exact h.largest hash' qc hqc
  kept k hne := by
    dsimp only at hne ⊢
    rw [hquorums]
    split_ifs with hsame
    · rfl
    · rw [Function.update_of_ne hsame] at hne
      exact h.kept k hne
  accepted := h.accepted

/-- A commitment that is not better than the kept one changes nothing. -/
theorem Consistent.skip (h : Consistent s) {hash : uint256} {kept : CFinalCommitment G₁ G₂}
    (hk : s.mineable.minableCommitmentsByQuorum[quorumKey fqc]? = some hash)
    (hkept : s.mineable.minableCommitments[hash]? = some kept)
    (hless : countSigners fqc ≤ countSigners kept) :
    Consistent {s with
      added := Function.update s.added (quorumKey fqc) (fqc :: s.added (quorumKey fqc))} where
  named := h.named
  owned := h.owned
  largest hash' qc hqc := by
    dsimp only at hqc ⊢
    by_cases hkey : quorumKey qc = quorumKey fqc
    · have howned := h.owned hash' qc hqc
      rw [hkey, hk, Option.some.injEq] at howned
      subst howned
      rw [hkept, Option.some.injEq] at hqc
      subst hqc
      obtain ⟨hmem, hall⟩ := h.largest hash kept hkept
      rw [hkey] at hmem hall ⊢
      rw [Function.update_self, List.forall_mem_cons]
      exact ⟨List.mem_cons_of_mem _ hmem, hless, hall⟩
    · rw [Function.update_of_ne hkey]
      exact h.largest hash' qc hqc
  kept k hne := by
    dsimp only at hne ⊢
    by_cases hkey : k = quorumKey fqc
    · rw [hkey]
      exact Option.isSome_of_eq_some hk
    · rw [Function.update_of_ne hkey] at hne
      exact h.kept k hne
  accepted := h.accepted

theorem getElem?_insertIfNew {m : ExtTreeMap uint256 (CFinalCommitment G₁ G₂)} {hash : uint256}
    (hnone : m[hash]? = none) (a : uint256) :
    (m.insertIfNew hash fqc)[a]? = if a = hash then some fqc else m[a]? := by
  rw [ExtTreeMap.getElem?_insertIfNew]
  simp only [LawfulEqCmp.compare_eq_iff_eq, notMem_iff]
  by_cases ha : a = hash
  · subst ha
    rw [if_pos ⟨rfl, hnone⟩, if_pos rfl]
  · rw [if_neg fun hboth => ha hboth.1.symm, if_neg ha]

/-- Adding in place keeps the maps consistent. -/
theorem Consistent.add (h : Consistent s) (hplace : AddsInPlace serializeHash s.mineable fqc) :
    Consistent (s.add serializeHash fqc) := by
  have hquorums : ∀ k, (s.mineable.minableCommitmentsByQuorum.insert (quorumKey fqc)
      (serializeHash fqc))[k]? = if k = quorumKey fqc then some (serializeHash fqc)
        else s.mineable.minableCommitmentsByQuorum[k]? := by
    intro k
    rw [getElem?_insert]
    simp only [eq_comm]
  unfold Pool.add Mineable.addMineableCommitment
  dsimp only
  cases hk : s.mineable.minableCommitmentsByQuorum[quorumKey fqc]? with
  | none =>
    have hnew := hplace.1 hk
    have hempty : s.added (quorumKey fqc) = [] := by
      by_contra hne
      have hsome := h.kept _ hne
      rw [hk] at hsome
      contradiction
    refine h.keep hquorums (getElem?_insertIfNew hnew) (Or.inr ⟨hk, hnew⟩) fun qc hqc => ?_
    rw [hempty] at hqc
    exact absurd hqc List.not_mem_nil
  | some hash =>
    obtain ⟨kept, hkept, hkey⟩ := h.named _ hash hk
    dsimp only
    rw [hkept]
    dsimp only
    by_cases hbetter : countSigners kept < countSigners fqc
    · rw [if_pos hbetter]
      have hsame := hplace.2 (by rw [betterThanKept_of_kept hk hkept, decide_eq_true hbetter])
      have herase : (s.mineable.minableCommitments.erase (serializeHash fqc))[serializeHash fqc]? =
          none := by
        rw [getElem?_erase, if_pos rfl]
      refine h.keep hquorums (fun a => ?_) (Or.inl hsame) fun qc hqc => ?_
      · rw [getElem?_insertIfNew herase, getElem?_erase]
        split_ifs with ha ha'
        · rfl
        · exact absurd ha'.symm ha
        · rfl
      · rw [← hkey] at hqc
        exact ((h.largest hash kept hkept).2 qc hqc).trans hbetter.le
    · rw [if_neg hbetter]
      exact h.skip hk hkept (not_lt.mp hbetter)

/-- Any other commitment breaks them. -/
theorem Consistent.not_add (h : Consistent s)
    (hplace : ¬AddsInPlace serializeHash s.mineable fqc) :
    ¬Consistent (s.add serializeHash fqc) := by
  have hquorum : (s.mineable.minableCommitmentsByQuorum.insert (quorumKey fqc)
      (serializeHash fqc))[quorumKey fqc]? = some (serializeHash fqc) := by
    rw [getElem?_insert, if_pos rfl]
  unfold Pool.add Mineable.addMineableCommitment
  dsimp only
  intro hafter
  cases hk : s.mineable.minableCommitmentsByQuorum[quorumKey fqc]? with
  | none =>
    -- the hash names a commitment of another quorum
    rw [hk] at hafter
    obtain ⟨qc, hqc⟩ : ∃ qc, s.mineable.minableCommitments[serializeHash fqc]? = some qc := by
      by_contra hnone
      refine hplace ⟨fun _ => ?_, fun hbetter => ?_⟩
      · rw [← Option.not_isSome_iff_eq_none, Option.isSome_iff_exists]
        exact hnone
      · rw [Mineable.betterThanKept, hk] at hbetter
        contradiction
    obtain ⟨qc', hqc', hkey⟩ := hafter.named (quorumKey fqc) (serializeHash fqc) hquorum
    dsimp only at hqc'
    rw [ExtTreeMap.getElem?_insertIfNew, hqc] at hqc'
    have hmem : serializeHash fqc ∈ s.mineable.minableCommitments := mem_iff_exists.mpr ⟨qc, hqc⟩
    rw [if_neg fun hboth => hboth.2 hmem, Option.some.injEq] at hqc'
    have howned := h.owned _ _ hqc
    rw [hqc', hkey, hk] at howned
    contradiction
  | some hash =>
    -- the commitment that was kept is left without a reference
    obtain ⟨kept, hkept, hkey⟩ := h.named _ hash hk
    rw [hk] at hafter
    dsimp only at hafter
    rw [hkept] at hafter
    dsimp only at hafter
    have hbetter : countSigners kept < countSigners fqc ∧ serializeHash fqc ≠ hash := by
      by_contra hnot
      refine hplace ⟨fun hnone => ?_, fun hbetter => ?_⟩
      · rw [hk] at hnone
        contradiction
      · rw [betterThanKept_of_kept hk hkept, decide_eq_true_iff] at hbetter
        rw [not_and, not_not] at hnot
        rw [hk, hnot hbetter]
    rw [if_pos hbetter.1] at hafter
    have hleft : ((s.mineable.minableCommitments.erase (serializeHash fqc)).insertIfNew
        (serializeHash fqc) fqc)[hash]? = some kept := by
      rw [getElem?_insertIfNew (by rw [getElem?_erase, if_pos rfl]), if_neg hbetter.2.symm,
        getElem?_erase, if_neg hbetter.2, hkept]
    have howned := hafter.owned hash kept hleft
    dsimp only at howned
    rw [hkey, hquorum, Option.some.injEq] at howned
    exact hbetter.2 howned

/-- What is kept for a quorum is dropped with it. -/
theorem Consistent.removeMined (h : Consistent s)
    (hkept : MinesKept serializeHash s.mineable qc) :
    Consistent (s.removeMined serializeHash qc) where
  named k hash hk := by
    dsimp only [Pool.removeMined, Mineable.removeMined] at hk ⊢
    rw [getElem?_erase] at hk
    split_ifs at hk with hsame
    obtain ⟨qc', hqc', hkey⟩ := h.named k hash hk
    have hne : serializeHash qc ≠ hash := fun heq =>
      hsame ((h.eq_of_free hkept hk).mpr heq.symm).symm
    exact ⟨qc', by rw [getElem?_erase, if_neg hne, hqc'], hkey⟩
  owned hash qc' hqc' := by
    dsimp only [Pool.removeMined, Mineable.removeMined] at hqc' ⊢
    rw [getElem?_erase] at hqc'
    split_ifs at hqc' with hsame
    have howned := h.owned hash qc' hqc'
    have hne : quorumKey qc ≠ quorumKey qc' := fun heq =>
      hsame ((h.eq_of_free hkept howned).mp heq.symm).symm
    rw [getElem?_erase, if_neg hne, howned]
  largest hash qc' hqc' := by
    dsimp only [Pool.removeMined, Mineable.removeMined] at hqc' ⊢
    rw [getElem?_erase] at hqc'
    split_ifs at hqc' with hsame
    have hne : quorumKey qc' ≠ quorumKey qc := fun heq =>
      hsame ((h.eq_of_free hkept (h.owned hash qc' hqc')).mp heq).symm
    rw [Function.update_of_ne hne]
    exact h.largest hash qc' hqc'
  kept k hne := by
    dsimp only [Pool.removeMined, Mineable.removeMined] at hne ⊢
    by_cases hsame : k = quorumKey qc
    · rw [hsame, Function.update_self] at hne
      exact absurd rfl hne
    · rw [Function.update_of_ne hsame] at hne
      rw [getElem?_erase, if_neg (Ne.symm hsame)]
      exact h.kept k hne
  accepted := h.accepted

theorem Consistent.not_removeMined (h : Consistent s)
    (hkept : ¬MinesKept serializeHash s.mineable qc) :
    ¬Consistent (s.removeMined serializeHash qc) := by
  intro hafter
  cases hk : s.mineable.minableCommitmentsByQuorum[quorumKey qc]? with
  | none =>
    -- the hash is that of a commitment of another quorum, which stays named
    obtain ⟨qc', hqc'⟩ : ∃ qc', s.mineable.minableCommitments[serializeHash qc]? = some qc' := by
      by_contra hnone
      refine hkept (Or.inr ⟨hk, ?_⟩)
      rw [← Option.not_isSome_iff_eq_none, Option.isSome_iff_exists]
      exact hnone
    have howned := h.owned _ _ hqc'
    have hne : quorumKey qc ≠ quorumKey qc' := by
      intro heq
      rw [← heq, hk] at howned
      contradiction
    obtain ⟨qc'', hqc'', -⟩ := hafter.named (quorumKey qc') (serializeHash qc) (by
      dsimp only [Pool.removeMined, Mineable.removeMined]
      rw [getElem?_erase, if_neg hne, howned])
    dsimp only [Pool.removeMined, Mineable.removeMined] at hqc''
    rw [getElem?_erase, if_pos rfl] at hqc''
    contradiction
  | some hash =>
    -- what was kept under another hash is left without a reference
    obtain ⟨kept, hkept', hkey⟩ := h.named _ hash hk
    have hne : serializeHash qc ≠ hash := by
      rintro rfl
      exact hkept (Or.inl hk)
    have howned := hafter.owned hash kept (by
      dsimp only [Pool.removeMined, Mineable.removeMined]
      rw [getElem?_erase, if_neg hne, hkept'])
    dsimp only [Pool.removeMined, Mineable.removeMined] at howned
    rw [hkey, getElem?_erase, if_pos rfl] at howned
    contradiction

/-- What is dropped as known is at least as good as what is kept. -/
theorem isKnown_of_better {pool : Mineable G₁ G₂} (hbetter : pool.betterThanKept qc = true) :
    pool.isKnown qc = true := by
  unfold Mineable.betterThanKept at hbetter
  unfold Mineable.isKnown
  cases hk : pool.minableCommitmentsByQuorum[quorumKey qc]? with
  | none =>
    rw [hk] at hbetter
    contradiction
  | some hash =>
    rw [hk, Option.bind_some] at hbetter
    dsimp only
    cases hkept : pool.minableCommitments[hash]? with
    | none =>
      rw [hkept] at hbetter
      contradiction
    | some kept =>
      rw [hkept, Option.any_some, decide_eq_true_iff] at hbetter
      exact decide_eq_true hbetter.le

theorem Consistent.receive (h : Consistent s)
    (hplace : InPlace c p serializeHash s (.message node qc)) :
    Consistent (s.receive c p serializeHash node qc) := by
  unfold Pool.receive
  cases hcheck : (checkMessage p node qc).1 with
  | error e => exact h
  | ok base =>
    obtain ⟨hbetter, hadd⟩ := hplace base hcheck
    dsimp only
    split_ifs with hknown hverify
    · rw [hbetter, Bool.or_false]
      exact h
    · exact h
    · rw [Bool.not_eq_false] at hverify
      exact h.add (hadd hverify)

theorem Consistent.not_receive (h : Consistent s)
    (hplace : ¬InPlace c p serializeHash s (.message node qc)) :
    ¬Consistent (s.receive c p serializeHash node qc) := by
  unfold InPlace at hplace
  push Not at hplace
  obtain ⟨base, hcheck, hbad⟩ := hplace
  unfold Pool.receive
  rw [hcheck]
  dsimp only
  intro hafter
  by_cases hbetter : s.mineable.betterThanKept qc = true
  · rw [if_pos (isKnown_of_better hbetter), hbetter, Bool.or_true] at hafter
    exact Bool.false_ne_true hafter.accepted.symm
  · rw [Bool.not_eq_true] at hbetter
    obtain ⟨hverify, hadd⟩ := hbad hbetter
    -- nothing is kept for the quorum, so the commitment is added
    have hk : s.mineable.minableCommitmentsByQuorum[quorumKey qc]? = none := by
      by_contra hsome
      refine hadd ⟨fun hnone => absurd hnone hsome, fun hnot => ?_⟩
      rw [hbetter] at hnot
      contradiction
    have hknown : ¬s.mineable.isKnown qc = true := by
      rw [Mineable.isKnown, hk]
      exact Bool.false_ne_true
    rw [if_neg hknown, if_neg (by rw [hverify]; exact Bool.false_ne_true.symm)] at hafter
    exact h.not_add hadd hafter

theorem consistent_start : Consistent ({} : Pool G₁ G₂) where
  named _ _ hk := by
    rw [ExtTreeMap.getElem?_empty] at hk
    contradiction
  owned _ _ hqc := by
    rw [ExtTreeMap.getElem?_empty] at hqc
    contradiction
  largest _ _ hqc := by
    rw [ExtTreeMap.getElem?_empty] at hqc
    contradiction
  kept _ hne := absurd rfl hne
  accepted := rfl

/-- The maps stay consistent through a run exactly if every commitment is added, and dropped when
it is mined, in place, and no message that is looked at has a better one than is kept. -/
theorem mineable_consistent_iff (c : Signing G₁ G₂) (p : ChainParams G₁ G₂)
    (serializeHash : CFinalCommitment G₁ G₂ → uint256) (calls : List (PoolCall G₁ G₂)) :
    (∀ past, past <+: calls → Consistent (Runs.final (poolStep c p serializeHash) {} past)) ↔
      Runs.EveryStep (poolStep c p serializeHash) (InPlace c p serializeHash) {} calls := by
  refine Runs.forall_prefix_iff Consistent Consistent (fun _ h => h) (fun s call h hplace => ?_)
    (fun s call h hplace => ?_) consistent_start calls
  · cases call with
    | message node qc => exact h.receive hplace
    | add fqc => exact h.add hplace
    | mined qc => exact h.removeMined hplace
  · cases call with
    | message node qc => exact h.not_receive hplace
    | add fqc => exact h.not_add hplace
    | mined qc => exact h.not_removeMined hplace

/-! ### A better commitment -/

/-- Commitments are told apart by their signers. -/
def countHash (qc : CFinalCommitment Unit Bool) : uint256 := BitVec.ofNat 256 (countSigners qc)

def signedBy (signers : List Bool) : CFinalCommitment Unit Bool :=
  {singleCommitment true with signers := signers, validMembers := [true, true, true]}

/-- Two members of three have signed, then all of them. -/
theorem mineable_not_consistent : ¬∀ past : List (PoolCall Unit Bool),
    past <+: [.add (signedBy [true, true, false]), .add (signedBy [true, true, true])] →
      Consistent (Runs.final (poolStep singleSigning singleParams countHash) {} past) := by
  intro hall
  have howned := (hall _ (List.prefix_refl _)).owned 2 (signedBy [true, true, false])
  revert howned
  decide +kernel

end BabaChain.LLMQ.BlockProcessor
