import BabaChain.EhfChain

/-! What each call on a node whose cache and tables are right may answer. -/
namespace BabaChain.MNHF
open OrdMap LruCache
open Std (ExtTreeMap)

variable {Sig PK : Type} {K : Encoding Sig} {p : Consensus} {node : Node Sig PK}

section Extraction
variable {pindex : CBlockIndex} {tx : CTransaction}

theorem isValidMNActivation_error {bit : UInt8} {t : ℤ} {failure : Failure}
    (h : isValidMNActivation p bit t = .error failure) :
    failure = .assertion ∧ VERSIONBITS_NUM_BITS ≤ bit.toNat := by
  unfold isValidMNActivation at h
  split at h
  · contradiction
  · next hbit =>
    rw [Except.error.injEq] at h
    exact ⟨h.symm, not_lt.mp hbit⟩

theorem extractEHFSignal_of_payload {mnhfTx : MNHFTxPayload Sig} (hsig : tx.isSignal = true)
    (h : getTxPayload K tx = some mnhfTx) :
    extractEHFSignal K tx = some mnhfTx.signal.versionBit := by
  rw [extractEHFSignal, hsig, if_neg Bool.noConfusion, h, Option.map_some]

/-- A transaction that passes has a payload whose bit may be signalled. -/
theorem checkMNHFTx_ok (h : checkMNHFTx K p node tx pindex = .ok (.ok ())) :
    ∃ mnhfTx, getTxPayload K tx = some mnhfTx ∧
      isValidMNActivation p mnhfTx.signal.versionBit (getMedianTimePast pindex) = .ok true := by
  unfold checkMNHFTx at h
  split at h
  · contradiction
  · split at h
    · contradiction
    · next mnhfTx hpay =>
      split at h
      · contradiction
      · split at h
        · contradiction
        · contradiction
        · next hvalid => exact ⟨mnhfTx, hpay, hvalid⟩

/-- Only a bit out of range stops the check. -/
theorem checkMNHFTx_error {failure : Failure}
    (h : checkMNHFTx K p node tx pindex = .error failure) :
    failure = .assertion ∧
      ∃ bit, extractEHFSignal K tx = some bit ∧ VERSIONBITS_NUM_BITS ≤ bit.toNat := by
  unfold checkMNHFTx at h
  split at h
  · contradiction
  · next hsig =>
    split at h
    · contradiction
    · next mnhfTx hpay =>
      split at h
      · contradiction
      · split at h
        · next hvalid =>
          rw [Except.error.injEq] at h
          subst h
          obtain ⟨hf, hbit⟩ := isValidMNActivation_error hvalid
          have hsig' := Bool.eq_true_of_not_eq_false hsig
          exact ⟨hf, mnhfTx.signal.versionBit, extractEHFSignal_of_payload hsig' hpay, hbit⟩
        · contradiction
        · contradiction

/-- The bits of a block may each be signalled, and once. -/
def Signallable (p : Consensus) (pindex : CBlockIndex) (bits : List UInt8) : Prop :=
  bits.Nodup ∧ ∀ bit ∈ bits, isValidMNActivation p bit (getMedianTimePast pindex) = .ok true

theorem Signallable.append {bits : List UInt8} {bit : UInt8} (h : Signallable p pindex bits)
    (hbit : isValidMNActivation p bit (getMedianTimePast pindex) = .ok true)
    (hnew : bit ∉ bits) : Signallable p pindex (bits++[bit]) := by
  constructor
  · apply List.nodup_append.mpr
    refine ⟨h.1, List.nodup_singleton bit, fun b hb c hc hbc => ?_⟩
    rw [List.mem_singleton.mp hc] at hbc
    exact hnew (hbc ▸ hb)
  · intro b hb
    rcases List.mem_append.mp hb with hb | hb
    · exact h.2 b hb
    · rw [List.mem_singleton.mp hb]
      exact hbit

theorem extractLoop_ok {txs : List CTransaction} {acc new_signals : List UInt8}
    (hacc : Signallable p pindex acc)
    (h : extractLoop K p node pindex txs acc = .ok (.ok new_signals)) :
    new_signals = acc++txs.filterMap (extractEHFSignal K) ∧ Signallable p pindex new_signals := by
  induction txs generalizing acc with
  | nil =>
    simp only [extractLoop, Except.ok.injEq] at h
    subst h
    exact ⟨(List.append_nil acc).symm, hacc⟩
  | cons tx rest ih =>
    rw [extractLoop] at h
    split at h
    · next hsig =>
      -- not a signal: the loop goes on with what it has
      have hnone : extractEHFSignal K tx = none := if_pos hsig
      rw [List.filterMap_cons_none hnone]
      exact ih hacc h
    · next hsig =>
      have hsig' := Bool.eq_true_of_not_eq_false hsig
      split at h
      · contradiction
      · cases h
      · next hcheck =>
        obtain ⟨mnhfTx, hpay, hvalid⟩ := checkMNHFTx_ok hcheck
        rw [hpay] at h
        dsimp only at h
        split at h
        · cases h
        · next hnew =>
          obtain ⟨heq, hall⟩ := ih (hacc.append hvalid hnew) h
          rw [List.filterMap_cons_some (extractEHFSignal_of_payload hsig' hpay), heq,
            List.append_assoc, List.singleton_append]
          rw [heq, List.append_assoc, List.singleton_append] at hall
          exact ⟨rfl, hall⟩

theorem extractLoop_error {txs : List CTransaction} {acc : List UInt8} {failure : Failure}
    (h : extractLoop K p node pindex txs acc = .error failure) :
    failure = .assertion ∧
      ∃ bit ∈ txs.filterMap (extractEHFSignal K), VERSIONBITS_NUM_BITS ≤ bit.toNat := by
  induction txs generalizing acc with
  | nil => contradiction
  | cons tx rest ih =>
    rw [extractLoop] at h
    split at h
    · next hsig =>
      have hnone : extractEHFSignal K tx = none := if_pos hsig
      rw [List.filterMap_cons_none hnone]
      exact ih h
    · split at h
      · next hcheck =>
        rw [Except.error.injEq] at h
        subst h
        obtain ⟨hf, bit, hsome, hbit⟩ := checkMNHFTx_error hcheck
        exact ⟨hf, bit, List.mem_filterMap.mpr ⟨tx, List.mem_cons_self, hsome⟩, hbit⟩
      · contradiction
      · split at h
        · contradiction
        · split at h
          · contradiction
          · obtain ⟨hf, bit, hmem, hbit⟩ := ih h
            obtain ⟨tx', htx', hsome⟩ := List.mem_filterMap.mp hmem
            have hmem' := List.mem_filterMap.mpr ⟨tx', List.mem_cons_of_mem tx htx', hsome⟩
            exact ⟨hf, bit, hmem', hbit⟩

variable {block : CBlock}

/-- What `extractSignals` finds in a block is what the block signals. -/
theorem extractSignals_ok {new_signals : List UInt8}
    (h : extractSignals K p node block pindex = .ok (.ok new_signals)) :
    new_signals = blockSignals K block ∧ Signallable p pindex (blockSignals K block) := by
  have hnil : Signallable p pindex [] := ⟨List.nodup_nil, fun _ hb => absurd hb List.not_mem_nil⟩
  obtain ⟨heq, hall⟩ := extractLoop_ok hnil h
  rw [List.nil_append] at heq
  rw [heq] at hall
  exact ⟨heq, hall⟩

theorem extractSignals_error {failure : Failure}
    (h : extractSignals K p node block pindex = .error failure) :
    failure = .assertion ∧ ∃ bit ∈ blockSignals K block, VERSIONBITS_NUM_BITS ≤ bit.toNat :=
  extractLoop_error h

theorem isValidMNActivation_lt {bit : UInt8} {t : ℤ} {b : Bool}
    (h : isValidMNActivation p bit t = .ok b) : bit.toNat < VERSIONBITS_NUM_BITS := by
  by_contra hbit
  rw [isValidMNActivation, if_neg hbit] at h
  contradiction

/-- After `extractSignals` the validation of the new signals has only one thing
left to refuse. -/
theorem checkNewSignals_eq (signals : Signals) {t : ℤ} {bits : List UInt8}
    (h : ∀ bit ∈ bits, isValidMNActivation p bit t = .ok true) :
    checkNewSignals p signals t bits =
      if ∃ bit ∈ bits, bit ∈ signals then .ok (.error "bad-mnhf-duplicate") else .ok (.ok ()) := by
  induction bits with
  | nil =>
    rw [if_neg fun hex => ?_]
    · rfl
    · obtain ⟨bit, hmem, _⟩ := hex
      exact List.not_mem_nil hmem
  | cons bit rest ih =>
    rw [checkNewSignals, h bit List.mem_cons_self, ih fun b hb => h b (List.mem_cons_of_mem bit hb)]
    simp only [List.mem_cons, exists_eq_or_imp]
    by_cases hbit : bit ∈ signals
    · rw [if_pos hbit, if_pos (Or.inl hbit)]
    · simp only [hbit, if_false, false_or]

theorem checkExcluded_eq {signals : Signals} {t : ℤ} {bits : List UInt8}
    (h : ∀ bit ∈ bits, bit ∈ signals ∧ isValidMNActivation p bit t = .ok true) :
    checkExcluded p signals t bits = .ok true := by
  induction bits with
  | nil => rfl
  | cons bit rest ih =>
    obtain ⟨hmem, hvalid⟩ := h bit List.mem_cons_self
    rw [checkExcluded, if_pos hmem, hvalid]
    exact ih fun b hb => h b (List.mem_cons_of_mem bit hb)

end Extraction

/-- `m_block_index` over the life of a node: the previous block of an entry is an
entry, and a hash has one entry. -/
structure BlockIndex where
  entries : Set CBlockIndex
  pprev_mem : ∀ block pprev, block :: pprev ∈ entries → pprev ∈ entries
  hash_unique : ∀ block pprev block' pprev', block :: pprev ∈ entries →
    block' :: pprev' ∈ entries → block.hash = block'.hash → block :: pprev = block' :: pprev'

variable {T : BlockIndex} {pindex pprev : CBlockIndex} {block : CBlock} {man : CMNHFManager}

/-- The node finds the blocks since v20 on disk and their quorums in its index. -/
def Confirms (K : Encoding Sig) (p : Consensus) (node : Node Sig PK) (pindex : CBlockIndex) :
    Prop :=
  ∀ block pprev, block :: pprev <:+ pindex →
    deploymentActiveAt (block :: pprev) p.V20Height = true →
      node.canReadBlock (block :: pprev) = true ∧
        extractSignals K p node block (block :: pprev) = .ok (.ok (blockSignals K block))

/-- What may be stored under a hash. -/
def Known (K : Encoding Sig) (p : Consensus) (T : BlockIndex) (hash : uint256)
    (signals : Signals) : Prop :=
  ∀ block pprev, block :: pprev ∈ T.entries → block.hash = hash →
    QuietBeforeV20 K p (block :: pprev) →
      signals = signalsOf K p (block :: pprev) ∧ Admissible K p (block :: pprev)

/-- The older table, read for blocks from v20 on only. -/
def LegacySound (K : Encoding Sig) (p : Consensus) (T : BlockIndex)
    (dbSignals : uint256 → Option Signals) : Prop :=
  ∀ block pprev signals, block :: pprev ∈ T.entries →
    deploymentActiveAt (block :: pprev) p.V20Height = true →
      dbSignals block.hash = some signals → QuietBeforeV20 K p (block :: pprev) →
        signals = signalsOf K p (block :: pprev) ∧ Admissible K p (block :: pprev)

/-- All that the node has stored is right. -/
structure Sound (K : Encoding Sig) (p : Consensus) (T : BlockIndex) (man : CMNHFManager) :
    Prop where
  cache : Holds (Known K p T) man.mnhfCache
  db_v2 : ∀ hash signals, man.dbSignals_v2 hash = some signals → Known K p T hash signals
  db : LegacySound K p T man.dbSignals

/-- What an answer about a chain may be: the right signals of an admissible one,
or a failure with its reason in the chain or in the node. -/
def Right (K : Encoding Sig) (p : Consensus) (node : Node Sig PK) (pindex : CBlockIndex)
    (signals : Signals) : Except Failure Signals → Prop
  | .ok found => found = signals ∧ Admissible K p pindex
  | .error .assertion => ¬Admissible K p pindex
  | .error (.exception _) => ¬(Admissible K p pindex ∧ Confirms K p node pindex)

theorem Confirms.of_cons (h : Confirms K p node (block :: pprev)) : Confirms K p node pprev :=
  fun b rest hs => h b rest (hs.trans (List.suffix_cons block pprev))

/-- The one entry with a hash decides what may be stored under it. -/
theorem known_of_entry {signals : Signals} (hT : block :: pprev ∈ T.entries)
    (h : QuietBeforeV20 K p (block :: pprev) →
      signals = signalsOf K p (block :: pprev) ∧ Admissible K p (block :: pprev)) :
    Known K p T block.hash signals := by
  intro block' pprev' hT' hhash hquiet
  have heq := T.hash_unique block' pprev' block pprev hT' hT hhash
  rw [heq] at hquiet ⊢
  exact h hquiet

theorem Sound.with_cache (h : Sound K p T man) {cache : Cache uint256 Signals}
    (hc : Holds (Known K p T) cache) : Sound K p T {man with mnhfCache := cache} :=
  ⟨hc, h.db_v2, h.db⟩

/-- A hit is right, and only a block since v20 is missed. -/
theorem getFromCache_spec (h : Sound K p T man) (hT : block :: pprev ∈ T.entries) :
    Sound K p T (getFromCache p (block :: pprev) man).2 ∧
      match (getFromCache p (block :: pprev) man).1 with
      | some signals => QuietBeforeV20 K p (block :: pprev) →
          signals = signalsOf K p (block :: pprev) ∧ Admissible K p (block :: pprev)
      | none => deploymentActiveAt (block :: pprev) p.V20Height = true := by
  have hvalue := @h.cache.get_value _ _ _ _ _ block.hash
  have hstate := h.cache.get_state block.hash
  unfold getFromCache
  dsimp only
  generalize LruCache.get man.mnhfCache block.hash = r at hvalue hstate
  obtain ⟨hit, cache⟩ := r
  -- whatever is found in a table goes into the cache as well
  have hfound : ∀ signals, (QuietBeforeV20 K p (block :: pprev) →
      signals = signalsOf K p (block :: pprev) ∧ Admissible K p (block :: pprev)) →
      Sound K p T {man with mnhfCache := LruCache.insert cache block.hash signals} :=
    fun signals hright => h.with_cache (hstate.insert (known_of_entry hT hright))
  cases hit with
  | some signals => exact ⟨h.with_cache hstate, hvalue rfl block pprev hT rfl⟩
  | none =>
    dsimp only
    cases hactive : deploymentActiveAt (block :: pprev) p.V20Height with
    | false =>
      rw [if_pos rfl]
      have hright : QuietBeforeV20 K p (block :: pprev) →
          ∅ = signalsOf K p (block :: pprev) ∧ Admissible K p (block :: pprev) :=
        fun _ => ⟨(signalsOf_of_inactive hactive).symm, admissible_of_inactive hactive⟩
      exact ⟨hfound ∅ hright, hright⟩
    | true =>
      rw [if_neg Bool.noConfusion]
      have hmiss := h.with_cache hstate
      cases hv2 : man.dbSignals_v2 block.hash with
      | some signals =>
        have hright := h.db_v2 block.hash signals hv2 block pprev hT rfl
        exact ⟨hfound signals hright, hright⟩
      | none =>
        dsimp only
        split
        · cases hdb : man.dbSignals block.hash with
          | some signals =>
            have hright := h.db block pprev signals hT hactive hdb
            exact ⟨hfound signals hright, hright⟩
          | none => exact ⟨hmiss, rfl⟩
        · exact ⟨hmiss, rfl⟩

theorem Sound.addToCache (h : Sound K p T man) {signals : Signals}
    (hknown : Known K p T block.hash signals) :
    Sound K p T (addToCache p signals block pprev man) := by
  have hcache := h.with_cache (h.cache.insert hknown)
  unfold MNHF.addToCache
  dsimp only
  split
  · exact hcache
  · refine ⟨hcache.cache, fun hash found hfound => ?_, h.db⟩
    dsimp only at hfound
    by_cases heq : hash = block.hash
    · subst heq
      rw [Function.update_self, Option.some.injEq] at hfound
      exact hfound ▸ hknown
    · rw [Function.update_of_ne heq] at hfound
      exact h.db_v2 hash found hfound

theorem admissible_of_next_inactive
    (h : deploymentActiveAt (block :: pprev) p.V20Height = false) : Admissible K p pprev := by
  apply admissible_of_inactive
  rw [activeAt_cons] at h
  by_contra hactive
  rw [Bool.not_eq_false] at hactive
  rw [activeAfter_of_activeAt hactive] at h
  contradiction

section Calls
variable {forBlock : CMNHFManager → Except Failure Signals × CMNHFManager}

/-- What is asked of `GetForBlock` at one block. -/
def ForBlockSpec (K : Encoding Sig) (p : Consensus) (node : Node Sig PK) (T : BlockIndex)
    (pindex : CBlockIndex) (forBlock : CMNHFManager → Except Failure Signals × CMNHFManager) :
    Prop :=
  ∀ man, Sound K p T man → Sound K p T (forBlock man).2 ∧
    (QuietBeforeV20 K p pindex → Right K p node pindex (signalsOf K p pindex) (forBlock man).1)

theorem signalsStage_spec (hf : ForBlockSpec K p node T pindex forBlock) (h : Sound K p T man) :
    Sound K p T (signalsStage p forBlock pindex man).2 ∧ (QuietBeforeV20 K p pindex →
      Right K p node pindex (stageOf K p pindex) (signalsStage p forBlock pindex man).1) := by
  unfold signalsStage stageOf
  cases hactive : deploymentActiveAfter pindex p.V20Height with
  | false =>
    rw [if_pos rfl, if_pos rfl]
    refine ⟨h, fun _ => ⟨rfl, admissible_of_inactive ?_⟩⟩
    by_contra hat
    rw [Bool.not_eq_false] at hat
    rw [activeAfter_of_activeAt hat] at hactive
    contradiction
  | true =>
    rw [if_neg Bool.noConfusion, if_neg Bool.noConfusion]
    obtain ⟨hsound, hright⟩ := hf man h
    generalize forBlock man = r at hsound hright
    obtain ⟨answer, man'⟩ := r
    cases answer with
    | error failure => cases failure <;> exact ⟨hsound, hright⟩
    | ok signals_tmp =>
      dsimp only
      split
      · next hnil =>
        -- before the first block there is nothing, so nothing to leave out
        subst hnil
        refine ⟨hsound, fun _ => ⟨?_, trivial⟩⟩
        apply ExtTreeMap.ext_getElem?
        intro bit
        have hempty : (unexpired p [] (signalsOf K p []))[bit]? = none := by
          rw [Option.eq_none_iff_forall_ne_some]
          intro height hheight
          have hsome := (getElem?_unexpired.mp hheight).1
          rw [signalsOf, ExtTreeMap.getElem?_empty] at hsome
          contradiction
        rw [hempty, ExtTreeMap.getElem?_empty]
      · refine ⟨hsound, fun hquiet => ?_⟩
        obtain ⟨rfl, hadm⟩ := hright hquiet
        rw [dropExpired_signalsOf]
        exact ⟨rfl, hadm⟩

/-- What the verdict on a block may be. -/
def Judged (K : Encoding Sig) (p : Consensus) (node : Node Sig PK) (block : CBlock)
    (pprev : CBlockIndex) (fJustCheck : Bool) : Except Failure (Except String Signals) → Prop
  | .ok (.ok signals) => Admissible K p (block :: pprev) ∧
      (fJustCheck = false → signals = signalsOf K p (block :: pprev))
  | .ok (.error _) => deploymentActiveAt (block :: pprev) p.V20Height = true →
      ¬(Admissible K p (block :: pprev) ∧ Confirms K p node (block :: pprev))
  | .error .assertion => ¬Admissible K p pprev ∨
      ∃ bit ∈ blockSignals K block, VERSIONBITS_NUM_BITS ≤ bit.toNat
  | .error (.exception _) => False

theorem Admissible.of_cons (h : Admissible K p (block :: pprev)) : Admissible K p pprev := by
  cases hactive : deploymentActiveAt (block :: pprev) p.V20Height with
  | false => exact admissible_of_next_inactive hactive
  | true => exact (h hactive).1

/-- A block that signals a bit out of range is on no admissible chain. -/
theorem Admissible.bit_lt (h : Admissible K p (block :: pprev))
    (hquiet : QuietBeforeV20 K p (block :: pprev)) {bit : UInt8}
    (hbit : bit ∈ blockSignals K block) : bit.toNat < VERSIONBITS_NUM_BITS := by
  cases hactive : deploymentActiveAt (block :: pprev) p.V20Height with
  | false =>
    rw [hquiet block pprev List.suffix_rfl hactive] at hbit
    exact absurd hbit List.not_mem_nil
  | true => exact isValidMNActivation_lt ((h hactive).2.2 bit hbit).1

/-- The new signals of a block that repeats none, added to those that stand. -/
theorem insertSignals_stageOf (hquiet : QuietBeforeV20 K p (block :: pprev)) :
    insertSignals (stageOf K p pprev) (nHeight (block :: pprev)) (blockSignals K block) =
      signalsOf K p (block :: pprev) := by
  rw [signalsOf]
  split
  · next hinactive =>
    rw [hquiet block pprev List.suffix_rfl hinactive]
    rw [activeAt_cons] at hinactive
    exact if_pos hinactive
  · next hactive => rw [stageOf_of_active (Bool.eq_true_of_not_eq_false hactive)]

theorem admissible_cons (hprev : Admissible K p pprev)
    (hsig : Signallable p (block :: pprev) (blockSignals K block))
    (hnew : ¬∃ bit ∈ blockSignals K block, bit ∈ stageOf K p pprev) :
    Admissible K p (block :: pprev) := by
  intro _
  refine ⟨hprev, hsig.1, fun bit hbit => ⟨hsig.2 bit hbit, fun hmem => ?_⟩⟩
  exact hnew ⟨bit, hbit, hmem⟩

theorem processWith_spec (block : CBlock) (fJustCheck : Bool)
    (hf : ForBlockSpec K p node T pprev forBlock) (h : Sound K p T man) (hT : fJustCheck = false → block :: pprev ∈ T.entries) :
    Sound K p T (processWith K p node forBlock block pprev fJustCheck man).2 ∧
      (QuietBeforeV20 K p (block :: pprev) → Judged K p node block pprev fJustCheck
        (processWith K p node forBlock block pprev fJustCheck man).1) := by
  unfold processWith
  cases hextract : extractSignals K p node block (block :: pprev) with
  | error failure =>
    obtain ⟨rfl, hbit⟩ := extractSignals_error hextract
    exact ⟨h, fun _ => .inr hbit⟩
  | ok extracted =>
    cases extracted with
    | error reason =>
      refine ⟨h, fun _ hactive hconf => ?_⟩
      have hok := (hconf.2 block pprev List.suffix_rfl hactive).2
      rw [hextract] at hok
      cases hok
    | ok new_signals =>
      obtain ⟨rfl, hsig⟩ := extractSignals_ok hextract
      -- from here on the verdict depends on what stands before the block
      obtain ⟨hsound, hstage⟩ := signalsStage_spec hf h
      dsimp only
      generalize signalsStage p forBlock pprev man = r at hsound hstage
      obtain ⟨answer, man'⟩ := r
      cases answer with
      | error failure =>
        refine ⟨hsound, fun hquiet => ?_⟩
        have hright := hstage hquiet.of_cons
        cases failure with
        | assertion => exact .inl hright
        | exception what => exact fun _ hconf => hright ⟨hconf.1.of_cons, hconf.2.of_cons⟩
      | ok signals =>
        -- what the block adds is right, and is stored only for an entry of the index
        have hadd : (¬∃ bit ∈ blockSignals K block, bit ∈ signals) →
            QuietBeforeV20 K p (block :: pprev) →
            insertSignals signals (nHeight (block :: pprev)) (blockSignals K block) =
              signalsOf K p (block :: pprev) ∧ Admissible K p (block :: pprev) := by
          intro hnew hquiet
          obtain ⟨rfl, hprev⟩ := hstage hquiet.of_cons
          exact ⟨insertSignals_stageOf hquiet, admissible_cons hprev hsig hnew⟩
        dsimp only
        split
        · next hnil =>
          have hadd' := hadd fun ⟨bit, hmem, _⟩ => by
            rw [hnil] at hmem
            exact List.not_mem_nil hmem
          rw [hnil] at hadd'
          constructor
          · cases hjust : fJustCheck with
            | true => exact hsound
            | false => exact hsound.addToCache (known_of_entry (hT hjust) hadd')
          · intro hquiet
            obtain ⟨heq, hadm⟩ := hadd' hquiet
            exact ⟨hadm, fun _ => heq⟩
        · rw [checkNewSignals_eq signals hsig.2]
          by_cases hdup : ∃ bit ∈ blockSignals K block, bit ∈ signals
          · -- refused, and rightly: an admissible block repeats none
            rw [if_pos hdup]
            refine ⟨hsound, fun hquiet hactive hconf => ?_⟩
            obtain ⟨rfl, _⟩ := hstage hquiet.of_cons
            obtain ⟨bit, hmem, hstands⟩ := hdup
            exact ((hconf.1 hactive).2.2 bit hmem).2 hstands
          · rw [if_neg hdup]
            cases hjust : fJustCheck with
            | true => exact ⟨hsound, fun hquiet => ⟨(hadd hdup hquiet).2, Bool.noConfusion⟩⟩
            | false =>
              refine ⟨hsound.addToCache (known_of_entry (hT hjust) (hadd hdup)), fun hquiet => ?_⟩
              obtain ⟨heq, hadm⟩ := hadd hdup hquiet
              exact ⟨hadm, fun _ => heq⟩

end Calls

/-- `GetForBlock` answers what the chain determines, whatever it has to gather
anew. The induction follows its way down the chain. -/
theorem getForBlock_spec (node : Node Sig PK) (hT : pindex ∈ T.entries) :
    ForBlockSpec K p node T pindex (getForBlock K p node pindex) := by
  induction pindex with
  | nil => exact fun man h => ⟨h, fun _ => ⟨rfl, trivial⟩⟩
  | cons block pprev ih =>
    intro man h
    have hprev := ih (T.pprev_mem block pprev hT)
    obtain ⟨hsound, hhit⟩ := getFromCache_spec h hT
    rw [getForBlock]
    generalize getFromCache p (block :: pprev) man = r at hsound hhit
    obtain ⟨hit, man₁⟩ := r
    cases hit with
    | some signals => exact ⟨hsound, hhit⟩
    | none =>
      -- a miss: first the chain below, then the block itself from disk
      dsimp only at hsound hhit ⊢
      obtain ⟨hsound₂, hbelow⟩ := hprev man₁ hsound
      generalize getForBlock K p node pprev man₁ = r at hsound₂ hbelow
      obtain ⟨answer, man₂⟩ := r
      cases answer with
      | error failure =>
        refine ⟨hsound₂, fun hquiet => ?_⟩
        have hright := hbelow hquiet.of_cons
        cases failure with
        | assertion => exact fun hadm => hright hadm.of_cons
        | exception what => exact fun hconf => hright ⟨hconf.1.of_cons, hconf.2.of_cons⟩
      | ok _ =>
        dsimp only at hsound₂ ⊢
        split
        · next hread =>
          refine ⟨hsound₂, fun _ hconf => ?_⟩
          rw [(hconf.2 block pprev List.suffix_rfl hhit).1] at hread
          contradiction
        · obtain ⟨hsound₃, hjudged⟩ :=
            processWith_spec block false hprev hsound₂ fun _ => hT
          generalize processWith K p node (getForBlock K p node pprev) block pprev false man₂ = r
            at hsound₃ hjudged
          obtain ⟨verdict, man₃⟩ := r
          rcases verdict with failure | reason | signals
          · refine ⟨hsound₃, fun hquiet => ?_⟩
            have hj := hjudged hquiet
            cases failure with
            | assertion =>
              intro hadm
              rcases hj with hprev | ⟨bit, hmem, hbit⟩
              · exact hprev hadm.of_cons
              · exact absurd (hadm.bit_lt hquiet hmem) (not_lt.mpr hbit)
            | exception what => exact hj.elim
          · exact ⟨hsound₃, fun hquiet => hjudged hquiet hhit⟩
          · refine ⟨hsound₃, fun hquiet => ?_⟩
            obtain ⟨hadm, heq⟩ := hjudged hquiet
            exact ⟨heq rfl, hadm⟩

/-- The block itself stands for the bits it signals, so its own signals are found. -/
theorem mem_signalsOf_self (hquiet : QuietBeforeV20 K p (block :: pprev))
    (hadm : Admissible K p (block :: pprev)) {bit : UInt8} (hbit : bit ∈ blockSignals K block) :
    bit ∈ signalsOf K p (block :: pprev) := by
  have hstands : StandsFor K p (block :: pprev) bit (block :: pprev) :=
    ⟨List.suffix_rfl, ⟨block, pprev, rfl, hbit⟩, .inl rfl⟩
  exact mem_iff_exists.mpr ⟨_, getElem?_signalsOf hquiet hadm hstands⟩

theorem undoBlock_spec (h : Sound K p T man) (hT : block :: pprev ∈ T.entries) :
    Sound K p T (undoBlock K p node block pprev man).2 ∧
      (QuietBeforeV20 K p (block :: pprev) → Admissible K p (block :: pprev) →
        (undoBlock K p node block pprev man).1 ≠ .error .assertion) := by
  unfold undoBlock
  cases hextract : extractSignals K p node block (block :: pprev) with
  | error failure =>
    obtain ⟨rfl, bit, hmem, hbit⟩ := extractSignals_error hextract
    refine ⟨h, fun hquiet hadm => ?_⟩
    exact absurd (hadm.bit_lt hquiet hmem) (not_lt.mpr hbit)
  | ok extracted =>
    cases extracted with
    | error reason => exact ⟨h, fun _ _ => nofun⟩
    | ok excluded =>
      obtain ⟨rfl, hsig⟩ := extractSignals_ok hextract
      dsimp only
      split
      · exact ⟨h, fun _ _ => nofun⟩
      · obtain ⟨hsound, hright⟩ := getForBlock_spec node hT man h
        generalize getForBlock K p node (block :: pprev) man = r at hsound hright
        obtain ⟨answer, man'⟩ := r
        cases answer with
        | error failure =>
          refine ⟨hsound, fun hquiet hadm => ?_⟩
          have hr := hright hquiet
          cases failure with
          | assertion => exact absurd hadm hr
          | exception what => simp only [ne_eq, Except.error.injEq, reduceCtorEq, not_false_eq_true]
        | ok signals =>
          refine ⟨hsound, fun hquiet hadm => ?_⟩
          obtain ⟨rfl, _⟩ := hright hquiet
          dsimp only
          -- the assertions are what `ProcessBlock` saw to
          rw [checkExcluded_eq fun bit hbit => ⟨mem_signalsOf_self hquiet hadm hbit, hsig.2 bit hbit⟩]
          nofun

end BabaChain.MNHF
