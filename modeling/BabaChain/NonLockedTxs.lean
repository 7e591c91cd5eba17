import BabaChain.InstantSend
import BabaChain.Lib.Runs

/-! The transactions that `CInstantSendManager` tracks until they are locked: the
entries with their children, and the outpoints their inputs spend. -/
namespace BabaChain.InstantSend
open Std

variable {B Sig : Type}

/-- `NonLockedTxInfo`. An entry without a transaction stands for a parent that
has not been seen. -/
structure NonLockedTxInfo (B : Type) where
  pindexMined : Option B := none
  tx : Option CTransaction := none
  children : ExtTreeSet uint256 := ∅

/-- What `CInstantSendManager` knows of transactions without a lock, and the locks
that wait. -/
structure CInstantSendManager (B Sig : Type) where
  nonLockedTxs : ExtTreeMap uint256 (NonLockedTxInfo B) := ∅
  nonLockedTxsByOutpoints : ExtTreeMap COutPoint uint256 := ∅
  pendingRetryTxs : ExtTreeSet uint256 := ∅
  pendingInstantSendLocks : List (Pending Sig) := []
  pendingNoTxInstantSendLocks : List (Pending Sig) := []

namespace CInstantSendManager

/-- The entry of a transaction, a new one where there is none. -/
def info (m : CInstantSendManager B Sig) (txid : uint256) : NonLockedTxInfo B :=
  m.nonLockedTxs.getD txid {}

def setInfo (m : CInstantSendManager B Sig) (txid : uint256) (info : NonLockedTxInfo B) :
    CInstantSendManager B Sig :=
  {m with nonLockedTxs := m.nonLockedTxs.insert txid info}

/-- What `AddNonLockedTx` does for one input: the parent gets a child, and the
outpoint its transaction unless it has one. -/
def recordInput (txid : uint256) (m : CInstantSendManager B Sig) (txin : CTxIn) :
    CInstantSendManager B Sig :=
  let parent := m.info txin.prevout.hash
  {m.setInfo txin.prevout.hash {parent with children := parent.children.insert txid} with
    nonLockedTxsByOutpoints := m.nonLockedTxsByOutpoints.insertIfNew txin.prevout txid}

/-- A lock that came before its transaction is pending again. -/
def retryPendingLock (m : CInstantSendManager B Sig) (txid : uint256) :
    CInstantSendManager B Sig :=
  match m.pendingNoTxInstantSendLocks.find? fun p => p.islock.txid = txid with
  | none => m
  | some p =>
    {m with
      pendingInstantSendLocks :=
        if m.pendingInstantSendLocks.any fun q => q.hash = p.hash then m.pendingInstantSendLocks
        else m.pendingInstantSendLocks ++ [p]
      pendingNoTxInstantSendLocks :=
        m.pendingNoTxInstantSendLocks.eraseP fun q => q.islock.txid = txid}

/-- `AddNonLockedTx`. An entry that exists only gets the block. -/
def addNonLockedTx (m : CInstantSendManager B Sig) (tx : CTransaction) (pindexMined : Option B) :
    CInstantSendManager B Sig :=
  let nonLockedTxInfo := {m.info tx.hash with pindexMined := pindexMined}
  let m' :=
    if tx.hash ∈ m.nonLockedTxs then
      m.setInfo tx.hash nonLockedTxInfo
    else
      tx.vin.foldl (recordInput tx.hash)
        (m.setInfo tx.hash {nonLockedTxInfo with tx := some tx})
  m'.retryPendingLock tx.hash

/-- What `RemoveNonLockedTx` does for one input. -/
def forgetInput (txid : uint256) (m : CInstantSendManager B Sig) (txin : CTxIn) :
    CInstantSendManager B Sig :=
  let nonLockedTxs :=
    match m.nonLockedTxs[txin.prevout.hash]? with
    | none => m.nonLockedTxs
    | some parent =>
      let parent := {parent with children := parent.children.erase txid}
      if parent.tx = none ∧ parent.children.isEmpty = true then
        m.nonLockedTxs.erase txin.prevout.hash
      else
        m.nonLockedTxs.insert txin.prevout.hash parent
  {m with
    nonLockedTxs := nonLockedTxs
    nonLockedTxsByOutpoints := m.nonLockedTxsByOutpoints.erase txin.prevout}

/-- `RemoveNonLockedTx`. -/
def removeNonLockedTx (m : CInstantSendManager B Sig) (txid : uint256) (retryChildren : Bool) :
    CInstantSendManager B Sig :=
  match m.nonLockedTxs[txid]? with
  | none => m
  | some info =>
    let pendingRetryTxs :=
      if retryChildren then info.children.foldl (fun s c => s.insert c) m.pendingRetryTxs
      else m.pendingRetryTxs
    let m := {m with pendingRetryTxs := pendingRetryTxs.erase txid}
    let m :=
      match info.tx with
      | none => m
      | some tx => tx.vin.foldl (forgetInput txid) m
    {m with nonLockedTxs := m.nonLockedTxs.erase txid}

/-! ### What one call makes of the entries -/

variable (m : CInstantSendManager B Sig) (txid h : uint256) (ins : List CTxIn)

@[simp] theorem info_retryPendingLock : (m.retryPendingLock txid).info h = m.info h := by
  unfold retryPendingLock
  split <;> rfl

@[simp] theorem outpoints_retryPendingLock :
    (m.retryPendingLock txid).nonLockedTxsByOutpoints = m.nonLockedTxsByOutpoints := by
  unfold retryPendingLock
  split <;> rfl

@[simp] theorem nonLockedTxs_retryPendingLock :
    (m.retryPendingLock txid).nonLockedTxs = m.nonLockedTxs := by
  unfold retryPendingLock
  split <;> rfl

variable {m} in
theorem info_of_notMem (hm : h ∉ m.nonLockedTxs) : m.info h = {} :=
  ExtTreeMap.getD_eq_fallback hm

theorem info_setInfo (k : uint256) (v : NonLockedTxInfo B) :
    (m.setInfo k v).info h = if k = h then v else m.info h := by
  rw [info, setInfo, ExtTreeMap.getD_insert]
  simp only [LawfulEqCmp.compare_eq_iff_eq, info]

theorem mem_setInfo (k : uint256) (v : NonLockedTxInfo B) :
    h ∈ (m.setInfo k v).nonLockedTxs ↔ k = h ∨ h ∈ m.nonLockedTxs := by
  rw [setInfo, ExtTreeMap.mem_insert, LawfulEqCmp.compare_eq_iff_eq]

theorem info_erase (k : uint256) :
    (m.nonLockedTxs.erase k).getD h {} = if k = h then {} else m.info h := by
  rw [ExtTreeMap.getD_erase]
  simp only [LawfulEqCmp.compare_eq_iff_eq, info]

variable {m} in
theorem info_of_getElem? {info : NonLockedTxInfo B} (hm : m.nonLockedTxs[h]? = some info) :
    m.info h = info := by
  rw [CInstantSendManager.info, ExtTreeMap.getD_eq_getD_getElem?, hm, Option.getD_some]

theorem info_recordInput (txin : CTxIn) :
    (m.recordInput txid txin).info h =
      if txin.prevout.hash = h then {m.info h with children := (m.info h).children.insert txid}
      else m.info h := by
  have hset := info_setInfo m h txin.prevout.hash
    {m.info txin.prevout.hash with
      children := (m.info txin.prevout.hash).children.insert txid}
  rw [show (m.recordInput txid txin).info h = _ from hset]
  split_ifs with hk
  · rw [hk]
  · rfl

theorem tx_recordInputs : ((ins.foldl (recordInput txid) m).info h).tx = (m.info h).tx := by
  induction ins generalizing m with
  | nil => rfl
  | cons txin ins ih =>
    rw [List.foldl_cons, ih, info_recordInput]
    split_ifs <;> rfl

theorem mem_children_recordInputs (c : uint256) :
    c ∈ ((ins.foldl (recordInput txid) m).info h).children ↔
      (c = txid ∧ ∃ txin ∈ ins, txin.prevout.hash = h) ∨ c ∈ (m.info h).children := by
  induction ins generalizing m with
  | nil => simp
  | cons txin ins ih =>
    rw [List.foldl_cons, ih, info_recordInput]
    by_cases hk : txin.prevout.hash = h
    · simp only [hk, if_true, OrdMap.mem_set_insert, List.exists_mem_cons_iff, true_or]
      grind
    · simp only [hk, if_false, List.exists_mem_cons_iff, false_or]

theorem outpoints_recordInputs (o : COutPoint) :
    (ins.foldl (recordInput txid) m).nonLockedTxsByOutpoints[o]? =
      if o ∈ ins.map CTxIn.prevout then some ((m.nonLockedTxsByOutpoints[o]?).getD txid)
      else m.nonLockedTxsByOutpoints[o]? := by
  induction ins generalizing m with
  | nil => rfl
  | cons txin ins ih =>
    have hins : (m.recordInput txid txin).nonLockedTxsByOutpoints[o]? =
        if txin.prevout = o then some ((m.nonLockedTxsByOutpoints[o]?).getD txid)
        else m.nonLockedTxsByOutpoints[o]? := by
      rw [recordInput, ExtTreeMap.getElem?_insertIfNew]
      simp only [LawfulEqCmp.compare_eq_iff_eq, OrdMap.notMem_iff]
      by_cases ho : txin.prevout = o
      · subst ho
        cases hget : m.nonLockedTxsByOutpoints[txin.prevout]? with
        | none => simp
        | some v => simp
      · simp [ho]
    rw [List.foldl_cons, ih, hins, List.map_cons]
    by_cases ho : txin.prevout = o
    · simp [ho]
    · simp [ho, Ne.symm ho]

theorem mem_recordInputs (hm : h ∈ (ins.foldl (recordInput txid) m).nonLockedTxs) :
    (∃ txin ∈ ins, txin.prevout.hash = h) ∨ h ∈ m.nonLockedTxs := by
  induction ins generalizing m with
  | nil => exact Or.inr hm
  | cons txin ins ih =>
    rw [List.exists_mem_cons_iff]
    rcases ih (m.recordInput txid txin) hm with hin | hin
    · exact Or.inl (Or.inr hin)
    · rcases (mem_setInfo _ _ _ _).mp hin with hin | hin
      · exact Or.inl (Or.inl hin)
      · exact Or.inr hin

/-- The entry of a parent without a transaction loses its last child: it is gone, and
looks like a new one. -/
theorem forgetInput_cases (txin : CTxIn) :
    (m.forgetInput txid txin).nonLockedTxs = m.nonLockedTxs ∧
        txin.prevout.hash ∉ m.nonLockedTxs ∨
      (m.forgetInput txid txin).nonLockedTxs = m.nonLockedTxs.erase txin.prevout.hash ∧
        (m.info txin.prevout.hash).tx = none ∧
        (∀ c ∈ (m.info txin.prevout.hash).children, c = txid) ∨
      (m.forgetInput txid txin).nonLockedTxs = (m.setInfo txin.prevout.hash
          {m.info txin.prevout.hash with
            children := (m.info txin.prevout.hash).children.erase txid}).nonLockedTxs ∧
        ((m.info txin.prevout.hash).tx ≠ none ∨
          ∃ c, c ∈ (m.info txin.prevout.hash).children.erase txid) := by
  unfold forgetInput
  cases hget : m.nonLockedTxs[txin.prevout.hash]? with
  | none => exact Or.inl ⟨rfl, OrdMap.notMem_iff.mpr hget⟩
  | some parent =>
    right
    rw [info_of_getElem? _ hget]
    by_cases hgone : parent.tx = none ∧ (parent.children.erase txid).isEmpty = true
    · left
      refine ⟨by simp only [hgone, and_self, if_true], hgone.1, fun c hc => ?_⟩
      by_contra hne
      have herase : c ∈ parent.children.erase txid :=
        OrdMap.mem_set_erase.mpr ⟨Ne.symm hne, hc⟩
      rw [ExtTreeSet.isEmpty_iff.mp hgone.2] at herase
      exact ExtTreeSet.not_mem_empty herase
    · right
      refine ⟨by simp only [hgone, if_false, setInfo], ?_⟩
      rw [not_and_or] at hgone
      rcases hgone with htx | hchild
      · exact Or.inl htx
      · right
        by_contra hnone
        rw [not_exists] at hnone
        exact hchild (ExtTreeSet.isEmpty_iff.mpr (ExtTreeSet.eq_empty_iff_forall_not_mem.mpr hnone))

theorem info_forgetInput (txin : CTxIn) :
    ((m.forgetInput txid txin).info h).tx = (m.info h).tx ∧
      ∀ c, c ∈ ((m.forgetInput txid txin).info h).children ↔
        c ∈ (m.info h).children ∧ ¬(c = txid ∧ txin.prevout.hash = h) := by
  have hinfo : ∀ txs, (m.forgetInput txid txin).nonLockedTxs = txs →
      (m.forgetInput txid txin).info h = txs.getD h {} := by
    intro txs heq
    rw [info, heq]
  rcases forgetInput_cases m txid txin with ⟨heq, hnew⟩ | ⟨heq, htx, honly⟩ | ⟨heq, -⟩
  · rw [hinfo _ heq]
    refine ⟨rfl, fun c => ⟨fun hc => ⟨hc, ?_⟩, And.left⟩⟩
    rintro ⟨-, rfl⟩
    rw [ExtTreeMap.getD_eq_fallback hnew] at hc
    simp at hc
  · rw [hinfo _ heq, info_erase]
    by_cases hk : txin.prevout.hash = h
    · subst hk
      rw [if_pos rfl, htx]
      refine ⟨rfl, fun c => iff_of_false (by simp) ?_⟩
      rintro ⟨hc, hne⟩
      exact hne ⟨honly c hc, rfl⟩
    · simp [hk]
  · have hset := info_setInfo m h txin.prevout.hash
      {m.info txin.prevout.hash with children := (m.info txin.prevout.hash).children.erase txid}
    rw [info] at hset
    rw [hinfo _ heq, hset]
    by_cases hk : txin.prevout.hash = h
    · subst hk
      rw [if_pos rfl]
      refine ⟨rfl, fun c => ?_⟩
      simp only [OrdMap.mem_set_erase, and_true]
      rw [and_comm, ne_comm]
    · simp [hk]

theorem tx_forgetInputs : ((ins.foldl (forgetInput txid) m).info h).tx = (m.info h).tx := by
  induction ins generalizing m with
  | nil => rfl
  | cons txin ins ih => rw [List.foldl_cons, ih, (info_forgetInput m txid h txin).1]

theorem mem_children_forgetInputs (c : uint256) :
    c ∈ ((ins.foldl (forgetInput txid) m).info h).children ↔
      c ∈ (m.info h).children ∧ ¬(c = txid ∧ ∃ txin ∈ ins, txin.prevout.hash = h) := by
  induction ins generalizing m with
  | nil => simp
  | cons txin ins ih =>
    rw [List.foldl_cons, ih, (info_forgetInput m txid h txin).2, List.exists_mem_cons_iff,
      and_or_left, not_or, and_assoc]

theorem outpoints_forgetInputs (o : COutPoint) :
    (ins.foldl (forgetInput txid) m).nonLockedTxsByOutpoints[o]? =
      if o ∈ ins.map CTxIn.prevout then none else m.nonLockedTxsByOutpoints[o]? := by
  induction ins generalizing m with
  | nil => rfl
  | cons txin ins ih =>
    have hone : (m.forgetInput txid txin).nonLockedTxsByOutpoints[o]? =
        if txin.prevout = o then none else m.nonLockedTxsByOutpoints[o]? :=
      OrdMap.getElem?_erase _ _ _
    rw [List.foldl_cons, ih, hone, List.map_cons]
    by_cases ho : txin.prevout = o
    · simp [ho]
    · simp [ho, Ne.symm ho]

/-- Every entry has a transaction or a child. -/
def Lively (m : CInstantSendManager B Sig) : Prop :=
  ∀ h, h ∈ m.nonLockedTxs → (m.info h).tx ≠ none ∨ ∃ c, c ∈ (m.info h).children

variable {m}

theorem Lively.forgetInput (hm : Lively m) (txin : CTxIn) : Lively (m.forgetInput txid txin) := by
  intro h hh
  obtain ⟨htx, hchildren⟩ := info_forgetInput m txid h txin
  rw [htx]
  simp only [hchildren]
  by_cases hk : txin.prevout.hash = h
  · subst hk
    rcases forgetInput_cases m txid txin with ⟨heq, hnew⟩ | ⟨heq, -, -⟩ | ⟨heq, hlive⟩
    · rw [heq] at hh
      exact absurd hh hnew
    · rw [heq, ExtTreeMap.mem_erase] at hh
      exact absurd (LawfulEqCmp.compare_eq_iff_eq.mpr rfl) hh.1
    · refine hlive.imp_right fun ⟨c, hc⟩ => ⟨c, ?_⟩
      have hc := OrdMap.mem_set_erase.mp hc
      exact ⟨hc.2, fun heq => hc.1 heq.1.symm⟩
  · have hold : h ∈ m.nonLockedTxs := by
      rcases forgetInput_cases m txid txin with ⟨heq, -⟩ | ⟨heq, -, -⟩ | ⟨heq, -⟩
      · rwa [heq] at hh
      · rw [heq] at hh
        exact ExtTreeMap.mem_of_mem_erase hh
      · rw [heq, mem_setInfo] at hh
        exact hh.resolve_left hk
    simpa [hk] using hm h hold

theorem Lively.forgetInputs (hm : Lively m) :
    Lively (ins.foldl (CInstantSendManager.forgetInput txid) m) := by
  induction ins generalizing m with
  | nil => exact hm
  | cons txin ins ih => exact ih (hm.forgetInput txid txin)

/-! ### What the two calls make of the entries -/

variable (m)

/-- The inputs of the transaction of an entry. -/
def inputsOf : List CTxIn := ((m.info txid).tx).elim [] CTransaction.vin

theorem addNonLockedTx_known {tx : CTransaction} (pindexMined : Option B)
    (hm : tx.hash ∈ m.nonLockedTxs) :
    (∀ h, ((m.addNonLockedTx tx pindexMined).info h).tx = (m.info h).tx ∧
        ((m.addNonLockedTx tx pindexMined).info h).children = (m.info h).children) ∧
      (m.addNonLockedTx tx pindexMined).nonLockedTxsByOutpoints = m.nonLockedTxsByOutpoints ∧
      ∀ h, h ∈ (m.addNonLockedTx tx pindexMined).nonLockedTxs ↔ h ∈ m.nonLockedTxs := by
  simp only [addNonLockedTx, hm, if_true, info_retryPendingLock, outpoints_retryPendingLock,
    nonLockedTxs_retryPendingLock, info_setInfo, mem_setInfo]
  refine ⟨fun h => ?_, rfl, fun h => or_iff_right_of_imp fun hk => hk ▸ hm⟩
  split_ifs with hk
  · rw [hk]
    exact ⟨rfl, rfl⟩
  · exact ⟨rfl, rfl⟩

theorem addNonLockedTx_new {tx : CTransaction} (pindexMined : Option B)
    (hm : tx.hash ∉ m.nonLockedTxs) :
    (∀ h, ((m.addNonLockedTx tx pindexMined).info h).tx =
        if tx.hash = h then some tx else (m.info h).tx) ∧
      (∀ h c, c ∈ ((m.addNonLockedTx tx pindexMined).info h).children ↔
        (c = tx.hash ∧ ∃ txin ∈ tx.vin, txin.prevout.hash = h) ∨ c ∈ (m.info h).children) ∧
      (∀ o, (m.addNonLockedTx tx pindexMined).nonLockedTxsByOutpoints[o]? =
        if o ∈ tx.vin.map CTxIn.prevout then some ((m.nonLockedTxsByOutpoints[o]?).getD tx.hash)
        else m.nonLockedTxsByOutpoints[o]?) ∧
      ∀ h, h ∈ (m.addNonLockedTx tx pindexMined).nonLockedTxs →
        (∃ txin ∈ tx.vin, txin.prevout.hash = h) ∨ tx.hash = h ∨ h ∈ m.nonLockedTxs := by
  simp only [addNonLockedTx, hm, if_false, info_retryPendingLock, outpoints_retryPendingLock,
    nonLockedTxs_retryPendingLock, tx_recordInputs, mem_children_recordInputs,
    outpoints_recordInputs, info_setInfo]
  refine ⟨fun h => ?_, fun h c => ?_, fun o => rfl, fun h hh => ?_⟩
  · split_ifs <;> rfl
  · split_ifs with hk
    · rw [hk]
    · rfl
  · exact (mem_recordInputs _ _ _ _ hh).imp_right (mem_setInfo _ _ _ _).mp

theorem removeNonLockedTx_unknown (hm : txid ∉ m.nonLockedTxs) (retryChildren : Bool) :
    m.removeNonLockedTx txid retryChildren = m := by
  rw [removeNonLockedTx, OrdMap.notMem_iff.mp hm]

/-- What is left of the manager once the inputs are forgotten. -/
theorem removeNonLockedTx_known (hm : txid ∈ m.nonLockedTxs) (retryChildren : Bool) :
    ∃ retry, m.removeNonLockedTx txid retryChildren =
      {(m.inputsOf txid).foldl (CInstantSendManager.forgetInput txid)
          {m with pendingRetryTxs := retry} with
        nonLockedTxs := ((m.inputsOf txid).foldl (CInstantSendManager.forgetInput txid)
          {m with pendingRetryTxs := retry}).nonLockedTxs.erase txid} := by
  obtain ⟨info, hget⟩ := OrdMap.mem_iff_exists.mp hm
  refine ⟨(if retryChildren then info.children.foldl (fun s c => s.insert c) m.pendingRetryTxs
    else m.pendingRetryTxs).erase txid, ?_⟩
  rw [removeNonLockedTx, hget, inputsOf, info_of_getElem? _ hget]
  cases htx : info.tx with
  | none => simp only [htx, Option.elim, List.foldl_nil]
  | some tx => simp only [htx, Option.elim]

theorem removeNonLockedTx_spec (retryChildren : Bool) :
    (∀ h, ((m.removeNonLockedTx txid retryChildren).info h).tx =
        if txid = h then none else (m.info h).tx) ∧
      (∀ h c, c ∈ ((m.removeNonLockedTx txid retryChildren).info h).children ↔
        txid ≠ h ∧ c ∈ (m.info h).children ∧
          ¬(c = txid ∧ ∃ txin ∈ m.inputsOf txid, txin.prevout.hash = h)) ∧
      (∀ o, (m.removeNonLockedTx txid retryChildren).nonLockedTxsByOutpoints[o]? =
        if o ∈ (m.inputsOf txid).map CTxIn.prevout then none
        else m.nonLockedTxsByOutpoints[o]?) ∧
      (Lively m → Lively (m.removeNonLockedTx txid retryChildren)) := by
  by_cases hm : txid ∈ m.nonLockedTxs
  · obtain ⟨retry, heq⟩ := removeNonLockedTx_known m txid hm retryChildren
    have hinfo : ∀ h, (m.removeNonLockedTx txid retryChildren).info h = if txid = h then {} else
        ((m.inputsOf txid).foldl (CInstantSendManager.forgetInput txid)
          {m with pendingRetryTxs := retry}).info h := by
      intro h
      rw [heq]
      exact info_erase _ _ _
    refine ⟨fun h => ?_, fun h c => ?_, fun o => ?_, fun hlive h hh => ?_⟩
    · rw [hinfo]
      split_ifs
      · rfl
      · exact tx_forgetInputs _ _ _ _
    · rw [hinfo]
      split_ifs with hk
      · exact iff_of_false ExtTreeSet.not_mem_empty fun hc => hc.1 hk
      · rw [mem_children_forgetInputs]
        exact (and_iff_right hk).symm
    · rw [heq]
      exact outpoints_forgetInputs _ _ _ _
    · have hmem : h ∈ (((m.inputsOf txid).foldl (CInstantSendManager.forgetInput txid)
          {m with pendingRetryTxs := retry}).nonLockedTxs.erase txid) := by
        rwa [heq] at hh
      rw [ExtTreeMap.mem_erase] at hmem
      have hk : txid ≠ h := fun hk => hmem.1 (LawfulEqCmp.compare_eq_iff_eq.mpr hk)
      rw [hinfo, if_neg hk]
      exact Lively.forgetInputs txid _ (m := {m with pendingRetryTxs := retry}) hlive h hmem.2
  · rw [removeNonLockedTx_unknown m txid hm]
    have hinfo := info_of_notMem txid hm
    have hins : m.inputsOf txid = [] := by rw [inputsOf, hinfo]; rfl
    rw [hins]
    refine ⟨fun h => ?_, fun h c => ?_, fun o => rfl, id⟩
    · split_ifs with hk
      · rw [← hk, hinfo]
      · rfl
    · constructor
      · intro hc
        refine ⟨?_, hc, by simp⟩
        rintro rfl
        rw [hinfo] at hc
        exact ExtTreeSet.not_mem_empty hc
      · exact fun hc => hc.2.1

end CInstantSendManager

/-! ### Runs -/

/-- A call that tracks a transaction or stops tracking it. -/
inductive TrackingCall (B : Type) where
  | addNonLockedTx (tx : CTransaction) (pindexMined : Option B)
  | removeNonLockedTx (txid : uint256) (retryChildren : Bool)

/-- The transactions that have been added and not been removed since. -/
abbrev Tracked := uint256 → Option CTransaction

def spends (tx : CTransaction) (txid : uint256) : Prop := ∃ txin ∈ tx.vin, txin.prevout.hash = txid

def Tracked.after (tracked : Tracked) : TrackingCall B → Tracked
  | .addNonLockedTx tx _ => fun h => if tx.hash = h then some ((tracked h).getD tx) else tracked h
  | .removeNonLockedTx txid _ => fun h => if txid = h then none else tracked h

theorem Tracked.after_add (tracked : Tracked) (tx : CTransaction) (pindexMined : Option B)
    (h : uint256) : tracked.after (.addNonLockedTx tx pindexMined) h =
      if tx.hash = h then some ((tracked h).getD tx) else tracked h := rfl

theorem Tracked.after_remove (tracked : Tracked) (txid : uint256) (retryChildren : Bool)
    (h : uint256) :
    tracked.after (.removeNonLockedTx txid retryChildren : TrackingCall B) h =
      if txid = h then none else tracked h := rfl

def CInstantSendManager.after (m : CInstantSendManager B Sig) :
    TrackingCall B → CInstantSendManager B Sig
  | .addNonLockedTx tx pindexMined => m.addNonLockedTx tx pindexMined
  | .removeNonLockedTx txid retryChildren => m.removeNonLockedTx txid retryChildren

/-- The tables say what the tracked transactions say. -/
structure Exact (tracked : Tracked) (m : CInstantSendManager B Sig) : Prop where
  tx : ∀ h, (m.info h).tx = tracked h
  listed : ∀ p c tx, tracked p ≠ none → tracked c = some tx → spends tx p →
    c ∈ (m.info p).children
  sound : ∀ p c, c ∈ (m.info p).children → ∃ tx, tracked c = some tx ∧ spends tx p
  outpoint : ∀ o h, m.nonLockedTxsByOutpoints[o]? = some h ↔
    ∃ tx, tracked h = some tx ∧ o ∈ tx.vin.map CTxIn.prevout

/-- What a transaction must meet when it is added: it is tracked already, or none of
those tracked spends one of its outputs or one of its inputs. -/
def Clean (tracked : Tracked) : TrackingCall B → Prop
  | .addNonLockedTx tx _ => tracked tx.hash ≠ none ∨ ∀ c child, tracked c = some child →
      ¬spends child tx.hash ∧ ∀ o ∈ tx.vin.map CTxIn.prevout, o ∉ child.vin.map CTxIn.prevout
  | .removeNonLockedTx _ _ => True

variable {tracked : Tracked} {m : CInstantSendManager B Sig}

theorem Exact.removeNonLockedTx (h : Exact tracked m) (txid : uint256) (retryChildren : Bool) :
    Exact (tracked.after (.removeNonLockedTx txid retryChildren : TrackingCall B))
      (m.removeNonLockedTx txid retryChildren) := by
  obtain ⟨htx, hchildren, hout, -⟩ := m.removeNonLockedTx_spec txid retryChildren
  have hinputs : m.inputsOf txid = (tracked txid).elim [] CTransaction.vin := by
    rw [CInstantSendManager.inputsOf, h.tx]
  have hspent : ∀ tx p, tracked txid = some tx →
      (spends tx p ↔ ∃ txin ∈ m.inputsOf txid, txin.prevout.hash = p) := by
    intro tx p ht
    rw [hinputs, ht]
    rfl
  refine ⟨fun k => ?_, fun p c tx hp hc hs => ?_, fun p c hc => ?_, fun o k => ?_⟩
  · rw [htx, Tracked.after_remove, h.tx]
  · simp only [Tracked.after_remove, ne_eq, ite_eq_left_iff, not_forall] at hp hc
    obtain ⟨hne, hp⟩ := hp
    have hck : txid ≠ c := by
      intro hk
      simp [hk] at hc
    rw [if_neg hck] at hc
    exact (hchildren p c).mpr ⟨hne, h.listed p c tx hp hc hs, fun heq => hck heq.1.symm⟩
  · obtain ⟨hne, hc, hnot⟩ := (hchildren p c).mp hc
    obtain ⟨tx, ht, hs⟩ := h.sound p c hc
    have hck : txid ≠ c := by
      rintro rfl
      exact hnot ⟨rfl, (hspent tx p ht).mp hs⟩
    exact ⟨tx, by rw [Tracked.after_remove, if_neg hck, ht], hs⟩
  · have hold : o ∈ (m.inputsOf txid).map CTxIn.prevout ↔
        m.nonLockedTxsByOutpoints[o]? = some txid := by
      rw [h.outpoint, hinputs]
      cases tracked txid <;> simp
    rw [hout]
    by_cases ho : o ∈ (m.inputsOf txid).map CTxIn.prevout
    · rw [if_pos ho]
      refine iff_of_false (by simp) ?_
      rintro ⟨tx, ht, hin⟩
      rw [Tracked.after_remove] at ht
      split_ifs at ht with hk
      have hother := (h.outpoint o k).mpr ⟨tx, ht, hin⟩
      rw [hold.mp ho, Option.some.injEq] at hother
      exact hk hother
    · rw [if_neg ho, h.outpoint]
      simp only [Tracked.after_remove]
      refine exists_congr fun tx => and_congr_left fun hin => ?_
      split_ifs with hk
      · subst hk
        refine iff_of_false (fun ht => ho (hold.mpr ?_)) (by simp)
        exact (h.outpoint o txid).mpr ⟨tx, ht, hin⟩
      · rfl

theorem Exact.addNonLockedTx_tracked (h : Exact tracked m) (hlive : m.Lively) {tx : CTransaction}
    (pindexMined : Option B) (htracked : tracked tx.hash ≠ none) :
    Exact (tracked.after (.addNonLockedTx tx pindexMined)) (m.addNonLockedTx tx pindexMined) ∧
      (m.addNonLockedTx tx pindexMined).Lively := by
  have hmem : tx.hash ∈ m.nonLockedTxs := by
    by_contra hnew
    have hinfo := h.tx tx.hash
    rw [CInstantSendManager.info_of_notMem _ hnew] at hinfo
    exact htracked hinfo.symm
  obtain ⟨hinfo, hout, hmem'⟩ := m.addNonLockedTx_known pindexMined hmem
  have hsame : tracked.after (.addNonLockedTx tx pindexMined) = tracked := by
    funext k
    rw [Tracked.after_add]
    split_ifs with hk
    · subst hk
      obtain ⟨t, ht⟩ := Option.ne_none_iff_exists'.mp htracked
      rw [ht, Option.getD_some]
    · rfl
  rw [hsame]
  refine ⟨⟨fun k => ?_, fun p c t hp hc hs => ?_, fun p c hc => ?_, fun o k => ?_⟩, fun k hk => ?_⟩
  · rw [(hinfo k).1, h.tx]
  · rw [(hinfo p).2]
    exact h.listed p c t hp hc hs
  · rw [(hinfo p).2] at hc
    exact h.sound p c hc
  · rw [hout, h.outpoint]
  · rw [(hinfo k).1, (hinfo k).2]
    exact hlive k ((hmem' k).mp hk)

/-- No entry stands for a transaction none of whose outputs is spent. -/
theorem Exact.notMem (h : Exact tracked m) (hlive : m.Lively) {txid : uint256}
    (hnot : tracked txid = none)
    (hspent : ∀ c child, tracked c = some child → ¬spends child txid) : txid ∉ m.nonLockedTxs := by
  intro hmem
  rcases hlive txid hmem with htx | ⟨c, hc⟩
  · rw [h.tx] at htx
    exact htx hnot
  · obtain ⟨child, hchild, hs⟩ := h.sound txid c hc
    exact hspent c child hchild hs

theorem Exact.addNonLockedTx_new (h : Exact tracked m) (hlive : m.Lively) {tx : CTransaction}
    (pindexMined : Option B) (hnot : tracked tx.hash = none)
    (hclean : ∀ c child, tracked c = some child →
      ¬spends child tx.hash ∧ ∀ o ∈ tx.vin.map CTxIn.prevout, o ∉ child.vin.map CTxIn.prevout) :
    Exact (tracked.after (.addNonLockedTx tx pindexMined)) (m.addNonLockedTx tx pindexMined) ∧
      (m.addNonLockedTx tx pindexMined).Lively := by
  have hnew := h.notMem hlive hnot fun c child hchild => (hclean c child hchild).1
  obtain ⟨htx, hchildren, hout, hmem⟩ := m.addNonLockedTx_new pindexMined hnew
  have hself : tracked.after (.addNonLockedTx tx pindexMined) tx.hash = some tx := by
    rw [Tracked.after_add, if_pos rfl, hnot, Option.getD_none]
  have hother : ∀ k, tx.hash ≠ k →
      tracked.after (.addNonLockedTx tx pindexMined) k = tracked k := by
    intro k hk
    rw [Tracked.after_add, if_neg hk]
  have hapart : ∀ k t, tracked k = some t → tx.hash ≠ k := by
    rintro k t ht rfl
    rw [hnot] at ht
    contradiction
  refine ⟨⟨fun k => ?_, fun p c t hp hc hs => ?_, fun p c hc => ?_, fun o k => ?_⟩, fun k hk => ?_⟩
  · rw [htx, h.tx]
    split_ifs with hk
    · rw [← hk, hself]
    · rw [hother k hk]
  · rw [hchildren]
    by_cases hc' : tx.hash = c
    · subst hc'
      rw [hself, Option.some.injEq] at hc
      subst hc
      exact Or.inl ⟨rfl, hs⟩
    · rw [hother c hc'] at hc
      by_cases hp' : tx.hash = p
      · subst hp'
        exact absurd hs (hclean c t hc).1
      · rw [hother p hp'] at hp
        exact Or.inr (h.listed p c t hp hc hs)
  · rcases (hchildren p c).mp hc with ⟨rfl, hs⟩ | hc
    · exact ⟨tx, hself, hs⟩
    · obtain ⟨t, ht, hs⟩ := h.sound p c hc
      exact ⟨t, by rw [hother c (hapart c t ht), ht], hs⟩
  · rw [hout]
    by_cases ho : o ∈ tx.vin.map CTxIn.prevout
    · have hfree : m.nonLockedTxsByOutpoints[o]? = none := by
        rw [Option.eq_none_iff_forall_ne_some]
        intro c hget
        obtain ⟨child, hchild, hin⟩ := (h.outpoint o c).mp hget
        exact (hclean c child hchild).2 o ho hin
      rw [if_pos ho, hfree, Option.getD_none, Option.some.injEq]
      constructor
      · rintro rfl
        exact ⟨tx, hself, ho⟩
      · rintro ⟨t, ht, hin⟩
        by_contra hk
        rw [hother k hk] at ht
        exact (hclean k t ht).2 o ho hin
    · rw [if_neg ho, h.outpoint]
      refine exists_congr fun t => and_congr_left fun hin => ?_
      by_cases hk : tx.hash = k
      · subst hk
        rw [hself, hnot, Option.some.injEq]
        refine iff_of_false (by simp) ?_
        rintro rfl
        exact ho hin
      · rw [hother k hk]
  · rw [htx]
    by_cases hself : tx.hash = k
    · rw [if_pos hself]
      exact Or.inl (Option.some_ne_none tx)
    · rw [if_neg hself]
      rcases hmem k hk with hs | heq | hold
      · exact Or.inr ⟨tx.hash, (hchildren k tx.hash).mpr (Or.inl ⟨rfl, hs⟩)⟩
      · exact absurd heq hself
      · exact (hlive k hold).imp_right fun ⟨c, hc⟩ => ⟨c, (hchildren k c).mpr (Or.inr hc)⟩

/-- A transaction that does not meet the condition is not tracked as it should be. -/
theorem Exact.not_addNonLockedTx (h : Exact tracked m) {tx : CTransaction}
    (pindexMined : Option B) (hclean : ¬Clean tracked (.addNonLockedTx tx pindexMined)) :
    ¬Exact (tracked.after (.addNonLockedTx tx pindexMined)) (m.addNonLockedTx tx pindexMined) := by
  intro h'
  simp only [Clean, not_or, not_not, not_forall, not_and_or] at hclean
  obtain ⟨hnot, c, child, hchild, hbad⟩ := hclean
  have hself : tracked.after (.addNonLockedTx tx pindexMined) tx.hash = some tx := by
    rw [Tracked.after_add, if_pos rfl, hnot, Option.getD_none]
  have hc : tx.hash ≠ c := by
    rintro rfl
    rw [hnot] at hchild
    contradiction
  have hchild' : tracked.after (.addNonLockedTx tx pindexMined) c = some child := by
    rw [Tracked.after_add, if_neg hc, hchild]
  rcases hbad with hs | ⟨o, ho, hin⟩
  · by_cases hmem : tx.hash ∈ m.nonLockedTxs
    · -- the entry that the child has made gets no transaction
      have htx := ((m.addNonLockedTx_known pindexMined hmem).1 tx.hash).1
      rw [h'.tx, hself, h.tx, hnot] at htx
      contradiction
    · -- a new entry has none of the children that came before
      have hlisted := h'.listed tx.hash c child (by rw [hself]; simp) hchild' hs
      rw [(m.addNonLockedTx_new pindexMined hmem).2.1,
        CInstantSendManager.info_of_notMem _ hmem] at hlisted
      rcases hlisted with ⟨rfl, -⟩ | hempty
      · exact hc rfl
      · exact ExtTreeSet.not_mem_empty hempty
  · -- an outpoint goes with one transaction only
    have hfirst := (h'.outpoint o tx.hash).mpr ⟨tx, hself, ho⟩
    have hsecond := (h'.outpoint o c).mpr ⟨child, hchild', hin⟩
    rw [hfirst, Option.some.injEq] at hsecond
    exact hc hsecond

/-- A call, and what it does to the transactions that are tracked. -/
def track (s : Tracked × CInstantSendManager B Sig) (call : TrackingCall B) :
    Unit × (Tracked × CInstantSendManager B Sig) :=
  ((), s.1.after call, s.2.after call)

/-- A manager that tracks nothing. -/
def trackingNothing (m : CInstantSendManager B Sig) : Tracked × CInstantSendManager B Sig :=
  (fun _ => none, {m with nonLockedTxs := ∅, nonLockedTxsByOutpoints := ∅})

theorem exact_trackingNothing (m : CInstantSendManager B Sig) :
    Exact (trackingNothing m).1 (trackingNothing m).2 ∧ (trackingNothing m).2.Lively := by
  have hinfo : ∀ h, (trackingNothing m).2.info h = {} := fun h =>
    CInstantSendManager.info_of_notMem h ExtTreeMap.not_mem_empty
  refine ⟨⟨fun h => ?_, fun p c tx hp => absurd rfl hp, fun p c hc => ?_, fun o h => ?_⟩,
    fun h hh => absurd hh ExtTreeMap.not_mem_empty⟩
  · rw [hinfo]
    rfl
  · rw [hinfo] at hc
    exact absurd hc ExtTreeSet.not_mem_empty
  · refine iff_of_false (by simp [trackingNothing]) ?_
    rintro ⟨tx, htx, -⟩
    contradiction

theorem exact_track {s : Tracked × CInstantSendManager B Sig} (h : Exact s.1 s.2)
    (hlive : s.2.Lively) {call : TrackingCall B} (hclean : Clean s.1 call) :
    Exact (track s call).2.1 (track s call).2.2 ∧ (track s call).2.2.Lively := by
  cases call with
  | removeNonLockedTx txid retryChildren =>
    exact ⟨h.removeNonLockedTx txid retryChildren,
      (s.2.removeNonLockedTx_spec txid retryChildren).2.2.2 hlive⟩
  | addNonLockedTx tx pindexMined =>
    by_cases htracked : s.1 tx.hash = none
    · have hnone := hclean.resolve_left fun hne => hne htracked
      exact h.addNonLockedTx_new hlive pindexMined htracked hnone
    · exact h.addNonLockedTx_tracked hlive pindexMined htracked

theorem not_exact_track {s : Tracked × CInstantSendManager B Sig} (h : Exact s.1 s.2)
    {call : TrackingCall B} (hclean : ¬Clean s.1 call) :
    ¬Exact (track s call).2.1 (track s call).2.2 := by
  cases call with
  | removeNonLockedTx txid retryChildren => exact absurd trivial hclean
  | addNonLockedTx tx pindexMined => exact h.not_addNonLockedTx pindexMined hclean

/-- The tables are exact after every call of a run exactly when no transaction is
added that spends an input of a tracked one, or that a tracked one spends. -/
theorem tracking_exact_iff (m : CInstantSendManager B Sig) (calls : List (TrackingCall B)) :
    (∀ past, past <+: calls → Exact (Runs.final track (trackingNothing m) past).1
        (Runs.final track (trackingNothing m) past).2) ↔
      Runs.EveryStep track (fun s call => Clean s.1 call) (trackingNothing m) calls := by
  refine Runs.forall_prefix_iff
    (fun s : Tracked × CInstantSendManager B Sig => Exact s.1 s.2 ∧ s.2.Lively)
    (fun s => Exact s.1 s.2) (fun s hs => hs.1) (fun s call hs hclean => ?_)
    (fun s call hs hclean => ?_) (exact_trackingNothing m) calls
  · exact exact_track hs.1 hs.2 hclean
  · exact not_exact_track hs.1 hclean

section Examples

def parentTx : CTransaction := ⟨1, 0, [⟨⟨7, 0⟩⟩], [], []⟩

def childTx : CTransaction := ⟨2, 0, [⟨⟨1, 0⟩⟩], [], []⟩

/-- The child comes before its parent: the parent is added to the entry that the child
has made, and neither its transaction nor its input is recorded. -/
theorem tracking_not_exact : ¬∀ calls : List (TrackingCall Unit),
    Exact (Runs.final track (trackingNothing ({} : CInstantSendManager Unit Unit)) calls).1
      (Runs.final track (trackingNothing ({} : CInstantSendManager Unit Unit)) calls).2 := by
  intro h
  have htx := (h [.addNonLockedTx childTx none, .addNonLockedTx parentTx none]).tx parentTx.hash
  exact absurd htx (by decide +kernel)

end Examples

end BabaChain.InstantSend
