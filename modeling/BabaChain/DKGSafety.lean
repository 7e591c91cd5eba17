import BabaChain.DKGSession
import BabaChain.Lib.Runs
import Mathlib

/-! The accesses of a session through all of its phases: when one of them fails. -/
namespace BabaChain.LLMQ.DKG
open Checked

variable {PK SK Blob Sig : Type}

/-! ### Phases -/

inductive Phase
  | initialized
  | contribute
  | complain
  | justify
  | commit
  | finalize
deriving DecidableEq, Repr

inductive Message (PK SK Blob Sig : Type)
  | contribution (qc : CDKGContribution PK Blob)
  | complaint (qc : CDKGComplaint)
  | justification (qj : CDKGJustification SK)
  | prematureCommitment (qc : CDKGPrematureCommitment PK Sig)

/-- The session of a node with the phase it is in, and the fault that has ended it. -/
structure Node (PK SK Blob Sig : Type) where
  session : CDKGSession PK SK Blob Sig
  phase : Phase := .initialized
  fault : Option Fault := none

/-- The next phase begins, with what is known of the connections, or a message is received. -/
inductive Call (PK SK Blob Sig : Type)
  | next (badConnection : uint256 → Bool)
  | message (msg : Message PK SK Blob Sig)

def Node.advance {α : Type} (n : Node PK SK Blob Sig) (phase : Phase)
    (r : Except Fault (α × CDKGSession PK SK Blob Sig)) : Node PK SK Blob Sig :=
  match r with
  | .ok (_, s) => {n with session := s, phase := phase}
  | .error e => {n with fault := some e}

variable (env : Session PK SK Blob Sig)

/-! ### What holds of a session -/

/-- The vectors fit each other and the parameters, and what is stored was checked. -/
structure Sound (s : CDKGSession PK SK Blob Sig) : Prop where
  vvecs : s.receivedVvecs.length = s.members.length
  shares : s.receivedSkContributions.length = s.members.length
  encrypted : s.vecEncryptedContributions.length = s.members.length
  size : s.members.length ≤ env.params.size
  me : ∀ i ∈ s.myIdx, i < s.members.length
  threshold : ∀ p ∈ s.verifiedVvecs, p.2.length = env.params.threshold
  pending : ∀ idx ∈ s.pendingContributionVerifications, idx < s.members.length ∧
    ∃ blobs, s.vecEncryptedContributions[idx]? = some (some blobs)
  complaints : ∀ m ∈ s.members, ∀ qc ∈ m.complaints,
    qc.complainForMembers.length = env.params.size
  commitments : ∀ qc ∈ s.prematureCommitments, env.params.minSize ≤ qc.countValidMembers ∧
    ∃ m ∈ s.members, m.proTxHash = qc.proTxHash

variable {env} {s : CDKGSession PK SK Blob Sig}

/-- A member that keeps its hash and whose complaints are still of the right size. -/
def Keeps (size : ℕ) (m m' : CDKGMember PK SK Blob Sig) : Prop :=
  m'.proTxHash = m.proTxHash ∧ ∀ qc ∈ m'.complaints,
    qc ∈ m.complaints ∨ qc.complainForMembers.length = size

theorem keeps_refl (size : ℕ) (m : CDKGMember PK SK Blob Sig) : Keeps size m m :=
  ⟨rfl, fun _ hqc => Or.inl hqc⟩

/-- Members that are changed one by one. -/
theorem Sound.members (h : Sound env s) {members : List (CDKGMember PK SK Blob Sig)}
    (hkeeps : List.Forall₂ (Keeps env.params.size) s.members members) :
    Sound env {s with members := members} := by
  have hlength : s.members.length = members.length := hkeeps.length_eq
  have hmem : ∀ m' ∈ members, ∃ m ∈ s.members, Keeps env.params.size m m' := by
    intro m' hm'
    obtain ⟨i, hi, rfl⟩ := List.mem_iff_getElem.mp hm'
    exact ⟨s.members[i], List.getElem_mem _, (List.forall₂_iff_get.mp hkeeps).2 i (by omega) hi⟩
  exact
    { vvecs := h.vvecs.trans hlength
      shares := h.shares.trans hlength
      encrypted := h.encrypted.trans hlength
      size := hlength ▸ h.size
      me := fun i hi => hlength ▸ h.me i hi
      threshold := h.threshold
      pending := fun idx hidx => hlength ▸ h.pending idx hidx
      complaints := by
        intro m' hm' qc hqc
        obtain ⟨m, hm, hkeep⟩ := hmem m' hm'
        rcases hkeep.2 qc hqc with hold | hnew
        · exact h.complaints m hm qc hold
        · exact hnew
      commitments := by
        intro qc hqc
        obtain ⟨hcount, m, hm, hhash⟩ := h.commitments qc hqc
        obtain ⟨i, hi, rfl⟩ := List.mem_iff_getElem.mp hm
        have hi' : i < members.length := hlength ▸ hi
        refine ⟨hcount, members[i], List.getElem_mem _, ?_⟩
        exact ((List.forall₂_iff_get.mp hkeeps).2 i hi hi').1.trans hhash }

theorem forall₂_set {α : Type} {R : α → α → Prop} (hrefl : ∀ a, R a a) {l : List α} {i : ℕ}
    {a b : α} (ha : l[i]? = some a) (hR : R a b) : List.Forall₂ R l (l.set i b) := by
  rw [List.forall₂_iff_get]
  refine ⟨(List.length_set).symm, fun j hj hj' => ?_⟩
  rw [List.get_eq_getElem, List.get_eq_getElem, List.getElem_set]
  split_ifs with hij
  · subst hij
    rw [List.getElem?_eq_getElem hj, Option.some.injEq] at ha
    exact ha ▸ hR
  · exact hrefl _

theorem Sound.setMember (h : Sound env s) {idx : ℕ} {m k : CDKGMember PK SK Blob Sig}
    (hm : s.members[idx]? = some m) (hkeeps : Keeps env.params.size m k) :
    Sound env (s.setMember idx k) :=
  h.members (forall₂_set (keeps_refl _) hm hkeeps)

theorem getMember_eq {proTxHash : uint256} {idx : ℕ} {m : CDKGMember PK SK Blob Sig}
    (h : s.getMember proTxHash = some (idx, m)) :
    s.members[idx]? = some m ∧ m.proTxHash = proTxHash := by
  unfold CDKGSession.getMember at h
  obtain ⟨i, hi, hm⟩ := Option.bind_eq_some_iff.mp h
  obtain ⟨m', hm', heq⟩ := Option.map_eq_some_iff.mp hm
  rw [Prod.mk.injEq] at heq
  obtain ⟨rfl, rfl⟩ := heq
  obtain ⟨hlt, hhash, -⟩ := List.findIdx?_eq_some_iff_getElem.mp hi
  rw [List.getElem?_eq_getElem hlt, Option.some.injEq] at hm'
  subst hm'
  exact ⟨List.getElem?_eq_getElem hlt, of_decide_eq_true hhash⟩

theorem passed_iff {quorumHash proTxHash : uint256} {invalid : Bool} :
    (preVerify env s quorumHash proTxHash invalid fun _ => 0).isOk = true ↔
      quorumHash = env.quorumHash ∧ (s.getMember proTxHash).isSome = true ∧ invalid = false := by
  unfold preVerify
  by_cases hhash : quorumHash = env.quorumHash
  · rw [if_neg (not_not.mpr hhash)]
    cases s.getMember proTxHash with
    | none => simp [Except.isOk, Except.toBool]
    | some p =>
      cases invalid with
      | true => simp [Except.isOk, Except.toBool]
      | false => simp [Except.isOk, Except.toBool, hhash]
  · rw [if_pos hhash]
    simp [Except.isOk, Except.toBool, hhash]

/-- What a function leaves of a session: it is still sound, with as many members as before. -/
structure Next (env : Session PK SK Blob Sig) (s s' : CDKGSession PK SK Blob Sig) : Prop where
  sound : Sound env s'
  me : s'.myIdx = s.myIdx
  made : s'.m_sk_contributions = s.m_sk_contributions
  length : s'.members.length = s.members.length

theorem Next.trans {s' s'' : CDKGSession PK SK Blob Sig} (h : Next env s s')
    (h' : Next env s' s'') : Next env s s'' :=
  ⟨h'.sound, h'.me.trans h.me, h'.made.trans h.made, h'.length.trans h.length⟩

theorem Sound.next (h : Sound env s) : Next env s s := ⟨h, rfl, rfl, rfl⟩

theorem Sound.next_members (h : Sound env s) {members : List (CDKGMember PK SK Blob Sig)}
    (hkeeps : List.Forall₂ (Keeps env.params.size) s.members members) :
    Next env s {s with members := members} :=
  ⟨h.members hkeeps, rfl, rfl, hkeeps.length_eq.symm⟩

theorem Sound.next_setMember (h : Sound env s) {idx : ℕ} {m k : CDKGMember PK SK Blob Sig}
    (hm : s.members[idx]? = some m) (hkeeps : Keeps env.params.size m k) :
    Next env s (s.setMember idx k) :=
  h.next_members (forall₂_set (keeps_refl _) hm hkeeps)

/-! ### Calls -/

variable [DecidableEq PK] [DecidableEq SK] [DecidableEq Blob] [DecidableEq Sig]

section Messages

variable (env s)

def Message.phase : Message PK SK Blob Sig → Phase
  | .contribution _ => .contribute
  | .complaint _ => .complain
  | .justification _ => .justify
  | .prematureCommitment _ => .commit

/-- What `PreVerifyMessage` says. -/
def Message.preVerify : Message PK SK Blob Sig → Except Bool Unit
  | .contribution qc => preVerifyContribution env s qc
  | .complaint qc => preVerifyComplaint env s qc
  | .justification qj => preVerifyJustification env s qj
  | .prematureCommitment qc => preVerifyPrematureCommitment env s qc

/-- A message is checked together with its batch, before the others of the batch are received:
how many its sender has sent may have changed since, and nothing else. -/
def Message.passed : Message PK SK Blob Sig → Bool
  | .contribution qc => (DKG.preVerify env s qc.quorumHash qc.proTxHash
      (invalidContribution env s qc) fun _ => 0).isOk
  | .complaint qc => (DKG.preVerify env s qc.quorumHash qc.proTxHash
      (invalidComplaint env qc) fun _ => 0).isOk
  | .justification qj => (DKG.preVerify env s qj.quorumHash qj.proTxHash
      (invalidJustification env s qj) fun _ => 0).isOk
  | .prematureCommitment qc => (DKG.preVerify env s qc.quorumHash qc.proTxHash
      (invalidPrematureCommitment env s qc) fun _ => 0).isOk

def Message.receive :
    Message PK SK Blob Sig → Except Fault (Bool × CDKGSession PK SK Blob Sig)
  | .contribution qc => receiveContribution env s qc
  | .complaint qc => receiveComplaint s qc
  | .justification qj => receiveJustification env s qj
  | .prematureCommitment qc => receivePrematureCommitment env s qc

end Messages

variable (env) in
def Node.next (n : Node PK SK Blob Sig) (badConnection : uint256 → Bool) :
    Node PK SK Blob Sig :=
  match n.phase with
  | .initialized => n.advance .contribute (.ok ((), contribute env n.session))
  | .contribute => n.advance .complain (verifyAndComplain env n.session badConnection)
  | .complain => n.advance .justify (verifyAndJustify env n.session)
  | .justify => n.advance .commit (verifyAndCommit env n.session)
  | .commit => n.advance .finalize ((finalizeCommitments env n.session).map fun fqcs =>
      (fqcs, n.session))
  | .finalize => n

variable (env) in
/-- Nothing follows a fault. Messages of another phase wait, and are dropped with the session. -/
def step (n : Node PK SK Blob Sig) (call : Call PK SK Blob Sig) : Unit × Node PK SK Blob Sig :=
  ((), match call with
  | .next badConnection => if n.fault.isSome then n else n.next env badConnection
  | .message msg =>
    if n.fault.isSome then n
    else if msg.phase = n.phase ∧ msg.passed env n.session = true then
      n.advance n.phase (msg.receive env n.session)
    else n)

variable (env) in
def start (myProTxHash : uint256) : Node PK SK Blob Sig where
  session := CDKGSession.init env myProTxHash

variable (env) in
/-- The node goes on without a fault, and has shares for all members once it has contributed. -/
structure Inv (n : Node PK SK Blob Sig) : Prop where
  fault : n.fault = none
  sound : Sound env n.session
  made : n.session.myIdx.isSome = true → n.phase ≠ .initialized →
    n.session.m_sk_contributions.length = n.session.members.length

omit [DecidableEq PK] [DecidableEq SK] [DecidableEq Blob] [DecidableEq Sig] in
theorem inv_start (myProTxHash : uint256) : Inv env (start env myProTxHash) where
  fault := rfl
  made _ hphase := absurd rfl hphase
  sound :=
    { vvecs := by simp only [start, CDKGSession.init, List.length_map]
      shares := by simp only [start, CDKGSession.init, List.length_map]
      encrypted := by simp only [start, CDKGSession.init, List.length_map]
      size := by
        simp only [start, CDKGSession.init, List.length_map]
        exact env.size_le
      me := by
        intro i hi
        simp only [start, CDKGSession.init, List.length_map, Option.mem_def] at hi ⊢
        split_ifs at hi
        exact (List.findIdx?_eq_some_iff_getElem.mp hi).1
      threshold := fun p hp => absurd hp List.not_mem_nil
      pending := fun idx hidx => absurd hidx List.not_mem_nil
      complaints := by
        intro m hm qc hqc
        obtain ⟨proTxHash, -, rfl⟩ := List.mem_map.mp hm
        exact absurd hqc List.not_mem_nil
      commitments := fun qc hqc => absurd hqc List.not_mem_nil }

/-! ### Contributions -/

/-- Some contribution that is pending, or that of another member, can be verified: the member is
not bad and the node does not complain about it. -/
def Usable (s : CDKGSession PK SK Blob Sig) (idxs : List ℕ) : Prop :=
  ∃ idx ∈ idxs, ∃ m, s.members[idx]? = some m ∧ m.bad = false ∧ m.weComplain = false

omit [DecidableEq PK] [DecidableEq SK] [DecidableEq Blob] [DecidableEq Sig] in
theorem noteShare_next (h : Sound env s) {idx : ℕ} (hidx : idx < s.members.length)
    (skContribution : SK) (valid : Bool) :
    Succeeds (noteShare s idx skContribution valid) (Next env s) := by
  unfold noteShare
  refine (succeeds_index hidx).bind fun m hm => ?_
  cases valid with
  | true =>
    refine succeeds_pure ⟨?_, rfl, rfl, rfl⟩
    exact { h with }
  | false => exact succeeds_pure (h.next_setMember hm (keeps_refl _ m))

omit [DecidableEq PK] [DecidableEq SK] [DecidableEq Blob] [DecidableEq Sig] in
/-- The shares that are pending are there, and some are if one can be verified. -/
theorem pendingShares_spec (h : Sound env s) : Succeeds (pendingShares s) fun shares =>
    (∀ p ∈ shares, p.1 < s.members.length) ∧
      (shares = [] ↔ ¬Usable s s.pendingContributionVerifications) := by
  have hpending := h.pending
  unfold pendingShares
  generalize s.pendingContributionVerifications = idxs at hpending
  suffices hfold : ∀ before : List (ℕ × Option (Vvec PK) × SK),
      (∀ p ∈ before, p.1 < s.members.length) → Succeeds (idxs.foldlM (fun shares idx => do
        let m ← index s.members idx
        if m.bad || m.weComplain then
          return shares
        else
          let vvec ← index s.receivedVvecs idx
          let skContribution ← index s.receivedSkContributions idx
          let encrypted ← index s.vecEncryptedContributions idx
          let _ ← deref encrypted
          return shares ++ [(idx, vvec, skContribution)]) before) fun shares =>
        (∀ p ∈ shares, p.1 < s.members.length) ∧ (shares = [] ↔ before = [] ∧ ¬Usable s idxs) by
    refine (hfold [] fun p hp => absurd hp List.not_mem_nil).mono fun shares hshares => ?_
    exact ⟨hshares.1, hshares.2.trans (and_iff_right rfl)⟩
  induction idxs with
  | nil =>
    intro before hbefore
    refine succeeds_pure ⟨hbefore, ?_⟩
    have hnone : ¬Usable s [] := fun ⟨_, hidx, _⟩ => List.not_mem_nil hidx
    exact (and_iff_left hnone).symm
  | cons idx idxs ih =>
    intro before hbefore
    rw [List.forall_mem_cons] at hpending
    obtain ⟨⟨hidx, blobs, hblobs⟩, hrest⟩ := hpending
    rw [List.foldlM_cons]
    have hcons : ∀ m, s.members[idx]? = some m → (Usable s (idx :: idxs) ↔
        (m.bad = false ∧ m.weComplain = false) ∨ Usable s idxs) := by
      intro m hm
      constructor
      · rintro ⟨i, hi, m', hm', hok⟩
        rcases List.mem_cons.mp hi with rfl | hi
        · rw [hm, Option.some.injEq] at hm'
          exact Or.inl (hm' ▸ hok)
        · exact Or.inr ⟨i, hi, m', hm', hok⟩
      · rintro (hok | ⟨i, hi, hrest⟩)
        · exact ⟨idx, List.mem_cons_self, m, hm, hok⟩
        · exact ⟨i, List.mem_cons_of_mem idx hi, hrest⟩
    refine Succeeds.bind (P := fun shares => (∀ p ∈ shares, p.1 < s.members.length) ∧
      (shares = [] ∧ ¬Usable s idxs ↔ before = [] ∧ ¬Usable s (idx :: idxs))) ?_ ?_
    · refine (succeeds_index hidx).bind fun m hm => ?_
      rw [hcons m hm]
      cases hflags : m.bad || m.weComplain with
      | true =>
        refine succeeds_pure ⟨hbefore, ?_⟩
        rw [Bool.or_eq_true] at hflags
        have hnot : ¬(m.bad = false ∧ m.weComplain = false) := by
          rintro ⟨hbad, hwe⟩
          rw [hbad, hwe] at hflags
          exact hflags.elim Bool.noConfusion Bool.noConfusion
        rw [or_iff_right hnot]
      | false =>
        have hok : m.bad = false ∧ m.weComplain = false := Bool.or_eq_false_iff.mp hflags
        rw [if_neg Bool.false_ne_true]
        refine (succeeds_index (h.vvecs ▸ hidx)).bind fun vvec _ => ?_
        refine (succeeds_index (h.shares ▸ hidx)).bind fun skContribution _ => ?_
        rw [index_eq hblobs]
        refine succeeds_pure ⟨?_, ?_⟩
        · intro p hp
          rcases List.mem_append.mp hp with hp | hp
          · exact hbefore p hp
          · rw [List.mem_singleton.mp hp]
            exact hidx
        · refine iff_of_false (fun hnil => ?_) fun hnil => hnil.2 (Or.inl hok)
          exact List.append_ne_nil_of_right_ne_nil _ (List.cons_ne_nil _ _) hnil.1
    · intro shares hshares
      refine (ih hrest shares hshares.1).mono fun shares' hshares' => ?_
      exact ⟨hshares'.1, hshares'.2.trans hshares.2⟩

omit [DecidableEq SK] [DecidableEq Blob] [DecidableEq Sig] in
theorem verifyContributionShares_succeeds (forId : uint256)
    {shares : List (Option (Vvec PK) × SK)} (hne : shares ≠ []) :
    Succeeds (verifyContributionShares env.worker forId shares) fun _ => True := by
  unfold verifyContributionShares
  split_ifs with hvvecs hempty
  · exact succeeds_ok trivial
  · exact absurd (List.isEmpty_iff.mp hempty) hne
  · exact succeeds_ok trivial

omit [DecidableEq SK] [DecidableEq Blob] [DecidableEq Sig] in
/-- The verification of what is pending fails exactly when nothing of it can be verified. -/
theorem verifyPendingContributions_next (h : Sound env s)
    (husable : s.pendingContributionVerifications ≠ [] →
      Usable s s.pendingContributionVerifications) :
    Succeeds (verifyPendingContributions env s) (Next env s) := by
  unfold verifyPendingContributions
  by_cases hempty : s.pendingContributionVerifications = []
  · rw [if_pos (List.isEmpty_iff.mpr hempty)]
    exact succeeds_ok h.next
  · rw [if_neg (fun hnil => hempty (List.isEmpty_iff.mp hnil))]
    refine (pendingShares_spec h).bind fun shares hshares => ?_
    have hne : shares.map Prod.snd ≠ [] := fun hnil =>
      hshares.2.mp (List.map_eq_nil_iff.mp hnil) (husable hempty)
    refine (verifyContributionShares_succeeds _ hne).bind fun result _ => ?_
    split_ifs
    · exact succeeds_pure h.next
    · refine Succeeds.bind (P := Next env s) ?_ fun s' hs' => ?_
      · refine succeeds_foldlM h.next ?_
        rintro s' ⟨share, valid⟩ hmem hs'
        have hidx := hshares.1 share (List.of_mem_zip hmem).1
        refine (noteShare_next hs'.sound (hs'.length ▸ hidx) _ _).mono fun s'' hs'' => ?_
        exact hs'.trans hs''
      · refine succeeds_pure ⟨?_, hs'.me, hs'.made, hs'.length⟩
        exact { hs'.sound with pending := fun idx hidx => absurd hidx List.not_mem_nil }

omit [DecidableEq SK] [DecidableEq Blob] [DecidableEq Sig] in
theorem verifyPendingContributions_error (h : Sound env s)
    (hne : s.pendingContributionVerifications ≠ [])
    (hnone : ¬Usable s s.pendingContributionVerifications) :
    ∃ e, verifyPendingContributions env s = .error e := by
  unfold verifyPendingContributions
  rw [if_neg (fun hnil => hne (List.isEmpty_iff.mp hnil))]
  obtain ⟨shares, hshares, -, hempty⟩ := pendingShares_spec h
  rw [hempty.mpr hnone] at hshares
  rw [hshares]
  exact ⟨_, rfl⟩

omit [DecidableEq SK] [DecidableEq Blob] [DecidableEq Sig] in
theorem invalidContribution_length {qc : CDKGContribution PK Blob}
    (h : invalidContribution env s qc = false) : qc.vvec.length = env.params.threshold := by
  unfold invalidContribution at h
  rw [Bool.or_eq_false_iff, Bool.or_eq_false_iff] at h
  exact not_not.mp (of_decide_eq_false h.1.2)

/-- The index that a contribution is pending under once it is received, if it comes to that. -/
def pends (env : Session PK SK Blob Sig) (s : CDKGSession PK SK Blob Sig)
    (qc : CDKGContribution PK Blob) : Option ℕ :=
  match s.getMember qc.proTxHash, s.myIdx with
  | some (idx, member), some myIdx =>
    if (member.contributions.insert qc).length ≤ 1 ∧
        ((qc.blobs[myIdx]?).bind env.worker.decrypt).isSome = true then
      some idx
    else
      none
  | _, _ => none

omit [DecidableEq PK] [DecidableEq SK] [DecidableEq Blob] [DecidableEq Sig] in
/-- What can be verified depends on what is said of the members. -/
theorem usable_setMember {s' : CDKGSession PK SK Blob Sig} {idx : ℕ}
    {m k : CDKGMember PK SK Blob Sig} (hm : s.members[idx]? = some m)
    (hmembers : s'.members = s.members.set idx k) (hbad : k.bad = m.bad)
    (hwe : k.weComplain = m.weComplain) (idxs : List ℕ) : Usable s' idxs ↔ Usable s idxs := by
  have hidx := (List.getElem?_eq_some_iff.mp hm).1
  unfold Usable
  rw [hmembers]
  refine exists_congr fun i => and_congr_right fun _ => ?_
  rw [List.getElem?_set]
  by_cases hi : idx = i
  · subst hi
    rw [if_pos rfl, if_pos hidx, hm]
    simp only [Option.some.injEq, exists_eq_left', hbad, hwe]
  · rw [if_neg hi]

omit [DecidableEq SK] [DecidableEq Sig] in
/-- A contribution is stored, or its share waits for its verification, with the others if they
are enough. -/
theorem receiveContribution_cases (h : Sound env s) {qc : CDKGContribution PK Blob}
    (hmember : (s.getMember qc.proTxHash).isSome = true)
    (hlength : qc.vvec.length = env.params.threshold) :
    (pends env s qc = none ∧ Succeeds (receiveContribution env s qc) fun p => Next env s p.2) ∨
    ∃ idx s', pends env s qc = some idx ∧ Next env s s' ∧
      s'.pendingContributionVerifications = s.pendingContributionVerifications ++ [idx] ∧
      (∀ idxs, Usable s' idxs ↔ Usable s idxs) ∧
      receiveContribution env s qc =
        if 32 ≤ s'.pendingContributionVerifications.length then
          verifyPendingContributions env s' >>= fun s'' => pure (true, s'')
        else
          .ok (true, s') := by
  obtain ⟨⟨idx, member⟩, hget⟩ := Option.isSome_iff_exists.mp hmember
  obtain ⟨hm, -⟩ := getMember_eq hget
  have hidx := (List.getElem?_eq_some_iff.mp hm).1
  unfold pends receiveContribution
  rw [hget, deref_some, ok_bind]
  dsimp only
  by_cases hmany : 2 ≤ member.contributions.length
  · left
    rw [if_pos hmany]
    have hinsert : ¬(member.contributions.insert qc).length ≤ 1 := by
      have hle := (List.sublist_insert qc member.contributions).length_le
      omega
    refine ⟨?_, succeeds_pure h.next⟩
    cases s.myIdx with
    | none => rfl
    | some myIdx => exact if_neg fun hpends => hinsert hpends.1
  rw [if_neg hmany]
  by_cases hmore : 1 < (member.contributions.insert qc).length
  · left
    rw [if_pos hmore]
    refine ⟨?_, succeeds_pure (h.next_setMember hm (keeps_refl _ member))⟩
    cases s.myIdx with
    | none => rfl
    | some myIdx => exact if_neg fun hpends => absurd hpends.1 (by omega)
  rw [if_neg hmore, assign_eq (h.vvecs ▸ hidx), ok_bind]
  let m' := {member with contributions := member.contributions.insert qc}
  have hkeeps : Keeps env.params.size member m' := keeps_refl _ member
  have hset : Sound env (s.setMember idx m') := h.setMember hm hkeeps
  have hlen : (s.members.set idx m').length = s.members.length := List.length_set
  have hstored : Sound env {s.setMember idx m' with
      receivedVvecs := s.receivedVvecs.set idx (some qc.vvec)} :=
    { hset with
      vvecs := by
        rw [List.length_set]
        exact hset.vvecs }
  cases hme : s.myIdx with
  | none =>
    left
    exact ⟨rfl, _, rfl, hstored, rfl, rfl, hlen⟩
  | some myIdx =>
    have hwritten : Sound env {s.setMember idx m' with
        receivedVvecs := s.receivedVvecs.set idx (some qc.vvec)
        verifiedVvecs := (qc.proTxHash, qc.vvec) :: s.verifiedVvecs} :=
      { hstored with threshold := List.forall_mem_cons.mpr ⟨hlength, hstored.threshold⟩ }
    dsimp only
    cases hdecrypt : (qc.blobs[myIdx]?).bind env.worker.decrypt with
    | none =>
      left
      refine ⟨if_neg fun hpends => Bool.false_ne_true hpends.2, _, rfl, ?_⟩
      have hm' : (s.members.set idx m')[idx]? = some m' := List.getElem?_set_self hidx
      have hcomplain := hwritten.next_setMember (k := {m' with weComplain := true}) hm'
        (keeps_refl _ m')
      exact Next.trans ⟨hwritten, rfl, rfl, hlen⟩ hcomplain
    | some skContribution =>
      right
      let s' : CDKGSession PK SK Blob Sig :=
        {s.setMember idx m' with
          receivedVvecs := s.receivedVvecs.set idx (some qc.vvec)
          verifiedVvecs := (qc.proTxHash, qc.vvec) :: s.verifiedVvecs
          receivedSkContributions := s.receivedSkContributions.set idx skContribution
          vecEncryptedContributions := s.vecEncryptedContributions.set idx (some qc.blobs)
          pendingContributionVerifications := s.pendingContributionVerifications ++ [idx] }
      have hs' : Sound env s' :=
        { hwritten with
          shares := by
            change (s.receivedSkContributions.set idx skContribution).length = _
            rw [List.length_set]
            exact hwritten.shares
          encrypted := by
            change (s.vecEncryptedContributions.set idx (some qc.blobs)).length = _
            rw [List.length_set]
            exact hwritten.encrypted
          pending := by
            intro i hi
            have hvec : idx < s.vecEncryptedContributions.length := h.encrypted ▸ hidx
            change i < (s.members.set idx m').length ∧ ∃ blobs,
              (s.vecEncryptedContributions.set idx (some qc.blobs))[i]? = some (some blobs)
            rw [hlen]
            by_cases hii : i = idx
            · subst hii
              exact ⟨hidx, qc.blobs, List.getElem?_set_self hvec⟩
            · rw [List.getElem?_set_ne (Ne.symm hii)]
              have hold := (List.mem_append.mp hi).resolve_right fun hlast =>
                hii (List.mem_singleton.mp hlast)
              exact h.pending i hold }
      refine ⟨idx, s', if_pos ⟨by omega, rfl⟩, ⟨hs', rfl, rfl, hlen⟩, rfl,
        usable_setMember (k := m') hm rfl rfl rfl, ?_⟩
      have hshares : assign s.receivedSkContributions idx skContribution = .ok _ :=
        assign_eq (h.shares ▸ hidx) skContribution
      have hencrypted : assign s.vecEncryptedContributions idx (some qc.blobs) = .ok _ :=
        assign_eq (h.encrypted ▸ hidx) (some qc.blobs)
      dsimp only [CDKGSession.setMember]
      rw [hshares, ok_bind, hencrypted, ok_bind]
      rfl

/-- A contribution makes the node verify what is pending, while nothing of it can be verified. -/
def breaksPromise (env : Session PK SK Blob Sig) (s : CDKGSession PK SK Blob Sig)
    (qc : CDKGContribution PK Blob) : Prop :=
  ∃ idx ∈ pends env s qc, 32 ≤ s.pendingContributionVerifications.length+1 ∧
    ¬Usable s (s.pendingContributionVerifications ++ [idx])

omit [DecidableEq SK] [DecidableEq Sig] in
theorem receiveContribution_next (h : Sound env s) {qc : CDKGContribution PK Blob}
    (hmember : (s.getMember qc.proTxHash).isSome = true)
    (hlength : qc.vvec.length = env.params.threshold) (hkept : ¬breaksPromise env s qc) :
    Succeeds (receiveContribution env s qc) fun p => Next env s p.2 := by
  obtain ⟨-, hok⟩ | ⟨idx, s', hpends, hs', hpending, husable, heq⟩ :=
    receiveContribution_cases h hmember hlength
  · exact hok
  · rw [heq]
    split_ifs with hmany
    · refine Succeeds.bind ?_ fun s'' hs'' => succeeds_pure (hs'.trans hs'')
      apply verifyPendingContributions_next hs'.sound
      intro _
      rw [hpending, List.length_append, List.length_singleton] at hmany
      rw [hpending, husable]
      by_contra hnone
      exact hkept ⟨idx, hpends, hmany, hnone⟩
    · exact succeeds_ok hs'

omit [DecidableEq SK] [DecidableEq Sig] in
theorem receiveContribution_error (h : Sound env s) {qc : CDKGContribution PK Blob}
    (hmember : (s.getMember qc.proTxHash).isSome = true)
    (hlength : qc.vvec.length = env.params.threshold) (hbroken : breaksPromise env s qc) :
    ∃ e, receiveContribution env s qc = .error e := by
  obtain ⟨idx, hpends, hmany, hnone⟩ := hbroken
  obtain ⟨hnopends, -⟩ | ⟨idx', s', hpends', hs', hpending, husable, heq⟩ :=
    receiveContribution_cases h hmember hlength
  · rw [hnopends] at hpends
    contradiction
  · rw [Option.mem_def, hpends', Option.some.injEq] at hpends
    subst hpends
    have hlen : 32 ≤ s'.pendingContributionVerifications.length := by
      rw [hpending, List.length_append, List.length_singleton]
      exact hmany
    have hne : s'.pendingContributionVerifications ≠ [] := by
      rw [hpending]
      exact List.append_ne_nil_of_right_ne_nil _ (List.cons_ne_nil _ _)
    obtain ⟨e, he⟩ := verifyPendingContributions_error hs'.sound hne
      (by rwa [hpending, husable])
    rw [heq, if_pos hlen, he]
    exact ⟨e, rfl⟩

/-! ### Complaints -/

omit [DecidableEq PK] [DecidableEq SK] [DecidableEq Blob] [DecidableEq Sig] in
theorem lt_of_mem_zipIdx {α : Type} {l : List α} {a : α} {i : ℕ} (h : (a, i) ∈ l.zipIdx) :
    i < l.length :=
  (List.getElem?_eq_some_iff.mp (List.mem_zipIdx_iff_getElem?.mp h)).1

omit [DecidableEq PK] [DecidableEq SK] [DecidableEq Blob] [DecidableEq Sig] in
theorem sendComplaint_succeeds (h : Sound env s) {myIdx : ℕ} (hme : myIdx < s.members.length) :
    Succeeds (sendComplaint env s myIdx) fun _ => True := by
  unfold sendComplaint
  refine (succeeds_index hme).bind fun me _ => ?_
  dsimp only
  refine Succeeds.bind (P := fun bits : List Bool × List Bool =>
    bits.1.length = env.params.size ∧ bits.2.length = env.params.size) ?_ fun bits _ => ?_
  · refine succeeds_foldlM ⟨List.length_replicate, List.length_replicate⟩ ?_
    rintro bits ⟨m, i⟩ hmem ⟨hbad, hcomplain⟩
    have hi : i < env.params.size := (lt_of_mem_zipIdx hmem).trans_le h.size
    dsimp only
    split_ifs
    · refine (succeeds_assign (hbad ▸ hi) _).bind fun bad hset => succeeds_pure ⟨?_, hcomplain⟩
      rw [hset, List.length_set]
      exact hbad
    · refine (succeeds_assign (hcomplain ▸ hi) _).bind fun complain hset =>
        succeeds_pure ⟨hbad, ?_⟩
      rw [hset, List.length_set]
      exact hcomplain
    · exact succeeds_pure ⟨hbad, hcomplain⟩
  · split_ifs
    · exact succeeds_pure trivial
    · exact succeeds_pure trivial

omit [DecidableEq SK] [DecidableEq Blob] [DecidableEq Sig] in
theorem verifyAndComplain_next (h : Sound env s) (badConnection : uint256 → Bool)
    (husable : s.myIdx.isSome = true → s.pendingContributionVerifications ≠ [] →
      Usable s s.pendingContributionVerifications) :
    Succeeds (verifyAndComplain env s badConnection) fun p => Next env s p.2 := by
  unfold verifyAndComplain
  cases hme : s.myIdx with
  | none => exact succeeds_ok h.next
  | some myIdx =>
    refine (verifyPendingContributions_next h (husable (by rw [hme]; rfl))).bind fun s' hs' => ?_
    have hmarked : Next env s' {s' with
        members := s'.members.map fun m =>
          { m with
            bad := m.bad || m.contributions.isEmpty
            badConnection := m.badConnection || badConnection m.proTxHash }} := by
      apply hs'.sound.next_members
      rw [List.forall₂_map_right_iff, List.forall₂_same]
      exact fun m _ => keeps_refl _ m
    have hmyIdx : myIdx < s'.members.length := by
      rw [hs'.length]
      exact h.me myIdx hme
    rw [← hmarked.length] at hmyIdx
    refine (sendComplaint_succeeds hmarked.sound hmyIdx).bind fun complaint _ => ?_
    exact succeeds_pure (hs'.trans hmarked)

omit [DecidableEq SK] [DecidableEq Blob] [DecidableEq Sig] in
theorem verifyAndComplain_error (h : Sound env s) (badConnection : uint256 → Bool)
    (hme : s.myIdx.isSome = true) (hne : s.pendingContributionVerifications ≠ [])
    (hnone : ¬Usable s s.pendingContributionVerifications) :
    ∃ e, verifyAndComplain env s badConnection = .error e := by
  obtain ⟨myIdx, hmyIdx⟩ := Option.isSome_iff_exists.mp hme
  obtain ⟨e, he⟩ := verifyPendingContributions_error h hne hnone
  unfold verifyAndComplain
  rw [hmyIdx]
  dsimp only
  rw [he]
  exact ⟨e, rfl⟩

omit [DecidableEq PK] [DecidableEq SK] [DecidableEq Blob] [DecidableEq Sig] in
theorem receiveComplaint_next (h : Sound env s) {qc : CDKGComplaint}
    (hmember : (s.getMember qc.proTxHash).isSome = true)
    (hvalid : invalidComplaint env qc = false) :
    Succeeds (receiveComplaint s qc) fun p => Next env s p.2 := by
  obtain ⟨⟨idx, member⟩, hget⟩ := Option.isSome_iff_exists.mp hmember
  obtain ⟨hm, -⟩ := getMember_eq hget
  unfold invalidComplaint at hvalid
  rw [Bool.or_eq_false_iff, decide_eq_false_iff_not, decide_eq_false_iff_not, not_not,
    not_not] at hvalid
  obtain ⟨hbad, hcomplain⟩ := hvalid
  unfold receiveComplaint
  rw [hget, deref_some, ok_bind]
  dsimp only
  by_cases hmany : 2 ≤ member.complaints.length
  · rw [if_pos hmany]
    exact succeeds_pure h.next
  rw [if_neg hmany]
  let m' := {member with complaints := member.complaints.insert qc}
  have hkeeps : ∀ bad, Keeps env.params.size member {m' with bad := bad} := by
    refine fun bad => ⟨rfl, fun qc' hqc' => ?_⟩
    rcases List.mem_insert_iff.mp hqc' with rfl | hold
    · exact Or.inr hcomplain
    · exact Or.inl hold
  by_cases hmore : 1 < (member.complaints.insert qc).length
  · rw [if_pos hmore]
    exact succeeds_pure (h.next_setMember hm (hkeeps true))
  rw [if_neg hmore]
  have hset : Next env s (s.setMember idx m') := h.next_setMember hm (hkeeps member.bad)
  refine Succeeds.bind (P := fun members =>
    List.Forall₂ (Keeps env.params.size) (s.setMember idx m').members members) ?_ ?_
  · have hturns := succeeds_mapM (l := (s.setMember idx m').members.zipIdx)
      (R := fun p m => Keeps env.params.size p.1 m)
      (f := fun p => do
        let badMember ← index qc.badMembers p.2
        let complainFor ← index qc.complainForMembers p.2
        return noteComplaint qc.proTxHash badMember complainFor p.1) ?_
    · refine hturns.mono fun members hmembers => ?_
      rw [← List.forall₂_map_left_iff, List.zipIdx_map_fst] at hmembers
      exact hmembers
    · rintro ⟨m, i⟩ hmem
      have hi : i < env.params.size := (lt_of_mem_zipIdx hmem).trans_le hset.sound.size
      refine (succeeds_index (hbad ▸ hi)).bind fun badMember _ => ?_
      refine (succeeds_index (hcomplain ▸ hi)).bind fun complainFor _ => ?_
      exact succeeds_pure (keeps_refl _ m)
  · intro members hmembers
    exact succeeds_pure (hset.trans (hset.sound.next_members hmembers))

/-! ### Justifications -/

omit [DecidableEq PK] [DecidableEq SK] [DecidableEq Blob] [DecidableEq Sig] in
theorem checkComplaints_succeeds (h : Sound env s) {myIdx : ℕ} (hme : myIdx < s.members.length)
    {m : CDKGMember PK SK Blob Sig} (hm : m ∈ s.members) :
    Succeeds (checkComplaints env myIdx m) fun p => Keeps env.params.size m p.1 := by
  unfold checkComplaints
  split_ifs
  · exact succeeds_pure (keeps_refl _ m)
  · exact succeeds_pure (keeps_refl _ m)
  · cases hcomplaints : m.complaints with
    | nil => exact succeeds_pure (keeps_refl _ m)
    | cons qc rest =>
      cases rest with
      | cons =>
        refine succeeds_pure ⟨rfl, fun qc' hqc' => Or.inl ?_⟩
        rw [hcomplaints]
        exact hqc'
      | nil =>
        have hlength : qc.complainForMembers.length = env.params.size :=
          h.complaints m hm qc (by rw [hcomplaints]; exact List.mem_cons_self)
        refine (succeeds_index ?_).bind fun complainFor _ => succeeds_pure (keeps_refl _ m)
        rw [hlength]
        exact hme.trans_le h.size

omit [DecidableEq PK] [DecidableEq SK] [DecidableEq Blob] [DecidableEq Sig] in
theorem sendJustification_succeeds {myIdx : ℕ} (hme : myIdx < s.members.length)
    (hmade : s.m_sk_contributions.length = s.members.length) (forMembers : List uint256) :
    Succeeds (sendJustification env s myIdx forMembers) fun _ => True := by
  unfold sendJustification
  refine (succeeds_index hme).bind fun me _ => ?_
  refine Succeeds.bind (P := fun _ => True) ?_ fun contributions _ => succeeds_pure trivial
  refine succeeds_foldlM trivial ?_
  rintro contributions ⟨m, i⟩ hmem -
  dsimp only
  split_ifs
  · refine (succeeds_index ?_).bind fun skContribution _ => succeeds_pure trivial
    rw [hmade]
    exact lt_of_mem_zipIdx hmem
  · exact succeeds_pure trivial

omit [DecidableEq PK] [DecidableEq SK] [DecidableEq Blob] [DecidableEq Sig] in
theorem verifyAndJustify_next (h : Sound env s)
    (hmade : s.myIdx.isSome = true → s.m_sk_contributions.length = s.members.length) :
    Succeeds (verifyAndJustify env s) fun p => Next env s p.2 := by
  unfold verifyAndJustify
  cases hme : s.myIdx with
  | none => exact succeeds_ok h.next
  | some myIdx =>
    have hlt : myIdx < s.members.length := h.me myIdx hme
    refine (succeeds_mapM fun m hm => checkComplaints_succeeds h hlt hm).bind fun checked hall => ?_
    have hkeeps : List.Forall₂ (Keeps env.params.size) s.members (checked.map Prod.fst) :=
      List.forall₂_map_right_iff.mpr hall
    have hnext := h.next_members hkeeps
    rw [hme] at hnext
    dsimp only
    split_ifs
    · exact succeeds_pure hnext
    · refine (sendJustification_succeeds ?_ ?_ _).bind fun qj _ => succeeds_pure hnext
      · rw [hnext.length]
        exact hlt
      · rw [hnext.length]
        exact hmade (by rw [hme]; rfl)

omit [DecidableEq PK] [DecidableEq SK] [DecidableEq Blob] [DecidableEq Sig] in
theorem noteJustified_next (h : Sound env s) {idx i : ℕ} (hidx : idx < s.members.length)
    (hi : i < s.members.length) (skContribution : SK) (valid : Bool) :
    Succeeds (noteJustified idx s i skContribution valid) (Next env s) := by
  unfold noteJustified
  refine (succeeds_index hidx).bind fun member hm => ?_
  refine (succeeds_index hi).bind fun member2 _ => ?_
  cases valid with
  | false => exact succeeds_pure (h.next_setMember hm (keeps_refl _ member))
  | true =>
    by_cases hown : s.myIdx = some i
    · dsimp only
      rw [if_pos rfl, if_pos hown]
      refine (succeeds_assign (h.shares ▸ hidx) _).bind fun shares hshares => ?_
      have hset := h.next_setMember (k := {member with
        weComplain := if s.myIdx = some i then false else member.weComplain
        complaintsFromOthers := member.complaintsFromOthers.erase member2.proTxHash}) hm
        (keeps_refl _ member)
      refine succeeds_pure ⟨?_, rfl, rfl, hset.length⟩
      exact { hset.sound with
        shares := by
          rw [hshares, List.length_set]
          exact hset.sound.shares }
    · dsimp only
      rw [if_pos rfl, if_neg hown]
      exact succeeds_pure (h.next_setMember hm (keeps_refl _ member))

omit [DecidableEq PK] [DecidableEq SK] [DecidableEq Blob] [DecidableEq Sig] in
theorem getElem?_set_proTxHash {idx : ℕ} {m m' : CDKGMember PK SK Blob Sig}
    (hm : s.members[idx]? = some m) (hhash : m'.proTxHash = m.proTxHash) (i : ℕ) :
    ((s.members.set idx m')[i]?).map CDKGMember.proTxHash =
      (s.members[i]?).map CDKGMember.proTxHash := by
  rw [List.getElem?_set]
  by_cases hi : idx = i
  · subst hi
    rw [if_pos rfl, if_pos (List.getElem?_eq_some_iff.mp hm).1, hm, Option.map_some, hhash]
    rfl
  · rw [if_neg hi]

/-- Whether a justification names only members that complained about its sender, where it names
members. -/
def Answers (s : CDKGSession PK SK Blob Sig) (complaints : List uint256)
    (contributions : List (ℕ × SK)) : Prop :=
  ∀ p ∈ contributions, ∀ hash ∈ (s.members[p.1]?).map CDKGMember.proTxHash, hash ∈ complaints

omit [DecidableEq PK] [DecidableEq SK] [DecidableEq Blob] [DecidableEq Sig] in
theorem named_spec {contributions : List (ℕ × SK)} (complaints : List uint256)
    (hin : ∀ p ∈ contributions, p.1 < s.members.length) :
    Succeeds (contributions.mapM fun p => index s.members p.1) fun justified =>
      (justified.any fun member2 => !complaints.contains member2.proTxHash) = true ↔
        ¬Answers s complaints contributions := by
  unfold Answers
  induction contributions with
  | nil =>
    refine succeeds_pure (iff_of_false Bool.false_ne_true fun hnot => hnot ?_)
    exact fun p hp => absurd hp List.not_mem_nil
  | cons p contributions ih =>
    rw [List.forall_mem_cons] at hin
    rw [List.mapM_cons]
    refine (succeeds_index hin.1).bind fun member2 hmember2 => ?_
    refine (ih hin.2).bind fun justified hjustified => succeeds_pure ?_
    rw [List.any_cons, Bool.or_eq_true, hjustified, List.forall_mem_cons, not_and_or, hmember2,
      Bool.not_eq_true', List.contains_eq_mem, decide_eq_false_iff_not]
    simp only [Option.map_some, Option.mem_def, Option.some.injEq, forall_eq']

omit [DecidableEq PK] [DecidableEq SK] [DecidableEq Blob] [DecidableEq Sig] in
theorem answers_setMember {idx : ℕ} {m k : CDKGMember PK SK Blob Sig}
    (hm : s.members[idx]? = some m) (hhash : k.proTxHash = m.proTxHash)
    (complaints : List uint256) (contributions : List (ℕ × SK)) :
    Answers (s.setMember idx k) complaints contributions ↔
      Answers s complaints contributions := by
  unfold Answers CDKGSession.setMember
  simp only [getElem?_set_proTxHash hm hhash]

/-- A justification is examined that names a member that there is not, or while its sender has
not contributed. -/
def breaksExamination (s : CDKGSession PK SK Blob Sig) (qj : CDKGJustification SK) : Prop :=
  ∃ idx member, s.getMember qj.proTxHash = some (idx, member) ∧
    (member.justifications.insert qj).length ≤ 1 ∧ member.bad = false ∧
    ((∃ p ∈ qj.contributions, s.members.length ≤ p.1) ∨
      s.receivedVvecs[idx]? = some none ∧
        Answers s member.complaintsFromOthers qj.contributions)

omit [DecidableEq Blob] [DecidableEq Sig] in
theorem receiveJustification_next (h : Sound env s) {qj : CDKGJustification SK}
    (hmember : (s.getMember qj.proTxHash).isSome = true) (hkept : ¬breaksExamination s qj) :
    Succeeds (receiveJustification env s qj) fun p => Next env s p.2 := by
  obtain ⟨⟨idx, member⟩, hget⟩ := Option.isSome_iff_exists.mp hmember
  obtain ⟨hm, -⟩ := getMember_eq hget
  have hidx := (List.getElem?_eq_some_iff.mp hm).1
  unfold receiveJustification
  rw [hget, deref_some, ok_bind]
  dsimp only
  let m' := {member with justifications := member.justifications.insert qj}
  have hset : ∀ bad, Next env s (s.setMember idx {m' with bad := bad}) := fun bad =>
    h.next_setMember hm (keeps_refl _ member)
  by_cases hmany : 2 ≤ member.justifications.length
  · rw [if_pos hmany]
    exact succeeds_pure h.next
  rw [if_neg hmany]
  by_cases hmore : 1 < (member.justifications.insert qj).length
  · rw [if_pos hmore]
    exact succeeds_pure (hset true)
  rw [if_neg hmore]
  by_cases hbad : member.bad = true
  · rw [if_pos hbad]
    exact succeeds_pure (hset member.bad)
  rw [if_neg hbad]
  have hlen : (s.members.set idx m').length = s.members.length := List.length_set
  have hfine : ¬((∃ p ∈ qj.contributions, s.members.length ≤ p.1) ∨
      s.receivedVvecs[idx]? = some none ∧
        Answers s member.complaintsFromOthers qj.contributions) := fun hbroken =>
    hkept ⟨idx, member, hget, Nat.not_lt.mp hmore, Bool.eq_false_iff.mpr hbad, hbroken⟩
  rw [not_or] at hfine
  have hin : ∀ p ∈ qj.contributions, p.1 < (s.setMember idx m').members.length := by
    intro p hp
    change p.1 < (s.members.set idx m').length
    rw [hlen]
    exact Nat.lt_of_not_le fun hle => hfine.1 ⟨p, hp, hle⟩
  have hmarked : ∀ m'', m''.proTxHash = m'.proTxHash → m''.complaints = m'.complaints →
      Next env s ((s.setMember idx m').setMember idx m'') := by
    intro m'' hhash hcomplaints
    refine (hset member.bad).trans ((hset member.bad).sound.next_setMember
      (List.getElem?_set_self hidx) ⟨hhash, fun qc hqc => Or.inl (hcomplaints ▸ hqc)⟩)
  refine (named_spec member.complaintsFromOthers hin).bind fun justified hjustified => ?_
  by_cases hanswers : Answers (s.setMember idx m') member.complaintsFromOthers qj.contributions
  · rw [if_neg fun hany => hjustified.mp hany hanswers]
    refine (succeeds_index (h.vvecs ▸ hidx)).bind fun receivedVvec hreceived => ?_
    have hnamed := (answers_setMember (k := m') hm rfl _ _).mp hanswers
    obtain _ | vvec := receivedVvec
    · exact absurd ⟨hreceived, hnamed⟩ hfine.2
    refine Succeeds.bind (succeeds_mapM (R := fun _ _ => True) ?_) fun results _ => ?_
    · intro p hp
      exact (succeeds_index (hin p hp)).bind fun member2 _ => succeeds_pure trivial
    · refine Succeeds.bind (P := Next env s) ?_ fun s' hs' => succeeds_pure hs'
      refine succeeds_foldlM (hset member.bad) ?_
      rintro s' ⟨p, valid⟩ hmem hs'
      have hp := hin p (List.of_mem_zip hmem).1
      refine (noteJustified_next hs'.sound ?_ ?_ p.2 valid).mono fun s'' hs'' => hs'.trans hs''
      · rw [hs'.length]
        exact hidx
      · rw [hs'.length, ← hlen]
        exact hp
  · rw [if_pos (hjustified.mpr hanswers)]
    exact succeeds_pure (hmarked _ rfl rfl)

omit [DecidableEq Blob] [DecidableEq Sig] in
theorem receiveJustification_error {qj : CDKGJustification SK} (hne : qj.contributions ≠ [])
    (hbroken : breaksExamination s qj) : ∃ e, receiveJustification env s qj = .error e := by
  obtain ⟨idx, member, hget, hfirst, hbad, hbroken⟩ := hbroken
  obtain ⟨hm, -⟩ := getMember_eq hget
  have hidx := (List.getElem?_eq_some_iff.mp hm).1
  unfold receiveJustification
  rw [hget, deref_some, ok_bind]
  dsimp only
  let m' := {member with justifications := member.justifications.insert qj}
  have hlen : (s.members.set idx m').length = s.members.length := List.length_set
  have hfew : ¬2 ≤ member.justifications.length := by
    have hle : member.justifications.length ≤ (member.justifications.insert qj).length :=
      List.length_le_length_insert
    omega
  rw [if_neg hfew, if_neg (Nat.not_lt.mpr hfirst), if_neg (Bool.eq_false_iff.mp hbad)]
  by_cases hin : ∀ p ∈ qj.contributions, p.1 < (s.setMember idx m').members.length
  · obtain ⟨hnull, hanswers⟩ := hbroken.resolve_left fun ⟨p, hp, hout⟩ => by
      have hlt := hin p hp
      change p.1 < (s.members.set idx m').length at hlt
      omega
    obtain ⟨justified, hjustified, hany⟩ := named_spec member.complaintsFromOthers hin
    have hnone : ¬(justified.any fun member2 =>
        !member.complaintsFromOthers.contains member2.proTxHash) = true := fun hcomplains =>
      hany.mp hcomplains ((answers_setMember (k := m') hm rfl _ _).mpr hanswers)
    have hvvec : index (s.setMember idx m').receivedVvecs idx = .ok none := index_eq hnull
    rw [hjustified, ok_bind, if_neg hnone, hvvec, ok_bind]
    obtain ⟨p, hp⟩ := List.exists_mem_of_ne_nil _ hne
    obtain ⟨member2, hmember2, -⟩ := succeeds_index (hin p hp)
    obtain ⟨e, he⟩ := mapM_error hp (f := fun p => do
      let member2 ← index (s.setMember idx m').members p.1
      asyncVerifyContributionShare env.worker member2.proTxHash none p.2) (e := .nullPointer)
        (by rw [hmember2]; rfl)
    rw [he]
    exact ⟨e, rfl⟩
  · push Not at hin
    obtain ⟨p, hp, hout⟩ := hin
    obtain ⟨e, he⟩ := mapM_error hp (f := fun p => index (s.setMember idx m').members p.1)
      (index_error hout)
    rw [he]
    exact ⟨e, rfl⟩

/-! ### Commitments -/

omit [DecidableEq PK] [DecidableEq SK] [DecidableEq Blob] [DecidableEq Sig] in
/-- The verification vectors that the node has stored are as long as the threshold. -/
theorem getVerifiedContributions_succeeds (h : Sound env s) {validMembers : List Bool}
    (hlength : s.members.length ≤ validMembers.length) :
    Succeeds (getVerifiedContributions env s validMembers) fun contributions =>
      ∀ cs ∈ contributions, ∀ c ∈ cs, c.1.length = env.params.threshold := by
  unfold getVerifiedContributions
  refine succeeds_foldlM ?_ ?_
  · rintro cs hcs c hc
    rw [Option.mem_def, Option.some.injEq] at hcs
    subst hcs
    exact absurd hc List.not_mem_nil
  · rintro contributions ⟨m, i⟩ hmem hcontributions
    cases contributions with
    | none => exact succeeds_pure hcontributions
    | some contributions =>
      refine (succeeds_index ((lt_of_mem_zipIdx hmem).trans_le hlength)).bind fun valid _ => ?_
      cases valid with
      | false => exact succeeds_pure hcontributions
      | true =>
        dsimp only
        rw [if_pos rfl]
        cases hlookup : s.verifiedVvecs.lookup m.proTxHash with
        | none => exact succeeds_pure fun cs hcs => absurd hcs (Option.not_mem_none cs)
        | some vvec =>
          refine succeeds_pure fun cs hcs c hc => ?_
          rw [Option.mem_def, Option.some.injEq] at hcs
          subst hcs
          rcases List.mem_append.mp hc with hc | hc
          · exact hcontributions contributions rfl c hc
          · rw [List.mem_singleton.mp hc]
            obtain ⟨before, after, hsplit, -⟩ := List.lookup_eq_some_iff.mp hlookup
            apply h.threshold (m.proTxHash, vvec)
            rw [hsplit]
            exact List.mem_append_right before List.mem_cons_self

omit [DecidableEq Sig] [DecidableEq Blob] [DecidableEq SK] in
theorem buildQuorumVerificationVector_ne_nil {contributions : List (Vvec PK × SK)} {vvec : Vvec PK}
    (hlength : ∀ c ∈ contributions, c.1.length = env.params.threshold)
    (hbuild : buildQuorumVerificationVector env.worker (contributions.map Prod.fst) = some vvec) :
    0 < vvec.length := by
  unfold buildQuorumVerificationVector at hbuild
  cases contributions with
  | nil => contradiction
  | cons c contributions =>
    split_ifs at hbuild
    rw [Option.some.injEq] at hbuild
    rw [← hbuild, aggregateVvecs, List.length_map, List.length_range]
    change 0 < c.1.length
    rw [hlength c List.mem_cons_self]
    exact zero_lt_one.trans env.threshold_lt

omit [DecidableEq Blob] [DecidableEq Sig] in
theorem sendCommitment_succeeds (h : Sound env s) {myIdx : ℕ} (hme : myIdx < s.members.length) :
    Succeeds (sendCommitment env s myIdx) fun _ => True := by
  unfold sendCommitment
  refine (succeeds_index hme).bind fun me _ => ?_
  refine Succeeds.bind (P := fun validMembers : List Bool =>
    validMembers.length = env.params.size) ?_ fun validMembers hvalid => ?_
  · refine succeeds_foldlM List.length_replicate ?_
    rintro validMembers ⟨m, i⟩ hmem hvalid
    have hi : i < env.params.size := (lt_of_mem_zipIdx hmem).trans_le h.size
    dsimp only
    split_ifs
    · exact succeeds_pure hvalid
    · refine (succeeds_assign (hvalid ▸ hi) _).mono fun validMembers' hset => ?_
      rw [hset, List.length_set]
      exact hvalid
  split_ifs
  · exact succeeds_pure trivial
  refine (getVerifiedContributions_succeeds h (hvalid ▸ h.size)).bind fun contributions hcs => ?_
  cases contributions with
  | none => exact succeeds_pure trivial
  | some contributions =>
    dsimp only
    cases hvvec : buildQuorumVerificationVector env.worker (contributions.map Prod.fst) with
    | none => exact succeeds_pure trivial
    | some vvec =>
      cases aggregateSecretKeys env.worker (contributions.map Prod.snd) with
      | none => exact succeeds_pure trivial
      | some skShare =>
        have hpos := buildQuorumVerificationVector_ne_nil (hcs contributions rfl) hvvec
        exact (succeeds_index hpos).bind fun quorumPublicKey _ => succeeds_pure trivial

omit [DecidableEq Blob] [DecidableEq Sig] in
theorem verifyAndCommit_next (h : Sound env s) :
    Succeeds (verifyAndCommit env s) fun p => Next env s p.2 := by
  unfold verifyAndCommit
  cases hme : s.myIdx with
  | none => exact succeeds_ok h.next
  | some myIdx =>
    have hmarked : Next env s {s with members := s.members.map fun m =>
        {m with bad := m.bad || !m.complaintsFromOthers.isEmpty}} := by
      apply h.next_members
      rw [List.forall₂_map_right_iff, List.forall₂_same]
      exact fun m _ => keeps_refl _ m
    have hlt : myIdx < s.members.length := h.me myIdx hme
    rw [hme] at hmarked
    refine (sendCommitment_succeeds hmarked.sound ?_).bind fun commitment _ => succeeds_pure hmarked
    rw [hmarked.length]
    exact hlt

omit [DecidableEq SK] [DecidableEq Blob] [DecidableEq Sig] in
theorem verifyPremature_succeeds (h : Sound env s) {qc : CDKGPrematureCommitment PK Sig}
    (hlength : qc.validMembers.length = env.params.size) :
    Succeeds (verifyPremature env s qc) fun _ => True := by
  unfold verifyPremature
  refine (getVerifiedContributions_succeeds h (hlength ▸ h.size)).bind fun contributions hcs => ?_
  cases hvvec : contributions.bind fun contributions =>
    buildQuorumVerificationVector env.worker (contributions.map Prod.fst) with
  | none => exact succeeds_pure trivial
  | some vvec =>
    obtain ⟨cs, hsome, hbuild⟩ := Option.bind_eq_some_iff.mp hvvec
    have hpos := buildQuorumVerificationVector_ne_nil (hcs cs hsome) hbuild
    exact (succeeds_index hpos).bind fun quorumPublicKey _ => succeeds_pure trivial

omit [DecidableEq SK] [DecidableEq Blob] in
theorem receivePrematureCommitment_next (h : Sound env s) {qc : CDKGPrematureCommitment PK Sig}
    (hmember : (s.getMember qc.proTxHash).isSome = true)
    (hvalid : invalidPrematureCommitment env s qc = false) :
    Succeeds (receivePrematureCommitment env s qc) fun p => Next env s p.2 := by
  obtain ⟨⟨idx, member⟩, hget⟩ := Option.isSome_iff_exists.mp hmember
  obtain ⟨hm, hhash⟩ := getMember_eq hget
  have hidx := (List.getElem?_eq_some_iff.mp hm).1
  unfold invalidPrematureCommitment at hvalid
  simp only [Bool.or_eq_false_iff, decide_eq_false_iff_not, not_not, not_lt] at hvalid
  obtain ⟨⟨⟨⟨hlength, hcount⟩, -⟩, -⟩, -⟩ := hvalid
  unfold receivePrematureCommitment
  rw [hget, deref_some, ok_bind]
  dsimp only
  let m' := {member with prematureCommitments := member.prematureCommitments.insert qc}
  have hset : Next env s (s.setMember idx m') := h.next_setMember hm (keeps_refl _ member)
  have hstored : Next env s {s.setMember idx m' with
      prematureCommitments := s.prematureCommitments.insert qc} := by
    refine ⟨{ hset.sound with commitments := ?_ }, rfl, rfl, hset.length⟩
    intro qc' hqc'
    rcases List.mem_insert_iff.mp hqc' with rfl | hold
    · exact ⟨hcount, m', List.mem_of_getElem? (List.getElem?_set_self hidx), hhash⟩
    · exact hset.sound.commitments qc' hold
  refine (verifyPremature_succeeds hstored.sound hlength).bind fun valid _ => ?_
  cases valid with
  | false => exact succeeds_pure hstored
  | true =>
    refine succeeds_pure ⟨?_, rfl, rfl, hset.length⟩
    exact { hstored.sound with }

omit [DecidableEq PK] [DecidableEq SK] [DecidableEq Blob] [DecidableEq Sig] in
theorem signerIndex_lt {proTxHash : uint256}
    (h : ∃ m ∈ s.members, m.proTxHash = proTxHash) :
    signerIndex s proTxHash < s.members.length := by
  obtain ⟨m, hm, hhash⟩ := h
  have hfound : (s.members.findIdx? fun m => m.proTxHash = proTxHash).isSome = true := by
    rw [List.findIdx?_isSome, List.any_eq_true]
    exact ⟨m, hm, decide_eq_true hhash⟩
  obtain ⟨idx, hidx⟩ := Option.isSome_iff_exists.mp hfound
  rw [signerIndex, hidx]
  exact (List.findIdx?_eq_some_iff_getElem.mp hidx).1

omit [DecidableEq SK] [DecidableEq Blob] [DecidableEq Sig] in
theorem finalizeGroup_succeeds (h : Sound env s) {cvec : List (CDKGPrematureCommitment PK Sig)}
    (hne : cvec ≠ []) (hsenders : ∀ qc ∈ cvec, ∃ m ∈ s.members, m.proTxHash = qc.proTxHash) :
    Succeeds (finalizeGroup env s cvec) fun _ => True := by
  unfold finalizeGroup
  refine (succeeds_index (List.length_pos_iff.mpr hne)).bind fun first _ => ?_
  refine Succeeds.bind (P := fun signers : List Bool => signers.length = env.params.size)
    ?_ fun signers _ => succeeds_pure trivial
  refine succeeds_foldlM List.length_replicate fun signers qc hqc hsigners => ?_
  split_ifs
  · exact succeeds_pure hsigners
  · have hlt : signerIndex s qc.proTxHash < s.members.length := signerIndex_lt (hsenders qc hqc)
    refine (succeeds_index hlt).bind fun m _ => ?_
    refine (succeeds_assign (hsigners ▸ hlt.trans_le h.size) _).mono fun signers' hset => ?_
    rw [hset, List.length_set]
    exact hsigners

omit [DecidableEq SK] [DecidableEq Blob] in
/-- `FinalizeCommitments` neither asserts in vain nor looks past a vector. -/
theorem finalizeCommitments_succeeds (h : Sound env s) :
    Succeeds (finalizeCommitments env s) fun _ => True := by
  unfold finalizeCommitments
  by_cases hme : s.myIdx.isNone = true
  · rw [if_pos hme]
    exact succeeds_ok trivial
  rw [if_neg hme]
  dsimp only
  have hvalid : ∀ qc ∈ s.prematureCommitments.filter fun qc => qc ∈ s.validCommitments,
      env.params.minSize ≤ qc.countValidMembers ∧ ∃ m ∈ s.members, m.proTxHash = qc.proTxHash :=
    fun qc hqc => h.commitments qc (List.mem_of_mem_filter hqc)
  generalize (s.prematureCommitments.filter fun qc => qc ∈ s.validCommitments) = valid at hvalid
  have hassert :
      ¬(valid.any fun qc => decide (qc.countValidMembers < env.params.minSize)) = true := by
    rw [List.any_eq_true]
    rintro ⟨qc, hqc, hfew⟩
    exact absurd (of_decide_eq_true hfew) (Nat.not_lt.mpr (hvalid qc hqc).1)
  rw [if_neg hassert]
  refine (succeeds_mapM (R := fun _ _ => True) fun cvec hcvec => ?_).mono fun _ _ => trivial
  obtain ⟨validMembers, hgroup, rfl⟩ := List.mem_map.mp (List.mem_of_mem_filter hcvec)
  obtain ⟨qc, hqc, rfl⟩ := List.mem_map.mp (List.mem_dedup.mp hgroup)
  apply finalizeGroup_succeeds h
  · apply List.ne_nil_of_mem (a := qc)
    exact List.mem_filter.mpr ⟨hqc, decide_eq_true rfl⟩
  · exact fun qc' hqc' => (hvalid qc' (List.mem_of_mem_filter hqc')).2

/-! ### Runs -/

variable (env) in
/-- The contributions that are verified together include one that can be verified, and a
justification that is examined names members that there are and comes from one that has
contributed. -/
def Guarded (n : Node PK SK Blob Sig) : Call PK SK Blob Sig → Prop
  | .next _ => n.phase = .contribute → n.session.myIdx.isSome = true →
      n.session.pendingContributionVerifications ≠ [] →
        Usable n.session n.session.pendingContributionVerifications
  | .message (.contribution qc) => n.phase = .contribute →
      (Message.contribution qc : Message PK SK Blob Sig).passed env n.session = true →
        ¬breaksPromise env n.session qc
  | .message (.justification qj) => n.phase = .justify →
      (Message.justification qj : Message PK SK Blob Sig).passed env n.session = true →
        ¬breaksExamination n.session qj
  | _ => True

variable {n : Node PK SK Blob Sig}

omit [DecidableEq PK] [DecidableEq SK] [DecidableEq Blob] [DecidableEq Sig] in
theorem Inv.advance {α : Type} (hn : Inv env n) {phase : Phase} (hphase : n.phase ≠ .initialized)
    {r : Except Fault (α × CDKGSession PK SK Blob Sig)}
    (hr : Succeeds r fun p => Next env n.session p.2) : Inv env (n.advance phase r) := by
  obtain ⟨⟨a, s⟩, rfl, hs⟩ := hr
  refine ⟨hn.fault, hs.sound, fun hme _ => ?_⟩
  change s.m_sk_contributions.length = s.members.length
  rw [hs.made, hs.length]
  change s.myIdx.isSome = true at hme
  rw [hs.me] at hme
  exact hn.made hme hphase

omit [DecidableEq PK] [DecidableEq SK] [DecidableEq Blob] [DecidableEq Sig] in
theorem Node.advance_fault {α : Type} {phase : Phase}
    {r : Except Fault (α × CDKGSession PK SK Blob Sig)} (hr : ∃ e, r = .error e) :
    (n.advance phase r).fault ≠ none := by
  obtain ⟨e, rfl⟩ := hr
  exact Option.some_ne_none e

omit [DecidableEq PK] [DecidableEq SK] [DecidableEq Blob] [DecidableEq Sig] in
theorem contribute_inv (hn : Inv env n) :
    Inv env {n with session := contribute env n.session, phase := .contribute} := by
  unfold contribute
  split_ifs with hme
  · exact ⟨hn.fault, { hn.sound with }, fun _ _ => List.length_map _⟩
  · exact ⟨hn.fault, hn.sound, fun hmember => absurd hmember hme⟩

theorem next_keeps (hn : Inv env n) (badConnection : uint256 → Bool)
    (hguarded : Guarded env n (.next badConnection)) : Inv env (n.next env badConnection) := by
  unfold Node.next
  cases hphase : n.phase with
  | initialized => exact contribute_inv hn
  | contribute =>
    exact hn.advance (by rw [hphase]; exact Phase.noConfusion)
      (verifyAndComplain_next hn.sound badConnection (hguarded hphase))
  | complain =>
    have hstarted : n.phase ≠ .initialized := by
      rw [hphase]
      exact Phase.noConfusion
    exact hn.advance hstarted (verifyAndJustify_next hn.sound fun hme => hn.made hme hstarted)
  | justify =>
    exact hn.advance (by rw [hphase]; exact Phase.noConfusion) (verifyAndCommit_next hn.sound)
  | commit =>
    refine hn.advance (by rw [hphase]; exact Phase.noConfusion) ?_
    obtain ⟨fqcs, hfqcs, -⟩ := finalizeCommitments_succeeds hn.sound
    rw [hfqcs]
    exact ⟨_, rfl, hn.sound.next⟩
  | finalize => exact hn

theorem receive_keeps (hn : Inv env n) {msg : Message PK SK Blob Sig} (hphase : msg.phase = n.phase)
    (hpassed : msg.passed env n.session = true) (hguarded : Guarded env n (.message msg)) :
    Inv env (n.advance n.phase (msg.receive env n.session)) := by
  have hstarted : n.phase ≠ .initialized := by
    rw [← hphase]
    cases msg <;> exact Phase.noConfusion
  apply hn.advance hstarted
  cases msg with
  | contribution qc =>
    obtain ⟨-, hmember, hvalid⟩ := passed_iff.mp hpassed
    exact receiveContribution_next hn.sound hmember (invalidContribution_length hvalid)
      (hguarded hphase.symm hpassed)
  | complaint qc =>
    obtain ⟨-, hmember, hvalid⟩ := passed_iff.mp hpassed
    exact receiveComplaint_next hn.sound hmember hvalid
  | justification qj =>
    obtain ⟨-, hmember, -⟩ := passed_iff.mp hpassed
    exact receiveJustification_next hn.sound hmember (hguarded hphase.symm hpassed)
  | prematureCommitment qc =>
    obtain ⟨-, hmember, hvalid⟩ := passed_iff.mp hpassed
    exact receivePrematureCommitment_next hn.sound hmember hvalid

theorem step_keeps (hn : Inv env n) {call : Call PK SK Blob Sig} (hguarded : Guarded env n call) :
    Inv env (step env n call).2 := by
  have hfault : ¬n.fault.isSome = true := by
    rw [hn.fault]
    exact Bool.false_ne_true
  unfold step
  cases call with
  | next badConnection =>
    dsimp only
    rw [if_neg hfault]
    exact next_keeps hn badConnection hguarded
  | message msg =>
    dsimp only
    rw [if_neg hfault]
    split_ifs with hreceived
    · exact receive_keeps hn hreceived.1 hreceived.2 hguarded
    · exact hn

/-- A step that is not guarded ends in a fault. -/
theorem step_fails (hn : Inv env n) {call : Call PK SK Blob Sig} (hfails : ¬Guarded env n call) :
    (step env n call).2.fault ≠ none := by
  have hfault : ¬n.fault.isSome = true := by
    rw [hn.fault]
    exact Bool.false_ne_true
  unfold step
  cases call with
  | next badConnection =>
    unfold Guarded at hfails
    push Not at hfails
    obtain ⟨hphase, hme, hne, hnone⟩ := hfails
    dsimp only
    rw [if_neg hfault, Node.next, hphase]
    exact Node.advance_fault (verifyAndComplain_error hn.sound badConnection hme hne hnone)
  | message msg =>
    cases msg with
    | contribution qc =>
      unfold Guarded at hfails
      push Not at hfails
      obtain ⟨hphase, hpassed, hbroken⟩ := hfails
      obtain ⟨-, hmember, hvalid⟩ := passed_iff.mp hpassed
      dsimp only
      rw [if_neg hfault, if_pos ⟨hphase.symm, hpassed⟩]
      exact Node.advance_fault
        (receiveContribution_error hn.sound hmember (invalidContribution_length hvalid) hbroken)
    | complaint qc => exact absurd trivial hfails
    | justification qj =>
      unfold Guarded at hfails
      push Not at hfails
      obtain ⟨hphase, hpassed, hbroken⟩ := hfails
      obtain ⟨-, -, hvalid⟩ := passed_iff.mp hpassed
      dsimp only
      rw [if_neg hfault, if_pos ⟨hphase.symm, hpassed⟩]
      unfold invalidJustification at hvalid
      simp only [Bool.or_eq_false_iff, List.isEmpty_eq_false_iff] at hvalid
      exact Node.advance_fault (receiveJustification_error hvalid.1.1.1 hbroken)
    | prematureCommitment qc => exact absurd trivial hfails

/-- Two members. The keys stand for the numbers they are made of. -/
def twoMembers : Session ℕ ℕ ℕ ℕ where
  params := {size := 2, minSize := 2, threshold := 2, dkgBadVotesThreshold := 2}
  quorumHash := 7
  worker :=
    { defaultSk := 0
      skIsValid := fun sk => sk ≠ 0
      secretKeyShare := fun _ => 1
      getPublicKey := fun sk => sk
      publicKeyShare := fun mpk _ => mpk.head?
      aggregatePublicKeys := List.sum
      aggregateSecretKeys := List.sum
      decrypt := some
      vvecHash := fun _ => 0
      verifyQuorumSig := fun _ _ => true
      signShare := fun _ _ _ _ => some 0
      sign := fun _ _ _ => some 0 }
  proTxHashes := [1, 2]
  size_le := le_refl 2
  threshold_lt := one_lt_two

/-- An observer in the phase of the justifications, after one member has complained about the
other. -/
def complained : Node ℕ ℕ ℕ ℕ :=
  Runs.final (step twoMembers) (start twoMembers 0)
    [ .next fun _ => false,
      .next fun _ => false,
      .message (.complaint
        { quorumHash := 7
          proTxHash := 2
          badMembers := [false, false]
          complainForMembers := [true, false] }),
      .next fun _ => false ]

def justificationFor (i : ℕ) : Message ℕ ℕ ℕ ℕ :=
  .justification {quorumHash := 7, proTxHash := 1, contributions := [(i, 5)]}

end BabaChain.LLMQ.DKG
