import BabaChain.Primitives
import BabaChain.Lib.Checked

/-! One session of the distributed key generation of a quorum, as it is handled by a member of
the quorum or by an observer. Every access to a vector or through a pointer can fail. -/
namespace BabaChain.LLMQ.DKG
open Checked

variable {PK SK Blob Sig : Type}

/-! ### Messages -/

/-- A verification vector. A public key that is not valid is `none`. -/
abbrev Vvec (PK : Type) := List (Option PK)

structure CDKGContribution (PK Blob : Type) where
  quorumHash : uint256
  proTxHash : uint256
  vvec : Vvec PK
  blobs : List Blob
deriving DecidableEq

structure CDKGComplaint where
  quorumHash : uint256
  proTxHash : uint256
  badMembers : List Bool
  complainForMembers : List Bool
deriving DecidableEq

structure CDKGJustification (SK : Type) where
  quorumHash : uint256
  proTxHash : uint256
  contributions : List (ℕ × SK)
deriving DecidableEq

/-- A signature that is not valid is `none`, and so is the public key. -/
structure CDKGPrematureCommitment (PK Sig : Type) where
  quorumHash : uint256
  proTxHash : uint256
  validMembers : List Bool
  quorumPublicKey : Option PK
  quorumVvecHash : uint256
  quorumSig : Option Sig
  sig : Option Sig
deriving DecidableEq

def CDKGPrematureCommitment.countValidMembers (qc : CDKGPrematureCommitment PK Sig) : ℕ :=
  qc.validMembers.count true

/-! ### Parameters -/

structure Params where
  size : ℕ
  minSize : ℕ
  threshold : ℕ
  dkgBadVotesThreshold : ℕ

/-- The operations on keys and signatures. A secret key may not be valid, and the default one
is not. `secretKeyShare` is the share of the own contribution for a member. -/
structure Worker (PK SK Blob Sig : Type) where
  defaultSk : SK
  skIsValid : SK → Bool
  secretKeyShare : uint256 → SK
  getPublicKey : SK → PK
  publicKeyShare : List PK → uint256 → Option PK
  aggregatePublicKeys : List PK → PK
  aggregateSecretKeys : List SK → SK
  decrypt : Blob → Option SK
  vvecHash : Vvec PK → uint256
  -- `VerifyInsecure` of the share of a threshold signature
  verifyQuorumSig : CDKGPrematureCommitment PK Sig → PK → Bool
  signShare : SK → List Bool → PK → uint256 → Option Sig
  sign : List Bool → PK → uint256 → Option Sig

/-- What a session is about. The members that are selected for a quorum are at most as many as
it has places, and `Contribute` asserts a threshold above one. -/
structure Session (PK SK Blob Sig : Type) where
  params : Params
  quorumHash : uint256
  worker : Worker PK SK Blob Sig
  proTxHashes : List uint256
  size_le : proTxHashes.length ≤ params.size
  threshold_lt : 1 < params.threshold

/-! ### Keys -/

section Keys

variable [DecidableEq PK] [DecidableEq SK] (w : Worker PK SK Blob Sig)

/-- `VerifyVectorHelper`: the keys are valid and none occurs twice. -/
def verifyVerificationVector (vvec : Vvec PK) : Bool :=
  vvec.all Option.isSome && decide vvec.Nodup

def verifyVerificationVectors (vvecs : List (Option (Vvec PK))) : Bool :=
  let keys := vvecs.flatMap fun vvec => vvec.getD []
  vvecs.all (fun vvec => vvec.isSome &&
    decide (vvec.map List.length = (vvecs.head?.bind id).map List.length)) &&
  keys.all Option.isSome && decide keys.Nodup

def publicKeyShare (vvec : Vvec PK) (id : uint256) : Option PK :=
  (vvec.mapM fun pk => pk).bind fun mpk => w.publicKeyShare mpk id

/-- A share is verified against the verification vector that the pointer gives. -/
def verifyShare (vvec : Vvec PK) (id : uint256) (sk : SK) : Bool :=
  decide (publicKeyShare w vvec id = some (w.getPublicKey sk))

def asyncVerifyContributionShare (id : uint256) (vvec : Option (Vvec PK)) (sk : SK) :
    Except Fault Bool := do
  let vvec ← deref vvec
  return verifyVerificationVector vvec && verifyShare w vvec id sk

def aggregateVvecs (vvecs : List (Vvec PK)) : Vvec PK :=
  (List.range ((vvecs.head?.getD []).length)).map fun i =>
    some (w.aggregatePublicKeys (vvecs.filterMap fun vvec => (vvec[i]?).bind id))

/-- A batch is verified as one and, if that fails, share by share. -/
def verifyBatch (forId : uint256) (batch : List (Vvec PK × SK)) : List Bool :=
  let vvec := aggregateVvecs w (batch.map Prod.fst)
  let skShare := w.aggregateSecretKeys (batch.map Prod.snd)
  if vvec.isEmpty || !w.skIsValid skShare then
    batch.map fun _ => false
  else if verifyShare w vvec forId skShare then
    batch.map fun _ => true
  else
    batch.map fun (vvec, sk) => verifyShare w vvec forId sk

/-- Without any shares the verifier ends before it has called back, and the future throws. -/
def verifyContributionShares (forId : uint256) (shares : List (Option (Vvec PK) × SK)) :
    Except Fault (List Bool) :=
  if verifyVerificationVectors (shares.map Prod.fst) = false then
    .ok (shares.map fun _ => false)
  else if shares.isEmpty then
    .error .brokenPromise
  else
    .ok ((shares.toChunks 8).flatMap fun batch =>
      verifyBatch w forId (batch.map fun (vvec, sk) => (vvec.getD [], sk)))

def buildQuorumVerificationVector (vvecs : List (Vvec PK)) : Option (Vvec PK) :=
  if vvecs.isEmpty || !verifyVerificationVectors (vvecs.map some) then none
  else some (aggregateVvecs w vvecs)

/-- The default key, which is not valid, where there is none or one that is not. -/
def aggregateSecretKeys (skShares : List SK) : Option SK :=
  if skShares.isEmpty || !skShares.all w.skIsValid || !decide skShares.Nodup then none
  else some (w.aggregateSecretKeys skShares)

end Keys

/-! ### State -/

/-- A member with what was received from it. A message stands for its hash. -/
structure CDKGMember (PK SK Blob Sig : Type) where
  proTxHash : uint256
  contributions : List (CDKGContribution PK Blob) := []
  complaints : List CDKGComplaint := []
  justifications : List (CDKGJustification SK) := []
  prematureCommitments : List (CDKGPrematureCommitment PK Sig) := []
  badMemberVotes : List uint256 := []
  complaintsFromOthers : List uint256 := []
  bad : Bool := false
  badConnection : Bool := false
  weComplain : Bool := false
  someoneComplain : Bool := false

structure CDKGSession (PK SK Blob Sig : Type) where
  members : List (CDKGMember PK SK Blob Sig)
  receivedVvecs : List (Option (Vvec PK))
  receivedSkContributions : List SK
  vecEncryptedContributions : List (Option (List Blob))
  myIdx : Option ℕ
  m_sk_contributions : List SK := []
  pendingContributionVerifications : List ℕ := []
  prematureCommitments : List (CDKGPrematureCommitment PK Sig) := []
  validCommitments : List (CDKGPrematureCommitment PK Sig) := []
  -- what `CDKGSessionManager` has written
  verifiedVvecs : List (uint256 × Vvec PK) := []
  verifiedSkContributions : List (uint256 × SK) := []

namespace CDKGSession

/-- `Init`: without an own index the node only observes. -/
def init (env : Session PK SK Blob Sig) (myProTxHash : uint256) : CDKGSession PK SK Blob Sig where
  members := env.proTxHashes.map fun proTxHash => {proTxHash := proTxHash}
  receivedVvecs := env.proTxHashes.map fun _ => none
  receivedSkContributions := env.proTxHashes.map fun _ => env.worker.defaultSk
  vecEncryptedContributions := env.proTxHashes.map fun _ => none
  myIdx := if myProTxHash = 0 then none
    else env.proTxHashes.findIdx? fun proTxHash => proTxHash = myProTxHash

variable (s : CDKGSession PK SK Blob Sig)

/-- `GetMember`, with the index by `membersMap`. -/
def getMember (proTxHash : uint256) : Option (ℕ × CDKGMember PK SK Blob Sig) :=
  (s.members.findIdx? fun m => m.proTxHash = proTxHash).bind fun idx =>
    s.members[idx]?.map fun m => (idx, m)

def setMember (idx : ℕ) (m : CDKGMember PK SK Blob Sig) : CDKGSession PK SK Blob Sig :=
  {s with members := s.members.set idx m}

end CDKGSession

/-! ### Contributions -/

variable [DecidableEq PK] [DecidableEq SK] [DecidableEq Blob] [DecidableEq Sig]
  (env : Session PK SK Blob Sig) (s : CDKGSession PK SK Blob Sig)

/-- The cheap checks of a message. An error says whether its sender is banned. -/
def preVerify (quorumHash proTxHash : uint256) (invalid : Bool)
    (received : CDKGMember PK SK Blob Sig → ℕ) : Except Bool Unit :=
  if quorumHash ≠ env.quorumHash then
    .error false
  else
    match s.getMember proTxHash with
    | none => .error true
    | some (_, member) =>
      if invalid = true then .error true
      else if 2 ≤ received member then .error false
      else .ok ()

def invalidContribution (qc : CDKGContribution PK Blob) : Bool :=
  decide (qc.blobs.length ≠ s.members.length) ||
    decide (qc.vvec.length ≠ env.params.threshold) || !verifyVerificationVector qc.vvec

def preVerifyContribution (qc : CDKGContribution PK Blob) : Except Bool Unit :=
  preVerify env s qc.quorumHash qc.proTxHash (invalidContribution env s qc)
    fun member => member.contributions.length

/-- `Contribute` without the message that it sends. The shares are as many as the members. -/
def contribute : CDKGSession PK SK Blob Sig :=
  if s.myIdx.isSome then
    {s with
      m_sk_contributions := s.members.map fun m => env.worker.secretKeyShare m.proTxHash}
  else
    s

/-- The pending contributions that can be verified. -/
def pendingShares : Except Fault (List (ℕ × Option (Vvec PK) × SK)) :=
  s.pendingContributionVerifications.foldlM (fun shares idx => do
    let m ← index s.members idx
    if m.bad || m.weComplain then
      return shares
    else
      let vvec ← index s.receivedVvecs idx
      let skContribution ← index s.receivedSkContributions idx
      let encrypted ← index s.vecEncryptedContributions idx
      -- written to the database
      let _ ← deref encrypted
      return shares ++ [(idx, vvec, skContribution)]) []

/-- What follows for a member from the verification of its share. -/
def noteShare (s : CDKGSession PK SK Blob Sig) (idx : ℕ) (skContribution : SK) (valid : Bool) :
    Except Fault (CDKGSession PK SK Blob Sig) := do
  let m ← index s.members idx
  if valid then
    return {s with
      verifiedSkContributions := (m.proTxHash, skContribution) :: s.verifiedSkContributions}
  else
    return s.setMember idx {m with weComplain := true}

def verifyPendingContributions : Except Fault (CDKGSession PK SK Blob Sig) :=
  if s.pendingContributionVerifications.isEmpty then
    .ok s
  else do
    let shares ← pendingShares s
    let myId := ((s.myIdx.bind fun i => s.members[i]?).map CDKGMember.proTxHash).getD 0
    let result ← verifyContributionShares env.worker myId (shares.map Prod.snd)
    if result.length ≠ shares.length then
      return s
    else
      let s ← (shares.zip result).foldlM (fun s (share, valid) =>
        noteShare s share.1 share.2.2 valid) s
      return {s with pendingContributionVerifications := []}

/-- A result says whether the message is relayed. -/
def receiveContribution (qc : CDKGContribution PK Blob) :
    Except Fault (Bool × CDKGSession PK SK Blob Sig) := do
  let (idx, member) ← deref (s.getMember qc.proTxHash)
  if 2 ≤ member.contributions.length then
    return (false, s)
  else
    let member := {member with contributions := member.contributions.insert qc}
    if 1 < member.contributions.length then
      return (true, s.setMember idx {member with bad := true})
    else
      let receivedVvecs ← assign s.receivedVvecs idx (some qc.vvec)
      let stored : CDKGSession PK SK Blob Sig :=
        {s.setMember idx member with receivedVvecs := receivedVvecs}
      match s.myIdx with
      | none => return (true, stored)
      | some myIdx =>
        let s := {stored with verifiedVvecs := (qc.proTxHash, qc.vvec) :: s.verifiedVvecs}
        match (qc.blobs[myIdx]?).bind env.worker.decrypt with
        | none => return (true, s.setMember idx {member with weComplain := true})
        | some skContribution =>
          let receivedSkContributions ← assign s.receivedSkContributions idx skContribution
          let vecEncryptedContributions ←
            assign s.vecEncryptedContributions idx (some qc.blobs)
          let s :=
            { s with
              receivedSkContributions := receivedSkContributions
              vecEncryptedContributions := vecEncryptedContributions
              pendingContributionVerifications := s.pendingContributionVerifications ++ [idx] }
          if 32 ≤ s.pendingContributionVerifications.length then
            let s ← verifyPendingContributions env s
            return (true, s)
          else
            return (true, s)

/-! ### Complaints -/

def sendComplaint (myIdx : ℕ) : Except Fault (Option CDKGComplaint) := do
  let me ← index s.members myIdx
  let none := List.replicate env.params.size false
  let (badMembers, complainForMembers) ← s.members.zipIdx.foldlM (fun bits (m, i) =>
    if m.bad || m.badConnection then do
      let badMembers ← assign bits.1 i true
      return (badMembers, bits.2)
    else if m.weComplain then do
      let complainForMembers ← assign bits.2 i true
      return (bits.1, complainForMembers)
    else
      return bits) (none, none)
  if badMembers.contains true || complainForMembers.contains true then
    return some
      { quorumHash := env.quorumHash
        proTxHash := me.proTxHash
        badMembers := badMembers
        complainForMembers := complainForMembers }
  else
    return Option.none

/-- `VerifyAndComplain`. What is known of the connections says which of them are bad. -/
def verifyAndComplain (badConnection : uint256 → Bool) :
    Except Fault (Option CDKGComplaint × CDKGSession PK SK Blob Sig) :=
  match s.myIdx with
  | none => .ok (none, s)
  | some myIdx => do
    let s ← verifyPendingContributions env s
    let s :=
      { s with
        members := s.members.map fun m =>
          { m with
            bad := m.bad || m.contributions.isEmpty
            badConnection := m.badConnection || badConnection m.proTxHash } }
    let complaint ← sendComplaint env s myIdx
    return (complaint, s)

def invalidComplaint (qc : CDKGComplaint) : Bool :=
  decide (qc.badMembers.length ≠ env.params.size) ||
    decide (qc.complainForMembers.length ≠ env.params.size)

def preVerifyComplaint (qc : CDKGComplaint) : Except Bool Unit :=
  preVerify env s qc.quorumHash qc.proTxHash (invalidComplaint env qc)
    fun member => member.complaints.length

/-- What a complaint says of a member. -/
def noteComplaint (proTxHash : uint256) (badMember complainFor : Bool)
    (m : CDKGMember PK SK Blob Sig) : CDKGMember PK SK Blob Sig :=
  { m with
    badMemberVotes := if badMember then m.badMemberVotes.insert proTxHash else m.badMemberVotes
    complaintsFromOthers :=
      if complainFor then m.complaintsFromOthers.insert proTxHash else m.complaintsFromOthers
    someoneComplain := m.someoneComplain || complainFor }

def receiveComplaint (qc : CDKGComplaint) :
    Except Fault (Bool × CDKGSession PK SK Blob Sig) := do
  let (idx, member) ← deref (s.getMember qc.proTxHash)
  if 2 ≤ member.complaints.length then
    return (false, s)
  else
    let member := {member with complaints := member.complaints.insert qc}
    if 1 < member.complaints.length then
      return (true, s.setMember idx {member with bad := true})
    else
      let s := s.setMember idx member
      let members ← s.members.zipIdx.mapM fun (m, i) => do
        let badMember ← index qc.badMembers i
        let complainFor ← index qc.complainForMembers i
        return noteComplaint qc.proTxHash badMember complainFor m
      return (true, {s with members := members})

/-! ### Justifications -/

/-- Whether a member turns out to be bad before the justifications, and whether the node has to
justify itself for it. -/
def checkComplaints (myIdx : ℕ) (m : CDKGMember PK SK Blob Sig) :
    Except Fault (CDKGMember PK SK Blob Sig × Bool) :=
  if m.bad then
    return (m, false)
  else if env.params.dkgBadVotesThreshold ≤ m.badMemberVotes.length then
    return ({m with bad := true}, false)
  else
    match m.complaints with
    | [] => return (m, false)
    | [qc] => do
      let complainFor ← index qc.complainForMembers myIdx
      return (m, complainFor)
    | _ => return ({m with bad := true}, false)

def sendJustification (myIdx : ℕ) (forMembers : List uint256) :
    Except Fault (CDKGJustification SK) := do
  let me ← index s.members myIdx
  let contributions ← s.members.zipIdx.foldlM (fun contributions (m, i) =>
    if m.proTxHash ∈ forMembers then do
      let skContribution ← index s.m_sk_contributions i
      return contributions ++ [(i, skContribution)]
    else
      return contributions) []
  return {
    quorumHash := env.quorumHash
    proTxHash := me.proTxHash
    contributions := contributions }

def verifyAndJustify :
    Except Fault (Option (CDKGJustification SK) × CDKGSession PK SK Blob Sig) :=
  match s.myIdx with
  | none => .ok (none, s)
  | some myIdx => do
    let checked ← s.members.mapM (checkComplaints env myIdx)
    let s := {s with members := checked.map Prod.fst}
    let justifyFor := (checked.filter Prod.snd).map fun p => p.1.proTxHash
    if justifyFor.isEmpty then
      return (none, s)
    else
      let qj ← sendJustification env s myIdx justifyFor
      return (some qj, s)

def invalidJustification (qj : CDKGJustification SK) : Bool :=
  qj.contributions.isEmpty ||
    qj.contributions.any (fun p => decide (s.members.length < p.1)) ||
    !decide (qj.contributions.map Prod.fst).Nodup ||
    qj.contributions.any fun p => !env.worker.skIsValid p.2

def preVerifyJustification (qj : CDKGJustification SK) : Except Bool Unit :=
  preVerify env s qj.quorumHash qj.proTxHash (invalidJustification env s qj)
    fun member => member.justifications.length

/-- What follows from one verified share of a justification. -/
def noteJustified (idx : ℕ) (s : CDKGSession PK SK Blob Sig) (i : ℕ) (skContribution : SK)
    (valid : Bool) : Except Fault (CDKGSession PK SK Blob Sig) := do
  let member ← index s.members idx
  let member2 ← index s.members i
  if valid then
    let own := s.myIdx = some i
    let member :=
      { member with
        weComplain := if own then false else member.weComplain
        complaintsFromOthers := member.complaintsFromOthers.erase member2.proTxHash }
    if own then
      let receivedSkContributions ← assign s.receivedSkContributions idx skContribution
      return {s.setMember idx member with
        receivedSkContributions := receivedSkContributions
        verifiedSkContributions :=
          (member.proTxHash, skContribution) :: s.verifiedSkContributions}
    else
      return s.setMember idx member
  else
    return s.setMember idx {member with bad := true}

def receiveJustification (qj : CDKGJustification SK) :
    Except Fault (Bool × CDKGSession PK SK Blob Sig) := do
  let (idx, member) ← deref (s.getMember qj.proTxHash)
  if 2 ≤ member.justifications.length then
    return (false, s)
  else
    let member := {member with justifications := member.justifications.insert qj}
    if 1 < member.justifications.length then
      return (true, s.setMember idx {member with bad := true})
    else if member.bad then
      return (true, s.setMember idx member)
    else
      let s := s.setMember idx member
      let justified ← qj.contributions.mapM fun p => index s.members p.1
      if justified.any fun member2 => !member.complaintsFromOthers.contains member2.proTxHash then
        return (true, s.setMember idx {member with bad := true})
      else
        let receivedVvec ← index s.receivedVvecs idx
        let results ← qj.contributions.mapM fun (i, skContribution) => do
          let member2 ← index s.members i
          asyncVerifyContributionShare env.worker member2.proTxHash receivedVvec skContribution
        let s ← (qj.contributions.zip results).foldlM (fun s (p, valid) =>
          noteJustified idx s p.1 p.2 valid) s
        return (true, s)

/-! ### Commitments -/

/-- The contributions of the members that are valid, where the node has all of them. -/
def getVerifiedContributions (validMembers : List Bool) :
    Except Fault (Option (List (Vvec PK × SK))) :=
  s.members.zipIdx.foldlM (fun contributions (m, i) =>
    match contributions with
    | none => return none
    | some contributions => do
      let valid ← index validMembers i
      if valid then
        match s.verifiedVvecs.lookup m.proTxHash with
        | none => return none
        | some vvec =>
          let skContribution :=
            (s.verifiedSkContributions.lookup m.proTxHash).getD env.worker.defaultSk
          return some (contributions ++ [(vvec, skContribution)])
      else
        return some contributions) (some [])

def sendCommitment (myIdx : ℕ) : Except Fault (Option (CDKGPrematureCommitment PK Sig)) := do
  let me ← index s.members myIdx
  let validMembers ← s.members.zipIdx.foldlM (fun validMembers (m, i) =>
    if m.bad then return validMembers else assign validMembers i true)
    (List.replicate env.params.size false)
  if validMembers.count true < env.params.minSize then
    return none
  else
    let contributions ← getVerifiedContributions env s validMembers
    match contributions with
    | none => return none
    | some contributions =>
      match buildQuorumVerificationVector env.worker (contributions.map Prod.fst),
        aggregateSecretKeys env.worker (contributions.map Prod.snd) with
      | some vvec, some skShare => do
        let quorumPublicKey ← index vvec 0
        let quorumVvecHash := env.worker.vvecHash vvec
        return some
          { quorumHash := env.quorumHash
            proTxHash := me.proTxHash
            validMembers := validMembers
            quorumPublicKey := quorumPublicKey
            quorumVvecHash := quorumVvecHash
            quorumSig := quorumPublicKey.bind fun pk =>
              env.worker.signShare skShare validMembers pk quorumVvecHash
            sig := quorumPublicKey.bind fun pk =>
              env.worker.sign validMembers pk quorumVvecHash }
      | _, _ => return none

def verifyAndCommit :
    Except Fault (Option (CDKGPrematureCommitment PK Sig) × CDKGSession PK SK Blob Sig) :=
  match s.myIdx with
  | none => .ok (none, s)
  | some myIdx => do
    let s := {s with members := s.members.map fun m =>
      {m with bad := m.bad || !m.complaintsFromOthers.isEmpty}}
    let commitment ← sendCommitment env s myIdx
    return (commitment, s)

def invalidPrematureCommitment (qc : CDKGPrematureCommitment PK Sig) : Bool :=
  decide (qc.validMembers.length ≠ env.params.size) ||
    decide (qc.countValidMembers < env.params.minSize) ||
    !qc.sig.isSome || !qc.quorumSig.isSome ||
    (qc.validMembers.drop s.members.length).contains true

def preVerifyPrematureCommitment (qc : CDKGPrematureCommitment PK Sig) : Except Bool Unit :=
  preVerify env s qc.quorumHash qc.proTxHash (invalidPrematureCommitment env s qc)
    fun member => member.prematureCommitments.length

/-- Whether a commitment fits the contributions, where the node can tell. -/
def verifyPremature (qc : CDKGPrematureCommitment PK Sig) : Except Fault Bool := do
  let contributions ← getVerifiedContributions env s qc.validMembers
  match contributions.bind fun contributions =>
    buildQuorumVerificationVector env.worker (contributions.map Prod.fst) with
  | none => return true
  | some quorumVvec => do
    let quorumPublicKey ← index quorumVvec 0
    return decide (quorumPublicKey = qc.quorumPublicKey) &&
      decide (qc.quorumVvecHash = env.worker.vvecHash quorumVvec) &&
      (publicKeyShare env.worker quorumVvec qc.proTxHash).any (env.worker.verifyQuorumSig qc)

def receivePrematureCommitment (qc : CDKGPrematureCommitment PK Sig) :
    Except Fault (Bool × CDKGSession PK SK Blob Sig) := do
  let (idx, member) ← deref (s.getMember qc.proTxHash)
  let member := {member with prematureCommitments := member.prematureCommitments.insert qc}
  let s := {s.setMember idx member with
    prematureCommitments := s.prematureCommitments.insert qc}
  let valid ← verifyPremature env s qc
  if valid then
    return (true, {s with validCommitments := s.validCommitments.insert qc})
  else
    return (false, s)

/-- A final commitment before its signatures are put together. -/
structure Finalized (PK : Type) where
  validMembers : List Bool
  signers : List Bool
  quorumPublicKey : Option PK
  quorumVvecHash : uint256

/-- `membersMap[proTxHash]`, which is 0 for what it does not have. -/
def signerIndex (proTxHash : uint256) : ℕ :=
  (s.members.findIdx? fun m => m.proTxHash = proTxHash).getD 0

def finalizeGroup (cvec : List (CDKGPrematureCommitment PK Sig)) :
    Except Fault (Finalized PK) := do
  let first ← index cvec 0
  let signers ← cvec.foldlM (fun signers qc =>
    if qc.quorumPublicKey ≠ first.quorumPublicKey ∨ qc.quorumVvecHash ≠ first.quorumVvecHash then
      return signers
    else do
      let signerIndex := signerIndex s qc.proTxHash
      let _ ← index s.members signerIndex
      assign signers signerIndex true) (List.replicate env.params.size false)
  return {
    validMembers := first.validMembers
    signers := signers
    quorumPublicKey := first.quorumPublicKey
    quorumVvecHash := first.quorumVvecHash }

/-- `FinalizeCommitments` up to the recovery and the verification of each commitment. -/
def finalizeCommitments : Except Fault (List (Finalized PK)) :=
  if s.myIdx.isNone then
    .ok []
  else
    let valid := s.prematureCommitments.filter fun qc => qc ∈ s.validCommitments
    if valid.any fun qc => decide (qc.countValidMembers < env.params.minSize) then
      .error .assertion
    else
      let groups := ((valid.map CDKGPrematureCommitment.validMembers).dedup.map fun validMembers =>
        valid.filter fun qc => qc.validMembers = validMembers)
      (groups.filter fun cvec => decide (env.params.minSize ≤ cvec.length)).mapM
        (finalizeGroup env s)

end BabaChain.LLMQ.DKG
