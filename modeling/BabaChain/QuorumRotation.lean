import BabaChain.ValueList
import BabaChain.Quorums
import BabaChain.Lib.Loops

/-! `llmq::utils`: the members of rotated quorums. In each cycle a quarter of the members of a
quorum is new. A snapshot tells how it was chosen. -/
namespace BabaChain.LLMQ.Utils
open Evo Evo.ByValue BLS Std Loops

/-! ### Scores -/

structure Hashing (G : Type) where
  codec : KeyCodec G
  sha256d : List UInt8 → uint256
  /-- The hash of a confirmed hash and a modifier, as a number. -/
  sha256 : uint256 → uint256 → ℕ

variable {G : Type} (c : Hashing G)

def calculateQuorumScore (dmn : CDeterministicMN G) (modifier : uint256) : ℕ :=
  c.sha256 dmn.pdmnState.confirmedHashWithProRegTxHash modifier

/-- Whether a masternode that is not banned may be a member. -/
def takenIntoAccount (onlyEvoNodes : Bool) (dmn : CDeterministicMN G) : Bool :=
  decide (dmn.pdmnState.confirmedHash ≠ 0) && (!onlyEvoNodes || decide (dmn.nType = .Evo))

def calculateScoresForQuorum (dmns : List (CDeterministicMN G)) (modifier : uint256)
    (onlyEvoNodes : Bool) : List (ℕ × CDeterministicMN G) :=
  (dmns.filter fun dmn => !dmn.pdmnState.isBanned && takenIntoAccount onlyEvoNodes dmn).map
    fun dmn => (calculateQuorumScore c dmn modifier, dmn)

/-- The same for the masternodes of a list that are not banned. -/
def calculateScoresForList (mn_list : CDeterministicMNList G) (modifier : uint256)
    (onlyEvoNodes : Bool) : List (ℕ × CDeterministicMN G) :=
  (mn_list.validMNs.filter (takenIntoAccount onlyEvoNodes)).map
    fun dmn => (calculateQuorumScore c dmn modifier, dmn)

/-- Whether a score comes before another, by the collateral where they are equal. -/
def scoreLE (a b : ℕ × CDeterministicMN G) : Bool :=
  if a.1 = b.1 then (compare a.2.collateralOutpoint b.2.collateralOutpoint).isLE
  else decide (a.1 ≤ b.1)

/-- Highest score first. All of them where `maxSize` is 0. -/
def calculateQuorum (scores : List (ℕ × CDeterministicMN G)) (maxSize : ℕ) :
    List (CDeterministicMN G) :=
  let scores := scores.insertionSort fun a b => scoreLE b a = true
  let scores := if 0 < maxSize ∧ maxSize < scores.length then scores.take maxSize else scores
  scores.map Prod.snd

/-! ### Snapshots -/

/-- The mode is kept as a number. Others than these do as the last two. -/
inductive SnapshotSkipMode
  | MODE_NO_SKIPPING
  | MODE_SKIPPING_ENTRIES
  | MODE_NO_SKIPPING_ENTRIES
  | MODE_ALL_SKIPPED
deriving DecidableEq

structure CQuorumSnapshot where
  activeQuorumMembers : List Bool := []
  mnSkipListMode : SnapshotSkipMode := .MODE_NO_SKIPPING
  mnSkipList : List ℤ := []
deriving DecidableEq

/-- The parameters of a quorum type with the size of its quorums. -/
structure RotationParams extends LLMQParams where
  size : ℕ

def RotationParams.quarterSize (p : RotationParams) : ℕ := p.size/4

/-- A cycle of quorums: its base block, `GetHashModifier` there, and the list of its work block. -/
structure QuorumCycle (G : Type) where
  nHeight : ℕ
  isV19Active : Bool
  modifier : uint256
  mns : CDeterministicMNList G

/-- The members by quorum index. -/
abbrev Quarters (G : Type) := List (List (CDeterministicMN G))

structure PreviousQuorumQuarters (G : Type) where
  quarterHMinusC : Quarters G
  quarterHMinus2C : Quarters G
  quarterHMinus3C : Quarters G

variable (p : RotationParams) (isTestnet : Bool)

/-- Whether a block is the base of a cycle of quorums that are rotated. -/
def isCycleBase (nHeight : ℕ) : Bool := p.useRotation && decide (nHeight%p.dkgInterval = 0)

/-! ### Used masternodes -/

namespace QuorumCycle

variable (cycle : QuorumCycle G)

/-- Those of former quarters that are passed over. -/
def forgets (mn : CDeterministicMN G) : Bool :=
  let skipRemovedMNs := cycle.isV19Active || isTestnet
  skipRemovedMNs && !cycle.mns.hasMN mn.proTxHash ||
    (cycle.mns.getMN mn.proTxHash).any fun dmn => dmn.pdmnState.isBanned

/-- What a list throws is caught. -/
def addUsed (list : CDeterministicMNList G) (mn : CDeterministicMN G) : CDeterministicMNList G :=
  if cycle.forgets isTestnet mn then
    list
  else
    match list.addMN c.codec c.sha256d mn true with
    | .ok list => list
    | .error _ => list

end QuorumCycle

namespace PreviousQuorumQuarters

variable (previous : PreviousQuorumQuarters G) (cycle : QuorumCycle G)

/-- The former members of a quorum, in the order in which they are added. -/
def members (i : ℕ) : List (CDeterministicMN G) :=
  previous.quarterHMinusC.getD i [] ++ previous.quarterHMinus2C.getD i [] ++
    previous.quarterHMinus3C.getD i []

def mnsUsedAtHIndexed (i : ℕ) : CDeterministicMNList G :=
  (previous.members i).foldl (cycle.addUsed c isTestnet) {}

def mnsUsedAtH : CDeterministicMNList G :=
  ((List.range p.signingActiveQuorumCount).flatMap previous.members).foldl
    (cycle.addUsed c isTestnet) {}

/-- Masternodes that are not used come first. -/
def sortedCombinedMnsList : List (CDeterministicMN G) :=
  let mnsUsedAtH := previous.mnsUsedAtH c p isTestnet cycle
  let mnsNotUsedAtH := cycle.mns.mns.filter fun dmn =>
    !mnsUsedAtH.hasMN dmn.proTxHash && !dmn.pdmnState.isBanned
  calculateQuorum (calculateScoresForQuorum c mnsNotUsedAtH cycle.modifier false) 0 ++
    calculateQuorum (calculateScoresForList c mnsUsedAtH cycle.modifier false) 0

end PreviousQuorumQuarters

/-! ### The walk round the list -/

variable {combined : List (CDeterministicMN G)}

/-- The next index, from the last to the first. -/
def nextIdx (idx : Fin combined.length) : Fin combined.length :=
  ⟨if idx+1 = combined.length then 0 else idx+1, by
    have hlt := idx.isLt
    split_ifs <;> omega⟩

/-- The used masternodes of a quorum with one more, unless it is one of them or cannot be added. -/
def withMN (used : CDeterministicMNList G) (mn : CDeterministicMN G) :
    Option (CDeterministicMNList G) :=
  if used.hasMN mn.proTxHash then none else (used.addMN c.codec c.sha256d mn true).toOption

/-- What goes on from one quorum to the next. -/
structure Walk (combined : List (CDeterministicMN G)) where
  idx : Fin combined.length
  skipList : List ℤ := []
  firstSkippedIndex : ℕ := 0

/-- The index of the first skipped masternode is kept as it is, the others relative to it. -/
def Walk.skip (w : Walk combined) : Walk combined :=
  if w.firstSkippedIndex = 0 then
    {w with firstSkippedIndex := w.idx, skipList := w.skipList ++ [(w.idx : ℤ)]}
  else
    {w with skipList := w.skipList ++ [(w.idx : ℤ)-w.firstSkippedIndex]}

/-- The state of the loop that fills a quarter. -/
structure Filling (combined : List (CDeterministicMN G)) extends Walk combined where
  used : CDeterministicMNList G
  quarter : List (CDeterministicMN G) := []
  updated : Bool := false

namespace Filling

variable (s : Filling combined)

def mn : CDeterministicMN G := combined[s.idx]

def visit : Filling combined :=
  match withMN c s.used s.mn with
  | some used => {s with used, quarter := s.quarter ++ [s.mn], updated := true}
  | none => {s with toWalk := s.toWalk.skip}

/-- `none` where a whole lap has brought no member. -/
def turn (initial_loop_idx : Fin combined.length) : Option (Filling combined) :=
  let s := {s.visit c with idx := nextIdx s.idx}
  if s.idx = initial_loop_idx then
    if s.updated then some {s with updated := false} else none
  else
    some s

/-- The steps that are left of a lap. -/
def lapLeft (initial_loop_idx idx : Fin combined.length) : ℕ :=
  if idx < initial_loop_idx then initial_loop_idx-idx
  else initial_loop_idx+combined.length-idx

variable (quarterSize usedMNsCount : ℕ)

def more : Bool :=
  decide (s.quarter.length < quarterSize ∧ usedMNsCount+s.quarter.length < combined.length)

def measure (initial_loop_idx : Fin combined.length) : ℕ :=
  ((quarterSize-s.quarter.length)*2+s.updated.toNat)*(combined.length+1)+
    lapLeft initial_loop_idx s.idx

end Filling

theorem lapLeft_nextIdx {initial_loop_idx idx : Fin combined.length}
    (h : nextIdx idx ≠ initial_loop_idx) :
    Filling.lapLeft initial_loop_idx (nextIdx idx)+1 = Filling.lapLeft initial_loop_idx idx := by
  have hlt := idx.isLt
  have hinitial := initial_loop_idx.isLt
  have hne : (nextIdx idx : ℕ) ≠ initial_loop_idx := fun heq => h (Fin.ext heq)
  unfold Filling.lapLeft
  simp only [Fin.lt_def]
  unfold nextIdx at hne ⊢
  dsimp only at hne ⊢
  split_ifs at hne ⊢ <;> omega

theorem lapLeft_le (initial_loop_idx idx : Fin combined.length) :
    Filling.lapLeft initial_loop_idx idx ≤ combined.length := by
  have hlt := idx.isLt
  unfold Filling.lapLeft
  simp only [Fin.lt_def]
  split_ifs <;> omega

namespace Filling

variable {c} {s s' : Filling combined} {initial_loop_idx : Fin combined.length}

theorem turn_cases (h : s.turn c initial_loop_idx = some s') :
    (∃ used updated, withMN c s.used s.mn = some used ∧
      s' = {s with idx := nextIdx s.idx, used, quarter := s.quarter ++ [s.mn], updated}) ∨
    ∃ updated, withMN c s.used s.mn = none ∧
      s' = {s with toWalk := {s.toWalk.skip with idx := nextIdx s.idx}, updated} ∧
      (nextIdx s.idx ≠ initial_loop_idx ∧ updated = s.updated ∨
        s.updated = true ∧ updated = false) := by
  unfold turn visit at h
  cases hwith : withMN c s.used s.mn with
  | some used =>
    rw [hwith] at h
    dsimp only at h
    refine Or.inl ⟨used, s'.updated, rfl, ?_⟩
    split_ifs at h
    · obtain rfl := Option.some.inj h
      rfl
    · obtain rfl := Option.some.inj h
      rfl
  | none =>
    rw [hwith] at h
    dsimp only at h
    refine Or.inr ⟨s'.updated, rfl, ?_⟩
    split_ifs at h with hlap hupdated
    · obtain rfl := Option.some.inj h
      exact ⟨rfl, Or.inr ⟨hupdated, rfl⟩⟩
    · obtain rfl := Option.some.inj h
      exact ⟨rfl, Or.inl ⟨hlap, rfl⟩⟩

theorem lap_lt {a b l l' n : ℕ} (h : a < b) (hl : l ≤ n) : a*(n+1)+l < b*(n+1)+l' := by
  calc a*(n+1)+l < a*(n+1)+(n+1) := by omega
    _ = (a+1)*(n+1) := (Nat.succ_mul a (n+1)).symm
    _ ≤ b*(n+1) := Nat.mul_le_mul_right _ h
    _ ≤ b*(n+1)+l' := Nat.le_add_right _ _

/-- A turn takes a masternode, or goes on in a lap, or ends one in which some were taken. -/
theorem measure_turn {quarterSize usedMNsCount : ℕ} (hmore : s.more quarterSize usedMNsCount = true)
    (h : s.turn c initial_loop_idx = some s') :
    s'.measure quarterSize initial_loop_idx < s.measure quarterSize initial_loop_idx := by
  obtain ⟨hshort, -⟩ := of_decide_eq_true hmore
  rcases turn_cases h with ⟨used, updated, -, rfl⟩ | ⟨updated, -, rfl, hlap⟩
  · refine lap_lt ?_ (lapLeft_le _ _)
    have hbool := Bool.toNat_le updated
    dsimp only
    rw [List.length_append, List.length_singleton]
    omega
  · rcases hlap with ⟨hne, rfl⟩ | ⟨hupdated, rfl⟩
    · have hleft := lapLeft_nextIdx hne
      unfold measure
      dsimp only
      omega
    · refine lap_lt ?_ (lapLeft_le _ _)
      rw [hupdated]
      exact Nat.lt_succ_self _

variable (c) in
/-- The loop that fills the quarter of a quorum. -/
def fill (quarterSize usedMNsCount : ℕ) (initial_loop_idx : Fin combined.length) :
    Loop (Filling combined) where
  more s := s.more quarterSize usedMNsCount
  body s := s.turn c initial_loop_idx
  measure s := s.measure quarterSize initial_loop_idx
  decreases _ _ := measure_turn

end Filling

/-- The quarters of the quorums in turn, given the masternodes that each has used. -/
def fillQuarters (quarterSize : ℕ) : List (CDeterministicMNList G) → Walk combined →
    Option (Quarters G × Walk combined)
  | [], w => some ([], w)
  | used :: mnsUsedAtHIndexed, w => do
    let s ← (Filling.fill c quarterSize used.mnMap.size w.idx).run {w with used}
    let (quarters, w) ← fillQuarters quarterSize mnsUsedAtHIndexed s.toWalk
    some (s.quarter :: quarters, w)

/-! ### A new quarter -/

def buildQuorumSnapshot (cycle : QuorumCycle G) (mnUsedAtH : CDeterministicMNList G)
    (skipList : List ℤ) : CQuorumSnapshot :=
  let sortedAllMns := calculateQuorum (calculateScoresForList c cycle.mns cycle.modifier false) 0
  { activeQuorumMembers :=
      sortedAllMns.map (fun dmn => mnUsedAtH.hasMN dmn.proTxHash) ++
        List.replicate (cycle.mns.mnMap.size-sortedAllMns.length) false
    mnSkipListMode := if skipList = [] then .MODE_NO_SKIPPING else .MODE_SKIPPING_ENTRIES
    mnSkipList := skipList }

/-- The new quarters, with a snapshot where one is stored. -/
def buildNewQuorumQuarterMembers (cycle : QuorumCycle G) (previous : PreviousQuorumQuarters G) :
    Quarters G × Option CQuorumSnapshot :=
  let nQuorums := p.signingActiveQuorumCount
  if isCycleBase p cycle.nHeight = false then
    ([], none)
  else if cycle.mns.validMNs.length < p.quarterSize then
    (List.replicate nQuorums [], none)
  else
    let combined := previous.sortedCombinedMnsList c p isTestnet cycle
    let mnUsedAtH := previous.mnsUsedAtH c p isTestnet cycle
    if h : 0 < combined.length then
      let mnsUsedAtHIndexed :=
        (List.range nQuorums).map (previous.mnsUsedAtHIndexed c isTestnet cycle)
      match fillQuarters c p.quarterSize mnsUsedAtHIndexed (⟨⟨0, h⟩, [], 0⟩ : Walk combined) with
      | none => (List.replicate nQuorums [], none)
      | some (quarterQuorumMembers, w) =>
        (quarterQuorumMembers, some (buildQuorumSnapshot c cycle mnUsedAtH w.skipList))
    else
      -- no loop is entered
      (List.replicate nQuorums [], some (buildQuorumSnapshot c cycle mnUsedAtH []))

/-! ### A quarter from its snapshot -/

/-- Unused masternodes first, as the snapshot tells them. -/
def sortedCombinedMns (cycle : QuorumCycle G) (snapshot : CQuorumSnapshot) :
    List (CDeterministicMN G) :=
  let sortedAllMns := calculateQuorum (calculateScoresForList c cycle.mns cycle.modifier false) 0
  let flagged := sortedAllMns.zipIdx.map fun (dmn, i) =>
    (dmn, snapshot.activeQuorumMembers.getD i false)
  let usedMNs := flagged.filter Prod.snd
  let unusedMNs := flagged.filter fun (dmn, used) => !used && !dmn.pdmnState.isBanned
  unusedMNs.map Prod.fst ++ usedMNs.map Prod.fst

/-- The indices that are skipped, where the entries are relative to the first that is not 0. -/
def processedSkipList : ℤ → List ℤ → List ℤ
  | _, [] => []
  | first_entry_index, s :: mnSkipList =>
    if first_entry_index = 0 then s :: processedSkipList s mnSkipList
    else (first_entry_index+s) :: processedSkipList first_entry_index mnSkipList

/-- A quarter of `n` more members, from an index on, with the entries that are left. -/
def fillBySkipList : Fin combined.length × List ℤ → ℕ →
    List (CDeterministicMN G) × Fin combined.length × List ℤ
  | s, 0 => ([], s)
  | (idx, []), n+1 =>
    let (quarter, s) := fillBySkipList (nextIdx idx, []) n
    (combined[idx] :: quarter, s)
  | (idx, itsk :: rest), n+1 =>
    if (idx : ℤ) = itsk then
      fillBySkipList (nextIdx idx, rest) (n+1)
    else
      let (quarter, s) := fillBySkipList (nextIdx idx, itsk :: rest) n
      (combined[idx] :: quarter, s)
termination_by s n => s.2.length+n

def fillAllBySkipList (quarterSize : ℕ) : ℕ → Fin combined.length × List ℤ → Quarters G
  | 0, _ => []
  | numQuorums+1, s =>
    let (quarter, s) := fillBySkipList s quarterSize
    quarter :: fillAllBySkipList quarterSize numQuorums s

def getQuorumQuarterMembersBySnapshot (cycle : QuorumCycle G) (snapshot : CQuorumSnapshot) :
    Quarters G :=
  let numQuorums := p.signingActiveQuorumCount
  if isCycleBase p cycle.nHeight = false then
    []
  else
    let combined := sortedCombinedMns c cycle snapshot
    if h : 0 < combined.length then
      let start : Fin combined.length := ⟨0, h⟩
      match snapshot.mnSkipListMode with
      | .MODE_NO_SKIPPING => fillAllBySkipList p.quarterSize numQuorums (start, [])
      | .MODE_SKIPPING_ENTRIES =>
        fillAllBySkipList p.quarterSize numQuorums
          (start, processedSkipList 0 snapshot.mnSkipList)
      | .MODE_NO_SKIPPING_ENTRIES => List.replicate numQuorums []
      | .MODE_ALL_SKIPPED => List.replicate numQuorums []
    else
      List.replicate numQuorums []

/-! ### Quorums of four quarters -/

/-- What the members depend on along a chain, by the height of the base block of a cycle. -/
structure CycleChain (G : Type) where
  isV19Active : ℕ → Bool
  modifier : ℕ → uint256
  mns : ℕ → CDeterministicMNList G

def CycleChain.cycle (chain : CycleChain G) (nHeight : ℕ) : QuorumCycle G :=
  ⟨nHeight, chain.isV19Active nHeight, chain.modifier nHeight, chain.mns nHeight⟩

/-- The snapshots that are stored, by the height of the base block. -/
abbrev CQuorumSnapshotManager := ℕ → Option CQuorumSnapshot

variable (chain : CycleChain G) (qsnapman : CQuorumSnapshotManager)

/-- The quarters of the base block that is `n` blocks back, where a snapshot is stored. -/
def quartersBack (nHeight n : ℕ) : Option (Quarters G) :=
  if n ≤ nHeight then
    (qsnapman (nHeight-n)).map
      (getQuorumQuarterMembersBySnapshot c p (chain.cycle (nHeight-n)))
  else
    none

/-- A quarter without a snapshot hides the older ones. -/
def getPreviousQuorumQuarterMembers (nHeight : ℕ) : PreviousQuorumQuarters G :=
  let cycleLength := p.dkgInterval
  let noMembers := List.replicate p.signingActiveQuorumCount []
  match quartersBack c p chain qsnapman nHeight cycleLength with
  | none => ⟨noMembers, noMembers, noMembers⟩
  | some quarterHMinusC =>
    match quartersBack c p chain qsnapman nHeight (2*cycleLength) with
    | none => ⟨quarterHMinusC, noMembers, noMembers⟩
    | some quarterHMinus2C =>
      ⟨quarterHMinusC, quarterHMinus2C,
        (quartersBack c p chain qsnapman nHeight (3*cycleLength)).getD noMembers⟩

/-- The members of each quorum, and the snapshots with the new one. -/
def computeQuorumMembersByQuarterRotation (nHeight : ℕ) : Quarters G × CQuorumSnapshotManager :=
  if isCycleBase p nHeight = false then
    ([], qsnapman)
  else
    let previousQuarters := getPreviousQuorumQuarterMembers c p chain qsnapman nHeight
    let (newQuarterMembers, quorumSnapshot) :=
      buildNewQuorumQuarterMembers c p isTestnet (chain.cycle nHeight) previousQuarters
    ((List.range p.signingActiveQuorumCount).map fun i =>
        previousQuarters.quarterHMinus3C.getD i [] ++ previousQuarters.quarterHMinus2C.getD i [] ++
          previousQuarters.quarterHMinusC.getD i [] ++ newQuarterMembers.getD i [],
      match quorumSnapshot with
      | none => qsnapman
      | some snapshot => Function.update qsnapman nHeight (some snapshot))

end BabaChain.LLMQ.Utils
