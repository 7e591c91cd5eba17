import BabaChain.GovernanceVotes
import BabaChain.SuperblockPayments
import Mathlib.Data.List.MinMax

/-! The triggers of superblocks: which one a node takes at a height, and whether one is triggered
there at all. -/
namespace BabaChain.Governance
open MachineInt
open Evo.ByValue (CDeterministicMNList)
open Std (ExtTreeMap)

variable {G : Type*}

/-- `GetValidWeightedMNsCount`. -/
def getValidWeightedMNsCount (mnList : CDeterministicMNList G) : ℤ :=
  (mnList.validMNs.map fun dmn => (dmn.nType.voting_weight : ℤ)).sum

variable (env : VoteChecks G) (nGovernanceMinQuorum : ℤ)

namespace CGovernanceObject

/-- `UpdateSentinelVariables`, which leaves the flags as they are when no masternode is valid. -/
def updateSentinelVariables (time : ℤ) (govobj : CGovernanceObject) : CGovernanceObject :=
  let nWeightedMnCount := getValidWeightedMNsCount env.tip_mn_list
  if nWeightedMnCount = 0 then
    govobj
  else
    let nAbsVoteReq := max nGovernanceMinQuorum (nWeightedMnCount.tdiv 10)
    let nAbsDeleteReq := max nGovernanceMinQuorum ((2*nWeightedMnCount).tdiv 3)
    let deleted := decide (nAbsDeleteReq ≤ govobj.getAbsoluteYesCount env VOTE_SIGNAL_DELETE) &&
      !govobj.fCachedDelete
    {govobj with
      fDirtyCache := false
      fCachedFunding := decide (nAbsVoteReq ≤ govobj.getAbsoluteYesCount env VOTE_SIGNAL_FUNDING)
      fCachedDelete := govobj.fCachedDelete || deleted
      nDeletionTime := if deleted && govobj.nDeletionTime == 0 then time else govobj.nDeletionTime
      fCachedEndorsed := decide (nAbsVoteReq ≤ govobj.getAbsoluteYesCount env VOTE_SIGNAL_ENDORSED)
      fCachedValid := !decide (nAbsVoteReq ≤ govobj.getAbsoluteNoCount env VOTE_SIGNAL_VALID)}

end CGovernanceObject

/-- What superblocks read of `CGovernanceManager`. -/
structure TriggerState where
  mapObjects : ExtTreeMap uint256 CGovernanceObject := ∅
  mapTrigger : ExtTreeMap uint256 CSuperblock := ∅

variable (p : SuperblockParams) (time : ℤ)

namespace TriggerState

/-- `GetActiveTriggersInternal`: the triggers of which there is an object. -/
def getActiveTriggers (gov : TriggerState) : List CSuperblock :=
  (gov.mapTrigger.toList.filter fun trigger => decide (trigger.1 ∈ gov.mapObjects)).map Prod.snd

/-- The loop of `IsSuperblockTriggered`, which updates the objects that it looks at. -/
def anyTriggered (nBlockHeight : ℤ) : List CSuperblock → ExtTreeMap uint256 CGovernanceObject →
    Bool × ExtTreeMap uint256 CGovernanceObject
  | [], mapObjects => (false, mapObjects)
  | pSuperblock :: vecTriggers, mapObjects =>
    match mapObjects[pSuperblock.nGovObjHash]? with
    | none => anyTriggered nBlockHeight vecTriggers mapObjects
    | some pObj =>
      if nBlockHeight ≠ pSuperblock.nBlockHeight then
        anyTriggered nBlockHeight vecTriggers mapObjects
      else
        let pObj' := pObj.updateSentinelVariables env nGovernanceMinQuorum time
        let mapObjects' := mapObjects.insert pSuperblock.nGovObjHash pObj'
        if pObj'.fCachedFunding then (true, mapObjects')
        else anyTriggered nBlockHeight vecTriggers mapObjects'

def isSuperblockTriggered (gov : TriggerState) (nBlockHeight : ℤ) : Bool × TriggerState :=
  if !isValidBlockHeight p nBlockHeight then
    (false, gov)
  else
    let (triggered, mapObjects) :=
      anyTriggered env nGovernanceMinQuorum time nBlockHeight gov.getActiveTriggers gov.mapObjects
    (triggered, {gov with mapObjects})

/-- One turn of the loop of `GetBestSuperblockInternal`. -/
def takeBetter (mapObjects : ExtTreeMap uint256 CGovernanceObject) (nBlockHeight : ℤ)
    (best : Option CSuperblock × ℤ) (pSuperblock : CSuperblock) : Option CSuperblock × ℤ :=
  if nBlockHeight ≠ pSuperblock.nBlockHeight then
    best
  else
    match mapObjects[pSuperblock.nGovObjHash]? with
    | none => best
    | some pObj =>
      let nTempYesCount := pObj.getAbsoluteYesCount env VOTE_SIGNAL_FUNDING
      if best.2 < nTempYesCount then (some pSuperblock, nTempYesCount) else best

/-- `GetBestSuperblockInternal`; `none` where it returns false. -/
def getBestSuperblock (gov : TriggerState) (nBlockHeight : ℤ) : Option CSuperblock :=
  if !isValidBlockHeight p nBlockHeight then
    none
  else
    let (pSuperblockRet, nYesCount) :=
      gov.getActiveTriggers.foldl (takeBetter env gov.mapObjects nBlockHeight) (none, 0)
    if 0 < nYesCount then pSuperblockRet else none

/-- `GetSuperblockPayments`: the outputs, where there is a superblock. -/
def getSuperblockPayments (gov : TriggerState) (nBlockHeight : ℤ) : List CTxOut :=
  ((gov.getBestSuperblock env p nBlockHeight).map CSuperblock.outputs).getD []

/-- `IsValidSuperblock`. -/
def isValidSuperblock (network : Network) (fuel : ℕ) (gov : TriggerState) (txNew : CTransaction)
    (nBlockHeight blockReward : ℤ) : Option Bool :=
  match gov.getBestSuperblock env p nBlockHeight with
  | none => some false
  | some pSuperblock => pSuperblock.isValid network fuel p txNew nBlockHeight blockReward

end TriggerState

/-! ### What the two choices say -/

/-- The support of an object for funding. -/
def CGovernanceObject.support (govobj : CGovernanceObject) : ℤ :=
  govobj.getAbsoluteYesCount env VOTE_SIGNAL_FUNDING

/-- Whether an object is going to have its funding flag after an update. -/
def CGovernanceObject.funded (govobj : CGovernanceObject) : Bool :=
  if getValidWeightedMNsCount env.tip_mn_list = 0 then
    govobj.fCachedFunding
  else
    decide (max nGovernanceMinQuorum ((getValidWeightedMNsCount env.tip_mn_list).tdiv 10) ≤
      govobj.support env)

namespace TriggerState

/-- The support and the funding flag of a trigger's object. -/
def standing (mapObjects : ExtTreeMap uint256 CGovernanceObject) (pSuperblock : CSuperblock) :
    Option (ℤ × Bool) :=
  mapObjects[pSuperblock.nGovObjHash]?.map fun pObj =>
    (pObj.support env, pObj.funded env nGovernanceMinQuorum)

/-- Objects that differ only in what an update changes. -/
def SameStanding (mapObjects mapObjects' : ExtTreeMap uint256 CGovernanceObject) : Prop :=
  ∀ nHash : uint256, (mapObjects'[nHash]?.map fun pObj =>
      (pObj.support env, pObj.funded env nGovernanceMinQuorum)) =
    mapObjects[nHash]?.map fun pObj => (pObj.support env, pObj.funded env nGovernanceMinQuorum)

variable {env nGovernanceMinQuorum time p}

theorem support_update (pObj : CGovernanceObject) :
    (pObj.updateSentinelVariables env nGovernanceMinQuorum time).support env = pObj.support env := by
  unfold CGovernanceObject.updateSentinelVariables
  dsimp only
  split <;> rfl

theorem funded_update (pObj : CGovernanceObject) :
    (pObj.updateSentinelVariables env nGovernanceMinQuorum time).funded env nGovernanceMinQuorum =
      pObj.funded env nGovernanceMinQuorum := by
  unfold CGovernanceObject.funded
  rw [support_update]
  split_ifs with hcount
  · rw [CGovernanceObject.updateSentinelVariables, if_pos hcount]
  · rfl

theorem fCachedFunding_update (pObj : CGovernanceObject) :
    (pObj.updateSentinelVariables env nGovernanceMinQuorum time).fCachedFunding =
      pObj.funded env nGovernanceMinQuorum := by
  unfold CGovernanceObject.updateSentinelVariables CGovernanceObject.funded
  dsimp only
  split <;> rfl

variable (env nGovernanceMinQuorum time) in
theorem sameStanding_insert {mapObjects : ExtTreeMap uint256 CGovernanceObject} {nHash : uint256}
    {pObj : CGovernanceObject} (hobj : mapObjects[nHash]? = some pObj) :
    SameStanding env nGovernanceMinQuorum mapObjects (mapObjects.insert nHash
      (pObj.updateSentinelVariables env nGovernanceMinQuorum time)) := by
  intro nHash'
  rw [OrdMap.getElem?_insert]
  split_ifs with heq
  · subst heq
    rw [hobj, Option.map_some, Option.map_some, support_update, funded_update]
  · rfl

theorem SameStanding.trans {a b c : ExtTreeMap uint256 CGovernanceObject}
    (hab : SameStanding env nGovernanceMinQuorum a b)
    (hbc : SameStanding env nGovernanceMinQuorum b c) :
    SameStanding env nGovernanceMinQuorum a c :=
  fun nHash => (hbc nHash).trans (hab nHash)

theorem SameStanding.standing_eq {a b : ExtTreeMap uint256 CGovernanceObject}
    (h : SameStanding env nGovernanceMinQuorum a b) (pSuperblock : CSuperblock) :
    standing env nGovernanceMinQuorum b pSuperblock =
      standing env nGovernanceMinQuorum a pSuperblock :=
  h pSuperblock.nGovObjHash

variable (env nGovernanceMinQuorum) in
/-- A trigger for a height whose object is funded. -/
def triggersAt (mapObjects : ExtTreeMap uint256 CGovernanceObject) (nBlockHeight : ℤ)
    (pSuperblock : CSuperblock) : Bool :=
  decide (nBlockHeight = pSuperblock.nBlockHeight) &&
    (standing env nGovernanceMinQuorum mapObjects pSuperblock).any Prod.snd

variable (env nGovernanceMinQuorum time) in
/-- A height is triggered when some trigger for it is funded; the updates change nothing of that. -/
theorem anyTriggered_spec (nBlockHeight : ℤ) (vecTriggers : List CSuperblock)
    (mapObjects : ExtTreeMap uint256 CGovernanceObject) :
    (anyTriggered env nGovernanceMinQuorum time nBlockHeight vecTriggers mapObjects).1 =
        vecTriggers.any (triggersAt env nGovernanceMinQuorum mapObjects nBlockHeight) ∧
      SameStanding env nGovernanceMinQuorum mapObjects
        (anyTriggered env nGovernanceMinQuorum time nBlockHeight vecTriggers mapObjects).2 := by
  induction vecTriggers generalizing mapObjects with
  | nil => exact ⟨rfl, fun _ => rfl⟩
  | cons pSuperblock vecTriggers ih =>
    rw [anyTriggered, List.any_cons]
    rcases hobj : mapObjects[pSuperblock.nGovObjHash]? with _ | pObj
    · have hnot : triggersAt env nGovernanceMinQuorum mapObjects nBlockHeight pSuperblock = false := by
        simp [triggersAt, standing, hobj]
      rw [hnot, Bool.false_or]
      exact ih mapObjects
    · dsimp only
      by_cases hheight : nBlockHeight = pSuperblock.nBlockHeight
      · rw [if_neg (not_not.mpr hheight)]
        have hsame := sameStanding_insert env nGovernanceMinQuorum time hobj
        have hhere : triggersAt env nGovernanceMinQuorum mapObjects nBlockHeight pSuperblock =
            pObj.funded env nGovernanceMinQuorum := by
          simp [triggersAt, standing, hobj, hheight]
        rw [fCachedFunding_update, hhere]
        rcases hfunded : pObj.funded env nGovernanceMinQuorum with _ | _
        · rw [if_neg Bool.false_ne_true, Bool.false_or]
          obtain ⟨hany, hrest⟩ := ih (mapObjects.insert pSuperblock.nGovObjHash
            (pObj.updateSentinelVariables env nGovernanceMinQuorum time))
          refine ⟨hany.trans ?_, hsame.trans hrest⟩
          congr 1
          funext other
          rw [triggersAt, hsame.standing_eq, triggersAt]
        · rw [if_pos rfl]
          exact ⟨rfl, hsame⟩
      · rw [if_pos hheight]
        have hnot : triggersAt env nGovernanceMinQuorum mapObjects nBlockHeight pSuperblock = false := by
          simp [triggersAt, hheight]
        rw [hnot, Bool.false_or]
        exact ih mapObjects

/-! ### The best trigger -/

variable (env) in
/-- The support of a trigger, through its object. -/
def supportOf (mapObjects : ExtTreeMap uint256 CGovernanceObject) (pSuperblock : CSuperblock) : ℤ :=
  ((mapObjects[pSuperblock.nGovObjHash]?).map fun pObj => pObj.support env).getD 0

variable (env) in
/-- A trigger for a height that has more votes for it than against it. -/
def isCandidate (mapObjects : ExtTreeMap uint256 CGovernanceObject) (nBlockHeight : ℤ)
    (pSuperblock : CSuperblock) : Bool :=
  decide (nBlockHeight = pSuperblock.nBlockHeight) &&
    decide (0 < supportOf env mapObjects pSuperblock)

variable (env) in
/-- The first of those with the greatest support. -/
noncomputable def bestTrigger (gov : TriggerState) (nBlockHeight : ℤ) : Option CSuperblock :=
  (gov.getActiveTriggers.filter (isCandidate env gov.mapObjects nBlockHeight)).argmax
    (supportOf env gov.mapObjects)

variable (env) in
/-- What the loop keeps: the best so far and its support. -/
theorem foldl_takeBetter (mapObjects : ExtTreeMap uint256 CGovernanceObject) (nBlockHeight : ℤ)
    (vecTriggers : List CSuperblock) (best : Option CSuperblock)
    (hbest : ∀ b ∈ best, 0 < supportOf env mapObjects b) :
    vecTriggers.foldl (takeBetter env mapObjects nBlockHeight)
        (best, (best.map (supportOf env mapObjects)).getD 0) =
      (fun result : Option CSuperblock => (result, (result.map (supportOf env mapObjects)).getD 0))
        ((vecTriggers.filter (isCandidate env mapObjects nBlockHeight)).foldl
          (List.argAux fun b c => supportOf env mapObjects c < supportOf env mapObjects b)
            best) := by
  induction vecTriggers generalizing best with
  | nil => rfl
  | cons pSuperblock vecTriggers ih =>
    rw [List.foldl_cons, takeBetter]
    by_cases hheight : nBlockHeight = pSuperblock.nBlockHeight
    · rw [if_neg (not_not.mpr hheight)]
      rcases hobj : mapObjects[pSuperblock.nGovObjHash]? with _ | pObj
      · have hzero : supportOf env mapObjects pSuperblock = 0 := by
          rw [supportOf, hobj]
          rfl
        rw [List.filter_cons_of_neg (by simp [isCandidate, hzero])]
        exact ih best hbest
      · have hsupport : supportOf env mapObjects pSuperblock =
            pObj.getAbsoluteYesCount env VOTE_SIGNAL_FUNDING := by
          rw [supportOf, hobj]
          rfl
        dsimp only
        rw [← hsupport]
        by_cases hpos : 0 < supportOf env mapObjects pSuperblock
        · rw [List.filter_cons_of_pos (by simp [isCandidate, hheight, hpos]), List.foldl_cons]
          rcases best with _ | b
          · rw [if_pos (by simpa using hpos)]
            exact ih (some pSuperblock) (by
                rintro _ ⟨⟩
                exact hpos)
          · by_cases hmore : supportOf env mapObjects b < supportOf env mapObjects pSuperblock
            · rw [if_pos (by simpa using hmore), List.argAux]
              simp only [hmore, if_true]
              exact ih (some pSuperblock) (by
                rintro _ ⟨⟩
                exact hpos)
            · rw [if_neg (by simpa using hmore), List.argAux]
              simp only [hmore, if_false]
              exact ih (some b) hbest
        · have hless : ¬(best.map (supportOf env mapObjects)).getD 0 <
              supportOf env mapObjects pSuperblock := by
            rcases best with _ | b
            · exact hpos
            · have := hbest b rfl
              rw [Option.map_some, Option.getD_some]
              omega
          rw [if_neg hless, List.filter_cons_of_neg (by simp [isCandidate, hpos])]
          exact ih best hbest
    · rw [if_pos hheight, List.filter_cons_of_neg (by simp [isCandidate, hheight])]
      exact ih best hbest

theorem getBestSuperblock_eq (gov : TriggerState) (nBlockHeight : ℤ) :
    gov.getBestSuperblock env p nBlockHeight =
      if isValidBlockHeight p nBlockHeight then gov.bestTrigger env nBlockHeight else none := by
  unfold getBestSuperblock
  rcases hheight : isValidBlockHeight p nBlockHeight with _ | _
  · rfl
  · have hfold := foldl_takeBetter env gov.mapObjects nBlockHeight gov.getActiveTriggers
      none nofun
    have hargmax : (gov.getActiveTriggers.filter
        (isCandidate env gov.mapObjects nBlockHeight)).foldl (List.argAux fun b c =>
          supportOf env gov.mapObjects c < supportOf env gov.mapObjects b) none =
            gov.bestTrigger env nBlockHeight := rfl
    rw [hargmax] at hfold
    simp only [Option.map_none, Option.getD_none] at hfold
    simp only [hfold, Bool.not_true, Bool.false_eq_true, if_false, if_true]
    rcases hbest : gov.bestTrigger env nBlockHeight with _ | b
    · rfl
    · have hmem := List.argmax_mem hbest
      have hpos : 0 < supportOf env gov.mapObjects b := by
        simpa using (Bool.and_eq_true_iff.mp (List.mem_filter.mp hmem).2).2
      rw [Option.map_some, Option.getD_some, if_pos hpos]

variable (env nGovernanceMinQuorum p) in
/-- Some trigger for a superblock height is funded. -/
def Triggered (gov : TriggerState) (nBlockHeight : ℤ) : Prop :=
  isValidBlockHeight p nBlockHeight = true ∧ ∃ pSuperblock ∈ gov.getActiveTriggers,
    triggersAt env nGovernanceMinQuorum gov.mapObjects nBlockHeight pSuperblock = true

variable (env nGovernanceMinQuorum) in
/-- States of one node between which only updates have taken place. -/
structure SameTriggers (gov gov' : TriggerState) : Prop where
  mapTrigger_eq : gov'.mapTrigger = gov.mapTrigger
  standing : SameStanding env nGovernanceMinQuorum gov.mapObjects gov'.mapObjects

variable {gov gov' : TriggerState} {nBlockHeight : ℤ}

theorem SameTriggers.refl (gov : TriggerState) :
    SameTriggers env nGovernanceMinQuorum gov gov := ⟨rfl, fun _ => rfl⟩

theorem SameTriggers.trans {gov'' : TriggerState}
    (h : SameTriggers env nGovernanceMinQuorum gov gov')
    (h' : SameTriggers env nGovernanceMinQuorum gov' gov'') :
    SameTriggers env nGovernanceMinQuorum gov gov'' :=
  ⟨h'.mapTrigger_eq.trans h.mapTrigger_eq, h.standing.trans h'.standing⟩

theorem SameTriggers.getActiveTriggers_eq (h : SameTriggers env nGovernanceMinQuorum gov gov') :
    gov'.getActiveTriggers = gov.getActiveTriggers := by
  unfold getActiveTriggers
  rw [h.mapTrigger_eq]
  congr 2
  funext trigger
  apply decide_eq_decide.mpr
  have hsome := congrArg Option.isSome (h.standing trigger.1)
  rw [Option.isSome_map, Option.isSome_map] at hsome
  rw [ExtTreeMap.mem_iff_isSome_getElem?, ExtTreeMap.mem_iff_isSome_getElem?, hsome]

theorem SameTriggers.supportOf_eq (h : SameTriggers env nGovernanceMinQuorum gov gov') :
    supportOf env gov'.mapObjects = supportOf env gov.mapObjects := by
  funext pSuperblock
  have hmap := congrArg (Option.map Prod.fst) (h.standing pSuperblock.nGovObjHash)
  rw [Option.map_map, Option.map_map] at hmap
  exact congrArg (·.getD 0) hmap

theorem SameTriggers.bestTrigger_eq (h : SameTriggers env nGovernanceMinQuorum gov gov') :
    gov'.bestTrigger env nBlockHeight = gov.bestTrigger env nBlockHeight := by
  have hcandidate : isCandidate env gov'.mapObjects nBlockHeight =
      isCandidate env gov.mapObjects nBlockHeight := by
    funext pSuperblock
    rw [isCandidate, h.supportOf_eq, isCandidate]
  rw [bestTrigger, h.getActiveTriggers_eq, h.supportOf_eq, hcandidate, bestTrigger]

theorem SameTriggers.triggered_iff (h : SameTriggers env nGovernanceMinQuorum gov gov') :
    Triggered env nGovernanceMinQuorum p gov' nBlockHeight ↔
      Triggered env nGovernanceMinQuorum p gov nBlockHeight := by
  have hsame : ∀ pSuperblock, triggersAt env nGovernanceMinQuorum gov'.mapObjects nBlockHeight
      pSuperblock = triggersAt env nGovernanceMinQuorum gov.mapObjects nBlockHeight pSuperblock := by
    intro pSuperblock
    rw [triggersAt, h.standing.standing_eq, triggersAt]
  simp only [Triggered, h.getActiveTriggers_eq, hsame]

variable (env nGovernanceMinQuorum p time) in
/-- What the code finds, and that it changes nothing of it. -/
theorem isSuperblockTriggered_spec (gov : TriggerState) (nBlockHeight : ℤ) :
    ((gov.isSuperblockTriggered env nGovernanceMinQuorum p time nBlockHeight).1 = true ↔
        Triggered env nGovernanceMinQuorum p gov nBlockHeight) ∧
      SameTriggers env nGovernanceMinQuorum gov
        (gov.isSuperblockTriggered env nGovernanceMinQuorum p time nBlockHeight).2 := by
  unfold isSuperblockTriggered Triggered
  rcases hheight : isValidBlockHeight p nBlockHeight with _ | _
  · exact ⟨iff_of_false Bool.false_ne_true fun h => Bool.false_ne_true h.1, .refl gov⟩
  · obtain ⟨hany, hsame⟩ := anyTriggered_spec env nGovernanceMinQuorum time nBlockHeight
      gov.getActiveTriggers gov.mapObjects
    refine ⟨?_, ⟨rfl, hsame⟩⟩
    simp only [Bool.not_true, Bool.false_eq_true, if_false, hany, List.any_eq_true, true_and]

end TriggerState
end BabaChain.Governance
