import BabaChain.RotationWalk
import BabaChain.ListSuccession
import Mathlib

/-! The quarters that a snapshot gives back, against those that were chosen when it was stored. -/
namespace BabaChain.LLMQ.Utils
open Evo.ByValue Evo.ByValue.CDeterministicMNList OrdMap Std Loops Laps

variable {G : Type} {c : Hashing G} {p : RotationParams} {isTestnet : Bool}
  {cycle : QuorumCycle G} {previous : PreviousQuorumQuarters G} {modifier : uint256}

/-! ### The order by score -/

/-- What decides the place of a masternode, and its hash. -/
structure Seat where
  score : ℕ
  collateralOutpoint : COutPoint
  proTxHash : uint256

def Seat.Before (a b : Seat) : Prop :=
  b.score < a.score ∨
    b.score = a.score ∧ (compare b.collateralOutpoint a.collateralOutpoint).isLE = true

variable (c modifier) in
def seat (dmn : CDeterministicMN G) : Seat :=
  ⟨calculateQuorumScore c dmn modifier, dmn.collateralOutpoint, dmn.proTxHash⟩

variable (c modifier) in
/-- Whether a masternode comes before another. -/
abbrev Before (a b : CDeterministicMN G) : Prop :=
  scoreLE (calculateQuorumScore c b modifier, b) (calculateQuorumScore c a modifier, a) = true

theorem before_iff (a b : CDeterministicMN G) :
    Before c modifier a b ↔ (seat c modifier a).Before (seat c modifier b) := by
  unfold Before scoreLE Seat.Before seat
  dsimp only
  split_ifs with heq
  · rw [heq]
    constructor
    · exact fun hle => Or.inr ⟨rfl, hle⟩
    · exact fun h => h.elim (fun hlt => absurd hlt (Nat.lt_irrefl _)) And.right
  · rw [decide_eq_true_iff]
    constructor
    · exact fun hle => Or.inl (Nat.lt_of_le_of_ne hle heq)
    · exact fun h => h.elim Nat.le_of_lt fun hboth => absurd hboth.1 heq

theorem Seat.before_total (a b : Seat) : a.Before b ∨ b.Before a := by
  unfold Seat.Before
  rcases Nat.lt_trichotomy a.score b.score with hlt | heq | hgt
  · exact Or.inr (Or.inl hlt)
  · rcases hord : compare a.collateralOutpoint b.collateralOutpoint with _ | _ | _
    · exact Or.inr (Or.inr ⟨heq, rfl⟩)
    · exact Or.inr (Or.inr ⟨heq, rfl⟩)
    · refine Or.inl (Or.inr ⟨heq.symm, ?_⟩)
      rw [Std.OrientedOrd.eq_swap, hord]
      rfl
  · exact Or.inl (Or.inl hgt)

theorem Seat.Before.trans {a b d : Seat} (h : a.Before b) (h' : b.Before d) : a.Before d := by
  rcases h with hlt | ⟨heq, hle⟩
  · rcases h' with hlt' | ⟨heq', -⟩
    · exact Or.inl (hlt'.trans hlt)
    · exact Or.inl (heq' ▸ hlt)
  · rcases h' with hlt' | ⟨heq', hle'⟩
    · exact Or.inl (heq ▸ hlt')
    · exact Or.inr ⟨heq'.trans heq, Std.TransCmp.isLE_trans hle' hle⟩

instance : Std.Total (Before c modifier) where
  total a b := by
    rw [before_iff, before_iff]
    exact Seat.before_total _ _

instance : IsTrans (CDeterministicMN G) (Before c modifier) where
  trans a b d := by
    rw [before_iff, before_iff, before_iff]
    exact Seat.Before.trans

theorem calculateQuorum_zero (dmns : List (CDeterministicMN G)) :
    calculateQuorum (dmns.map fun dmn => (calculateQuorumScore c dmn modifier, dmn)) 0 =
      dmns.insertionSort (Before c modifier) := by
  unfold calculateQuorum
  dsimp only
  rw [if_neg fun h => absurd h.1 (Nat.lt_irrefl 0), ← List.map_insertionSort (Before c modifier) _
    (fun dmn => (calculateQuorumScore c dmn modifier, dmn)) dmns fun _ _ _ _ => Iff.rfl,
    List.map_map]
  exact List.map_id' _

/-- Collaterals tell the masternodes of a list apart. -/
def CollateralsApart (dmns : List (CDeterministicMN G)) : Prop :=
  ∀ a ∈ dmns, ∀ b ∈ dmns, a.collateralOutpoint = b.collateralOutpoint → a = b

/-- The same seats in the same order are the same hashes. -/
theorem hashes_eq_of_perm {l l' : List (CDeterministicMN G)} (hl : l.Pairwise (Before c modifier))
    (hl' : l'.Pairwise (Before c modifier))
    (hperm : (l.map (seat c modifier)).Perm (l'.map (seat c modifier)))
    (hinj : CollateralsApart l') :
    l.map CDeterministicMN.proTxHash = l'.map CDeterministicMN.proTxHash := by
  have hseats : ∀ l : List (CDeterministicMN G), l.Pairwise (Before c modifier) →
      (l.map (seat c modifier)).Pairwise Seat.Before :=
    fun l hl => List.pairwise_map.mpr (hl.imp fun {a b} h => (before_iff a b).mp h)
  have heq : l.map (seat c modifier) = l'.map (seat c modifier) := by
    refine hperm.eq_of_pairwise (fun x y hx hy hxy hyx => ?_) (hseats l hl) (hseats l' hl')
    obtain ⟨a, ha, rfl⟩ := List.mem_map.mp (hperm.mem_iff.mp hx)
    obtain ⟨b, hb, rfl⟩ := List.mem_map.mp hy
    rcases hxy with hlt | ⟨hscore, hle⟩
    · rcases hyx with hlt' | ⟨hscore', -⟩
      · exact absurd hlt (Nat.lt_asymm hlt')
      · exact absurd hlt (hscore' ▸ Nat.lt_irrefl _)
    · rcases hyx with hlt' | ⟨-, hle'⟩
      · exact absurd hlt' (hscore ▸ Nat.lt_irrefl _)
      · have hcollateral : b.collateralOutpoint = a.collateralOutpoint :=
          LawfulEqOrd.eq_of_compare (Ordering.eq_eq_of_isLE_of_isLE_swap hle (by
            rw [← Std.OrientedOrd.eq_swap]
            exact hle'))
        rw [hinj a ha b hb hcollateral.symm]
  have hmap := congrArg (List.map Seat.proTxHash) heq
  rw [List.map_map, List.map_map] at hmap
  exact hmap

/-! ### Used masternodes -/

theorem mnMap_of_addMN {list list' : CDeterministicMNList G} {mn : CDeterministicMN G}
    {fBumpTotalCount : Bool}
    (hok : list.addMN c.codec c.sha256d mn fBumpTotalCount = .ok list') :
    list'.mnMap = list.mnMap.insert mn.proTxHash mn := by
  unfold addMN at hok
  by_cases hmem : mn.proTxHash ∈ list.mnMap
  · rw [if_pos hmem] at hok
    contradiction
  rw [if_neg hmem] at hok
  by_cases hid : mn.internalId ∈ list.mnInternalIdMap
  · rw [if_pos hid] at hok
    contradiction
  rw [if_neg hid] at hok
  cases hmap : forProperties (addUniqueProperty c.codec c.sha256d mn.proTxHash)
      ("with a duplicate "++·) "with invalid address" mn.uniqueProperties
      list.mnUniquePropertyMap with
  | error reason =>
    rw [hmap] at hok
    contradiction
  | ok map =>
    rw [hmap] at hok
    obtain rfl := Except.ok.inj hok
    rfl

/-- Masternodes are under their hashes. -/
def Keyed (list : CDeterministicMNList G) : Prop :=
  ∀ (h : uint256) (mn : CDeterministicMN G), list.mnMap[h]? = some mn → mn.proTxHash = h

theorem Keyed.mem_mns {list : CDeterministicMNList G} (h : Keyed list) {mn : CDeterministicMN G} :
    mn ∈ list.mns ↔ list.mnMap[mn.proTxHash]? = some mn := by
  rw [mns, List.mem_map]
  constructor
  · rintro ⟨⟨hash, mn'⟩, hmem, rfl⟩
    have hmn := mem_toList hmem
    rw [h hash mn' hmn]
    exact hmn
  · intro hmn
    exact ⟨(mn.proTxHash, mn), ExtTreeMap.mem_toList_iff_getElem?_eq_some.mpr hmn, rfl⟩

theorem Keyed.hashes_nodup {list : CDeterministicMNList G} (h : Keyed list) :
    (list.mns.map CDeterministicMN.proTxHash).Nodup := by
  have hkeys : list.mns.map CDeterministicMN.proTxHash = list.mnMap.keys := by
    rw [← ExtTreeMap.map_fst_toList_eq_keys, mns, List.map_map]
    exact List.map_congr_left fun q hq => h q.1 q.2 (mem_toList hq)
  rw [hkeys]
  exact ExtTreeMap.nodup_keys

/-- What a list of used masternodes holds: former members that are not passed over. -/
structure UsedOf (isTestnet : Bool) (cycle : QuorumCycle G) (former : List (CDeterministicMN G))
    (list : CDeterministicMNList G) : Prop where
  keyed : Keyed list
  mem : ∀ (h : uint256) (mn : CDeterministicMN G), list.mnMap[h]? = some mn →
    mn ∈ former ∧ cycle.forgets isTestnet mn = false

variable {former : List (CDeterministicMN G)}

theorem UsedOf.add {list : CDeterministicMNList G} (h : UsedOf isTestnet cycle former list)
    {mn : CDeterministicMN G} (hmn : mn ∈ former) :
    UsedOf isTestnet cycle former (cycle.addUsed c isTestnet list mn) := by
  unfold QuorumCycle.addUsed
  split_ifs with hforgets
  · exact h
  · cases hadd : list.addMN c.codec c.sha256d mn true with
    | error reason => exact h
    | ok list' =>
      have hget : ∀ (k : uint256) (mn' : CDeterministicMN G), list'.mnMap[k]? = some mn' →
          mn.proTxHash = k ∧ mn = mn' ∨ list.mnMap[k]? = some mn' := by
        intro k mn' hmn'
        rw [mnMap_of_addMN hadd, getElem?_insert] at hmn'
        split_ifs at hmn' with hsame
        · exact Or.inl ⟨hsame, Option.some.inj hmn'⟩
        · exact Or.inr hmn'
      refine ⟨fun k mn' hmn' => ?_, fun k mn' hmn' => ?_⟩
      · rcases hget k mn' hmn' with ⟨hkey, rfl⟩ | hmn'
        · exact hkey
        · exact h.keyed k mn' hmn'
      · rcases hget k mn' hmn' with ⟨-, rfl⟩ | hmn'
        · exact ⟨hmn, Bool.eq_false_of_not_eq_true hforgets⟩
        · exact h.mem k mn' hmn'

theorem usedOf_foldl {list : CDeterministicMNList G} (h : UsedOf isTestnet cycle former list)
    {records : List (CDeterministicMN G)} (hrecords : records ⊆ former) :
    UsedOf isTestnet cycle former (records.foldl (cycle.addUsed c isTestnet) list) := by
  induction records generalizing list with
  | nil => exact h
  | cons mn records ih =>
    rw [List.cons_subset] at hrecords
    exact ih (h.add hrecords.1) hrecords.2

theorem usedOf_empty : UsedOf isTestnet cycle former ({} : CDeterministicMNList G) where
  keyed h mn hmn := absurd hmn (by rw [ExtTreeMap.getElem?_empty]; nofun)
  mem h mn hmn := absurd hmn (by rw [ExtTreeMap.getElem?_empty]; nofun)

variable (c p isTestnet cycle previous) in
theorem usedOf_mnsUsedAtH : UsedOf isTestnet cycle
    ((List.range p.signingActiveQuorumCount).flatMap previous.members)
    (previous.mnsUsedAtH c p isTestnet cycle) :=
  usedOf_foldl usedOf_empty (List.Subset.refl _)

/-! ### The list of the walk -/

/-- A former member as an earlier list has it. It was valid there, and what its score and its place
depend on is the same in the list of the cycle. -/
structure Former (cycle : QuorumCycle G) (mn : CDeterministicMN G) : Prop where
  valid : mn.pdmnState.isBanned = false
  confirmed : mn.pdmnState.confirmedHash ≠ 0
  same : ∀ dmn, cycle.mns.getMN mn.proTxHash = some dmn →
    dmn.collateralOutpoint = mn.collateralOutpoint ∧
      dmn.pdmnState.confirmedHash = mn.pdmnState.confirmedHash ∧
      dmn.pdmnState.confirmedHashWithProRegTxHash = mn.pdmnState.confirmedHashWithProRegTxHash

/-- No former member that the list has lost counts as used. -/
def Present (p : RotationParams) (isTestnet : Bool) (cycle : QuorumCycle G)
    (previous : PreviousQuorumQuarters G) : Prop :=
  ∀ i < p.signingActiveQuorumCount, ∀ mn ∈ previous.members i,
    cycle.forgets isTestnet mn = false → cycle.mns.hasMN mn.proTxHash = true

theorem present_of_V19 (hV19 : cycle.isV19Active = true) : Present p isTestnet cycle previous := by
  intro i _ mn _ hforgets
  unfold QuorumCycle.forgets at hforgets
  dsimp only at hforgets
  rw [hV19, Bool.true_or, Bool.true_and, Bool.or_eq_false_iff, Bool.not_eq_false'] at hforgets
  exact hforgets.1

/-- The masternodes that may be members. -/
def eligible (list : CDeterministicMNList G) : List (CDeterministicMN G) :=
  list.validMNs.filter (takenIntoAccount false)

theorem mem_eligible {list : CDeterministicMNList G} (h : Keyed list) {mn : CDeterministicMN G} :
    mn ∈ eligible list ↔ list.mnMap[mn.proTxHash]? = some mn ∧ mn.pdmnState.isBanned = false ∧
      mn.pdmnState.confirmedHash ≠ 0 := by
  rw [eligible, validMNs, List.mem_filter, List.mem_filter, h.mem_mns, takenIntoAccount,
    Bool.not_eq_true', Bool.not_false, Bool.true_or, Bool.and_true, decide_eq_true_iff, and_assoc]

theorem eligible_hashes_nodup {list : CDeterministicMNList G} (h : Keyed list) :
    ((eligible list).map CDeterministicMN.proTxHash).Nodup :=
  h.hashes_nodup.sublist ((List.filter_sublist.trans List.filter_sublist).map _)

theorem eligible_collaterals {list : CDeterministicMNList G}
    (hinv : list.Inv c.codec c.sha256d) : CollateralsApart (eligible list) := by
  intro a ha b hb hsame
  have hmem : ∀ a ∈ eligible list, outpointHash c.codec c.sha256d a ∈
      list.held c.codec c.sha256d a.proTxHash := by
    intro a ha
    rw [held_of_some ((mem_eligible hinv.key).mp ha).1]
    exact outpointHash_mem a
  have hhash : outpointHash c.codec c.sha256d b = outpointHash c.codec c.sha256d a := by
    unfold outpointHash
    rw [hsame]
  have hb' := hmem b hb
  rw [hhash] at hb'
  have hkey := hinv.properties.owner_unique (hmem a ha) hb'
  have hgeta := ((mem_eligible hinv.key).mp ha).1
  rw [hkey, ((mem_eligible hinv.key).mp hb).1] at hgeta
  exact (Option.some.inj hgeta).symm

theorem calculateQuorum_list (list : CDeterministicMNList G) :
    calculateQuorum (calculateScoresForList c list modifier false) 0 =
      (eligible list).insertionSort (Before c modifier) :=
  calculateQuorum_zero _

theorem calculateQuorum_dmns (dmns : List (CDeterministicMN G)) :
    calculateQuorum (calculateScoresForQuorum c dmns modifier false) 0 =
      (dmns.filter fun dmn => !dmn.pdmnState.isBanned && takenIntoAccount false dmn).insertionSort
        (Before c modifier) :=
  calculateQuorum_zero _

variable (c cycle) in
/-- The masternodes of the list in their order. -/
abbrev sortedAllMns : List (CDeterministicMN G) :=
  (eligible cycle.mns).insertionSort (Before c cycle.modifier)

theorem filter_flagged (l : List (CDeterministicMN G)) (f : CDeterministicMN G → Bool)
    (keep : CDeterministicMN G × Bool → Bool) :
    ((l.map fun dmn => (dmn, f dmn)).filter keep).map Prod.fst =
      l.filter fun dmn => keep (dmn, f dmn) := by
  rw [List.filter_map, List.map_map]
  exact List.map_id' _

theorem mem_sortedAllMns {dmn : CDeterministicMN G} :
    dmn ∈ sortedAllMns c cycle ↔ dmn ∈ eligible cycle.mns :=
  (List.perm_insertionSort _ _).mem_iff

/-- The list that a snapshot leads to. -/
theorem sortedCombinedMns_snapshot (mnUsedAtH : CDeterministicMNList G) (skipList : List ℤ) :
    sortedCombinedMns c cycle (buildQuorumSnapshot c cycle mnUsedAtH skipList) =
      (sortedAllMns c cycle).filter (fun dmn => !mnUsedAtH.hasMN dmn.proTxHash) ++
        (sortedAllMns c cycle).filter fun dmn => mnUsedAtH.hasMN dmn.proTxHash := by
  have hflag : ∀ i (hi : i < (sortedAllMns c cycle).length),
      (buildQuorumSnapshot c cycle mnUsedAtH skipList).activeQuorumMembers.getD i false =
        mnUsedAtH.hasMN (sortedAllMns c cycle)[i].proTxHash := by
    intro i hi
    unfold buildQuorumSnapshot
    dsimp only
    rw [calculateQuorum_list, List.getD_eq_getElem?_getD,
      List.getElem?_append_left (by rwa [List.length_map]), List.getElem?_map,
      List.getElem?_eq_getElem hi]
    rfl
  have hflags : ∀ flagged : CDeterministicMN G × ℕ → CDeterministicMN G × Bool,
      (∀ dmn i, flagged (dmn, i) = (dmn,
        (buildQuorumSnapshot c cycle mnUsedAtH skipList).activeQuorumMembers.getD i false)) →
      (sortedAllMns c cycle).zipIdx.map flagged =
        (sortedAllMns c cycle).map fun dmn => (dmn, mnUsedAtH.hasMN dmn.proTxHash) := by
    intro flagged hflagged
    refine List.ext_getElem (by simp only [List.length_map, List.length_zipIdx]) ?_
    intro i hi hi'
    rw [List.length_map] at hi'
    rw [List.getElem_map, List.getElem_map, List.getElem_zipIdx, Nat.zero_add, hflagged]
    exact congrArg _ (hflag i hi')
  unfold sortedCombinedMns
  dsimp only
  rw [calculateQuorum_list, hflags _ fun _ _ => rfl, filter_flagged, filter_flagged]
  refine congrArg (·++_) (List.filter_congr fun dmn hdmn => ?_)
  have hvalid := List.of_mem_filter (List.mem_of_mem_filter (mem_sortedAllMns.mp hdmn))
  rw [hvalid, Bool.and_true]

variable (c modifier) in
/-- A used masternode is in the list of the cycle, with the same seat. -/
theorem UsedOf.inList {list : CDeterministicMNList G} (h : UsedOf isTestnet cycle former list)
    (hkeyed : Keyed cycle.mns) (hformer : ∀ mn ∈ former, Former cycle mn)
    (hpresent : ∀ mn ∈ former, cycle.forgets isTestnet mn = false →
      cycle.mns.hasMN mn.proTxHash = true) {hash : uint256} {mn : CDeterministicMN G}
    (hmn : list.mnMap[hash]? = some mn) :
    mn ∈ eligible list ∧ ∃ dmn ∈ eligible cycle.mns,
      dmn.proTxHash = hash ∧ seat c modifier dmn = seat c modifier mn := by
  obtain ⟨hmem, hforgets⟩ := h.mem hash mn hmn
  have hkey := h.keyed hash mn hmn
  obtain ⟨hvalid, hconfirmed, hsame⟩ := hformer mn hmem
  have hhas := hpresent mn hmem hforgets
  unfold QuorumCycle.forgets at hforgets
  have hbanned := (Bool.or_eq_false_iff.mp hforgets).2
  rw [hkey] at hhas hbanned
  obtain ⟨dmn, hdmn⟩ := Option.isSome_iff_exists.mp hhas
  rw [hdmn, Option.any_some] at hbanned
  obtain ⟨hcollateral, hhash, hscore⟩ := hsame dmn (hkey ▸ hdmn)
  have hdkey : dmn.proTxHash = hash := hkeyed hash dmn hdmn
  refine ⟨(mem_eligible h.keyed).mpr ⟨hkey.symm ▸ hmn, hvalid, hconfirmed⟩, dmn,
    (mem_eligible hkeyed).mpr ⟨hdkey.symm ▸ hdmn, hbanned, hhash ▸ hconfirmed⟩, hdkey, ?_⟩
  unfold seat calculateQuorumScore
  rw [hscore, hcollateral, hdkey, hkey]

theorem seats_nodup {list : CDeterministicMNList G} (h : Keyed list) :
    ((eligible list).map (seat c modifier)).Nodup := by
  have hhashes : (((eligible list).map (seat c modifier)).map Seat.proTxHash).Nodup := by
    rw [List.map_map]
    exact eligible_hashes_nodup h
  exact hhashes.of_map _

/-- The used masternodes have the seats of those of the list that are among them. -/
theorem UsedOf.seats_perm {list : CDeterministicMNList G} (h : UsedOf isTestnet cycle former list)
    (hkeyed : Keyed cycle.mns) (hformer : ∀ mn ∈ former, Former cycle mn)
    (hpresent : ∀ mn ∈ former, cycle.forgets isTestnet mn = false →
      cycle.mns.hasMN mn.proTxHash = true) :
    ((eligible list).map (seat c modifier)).Perm
      (((eligible cycle.mns).filter fun dmn => list.hasMN dmn.proTxHash).map
        (seat c modifier)) := by
  refine (List.perm_ext_iff_of_nodup (seats_nodup h.keyed)
    ((seats_nodup hkeyed).sublist (List.filter_sublist.map _))).mpr fun x => ?_
  rw [List.mem_map, List.mem_map]
  constructor
  · rintro ⟨mn, hmn, rfl⟩
    have hget := ((mem_eligible h.keyed).mp hmn).1
    obtain ⟨-, dmn, hdmn, hkey, hseat⟩ := h.inList c modifier hkeyed hformer hpresent hget
    refine ⟨dmn, List.mem_filter.mpr ⟨hdmn, ?_⟩, hseat⟩
    rw [hkey, hasMN, getMN, hget]
    rfl
  · rintro ⟨dmn, hdmn, rfl⟩
    obtain ⟨hdmn, hhas⟩ := List.mem_filter.mp hdmn
    obtain ⟨mn, hmn⟩ := Option.isSome_iff_exists.mp hhas
    obtain ⟨heligible, dmn', hdmn', hkey, hseat⟩ := h.inList c modifier hkeyed hformer hpresent hmn
    refine ⟨mn, heligible, hseat.symm.trans ?_⟩
    rw [List.inj_on_of_nodup_map (eligible_hashes_nodup hkeyed) hdmn' hdmn hkey]

variable (isTestnet) in
/-- Both lists of a walk are the same masternodes, though records may differ. -/
theorem combined_hashes (hinv : cycle.mns.Inv c.codec c.sha256d)
    (hformer : ∀ i < p.signingActiveQuorumCount, ∀ mn ∈ previous.members i, Former cycle mn)
    (hpresent : Present p isTestnet cycle previous) (skipList : List ℤ) :
    (sortedCombinedMns c cycle (buildQuorumSnapshot c cycle
        (previous.mnsUsedAtH c p isTestnet cycle) skipList)).map CDeterministicMN.proTxHash =
      (previous.sortedCombinedMnsList c p isTestnet cycle).map CDeterministicMN.proTxHash := by
  have hused := usedOf_mnsUsedAtH c p isTestnet cycle previous
  have hall : ∀ mn ∈ (List.range p.signingActiveQuorumCount).flatMap previous.members,
      Former cycle mn ∧ (cycle.forgets isTestnet mn = false →
        cycle.mns.hasMN mn.proTxHash = true) := by
    intro mn hmn
    obtain ⟨i, hi, hmn⟩ := List.mem_flatMap.mp hmn
    exact ⟨hformer i (List.mem_range.mp hi) mn hmn, hpresent i (List.mem_range.mp hi) mn hmn⟩
  let used := previous.mnsUsedAtH c p isTestnet cycle
  have hsorted : (sortedAllMns c cycle).Pairwise (Before c cycle.modifier) :=
    List.pairwise_insertionSort _ _
  have hcollaterals : ∀ keep : CDeterministicMN G → Bool,
      CollateralsApart ((sortedAllMns c cycle).filter keep) :=
    fun keep a ha b hb => eligible_collaterals hinv
      a (mem_sortedAllMns.mp (List.mem_of_mem_filter ha))
      b (mem_sortedAllMns.mp (List.mem_of_mem_filter hb))
  have hkeep : ∀ keep : CDeterministicMN G → Bool,
      ((sortedAllMns c cycle).filter keep).Perm ((eligible cycle.mns).filter keep) :=
    fun keep => (List.perm_insertionSort _ _).filter keep
  rw [sortedCombinedMns_snapshot, PreviousQuorumQuarters.sortedCombinedMnsList]
  rw [calculateQuorum_dmns, calculateQuorum_list, List.map_append, List.map_append]
  refine congrArg₂ (·++·) ?_ ?_
  · refine (hashes_eq_of_perm (List.pairwise_insertionSort _ _)
      (hsorted.sublist List.filter_sublist) ?_ (hcollaterals _)).symm
    refine ((List.perm_insertionSort _ _).trans ?_).map _
    refine (List.Perm.of_eq ?_).trans (hkeep _).symm
    unfold eligible validMNs
    rw [List.filter_filter, List.filter_filter, List.filter_filter]
    refine List.filter_congr fun dmn _ => ?_
    cases used.hasMN dmn.proTxHash <;> cases dmn.pdmnState.isBanned <;> simp
  · refine (hashes_eq_of_perm (List.pairwise_insertionSort _ _)
      (hsorted.sublist List.filter_sublist) ?_ (hcollaterals _)).symm
    refine ((List.perm_insertionSort _ _).map _).trans ?_
    exact (hused.seats_perm hinv.key (fun mn hmn => (hall mn hmn).1)
      fun mn hmn => (hall mn hmn).2).trans ((hkeep _).map _).symm

variable (isTestnet) in
theorem combined_nodup (hinv : cycle.mns.Inv c.codec c.sha256d)
    (hformer : ∀ i < p.signingActiveQuorumCount, ∀ mn ∈ previous.members i, Former cycle mn)
    (hpresent : Present p isTestnet cycle previous) :
    ((previous.sortedCombinedMnsList c p isTestnet cycle).map
      CDeterministicMN.proTxHash).Nodup := by
  rw [← combined_hashes isTestnet hinv hformer hpresent [], sortedCombinedMns_snapshot]
  let used := fun dmn : CDeterministicMN G =>
    (previous.mnsUsedAtH c p isTestnet cycle).hasMN dmn.proTxHash
  have hparts : ((sortedAllMns c cycle).filter (fun dmn => !used dmn) ++
      (sortedAllMns c cycle).filter used).Perm (eligible cycle.mns) :=
    List.perm_append_comm.trans ((List.filter_append_perm used _).trans
      (List.perm_insertionSort _ _))
  exact (hparts.map _).nodup_iff.mpr (eligible_hashes_nodup hinv.key)

/-! ### What a snapshot gives back -/

section Recovery

variable (c p isTestnet cycle previous)

/-- The marks of the walk that chooses the new quarters. -/
def newQuarterMarks : List Bool :=
  if h : 0 < (previous.sortedCombinedMnsList c p isTestnet cycle).length then
    walkMarks c p.quarterSize ((List.range p.signingActiveQuorumCount).map
      (previous.mnsUsedAtHIndexed c isTestnet cycle)) (⟨⟨0, h⟩, [], 0⟩ :
        Walk (previous.sortedCombinedMnsList c p isTestnet cycle))
  else
    []

/-- There are masternodes enough for each quorum, and none is skipped right after a lap in which all
were taken. -/
def Recoverable : Prop :=
  let combined := previous.sortedCombinedMnsList c p isTestnet cycle
  combined.length = 0 ∨ p.quarterSize = 0 ∨
    (∀ i < p.signingActiveQuorumCount,
      (previous.mnsUsedAtHIndexed c isTestnet cycle i).mnMap.size+p.quarterSize ≤
        combined.length) ∧
    Told combined.length 0 (newQuarterMarks c p isTestnet cycle previous)

instance : Decidable (Recoverable c p isTestnet cycle previous) :=
  inferInstanceAs (Decidable (_ ∨ _ ∨ (∀ i < p.signingActiveQuorumCount, _ ≤ _) ∧
    Told _ 0 (newQuarterMarks c p isTestnet cycle previous)))

end Recovery

variable (mnUsedAtH : CDeterministicMNList G) (skipList : List ℤ)

theorem quarters_of_snapshot (hbase : isCycleBase p cycle.nHeight = true)
    (hpos : 0 <
      (sortedCombinedMns c cycle (buildQuorumSnapshot c cycle mnUsedAtH skipList)).length) :
    getQuorumQuarterMembersBySnapshot c p cycle (buildQuorumSnapshot c cycle mnUsedAtH skipList) =
      fillAllBySkipList p.quarterSize p.signingActiveQuorumCount
        (⟨0, hpos⟩, processedSkipList 0 skipList) := by
  unfold getQuorumQuarterMembersBySnapshot
  dsimp only
  rw [hbase, if_neg Bool.noConfusion, dif_pos hpos]
  by_cases hskip : skipList = []
  · subst hskip
    rfl
  · have hmode : (buildQuorumSnapshot c cycle mnUsedAtH skipList).mnSkipListMode =
        .MODE_SKIPPING_ENTRIES := if_neg hskip
    rw [hmode]
    rfl

theorem no_quarters_of_snapshot (hbase : isCycleBase p cycle.nHeight = true)
    (hpos : ¬0 <
      (sortedCombinedMns c cycle (buildQuorumSnapshot c cycle mnUsedAtH skipList)).length) :
    getQuorumQuarterMembersBySnapshot c p cycle (buildQuorumSnapshot c cycle mnUsedAtH skipList) =
      List.replicate p.signingActiveQuorumCount [] := by
  unfold getQuorumQuarterMembersBySnapshot
  dsimp only
  rw [hbase, if_neg Bool.noConfusion, dif_neg hpos]

variable (c p isTestnet cycle previous) in
theorem recoverable_iff
    (hpos : 0 < (previous.sortedCombinedMnsList c p isTestnet cycle).length) :
    Recoverable c p isTestnet cycle previous ↔ p.quarterSize = 0 ∨
      (∀ used ∈ (List.range p.signingActiveQuorumCount).map
          (previous.mnsUsedAtHIndexed c isTestnet cycle),
        used.mnMap.size+p.quarterSize ≤
          (previous.sortedCombinedMnsList c p isTestnet cycle).length) ∧
      Told (previous.sortedCombinedMnsList c p isTestnet cycle).length 0
        (walkMarks c p.quarterSize ((List.range p.signingActiveQuorumCount).map
          (previous.mnsUsedAtHIndexed c isTestnet cycle)) (⟨⟨0, hpos⟩, [], 0⟩ :
            Walk (previous.sortedCombinedMnsList c p isTestnet cycle))) := by
  unfold Recoverable newQuarterMarks
  dsimp only
  rw [dif_pos hpos, or_iff_right hpos.ne']
  simp only [List.forall_mem_map, List.mem_range]

theorem snapshot_recovers_iff (hinv : cycle.mns.Inv c.codec c.sha256d)
    (hformer : ∀ i < p.signingActiveQuorumCount, ∀ mn ∈ previous.members i, Former cycle mn)
    (hpresent : Present p isTestnet cycle previous) {quarters : Quarters G} {snapshot : CQuorumSnapshot}
    (hbuild : buildNewQuorumQuarterMembers c p isTestnet cycle previous =
      (quarters, some snapshot)) :
    (getQuorumQuarterMembersBySnapshot c p cycle snapshot).map
          (List.map CDeterministicMN.proTxHash) =
        quarters.map (List.map CDeterministicMN.proTxHash) ↔
      Recoverable c p isTestnet cycle previous := by
  let combined := previous.sortedCombinedMnsList c p isTestnet cycle
  have hlengths : ∀ skipList, (sortedCombinedMns c cycle (buildQuorumSnapshot c cycle
      (previous.mnsUsedAtH c p isTestnet cycle) skipList)).length = combined.length := by
    intro skipList
    have hhashes := congrArg List.length (combined_hashes isTestnet hinv hformer hpresent skipList)
    rwa [List.length_map, List.length_map] at hhashes
  unfold buildNewQuorumQuarterMembers at hbuild
  dsimp only at hbuild
  by_cases hbase : isCycleBase p cycle.nHeight = false
  · rw [if_pos hbase] at hbuild
    exact absurd (congrArg Prod.snd hbuild) nofun
  rw [if_neg hbase] at hbuild
  rw [Bool.not_eq_false] at hbase
  by_cases hfew : cycle.mns.validMNs.length < p.quarterSize
  · rw [if_pos hfew] at hbuild
    exact absurd (congrArg Prod.snd hbuild) nofun
  rw [if_neg hfew] at hbuild
  by_cases hpos : 0 < combined.length
  · rw [dif_pos hpos] at hbuild
    cases hfill : fillQuarters c p.quarterSize ((List.range p.signingActiveQuorumCount).map
        (previous.mnsUsedAtHIndexed c isTestnet cycle)) (⟨⟨0, hpos⟩, [], 0⟩ : Walk combined) with
    | none =>
      rw [hfill] at hbuild
      exact absurd (congrArg Prod.snd hbuild) nofun
    | some filled =>
      obtain ⟨quarters', w⟩ := filled
      rw [hfill] at hbuild
      obtain ⟨rfl, hsnapshot⟩ := Prod.mk.inj hbuild
      obtain rfl := Option.some.inj hsnapshot
      have hpos' := hpos
      rw [← hlengths w.skipList] at hpos'
      have hstart : ((⟨0, hpos'⟩ : Fin _) : ℕ) = (⟨0, hpos⟩ : Fin combined.length) := rfl
      have hiff := fillAllBySkipList_eq_iff (combined_hashes isTestnet hinv hformer hpresent w.skipList)
        (combined_nodup isTestnet hinv hformer hpresent) hstart hfill
      rw [List.length_map, List.length_range] at hiff
      rw [recoverable_iff c p isTestnet cycle previous hpos, quarters_of_snapshot _ _ hbase hpos']
      exact hiff
  · rw [dif_neg hpos] at hbuild
    obtain ⟨rfl, hsnapshot⟩ := Prod.mk.inj hbuild
    obtain rfl := Option.some.inj hsnapshot
    have hpos' := hpos
    rw [← hlengths []] at hpos'
    refine iff_of_true ?_ (Or.inl (Nat.eq_zero_of_not_pos hpos))
    rw [no_quarters_of_snapshot _ _ hbase hpos']

/-- A snapshot gives back the quarters with which it was stored if and only if there are masternodes
enough for each quorum, and none is skipped right after a lap in which all were taken. -/
theorem quarters_recovered_iff (hinv : cycle.mns.Inv c.codec c.sha256d)
    (hformer : ∀ i < p.signingActiveQuorumCount, ∀ mn ∈ previous.members i, Former cycle mn)
    (hV19 : cycle.isV19Active = true) {quarters : Quarters G} {snapshot : CQuorumSnapshot}
    (hbuild : buildNewQuorumQuarterMembers c p isTestnet cycle previous =
      (quarters, some snapshot)) :
    (getQuorumQuarterMembersBySnapshot c p cycle snapshot).map
          (List.map CDeterministicMN.proTxHash) =
        quarters.map (List.map CDeterministicMN.proTxHash) ↔
      Recoverable c p isTestnet cycle previous :=
  snapshot_recovers_iff hinv hformer (present_of_V19 hV19) hbuild

/-! ### Few masternodes -/

section Samples

def sampleHashing : Hashing Unit := ⟨oneCodec, digest, fun hash modifier => (hash+modifier).toNat⟩

def sampleMN (i : ℕ) : CDeterministicMN Unit :=
  let mn := registeredMN i {}
  {mn with pdmnState :=
    {mn.pdmnState with confirmedHash := 1, confirmedHashWithProRegTxHash := mn.proTxHash}}

def sampleList (n : ℕ) : CDeterministicMNList Unit :=
  (List.range n).foldl (fun list i =>
    ((list.addMN oneCodec digest (sampleMN i) true).toOption).getD list) {}

theorem added_inv {codec : BLS.KeyCodec G} {sha256d : List UInt8 → uint256}
    {mns : List (CDeterministicMN G)} (hgiven : ∀ mn ∈ mns, GivenAddresses mn.pdmnState.netInfo)
    {list : CDeterministicMNList G} (hlist : list.Inv codec sha256d) :
    (mns.foldl (fun list mn => ((list.addMN codec sha256d mn true).toOption).getD list) list).Inv
      codec sha256d := by
  induction mns generalizing list with
  | nil => exact hlist
  | cons mn mns ih =>
    obtain ⟨hone, hgiven⟩ := List.forall_mem_cons.mp hgiven
    refine ih hgiven ?_
    dsimp only
    cases hok : list.addMN codec sha256d mn true with
    | error reason => exact hlist
    | ok list' => exact (addMN_step hlist hone hok).1

theorem sampleList_inv (n : ℕ) : (sampleList n).Inv oneCodec digest := by
  have hgiven : ∀ mn ∈ (List.range n).map sampleMN, GivenAddresses mn.pdmnState.netInfo := by
    intro mn hmn
    obtain ⟨i, -, rfl⟩ := List.mem_map.mp hmn
    exact ⟨trivial, show 0+4 < 2^32 by norm_num⟩
  have hempty : Inv oneCodec digest ({blockHash := 0, nHeight := -1} : CDeterministicMNList Unit) :=
    inv_empty 0 (-1) 0
  have hinv := added_inv hgiven hempty
  rw [List.foldl_map] at hinv
  exact hinv

def sampleCycle (n : ℕ) : QuorumCycle Unit := ⟨48, true, 7, sampleList n⟩

theorem sampleCycle_inv (n : ℕ) :
    (sampleCycle n).mns.Inv sampleHashing.codec sampleHashing.sha256d :=
  sampleList_inv n

/-- Two quorums of four members. -/
def sampleParams : RotationParams := ⟨⟨5, true, 24, 2, 4⟩, 4⟩

/-- The former members of two quorums, with one member in each quarter. -/
def samplePrevious (i j k : ℕ) : PreviousQuorumQuarters Unit :=
  ⟨[[sampleMN i], [sampleMN j]], [[sampleMN j], [sampleMN k]], [[sampleMN k], [sampleMN i]]⟩

theorem sample_former (n i j k : ℕ) (hget : ∀ m ∈ [i, j, k], ∀ dmn,
    (sampleList n).getMN (sampleMN m).proTxHash = some dmn → dmn = sampleMN m) :
    ∀ q < sampleParams.signingActiveQuorumCount, ∀ mn ∈ (samplePrevious i j k).members q,
      Former (sampleCycle n) mn := by
  have hone : ∀ m ∈ [i, j, k], Former (sampleCycle n) (sampleMN m) := by
    refine fun m hm => ⟨rfl, show (1 : uint256) ≠ 0 by decide, fun dmn hdmn => ?_⟩
    obtain rfl := hget m hm dmn hdmn
    exact ⟨rfl, rfl, rfl⟩
  intro q hq mn hmn
  have hq : q < 2 := hq
  interval_cases q
  · have hmem : mn ∈ [sampleMN i, sampleMN j, sampleMN k] := hmn
    obtain ⟨m, hm, rfl⟩ := List.mem_map.mp (show mn ∈ [i, j, k].map sampleMN from hmem)
    exact hone m hm
  · have hmem : mn ∈ [sampleMN j, sampleMN k, sampleMN i] := hmn
    obtain ⟨m, hm, rfl⟩ := List.mem_map.mp (show mn ∈ [j, k, i].map sampleMN from hmem)
    refine hone m ?_
    simp only [List.mem_cons, List.not_mem_nil, or_false] at hm ⊢
    omega

/-- The second quorum skips the used masternodes and comes back to the only other one. -/
theorem quarters_recovered_four :
    ∃ snapshot : CQuorumSnapshot, snapshot.mnSkipList = [1, 1, 2] ∧
      buildNewQuorumQuarterMembers sampleHashing sampleParams false (sampleCycle 4)
        (samplePrevious 0 1 3) = ([[sampleMN 2], [sampleMN 2]], some snapshot) ∧
      (getQuorumQuarterMembersBySnapshot sampleHashing sampleParams (sampleCycle 4) snapshot).map
        (List.map CDeterministicMN.proTxHash) = [[3], [3]] := by
  have hbuild : buildNewQuorumQuarterMembers sampleHashing sampleParams false (sampleCycle 4)
      (samplePrevious 0 1 3) = ([[sampleMN 2], [sampleMN 2]],
        some ⟨[true, false, true, true], .MODE_SKIPPING_ENTRIES, [1, 1, 2]⟩) := by
    decide +kernel
  have hget : ∀ m ∈ [0, 1, 3], ∀ dmn,
      (sampleList 4).getMN (sampleMN m).proTxHash = some dmn → dmn = sampleMN m := by
    have hall : ∀ m ∈ [0, 1, 3],
        (sampleList 4).getMN (sampleMN m).proTxHash = some (sampleMN m) := by
      decide +kernel
    intro m hm dmn hdmn
    rw [hall m hm] at hdmn
    exact (Option.some.inj hdmn).symm
  have hiff := quarters_recovered_iff (sampleCycle_inv 4) (sample_former 4 0 1 3 hget) rfl hbuild
  refine ⟨_, rfl, hbuild, (hiff.mpr ?_).trans ?_⟩
  · decide +kernel
  · decide +kernel

/-- Where each of three masternodes is in an older quarter of both quorums, the new quarters are
empty, and the snapshot fills them. -/
theorem quarters_not_recovered :
    ∃ snapshot : CQuorumSnapshot,
      buildNewQuorumQuarterMembers sampleHashing sampleParams false (sampleCycle 3)
        (samplePrevious 0 1 2) = ([[], []], some snapshot) ∧
      (getQuorumQuarterMembersBySnapshot sampleHashing sampleParams (sampleCycle 3) snapshot).map
        (List.map CDeterministicMN.proTxHash) = [[3], [2]] :=
  ⟨⟨[true, true, true], .MODE_NO_SKIPPING, []⟩, by decide +kernel, by decide +kernel⟩

/-- Of eight quorums the last comes to its own former member at the end of the second lap. The skip
list gives the index, and not the lap. -/
example :
    let p : RotationParams := ⟨⟨5, true, 24, 8, 4⟩, 4⟩
    let previous : PreviousQuorumQuarters Unit := ⟨List.replicate 7 [] ++ [[sampleMN 0]], [], []⟩
    ((buildNewQuorumQuarterMembers sampleHashing p false (sampleCycle 4) previous).2.map
        CQuorumSnapshot.mnSkipList = some [3] ∧
      ¬Recoverable sampleHashing p false (sampleCycle 4) previous) := by
  decide +kernel

end Samples

end BabaChain.LLMQ.Utils
