import BabaChain.RotationSnapshots
import BabaChain.Lib.Runs
import Mathlib

/-! The members of rotated quorums over the cycles of a chain. -/
namespace BabaChain.LLMQ.Utils
open Evo.ByValue Evo.ByValue.CDeterministicMNList OrdMap Std Loops Runs

variable {G : Type} {c : Hashing G} {p : RotationParams} {isTestnet : Bool}
  {cycle : QuorumCycle G} {previous : PreviousQuorumQuarters G}

/-! ### Former members that count as used -/

section Clashes

variable (c)

/-- Two masternodes that no list can hold together. -/
def Clash (a b : CDeterministicMN G) : Prop :=
  a.proTxHash ≠ b.proTxHash ∧ (a.internalId = b.internalId ∨
    ∃ hash ∈ a.hashes c.codec c.sha256d, hash ∈ b.hashes c.codec c.sha256d)

instance (a b : CDeterministicMN G) : Decidable (Clash c a b) :=
  have : Decidable (∃ hash ∈ a.hashes c.codec c.sha256d, hash ∈ b.hashes c.codec c.sha256d) :=
    Multiset.decidableExistsMultiset
  inferInstanceAs (Decidable (_ ∧ (_ ∨ _)))

variable (p isTestnet cycle previous)

/-- Former members of a quorum that are not passed over do not clash. -/
def Apart : Prop :=
  ∀ i < p.signingActiveQuorumCount, ∀ a ∈ previous.members i, ∀ b ∈ previous.members i,
    cycle.forgets isTestnet a = false → cycle.forgets isTestnet b = false → ¬Clash c a b

instance : Decidable (Apart c p isTestnet cycle previous) :=
  inferInstanceAs (Decidable (∀ i < p.signingActiveQuorumCount, ∀ a ∈ previous.members i,
    ∀ b ∈ previous.members i, _ → _ → ¬Clash c a b))

end Clashes

variable {list list' : CDeterministicMNList G} {mn : CDeterministicMN G}
  {former : List (CDeterministicMN G)}

theorem hasMN_of_addMN (hok : list.addMN c.codec c.sha256d mn true = .ok list') (hash : uint256) :
    list'.hasMN hash = true ↔ mn.proTxHash = hash ∨ list.hasMN hash = true := by
  rw [hasMN, hasMN, getMN, getMN, mnMap_of_addMN hok, getElem?_insert]
  split_ifs with hsame
  · exact iff_of_true rfl (Or.inl hsame)
  · exact (or_iff_right hsame).symm

/-- A masternode that clashes with none of a list is in it after it was added. -/
theorem addUsed_found (hinv : list.Inv c.codec c.sha256d) (hreg : mn.Registered)
    (hclear : ∀ (hash : uint256) (mn' : CDeterministicMN G), list.mnMap[hash]? = some mn' →
      ¬Clash c mn mn')
    (hforgets : cycle.forgets isTestnet mn = false) :
    (cycle.addUsed c isTestnet list mn).Inv c.codec c.sha256d ∧
      ∀ hash, (cycle.addUsed c isTestnet list mn).hasMN hash = true ↔
        mn.proTxHash = hash ∨ list.hasMN hash = true := by
  unfold QuorumCycle.addUsed
  rw [hforgets, if_neg Bool.false_ne_true]
  rcases addMN_spec hinv true hreg.coherent hreg.fits with
    ⟨-, list', hok, -, -, hinv'⟩ | ⟨hrefused, reason, herr⟩
  · rw [hok]
    exact ⟨hinv', hasMN_of_addMN hok⟩
  · rw [herr]
    refine ⟨hinv, fun hash => (or_iff_right_of_imp ?_).symm⟩
    rintro rfl
    cases hmn : list.mnMap[mn.proTxHash]? with
    | some mn' =>
      rw [hasMN, getMN, hmn]
      rfl
    | none =>
      refine absurd ⟨hmn, ?_, hreg.present, fun hash hne k hk hheld => ?_⟩ hrefused
      · cases hid : list.mnInternalIdMap[mn.internalId]? with
        | none => rfl
        | some hash =>
          obtain ⟨mn', hmn', hsame⟩ := (hinv.ids mn.internalId hash).mp hid
          refine absurd ⟨fun heq => ?_, Or.inl hsame.symm⟩ (hclear hash mn' hmn')
          rw [← hinv.key hash mn' hmn', ← heq, hmn] at hmn'
          contradiction
      · cases hmn' : list.mnMap[hash]? with
        | none =>
          rw [held_of_none hmn'] at hheld
          exact absurd hheld (Multiset.notMem_zero k)
        | some mn' =>
          rw [held_of_some hmn'] at hheld
          refine hclear hash mn' hmn' ⟨fun heq => hne ?_, Or.inr ⟨k, hk, hheld⟩⟩
          rw [heq, hinv.key hash mn' hmn']

theorem foldl_addUsed_found (hused : UsedOf isTestnet cycle former list)
    (hinv : list.Inv c.codec c.sha256d) (hreg : ∀ mn ∈ former, mn.Registered)
    (hapart : ∀ a ∈ former, ∀ b ∈ former, cycle.forgets isTestnet a = false →
      cycle.forgets isTestnet b = false → ¬Clash c a b)
    {records : List (CDeterministicMN G)} (hrecords : records ⊆ former) :
    ∀ hash, (list.hasMN hash = true ∨
        ∃ mn ∈ records, cycle.forgets isTestnet mn = false ∧ mn.proTxHash = hash) →
      (records.foldl (cycle.addUsed c isTestnet) list).hasMN hash = true := by
  induction records generalizing list with
  | nil => exact fun hash h => h.elim id fun ⟨_, hmem, _⟩ => absurd hmem List.not_mem_nil
  | cons mn records ih =>
    rw [List.cons_subset] at hrecords
    intro hash h
    cases hforgets : cycle.forgets isTestnet mn with
    | true =>
      have hkeep : cycle.addUsed c isTestnet list mn = list := if_pos hforgets
      rw [List.foldl_cons, hkeep]
      refine ih hused hinv hrecords.2 hash (h.imp_right ?_)
      rintro ⟨mn', hmem, hkept, hhash⟩
      refine ⟨mn', (List.mem_cons.mp hmem).resolve_left ?_, hkept, hhash⟩
      rintro rfl
      rw [hforgets] at hkept
      contradiction
    | false =>
      have hclear : ∀ (hash : uint256) (mn' : CDeterministicMN G),
          list.mnMap[hash]? = some mn' → ¬Clash c mn mn' := by
        intro hash mn' hmn'
        obtain ⟨hmem, hkept⟩ := hused.mem hash mn' hmn'
        exact hapart mn hrecords.1 mn' hmem hforgets hkept
      obtain ⟨hinv', hhas⟩ := addUsed_found hinv (hreg mn hrecords.1) hclear hforgets
      refine ih (hused.add hrecords.1) hinv' hrecords.2 hash ?_
      rw [hhas]
      rcases h with hin | ⟨mn', hmem, hkept, hhash⟩
      · exact Or.inl (Or.inr hin)
      · rcases List.mem_cons.mp hmem with rfl | hmem
        · exact Or.inl (Or.inl hhash)
        · exact Or.inr ⟨mn', hmem, hkept, hhash⟩

theorem former_found {i : ℕ} (hi : i < p.signingActiveQuorumCount)
    (hreg : ∀ mn ∈ previous.members i, mn.Registered)
    (hapart : Apart c p isTestnet cycle previous) {mn : CDeterministicMN G}
    (hmn : mn ∈ previous.members i) (hforgets : cycle.forgets isTestnet mn = false) :
    (previous.mnsUsedAtHIndexed c isTestnet cycle i).hasMN mn.proTxHash = true :=
  foldl_addUsed_found usedOf_empty (inv_empty _ _ _) hreg (hapart i hi) (List.Subset.refl _)
    mn.proTxHash (Or.inr ⟨mn, hmn, hforgets, rfl⟩)

/-! ### New quarters -/

variable {combined : List (CDeterministicMN G)} {quarterSize usedMNsCount : ℕ}
  {used : CDeterministicMNList G} {quarter : List (CDeterministicMN G)}

/-- A quarter from a list, whose members are apart from each other and from used ones. -/
structure NewQuarter (combined : List (CDeterministicMN G)) (quarterSize : ℕ)
    (used : CDeterministicMNList G) (quarter : List (CDeterministicMN G)) : Prop where
  nodup : (quarter.map CDeterministicMN.proTxHash).Nodup
  unused : ∀ mn ∈ quarter, used.hasMN mn.proTxHash = false
  mem : quarter ⊆ combined
  length : quarter.length ≤ quarterSize

theorem newQuarter_nil : NewQuarter combined quarterSize used [] :=
  ⟨List.nodup_nil, fun _ hmn => absurd hmn List.not_mem_nil, List.nil_subset _, Nat.zero_le _⟩

theorem NewQuarter.take (h : NewQuarter combined quarterSize used quarter)
    (hin : ∀ mn ∈ quarter, list.hasMN mn.proTxHash = true)
    (hkeep : ∀ hash, used.hasMN hash = true → list.hasMN hash = true)
    (hmem : mn ∈ combined) (hnew : list.hasMN mn.proTxHash = false)
    (hlength : quarter.length < quarterSize) :
    NewQuarter combined quarterSize used (quarter++[mn]) where
  nodup := by
    rw [List.map_append, List.map_singleton, List.nodup_append]
    refine ⟨h.nodup, List.nodup_singleton _, fun a ha b hb heq => ?_⟩
    obtain ⟨mn', hmn', rfl⟩ := List.mem_map.mp ha
    have hhas := hin mn' hmn'
    rw [heq, List.mem_singleton.mp hb, hnew] at hhas
    contradiction
  unused mn' hmn' := by
    rcases List.mem_append.mp hmn' with hmn' | hmn'
    · exact h.unused mn' hmn'
    · rw [List.mem_singleton.mp hmn']
      refine Bool.eq_false_of_not_eq_true fun hhas => ?_
      rw [hkeep _ hhas] at hnew
      contradiction
  mem := List.append_subset.mpr ⟨h.mem, fun _ hmn' => List.mem_singleton.mp hmn' ▸ hmem⟩
  length := by
    rw [List.length_append, List.length_singleton]
    exact hlength

theorem fill_newQuarter {initial_loop_idx : Fin combined.length} {s t : Filling combined}
    (hquarter : s.quarter = [])
    (hrun : (Filling.fill c quarterSize usedMNsCount initial_loop_idx).run s = some t) :
    NewQuarter combined quarterSize s.used t.quarter := by
  have hinv := Loop.run_invariant (I := fun s' : Filling combined =>
    NewQuarter combined quarterSize s.used s'.quarter ∧
      (∀ mn ∈ s'.quarter, s'.used.hasMN mn.proTxHash = true) ∧
        ∀ hash, s.used.hasMN hash = true → s'.used.hasMN hash = true) hrun
    (by
      rw [hquarter]
      exact ⟨newQuarter_nil, fun _ hmn => absurd hmn List.not_mem_nil, fun _ hhas => hhas⟩)
    fun s₁ s₂ ⟨hnew, hin, hkeep⟩ hmore hturn => ?_
  · exact hinv.1.1
  rcases Filling.turn_cases hturn with ⟨used', updated, hwith, rfl⟩ | ⟨updated, -, rfl, -⟩
  · unfold withMN at hwith
    split_ifs at hwith with hhas
    have hadd := hasMN_of_addMN (eq_ok_of_toOption hwith)
    refine ⟨hnew.take hin hkeep (List.getElem_mem _) (Bool.eq_false_of_not_eq_true hhas)
      (of_decide_eq_true hmore).1, fun mn hmn => ?_, fun hash hhash => ?_⟩
    · rw [hadd]
      rcases List.mem_append.mp hmn with hmn | hmn
      · exact Or.inr (hin mn hmn)
      · exact Or.inl (congrArg _ (List.mem_singleton.mp hmn)).symm
    · exact (hadd hash).mpr (Or.inr (hkeep hash hhash))
  · exact ⟨hnew, hin, hkeep⟩

theorem fillQuarters_new {useds : List (CDeterministicMNList G)} {w w' : Walk combined}
    {quarters : Quarters G}
    (hfill : fillQuarters c quarterSize useds w = some (quarters, w')) :
    List.Forall₂ (NewQuarter combined quarterSize) useds quarters := by
  induction useds generalizing w w' quarters with
  | nil =>
    obtain ⟨rfl, -⟩ := Prod.mk.inj (Option.some.inj hfill)
    exact List.Forall₂.nil
  | cons used useds ih =>
    rw [fillQuarters] at hfill
    cases hrun : (Filling.fill c quarterSize used.mnMap.size w.idx).run {w with used} with
    | none =>
      rw [hrun] at hfill
      contradiction
    | some t =>
      rw [hrun] at hfill
      cases hrest : fillQuarters c quarterSize useds t.toWalk with
      | none =>
        rw [Option.bind_eq_bind, Option.bind_some, hrest] at hfill
        contradiction
      | some rest =>
        obtain ⟨quarters', w₂⟩ := rest
        rw [Option.bind_eq_bind, Option.bind_some, hrest] at hfill
        obtain ⟨rfl, -⟩ := Prod.mk.inj (Option.some.inj hfill)
        exact List.Forall₂.cons (fill_newQuarter rfl hrun) (ih hrest)

theorem getD_noMembers (n i : ℕ) :
    (List.replicate n ([] : List (CDeterministicMN G))).getD i [] = [] := by
  rw [List.getD_eq_getElem?_getD, List.getElem?_replicate]
  split_ifs
  · rfl
  · rfl

variable (c p isTestnet cycle previous) in
theorem newQuarters_spec (i : ℕ) :
    NewQuarter (previous.sortedCombinedMnsList c p isTestnet cycle) p.quarterSize
      (previous.mnsUsedAtHIndexed c isTestnet cycle i)
      ((buildNewQuorumQuarterMembers c p isTestnet cycle previous).1.getD i []) := by
  unfold buildNewQuorumQuarterMembers
  dsimp only
  split_ifs with hbase hfew hpos
  · exact newQuarter_nil
  · rw [getD_noMembers]
    exact newQuarter_nil
  · cases hfill : fillQuarters c p.quarterSize ((List.range p.signingActiveQuorumCount).map
        (previous.mnsUsedAtHIndexed c isTestnet cycle))
        (⟨⟨0, hpos⟩, [], 0⟩ : Walk (previous.sortedCombinedMnsList c p isTestnet cycle)) with
    | none =>
      rw [getD_noMembers]
      exact newQuarter_nil
    | some filled =>
      obtain ⟨quarters, w⟩ := filled
      have hall := fillQuarters_new hfill
      dsimp only
      rw [List.getD_eq_getElem?_getD]
      cases hquarter : quarters[i]? with
      | none => exact newQuarter_nil
      | some quarter =>
        obtain ⟨hi, rfl⟩ := List.getElem?_eq_some_iff.mp hquarter
        have hlength := hall.length_eq
        rw [List.length_map, List.length_range] at hlength
        have hone := hall.get (i := i) (by rwa [List.length_map, List.length_range, hlength]) hi
        rw [List.get_eq_getElem, List.get_eq_getElem, List.getElem_map, List.getElem_range] at hone
        exact hone
  · rw [getD_noMembers]
    exact newQuarter_nil

/-- What is walked over may be a member. -/
theorem combined_eligible (hinv : cycle.mns.Inv c.codec c.sha256d)
    (hformer : ∀ i < p.signingActiveQuorumCount, ∀ mn ∈ previous.members i, Former cycle mn)
    (hpresent : Present p isTestnet cycle previous)
    (hmn : mn ∈ previous.sortedCombinedMnsList c p isTestnet cycle) :
    ∃ dmn ∈ eligible cycle.mns, dmn.proTxHash = mn.proTxHash := by
  have hhash := List.mem_map_of_mem (f := CDeterministicMN.proTxHash) hmn
  rw [← combined_hashes isTestnet hinv hformer hpresent [], sortedCombinedMns_snapshot] at hhash
  obtain ⟨dmn, hdmn, hsame⟩ := List.mem_map.mp hhash
  refine ⟨dmn, (mem_sortedAllMns (c := c)).mp ?_, hsame⟩
  rcases List.mem_append.mp hdmn with hdmn | hdmn
  · exact List.mem_of_mem_filter hdmn
  · exact List.mem_of_mem_filter hdmn

/-- A new quarter has no former member of its quorum. -/
theorem newQuarter_apart (hinv : cycle.mns.Inv c.codec c.sha256d)
    (hformer : ∀ i < p.signingActiveQuorumCount, ∀ mn ∈ previous.members i, Former cycle mn)
    (hreg : ∀ i < p.signingActiveQuorumCount, ∀ mn ∈ previous.members i, mn.Registered)
    (hpresent : Present p isTestnet cycle previous)
    (hapart : Apart c p isTestnet cycle previous) {i : ℕ} (hi : i < p.signingActiveQuorumCount) :
    ∀ mn ∈ (buildNewQuorumQuarterMembers c p isTestnet cycle previous).1.getD i [],
      ∀ mn' ∈ previous.members i, mn.proTxHash ≠ mn'.proTxHash := by
  intro mn hmn mn' hmn' hsame
  have hnew := newQuarters_spec c p isTestnet cycle previous i
  obtain ⟨dmn, hdmn, hhash⟩ := combined_eligible hinv hformer hpresent (hnew.mem hmn)
  obtain ⟨hget, hvalid, -⟩ := (mem_eligible hinv.key).mp hdmn
  have hforgets : cycle.forgets isTestnet mn' = false := by
    unfold QuorumCycle.forgets
    rw [hasMN, getMN, ← hsame, ← hhash, hget, Option.any_some, hvalid]
    exact Bool.or_eq_false_iff.mpr ⟨Bool.and_false _, rfl⟩
  have hfound := former_found hi (hreg i hi) hapart hmn' hforgets
  rw [← hsame, hnew.unused mn hmn] at hfound
  contradiction

/-! ### Quarters from snapshots -/

theorem fillBySkipList_mem (s : Fin combined.length × List ℤ) (n : ℕ) :
    (fillBySkipList s n).1 ⊆ combined := by
  fun_induction fillBySkipList s n with
  | case1 => exact List.nil_subset _
  | case2 idx n quarter s hrest ih =>
    rw [hrest] at ih
    exact List.cons_subset.mpr ⟨List.getElem_mem _, ih⟩
  | case3 => assumption
  | case4 idx itsk rest n hne quarter s hrest ih =>
    rw [hrest] at ih
    exact List.cons_subset.mpr ⟨List.getElem_mem _, ih⟩

theorem fillAllBySkipList_mem (numQuorums : ℕ) (s : Fin combined.length × List ℤ) :
    ∀ quarter ∈ fillAllBySkipList quarterSize numQuorums s,
      quarter ⊆ combined ∧ quarter.length ≤ quarterSize := by
  induction numQuorums generalizing s with
  | zero => exact fun _ h => absurd h List.not_mem_nil
  | succ numQuorums ih =>
    rw [fillAllBySkipList, List.forall_mem_cons]
    exact ⟨⟨fillBySkipList_mem s _, (fillBySkipList_length s _).le⟩, ih _⟩

theorem sortedCombinedMns_eligible (snapshot : CQuorumSnapshot) {dmn : CDeterministicMN G}
    (hdmn : dmn ∈ sortedCombinedMns c cycle snapshot) : dmn ∈ eligible cycle.mns := by
  unfold sortedCombinedMns at hdmn
  dsimp only at hdmn
  rw [calculateQuorum_list, List.mem_append] at hdmn
  have hflagged : ∀ keep, ∀ flag : CDeterministicMN G × ℕ → CDeterministicMN G × Bool,
      (∀ p, (flag p).1 = p.1) →
      ∀ dmn ∈ (((sortedAllMns c cycle).zipIdx.map flag).filter keep).map Prod.fst,
        dmn ∈ eligible cycle.mns := by
    intro keep flag hflag dmn hdmn
    obtain ⟨flagged, hflagged, rfl⟩ := List.mem_map.mp hdmn
    obtain ⟨p, hmem, rfl⟩ := List.mem_map.mp (List.mem_of_mem_filter hflagged)
    rw [hflag p]
    exact (mem_sortedAllMns (c := c)).mp (List.fst_mem_of_mem_zipIdx hmem)
  rcases hdmn with hdmn | hdmn
  · exact hflagged _ _ (fun _ => rfl) dmn hdmn
  · exact hflagged _ _ (fun _ => rfl) dmn hdmn

/-- A quarter holds masternodes of the list of its cycle, whatever the snapshot. -/
theorem quarter_spec (cycle : QuorumCycle G) (snapshot : CQuorumSnapshot) (i : ℕ) :
    (getQuorumQuarterMembersBySnapshot c p cycle snapshot).getD i [] ⊆ eligible cycle.mns ∧
      ((getQuorumQuarterMembersBySnapshot c p cycle snapshot).getD i []).length ≤
        p.quarterSize := by
  have hall : ∀ quarter ∈ getQuorumQuarterMembersBySnapshot c p cycle snapshot,
      quarter ⊆ eligible cycle.mns ∧ quarter.length ≤ p.quarterSize := by
    have hempty : ∀ quarter ∈ List.replicate p.signingActiveQuorumCount [],
        quarter ⊆ eligible cycle.mns ∧ quarter.length ≤ p.quarterSize := by
      intro quarter hquarter
      rw [List.eq_of_mem_replicate hquarter]
      exact ⟨List.nil_subset _, Nat.zero_le _⟩
    have hfilled : ∀ s, ∀ quarter ∈ @fillAllBySkipList _ (sortedCombinedMns c cycle snapshot)
        p.quarterSize p.signingActiveQuorumCount s,
        quarter ⊆ eligible cycle.mns ∧ quarter.length ≤ p.quarterSize := by
      intro s quarter hquarter
      obtain ⟨hmem, hlength⟩ := fillAllBySkipList_mem _ s quarter hquarter
      exact ⟨fun dmn hdmn => sortedCombinedMns_eligible snapshot (hmem hdmn), hlength⟩
    unfold getQuorumQuarterMembersBySnapshot
    dsimp only
    split_ifs
    · exact fun _ h => absurd h List.not_mem_nil
    · cases snapshot.mnSkipListMode with
      | MODE_NO_SKIPPING => exact hfilled _
      | MODE_SKIPPING_ENTRIES => exact hfilled _
      | MODE_NO_SKIPPING_ENTRIES => exact hempty
      | MODE_ALL_SKIPPED => exact hempty
    · exact hempty
  rw [List.getD_eq_getElem?_getD]
  cases hquarter : (getQuorumQuarterMembersBySnapshot c p cycle snapshot)[i]? with
  | none => exact ⟨List.nil_subset _, Nat.zero_le _⟩
  | some quarter => exact hall quarter (List.mem_of_getElem? hquarter)

/-! ### Earlier quarters -/

variable {chain : CycleChain G} {qsnapman : CQuorumSnapshotManager} {nHeight : ℕ}

section Earlier

variable (c p chain qsnapman)

/-- The quarters of the cycles before a base block, back to one that has no snapshot. -/
def earlier : ℕ → ℕ → List (Quarters G)
  | 0, _ => []
  | n+1, nHeight =>
    match quartersBack c p chain qsnapman nHeight p.dkgInterval with
    | none => []
    | some quarters => quarters :: earlier n (nHeight-p.dkgInterval)

def ofEarlier (quarters : List (Quarters G)) : PreviousQuorumQuarters G :=
  let noMembers := List.replicate p.signingActiveQuorumCount []
  ⟨quarters.getD 0 noMembers, quarters.getD 1 noMembers, quarters.getD 2 noMembers⟩

end Earlier

theorem quartersBack_some {n : ℕ} {quarters : Quarters G}
    (h : quartersBack c p chain qsnapman nHeight n = some quarters) :
    n ≤ nHeight ∧ ∃ snapshot, qsnapman (nHeight-n) = some snapshot ∧
      getQuorumQuarterMembersBySnapshot c p (chain.cycle (nHeight-n)) snapshot = quarters := by
  unfold quartersBack at h
  split_ifs at h with hle
  obtain ⟨snapshot, hsnapshot, hquarters⟩ := Option.map_eq_some_iff.mp h
  exact ⟨hle, snapshot, hsnapshot, hquarters⟩

theorem quartersBack_add {n : ℕ} (h : n ≤ nHeight) (m : ℕ) :
    quartersBack c p chain qsnapman nHeight (n+m) =
      quartersBack c p chain qsnapman (nHeight-n) m := by
  unfold quartersBack
  rw [Nat.sub_add_eq]
  exact if_congr (by omega) rfl rfl

theorem getPreviousQuorumQuarterMembers_eq :
    getPreviousQuorumQuarterMembers c p chain qsnapman nHeight =
      ofEarlier p (earlier c p chain qsnapman 3 nHeight) := by
  unfold getPreviousQuorumQuarterMembers
  dsimp only
  rw [earlier]
  cases hC : quartersBack c p chain qsnapman nHeight p.dkgInterval with
  | none => rfl
  | some quartersC =>
    have hleC := (quartersBack_some hC).1
    dsimp only
    rw [earlier, Nat.two_mul, quartersBack_add hleC]
    cases h2C : quartersBack c p chain qsnapman (nHeight-p.dkgInterval) p.dkgInterval with
    | none => rfl
    | some quarters2C =>
      have hle2C := (quartersBack_some h2C).1
      dsimp only
      have hthree : 3*p.dkgInterval = p.dkgInterval+(p.dkgInterval+p.dkgInterval) := by omega
      rw [earlier, hthree, quartersBack_add hleC, quartersBack_add hle2C]
      cases quartersBack c p chain qsnapman (nHeight-p.dkgInterval-p.dkgInterval)
          p.dkgInterval with
      | none => rfl
      | some quarters3C => rfl

theorem length_earlier (n nHeight : ℕ) : (earlier c p chain qsnapman n nHeight).length ≤ n := by
  induction n generalizing nHeight with
  | zero => exact Nat.zero_le _
  | succ n ih =>
    rw [earlier]
    cases quartersBack c p chain qsnapman nHeight p.dkgInterval with
    | none => exact Nat.zero_le _
    | some quarters => exact Nat.succ_le_succ (ih _)

theorem earlier_isPrefix {m n : ℕ} (h : m ≤ n) (nHeight : ℕ) :
    earlier c p chain qsnapman m nHeight <+: earlier c p chain qsnapman n nHeight := by
  induction m generalizing n nHeight with
  | zero => exact List.nil_prefix
  | succ m ih =>
    obtain ⟨n, rfl⟩ := Nat.exists_eq_add_of_le' (Nat.lt_of_lt_of_le (Nat.succ_pos m) h)
    rw [earlier, earlier]
    cases quartersBack c p chain qsnapman nHeight p.dkgInterval with
    | none => exact List.nil_prefix
    | some quarters =>
      exact List.cons_prefix_cons.mpr ⟨rfl, ih (Nat.le_of_succ_le_succ h) _⟩

/-- The former members of a quorum, through all earlier quarters. -/
theorem members_eq (i : ℕ) :
    (getPreviousQuorumQuarterMembers c p chain qsnapman nHeight).members i =
      (earlier c p chain qsnapman 3 nHeight).flatMap fun quarters => quarters.getD i [] := by
  have hlength : (earlier c p chain qsnapman 3 nHeight).length ≤ 3 := length_earlier 3 nHeight
  have hempty := getD_noMembers (G := G) p.signingActiveQuorumCount i
  rw [List.getD_eq_getElem?_getD] at hempty
  rw [getPreviousQuorumQuarterMembers_eq]
  match earlier c p chain qsnapman 3 nHeight, hlength with
  | [], _ => simp [ofEarlier, PreviousQuorumQuarters.members, hempty]
  | [_], _ => simp [ofEarlier, PreviousQuorumQuarters.members, hempty]
  | [_, _], _ => simp [ofEarlier, PreviousQuorumQuarters.members, hempty]
  | [_, _, _], _ => simp [ofEarlier, PreviousQuorumQuarters.members]

/-! ### What the stored snapshots promise -/

/-- The lists of a chain. The collateral of a masternode that may be a member does not change later,
nor do its confirmed hashes. -/
structure CycleChain.Lasting (c : Hashing G) (chain : CycleChain G) : Prop where
  inv : ∀ nHeight, (chain.mns nHeight).Inv c.codec c.sha256d
  same : ∀ {nHeight nHeight' : ℕ}, nHeight ≤ nHeight' → ∀ mn ∈ eligible (chain.mns nHeight), ∀ dmn,
    (chain.mns nHeight').getMN mn.proTxHash = some dmn →
      dmn.collateralOutpoint = mn.collateralOutpoint ∧
        dmn.pdmnState.confirmedHash = mn.pdmnState.confirmedHash ∧
        dmn.pdmnState.confirmedHashWithProRegTxHash = mn.pdmnState.confirmedHashWithProRegTxHash

/-- What the new quarters of a cycle rely on. -/
structure Sound (c : Hashing G) (p : RotationParams) (isTestnet : Bool) (cycle : QuorumCycle G)
    (previous : PreviousQuorumQuarters G) : Prop where
  present : Present p isTestnet cycle previous
  apart : Apart c p isTestnet cycle previous
  recoverable : cycle.mns.validMNs.length < p.quarterSize ∨ Recoverable c p isTestnet cycle previous

instance : Decidable (Sound c p isTestnet cycle previous) :=
  have : Decidable (Present p isTestnet cycle previous) :=
    inferInstanceAs (Decidable (∀ i < p.signingActiveQuorumCount, ∀ mn ∈ previous.members i, _ → _))
  decidable_of_iff (_ ∧ _ ∧ _)
    ⟨fun h => ⟨h.1, h.2.1, h.2.2⟩, fun h => ⟨h.present, h.apart, h.recoverable⟩⟩

/-- Each snapshot is what its cycle leads to with the older ones. -/
def Settled (c : Hashing G) (p : RotationParams) (isTestnet : Bool) (chain : CycleChain G)
    (qsnapman : CQuorumSnapshotManager) : Prop :=
  ∀ nHeight snapshot, qsnapman nHeight = some snapshot →
    let previous := getPreviousQuorumQuarterMembers c p chain qsnapman nHeight
    Sound c p isTestnet (chain.cycle nHeight) previous ∧
      (buildNewQuorumQuarterMembers c p isTestnet (chain.cycle nHeight) previous).2 = some snapshot

theorem earlier_eligible (n nHeight : ℕ) (i : ℕ) :
    ∀ mn ∈ (earlier c p chain qsnapman n nHeight).flatMap fun quarters => quarters.getD i [],
      ∃ nHeight' ≤ nHeight, mn ∈ eligible (chain.mns nHeight') := by
  induction n generalizing nHeight with
  | zero => exact fun _ h => absurd h List.not_mem_nil
  | succ n ih =>
    rw [earlier]
    cases hback : quartersBack c p chain qsnapman nHeight p.dkgInterval with
    | none => exact fun _ h => absurd h List.not_mem_nil
    | some quarters =>
      obtain ⟨hle, snapshot, -, rfl⟩ := quartersBack_some hback
      intro mn hmn
      rw [List.flatMap_cons, List.mem_append] at hmn
      rcases hmn with hmn | hmn
      · exact ⟨_, Nat.sub_le _ _, (quarter_spec _ snapshot i).1 hmn⟩
      · obtain ⟨nHeight', hle', heligible⟩ := ih _ mn hmn
        exact ⟨nHeight', hle'.trans (Nat.sub_le _ _), heligible⟩

theorem previous_former (hchain : chain.Lasting c) (i : ℕ) :
    ∀ mn ∈ (getPreviousQuorumQuarterMembers c p chain qsnapman nHeight).members i,
      Former (chain.cycle nHeight) mn := by
  intro mn hmn
  rw [members_eq] at hmn
  obtain ⟨nHeight', hle, heligible⟩ := earlier_eligible 3 nHeight i mn hmn
  obtain ⟨-, hvalid, hconfirmed⟩ := (mem_eligible (hchain.inv nHeight').key).mp heligible
  exact ⟨hvalid, hconfirmed, hchain.same hle mn heligible⟩

theorem previous_registered (hchain : chain.Lasting c) (i : ℕ) :
    ∀ mn ∈ (getPreviousQuorumQuarterMembers c p chain qsnapman nHeight).members i,
      mn.Registered := by
  intro mn hmn
  rw [members_eq] at hmn
  obtain ⟨nHeight', -, heligible⟩ := earlier_eligible 3 nHeight i mn hmn
  exact (hchain.inv nHeight').registered _ mn
    ((mem_eligible (hchain.inv nHeight').key).mp heligible).1

/-- The hashes of former members of a quorum, over some cycles. -/
abbrev earlierHashes (c : Hashing G) (p : RotationParams) (chain : CycleChain G)
    (qsnapman : CQuorumSnapshotManager) (n nHeight i : ℕ) : List uint256 :=
  ((earlier c p chain qsnapman n nHeight).flatMap fun quarters => quarters.getD i []).map
    CDeterministicMN.proTxHash

theorem newQuarter_disjoint (hchain : chain.Lasting c)
    (hsound : Sound c p isTestnet (chain.cycle nHeight)
      (getPreviousQuorumQuarterMembers c p chain qsnapman nHeight))
    {i : ℕ} (hi : i < p.signingActiveQuorumCount) :
    (((buildNewQuorumQuarterMembers c p isTestnet (chain.cycle nHeight)
      (getPreviousQuorumQuarterMembers c p chain qsnapman nHeight)).1.getD i []).map
        CDeterministicMN.proTxHash).Disjoint (earlierHashes c p chain qsnapman 3 nHeight i) := by
  rw [earlierHashes, ← members_eq]
  intro hash hnew hold
  obtain ⟨mn, hmn, rfl⟩ := List.mem_map.mp hnew
  obtain ⟨mn', hmn', hsame⟩ := List.mem_map.mp hold
  exact newQuarter_apart (hchain.inv nHeight) (fun i _ => previous_former hchain i)
    (fun i _ => previous_registered hchain i) hsound.present hsound.apart hi mn hmn mn' hmn'
    hsame.symm

/-- What is read back from a snapshot is the new quarter of its cycle. -/
theorem Settled.recovered (h : Settled c p isTestnet chain qsnapman) (hchain : chain.Lasting c)
    {snapshot : CQuorumSnapshot} (hsnapshot : qsnapman nHeight = some snapshot) (i : ℕ) :
    ((getQuorumQuarterMembersBySnapshot c p (chain.cycle nHeight) snapshot).getD i []).map
        CDeterministicMN.proTxHash =
      ((buildNewQuorumQuarterMembers c p isTestnet (chain.cycle nHeight)
        (getPreviousQuorumQuarterMembers c p chain qsnapman nHeight)).1.getD i []).map
        CDeterministicMN.proTxHash := by
  obtain ⟨hsound, hbuild⟩ := h nHeight snapshot hsnapshot
  have hrecoverable := hsound.recoverable.resolve_left fun hfew => by
    unfold buildNewQuorumQuarterMembers at hbuild
    dsimp only at hbuild
    split_ifs at hbuild
  have hquarters := (snapshot_recovers_iff (hchain.inv nHeight)
    (fun i _ => previous_former hchain i) hsound.present (Prod.ext rfl hbuild)).mpr hrecoverable
  have hone := congrArg (fun hashes : List (List uint256) => hashes.getD i []) hquarters
  have hmap : ∀ quarters : Quarters G,
      (quarters.map (List.map CDeterministicMN.proTxHash)).getD i [] =
        (quarters.getD i []).map CDeterministicMN.proTxHash := by
    intro quarters
    rw [List.getD_eq_getElem?_getD, List.getD_eq_getElem?_getD, List.getElem?_map]
    cases quarters[i]? with
    | none => rfl
    | some quarter => rfl
  rw [hmap, hmap] at hone
  exact hone

theorem Settled.earlier_nodup (h : Settled c p isTestnet chain qsnapman) (hchain : chain.Lasting c)
    {i : ℕ} (hi : i < p.signingActiveQuorumCount) {n : ℕ} (hn : n ≤ 3) (nHeight : ℕ) :
    (earlierHashes c p chain qsnapman n nHeight i).Nodup := by
  induction n generalizing nHeight with
  | zero => exact List.nodup_nil
  | succ n ih =>
    rw [earlierHashes, earlier]
    cases hback : quartersBack c p chain qsnapman nHeight p.dkgInterval with
    | none => exact List.nodup_nil
    | some quarters =>
      obtain ⟨-, snapshot, hsnapshot, rfl⟩ := quartersBack_some hback
      have hdisjoint := newQuarter_disjoint hchain (h _ snapshot hsnapshot).1 hi
      dsimp only
      rw [List.flatMap_cons, List.map_append, h.recovered hchain hsnapshot i]
      refine (newQuarters_spec c p isTestnet _ _ i).nodup.append (ih (Nat.le_of_succ_le hn) _) ?_
      intro hash hnew hold
      obtain ⟨mn, hmn, rfl⟩ := List.mem_map.mp hold
      obtain ⟨quarters, hquarters, hmn⟩ := List.mem_flatMap.mp hmn
      have hmem := (earlier_isPrefix (Nat.le_of_succ_le hn) _).subset hquarters
      exact hdisjoint hnew
        (List.mem_map_of_mem (List.mem_flatMap.mpr ⟨quarters, hmem, hmn⟩))

theorem earlier_members_length (n nHeight i : ℕ) :
    ((earlier c p chain qsnapman n nHeight).flatMap fun quarters => quarters.getD i []).length ≤
      n*p.quarterSize := by
  induction n generalizing nHeight with
  | zero => exact Nat.zero_le _
  | succ n ih =>
    rw [earlier]
    cases hback : quartersBack c p chain qsnapman nHeight p.dkgInterval with
    | none => exact Nat.zero_le _
    | some quarters =>
      obtain ⟨-, snapshot, -, rfl⟩ := quartersBack_some hback
      have hquarter := (quarter_spec (c := c) (p := p) (chain.cycle (nHeight-p.dkgInterval))
        snapshot i).2
      have hrest := ih (nHeight-p.dkgInterval)
      rw [List.flatMap_cons, List.length_append, Nat.succ_mul]
      omega

/-! ### The calls of a node -/

section Calls

variable (c p isTestnet chain)

/-- A call for a cycle that has no snapshot yet, while a later cycle has one, is out of order. -/
structure Careful (qsnapman : CQuorumSnapshotManager) (nHeight : ℕ) : Prop where
  ordered : qsnapman nHeight = none → qsnapman (nHeight+p.dkgInterval) = none
  sound : Sound c p isTestnet (chain.cycle nHeight)
    (getPreviousQuorumQuarterMembers c p chain qsnapman nHeight)

instance (qsnapman : CQuorumSnapshotManager) (nHeight : ℕ) :
    Decidable (Careful c p isTestnet chain qsnapman nHeight) :=
  decidable_of_iff (_ ∧ _) ⟨fun h => ⟨h.1, h.2⟩, fun h => ⟨h.ordered, h.sound⟩⟩

/-- No masternode is twice in a quorum or in its new quarter, and no quorum is too large. -/
structure Distinct (qsnapman : CQuorumSnapshotManager) (nHeight : ℕ) : Prop where
  members : ∀ members ∈
    (computeQuorumMembersByQuarterRotation c p isTestnet chain qsnapman nHeight).1,
    (members.map CDeterministicMN.proTxHash).Nodup ∧ members.length ≤ p.size
  newQuarter : ∀ quarter ∈ (buildNewQuorumQuarterMembers c p isTestnet (chain.cycle nHeight)
      (getPreviousQuorumQuarterMembers c p chain qsnapman nHeight)).1,
    (quarter.map CDeterministicMN.proTxHash).Nodup

end Calls

variable {qsnapman' : CQuorumSnapshotManager}

theorem earlier_update (hnext : qsnapman (nHeight+p.dkgInterval) = none)
    (snapshot : Option CQuorumSnapshot) (n : ℕ) {nHeight' : ℕ}
    (hne : nHeight' ≠ nHeight+p.dkgInterval) :
    earlier c p chain (Function.update qsnapman nHeight snapshot) n nHeight' =
      earlier c p chain qsnapman n nHeight' := by
  induction n generalizing nHeight' with
  | zero => rfl
  | succ n ih =>
    have hback : quartersBack c p chain (Function.update qsnapman nHeight snapshot) nHeight'
        p.dkgInterval = quartersBack c p chain qsnapman nHeight' p.dkgInterval := by
      unfold quartersBack
      split_ifs with hle
      · rw [Function.update_of_ne (by omega)]
      · rfl
    rw [earlier, earlier, hback]
    cases hquarters : quartersBack c p chain qsnapman nHeight' p.dkgInterval with
    | none => rfl
    | some quarters =>
      obtain ⟨-, snapshot', hsnapshot', -⟩ := quartersBack_some hquarters
      refine congrArg (List.cons quarters) (ih fun heq => ?_)
      rw [heq, hnext] at hsnapshot'
      contradiction

theorem Settled.call (h : Settled c p isTestnet chain qsnapman) (hpos : 0 < p.dkgInterval)
    (hcareful : Careful c p isTestnet chain qsnapman nHeight) :
    Settled c p isTestnet chain
      (computeQuorumMembersByQuarterRotation c p isTestnet chain qsnapman nHeight).2 := by
  unfold computeQuorumMembersByQuarterRotation
  split_ifs with hbase
  · exact h
  dsimp only
  cases hbuild : (buildNewQuorumQuarterMembers c p isTestnet (chain.cycle nHeight)
      (getPreviousQuorumQuarterMembers c p chain qsnapman nHeight)).2 with
  | none => exact h
  | some snapshot =>
    dsimp only
    cases hstored : qsnapman nHeight with
    | some snapshot' =>
      -- it is stored as it was
      have hsame := (h nHeight snapshot' hstored).2
      rw [hbuild] at hsame
      rw [hsame, ← hstored, Function.update_eq_self]
      exact h
    | none =>
      have hnext := hcareful.ordered hstored
      have hprevious : ∀ nHeight', nHeight' ≠ nHeight+p.dkgInterval →
          getPreviousQuorumQuarterMembers c p chain
              (Function.update qsnapman nHeight (some snapshot)) nHeight' =
            getPreviousQuorumQuarterMembers c p chain qsnapman nHeight' := by
        intro nHeight' hne
        rw [getPreviousQuorumQuarterMembers_eq, getPreviousQuorumQuarterMembers_eq,
          earlier_update hnext _ 3 hne]
      intro nHeight' snapshot' hsnapshot'
      by_cases hsame : nHeight' = nHeight
      · subst hsame
        rw [Function.update_self] at hsnapshot'
        rw [hprevious nHeight' (by omega)]
        exact ⟨hcareful.sound, hbuild.trans hsnapshot'⟩
      · rw [Function.update_of_ne hsame] at hsnapshot'
        rw [hprevious nHeight' fun heq => by rw [heq, hnext] at hsnapshot'; contradiction]
        exact h nHeight' snapshot' hsnapshot'

theorem Settled.distinct (h : Settled c p isTestnet chain qsnapman) (hchain : chain.Lasting c)
    (hcareful : Careful c p isTestnet chain qsnapman nHeight) :
    Distinct c p isTestnet chain qsnapman nHeight where
  members := by
    unfold computeQuorumMembersByQuarterRotation
    split_ifs with hbase
    · exact fun _ hmem => absurd hmem List.not_mem_nil
    intro members hmembers
    obtain ⟨i, hi, rfl⟩ := List.mem_map.mp hmembers
    have hi := List.mem_range.mp hi
    let previous := getPreviousQuorumQuarterMembers c p chain qsnapman nHeight
    let quarter := (buildNewQuorumQuarterMembers c p isTestnet (chain.cycle nHeight)
      previous).1.getD i []
    have hnew := newQuarters_spec c p isTestnet (chain.cycle nHeight) previous i
    have hperm : (quarter++previous.members i).Perm (previous.quarterHMinus3C.getD i [] ++
        previous.quarterHMinus2C.getD i [] ++ previous.quarterHMinusC.getD i [] ++ quarter) := by
      unfold PreviousQuorumQuarters.members
      refine List.perm_append_comm.trans (List.Perm.append_right quarter ?_)
      rw [List.append_assoc]
      refine List.perm_append_comm.trans ?_
      exact List.Perm.append_right _ List.perm_append_comm
    constructor
    · refine (hperm.map _).nodup_iff.mp ?_
      rw [List.map_append, members_eq]
      exact hnew.nodup.append (h.earlier_nodup hchain hi (Nat.le_refl 3) nHeight)
        (newQuarter_disjoint hchain hcareful.sound hi)
    · have hmembers : ((earlier c p chain qsnapman 3 nHeight).flatMap fun quarters =>
          quarters.getD i []).length ≤ 3*p.quarterSize :=
        earlier_members_length 3 nHeight i
      have hquarter : quarter.length ≤ p.quarterSize := hnew.length
      have hsize : p.quarterSize = p.size/4 := rfl
      rw [← hperm.length_eq, List.length_append, members_eq]
      omega
  newQuarter := by
    intro quarter hquarter
    obtain ⟨i, hi⟩ := List.mem_iff_getElem?.mp hquarter
    have hnew := newQuarters_spec c p isTestnet (chain.cycle nHeight)
      (getPreviousQuorumQuarterMembers c p chain qsnapman nHeight) i
    rw [List.getD_eq_getElem?_getD, hi] at hnew
    exact hnew.nodup

theorem settled_start : Settled c p isTestnet chain fun _ => none :=
  fun _ _ hsnapshot => absurd hsnapshot nofun

/-- Over the calls of a node, a quorum has distinct members, and not too many, as long as the
snapshots of a chain are stored in order and each of them gives back the quarters of its cycle, and
no former member of a quorum that still counts has taken over a property of another one. -/
theorem rotated_members_distinct (hpos : 0 < p.dkgInterval) (hchain : chain.Lasting c)
    {heights : List ℕ}
    (hcareful : EveryStep (computeQuorumMembersByQuarterRotation c p isTestnet chain)
      (Careful c p isTestnet chain) (fun _ => none) heights) :
    EveryStep (computeQuorumMembersByQuarterRotation c p isTestnet chain)
      (Distinct c p isTestnet chain) (fun _ => none) heights :=
  everyStep_of_invariant (Settled c p isTestnet chain)
    (fun _ _ h hcareful => ⟨h.distinct hchain hcareful, h.call hpos hcareful⟩) settled_start hcareful

/-! ### A masternode that changes its operator key -/

section Samples
open BLS

/-- The list of some masternodes does not change. -/
def steadyChain (n : ℕ) : CycleChain Unit where
  isV19Active _ := true
  modifier nHeight := BitVec.ofNat 256 nHeight
  mns _ := sampleList n

theorem steadyChain_lasting (n : ℕ) : (steadyChain n).Lasting sampleHashing where
  inv _ := sampleList_inv n
  same _ mn hmn dmn hdmn := by
    have hmn := ((mem_eligible (sampleList_inv n).key).mp hmn).1
    obtain rfl := Option.some.inj (hdmn.symm.trans hmn)
    exact ⟨rfl, rfl, rfl⟩

/-- With five masternodes, the quarters of two quorums go round the list. -/
theorem rotated_members_distinct_five :
    EveryStep (computeQuorumMembersByQuarterRotation sampleHashing sampleParams false
        (steadyChain 5))
      (Distinct sampleHashing sampleParams false (steadyChain 5)) (fun _ => none)
      [24, 48, 72, 96] :=
  rotated_members_distinct (by decide) (steadyChain_lasting 5) (by decide +kernel)

def twoCodec : KeyCodec Bool where
  serializeToArray _ key := Vector.replicate 48 (if key then 1 else 2)
  fromBytes _ bytes :=
    if bytes = Vector.replicate 48 1 then some true
    else if bytes = Vector.replicate 48 2 then some false
    else none
  fromBytes_serialize _ key := by cases key <;> decide
  serialize_ne_zero _ key := by cases key <;> decide

def twoHashing : Hashing Bool := ⟨twoCodec, digest, fun hash modifier => (hash+modifier).toNat⟩

def keyedMN (i : ℕ) (key : Bool) (nPoSeBanHeight : ℤ) : CDeterministicMN Bool where
  internalId := UInt64.ofNat i
  proTxHash := BitVec.ofNat 256 (i+1)
  collateralOutpoint := ⟨BitVec.ofNat 256 (i+1), 0⟩
  pdmnState :=
    { nPoSeBanHeight
      confirmedHash := 1
      confirmedHashWithProRegTxHash := BitVec.ofNat 256 (i+1)
      keyIDOwner := BitVec.ofNat 160 (i+1)
      pubKeyOperator :=
        CBLSLazyPublicKey.unserialize false (twoCodec.serializeToArray false key) {}
      netInfo := .mn {} }

def listOf (mns : List (CDeterministicMN Bool)) : CDeterministicMNList Bool :=
  mns.foldl (fun list mn => ((list.addMN twoCodec digest mn true).toOption).getD list) {}

theorem listOf_inv {mns : List (CDeterministicMN Bool)}
    (hgiven : ∀ mn ∈ mns, GivenAddresses mn.pdmnState.netInfo) :
    (listOf mns).Inv twoCodec digest :=
  added_inv hgiven (inv_empty 0 (-1) 0)

/-- After the first cycle the masternode 1 gives up its operator key, and is banned until it is
revived with another one. The masternode 2 takes over the key in the meantime. -/
def rekeyedMNs (nHeight : ℕ) : List (CDeterministicMN Bool) :=
  if nHeight ≤ 24 then [keyedMN 0 true (-1)]
  else if nHeight ≤ 48 then [keyedMN 0 false 30, keyedMN 1 true (-1)]
  else [keyedMN 0 false (-1), keyedMN 1 true (-1)]

def rekeyedChain : CycleChain Bool where
  isV19Active _ := true
  modifier _ := 7
  mns nHeight := listOf (rekeyedMNs nHeight)

theorem rekeyedChain_lasting : rekeyedChain.Lasting twoHashing := by
  have hcases : ∀ nHeight, rekeyedMNs nHeight ∈ [rekeyedMNs 24, rekeyedMNs 48, rekeyedMNs 72] := by
    intro nHeight
    by_cases hfirst : nHeight ≤ 24
    · rw [show rekeyedMNs nHeight = rekeyedMNs 24 from if_pos hfirst]
      exact List.mem_cons_self
    · by_cases hsecond : nHeight ≤ 48
      · rw [show rekeyedMNs nHeight = rekeyedMNs 48 from (if_neg hfirst).trans (if_pos hsecond)]
        exact List.mem_cons_of_mem _ List.mem_cons_self
      · rw [show rekeyedMNs nHeight = rekeyedMNs 72 from (if_neg hfirst).trans (if_neg hsecond)]
        exact List.mem_cons_of_mem _ (List.mem_cons_of_mem _ List.mem_cons_self)
  have hsame : ∀ mns ∈ [rekeyedMNs 24, rekeyedMNs 48, rekeyedMNs 72],
      ∀ mns' ∈ [rekeyedMNs 24, rekeyedMNs 48, rekeyedMNs 72], ∀ mn ∈ eligible (listOf mns),
        ∀ dmn ∈ (listOf mns').getMN mn.proTxHash,
          dmn.collateralOutpoint = mn.collateralOutpoint ∧
            dmn.pdmnState.confirmedHash = mn.pdmnState.confirmedHash ∧
            dmn.pdmnState.confirmedHashWithProRegTxHash =
              mn.pdmnState.confirmedHashWithProRegTxHash := by
    decide +kernel
  have hgiven : ∀ mns ∈ [rekeyedMNs 24, rekeyedMNs 48, rekeyedMNs 72], ∀ mn ∈ mns,
      mn.pdmnState.netInfo = .mn {} := by
    decide +kernel
  refine ⟨fun nHeight => listOf_inv fun mn hmn => ?_, fun _ mn hmn dmn hdmn => ?_⟩
  · rw [hgiven _ (hcases nHeight) mn hmn]
    exact ⟨trivial, show 0+4 < 2^32 by norm_num⟩
  · exact hsame _ (hcases _) _ (hcases _) mn hmn dmn hdmn

/-- One quorum of four members. -/
def oneQuorum : RotationParams := ⟨⟨5, true, 24, 1, 4⟩, 4⟩

/-- In the third cycle the older record of the masternode 1 cannot be added next to the masternode
2. It counts as unused, and is chosen again. -/
theorem rotated_member_twice :
    rekeyedChain.Lasting twoHashing ∧
      (outputs (computeQuorumMembersByQuarterRotation twoHashing oneQuorum false rekeyedChain)
          (fun _ => none) [24, 48, 72]).map
        (List.map (List.map CDeterministicMN.proTxHash)) = [[[1]], [[1, 2]], [[1, 2, 1]]] :=
  ⟨rekeyedChain_lasting, by decide +kernel⟩

end Samples

end BabaChain.LLMQ.Utils
