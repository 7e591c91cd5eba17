import BabaChain.GovernanceVotes

/-! Votes that come before their objects: which of them are there when the objects arrive. -/
namespace BabaChain.Governance
open Runs

/-! ### The order of the votes -/

/-- The comparison holds only of a smaller outpoint, and goes on only where the two are equal. -/
theorem CGovernanceVote.less_eq_false (vote1 vote2 : CGovernanceVote) :
    vote1.less vote2 = false := by
  unfold CGovernanceVote.less
  by_cases heq : vote1.masternodeOutpoint = vote2.masternodeOutpoint
  · have hcompare : compare vote1.masternodeOutpoint vote2.masternodeOutpoint = .eq := by
      rw [heq]
      exact Std.ReflCmp.compare_self
    rw [hcompare]
    rfl
  · have hne : (vote1.masternodeOutpoint == vote2.masternodeOutpoint) = false :=
      beq_eq_false_iff_ne.mpr heq
    simp only [hne, Bool.false_and, Bool.and_false]

theorem OrphanVotes.equivalent_eq_true (a b : vote_time_pair_t) : equivalent a b = true := by
  rw [equivalent, CGovernanceVote.less_eq_false, CGovernanceVote.less_eq_false]
  rfl

/-- No two votes are told apart: the equivalence is that of `operator==` for equal votes only. -/
theorem equivalent_iff_content (a b : vote_time_pair_t) :
    (OrphanVotes.equivalent a b = true ↔ a.1.content = b.1.content) ↔
      a.1.content = b.1.content := by
  rw [OrphanVotes.equivalent_eq_true, iff_true_left rfl]

theorem less_isStrictWeakOrder :
    IsStrictWeakOrder CGovernanceVote fun vote1 vote2 => vote1.less vote2 = true where
  irrefl vote := by simp [CGovernanceVote.less_eq_false]
  trans vote1 vote2 vote3 h := by simp [CGovernanceVote.less_eq_false] at h
  incomp_trans vote1 vote2 vote3 _ _ := by simp [CGovernanceVote.less_eq_false]

namespace OrphanVotes
variable {cmmap : OrphanVotes} {l : List (uint256 × vote_time_pair_t)} {key : uint256}
  {value : vote_time_pair_t}

/-! ### Runs -/

inductive Op
  | insert (key : uint256) (value : vote_time_pair_t)
  | erase (key : uint256) (value : vote_time_pair_t)

def perform (cmmap : OrphanVotes) : Op → OrphanVotes
  | .insert key value => (cmmap.insert key value).2
  | .erase key value => cmmap.erase key value

/-- The pairs that were inserted and not erased. -/
def kept (l : List (uint256 × vote_time_pair_t)) : Op → List (uint256 × vote_time_pair_t)
  | .insert key value => if (key, value) ∈ l then l else (key, value) :: l
  | .erase key value => l.filter fun item => item ≠ (key, value)

/-- An operation on the votes, beside the pairs that are to be there. -/
def step (s : OrphanVotes × List (uint256 × vote_time_pair_t)) (op : Op) :
    Unit × OrphanVotes × List (uint256 × vote_time_pair_t) :=
  ((), s.1.perform op, kept s.2 op)

/-- An insertion is made below the capacity. -/
def HasRoom (s : OrphanVotes × List (uint256 × vote_time_pair_t)) : Op → Prop
  | .insert _ _ => s.2.length < s.1.nMaxSize
  | .erase _ _ => True

/-- No other pair is there for the object. -/
def Alone (s : OrphanVotes × List (uint256 × vote_time_pair_t)) : Op → Prop
  | .insert key value => ∀ item ∈ s.2, item.1 = key → item.2 = value
  | .erase key value => ∀ item ∈ s.2, item.1 = key → item.2 = value

/-- The pairs of every object are found, and each of them is processed when the object arrives. -/
structure Apart (G : Type) (s : OrphanVotes × List (uint256 × vote_time_pair_t)) : Prop where
  getAll : ∀ key value, value ∈ s.1.getAll key ↔ (key, value) ∈ s.2
  processed : ∀ (env : VoteChecks G) (clock : Clock) (man : CGovernanceManager),
    man.cmmapOrphanVotes = s.1 → ∀ govobj nHash pairVote, (nHash, pairVote) ∈ s.2 →
      ∃ past rest : List vote_time_pair_t,
        (man.checkOrphanVotes env clock nHash govobj).mapObjects[nHash]? =
          some (rest.foldl (CGovernanceManager.checkOrphanVote env clock nHash)
            (CGovernanceManager.checkOrphanVote env clock nHash
              (past.foldl (CGovernanceManager.checkOrphanVote env clock nHash) (govobj, s.1))
              pairVote)).1

/-- The votes are the pairs, at most one for each object. -/
structure Single (s : OrphanVotes × List (uint256 × vote_time_pair_t)) : Prop where
  listItems : s.1.listItems = s.2
  single : ∀ a ∈ s.2, ∀ b ∈ s.2, a.1 = b.1 → a = b

variable {s : OrphanVotes × List (uint256 × vote_time_pair_t)}

theorem holds_eq (key : uint256) (value : vote_time_pair_t)
    (item : uint256 × vote_time_pair_t) : holds key value item = (item.1 == key) := by
  rw [holds, equivalent_eq_true, Bool.and_true]

theorem mem_getAll : value ∈ cmmap.getAll key ↔ (key, value) ∈ cmmap.listItems := by
  rw [getAll, List.mem_map]
  constructor
  · intro h
    obtain ⟨item, hitem, hvalue⟩ := h
    obtain ⟨hmem, hkey⟩ := List.mem_filter.mp hitem
    rwa [← hvalue, ← eq_of_beq hkey]
  · intro h
    exact ⟨(key, value), List.mem_filter.mpr ⟨h, beq_self_eq_true key⟩, rfl⟩

theorem Single.apart {G : Type} (h : Single s) : Apart G s := by
  refine ⟨fun key value => by rw [mem_getAll, h.listItems], ?_⟩
  intro env clock man hman govobj nHash pairVote hmem
  have hfound : pairVote ∈ s.1.getAll nHash := by rwa [mem_getAll, h.listItems]
  obtain ⟨past, rest, hsplit⟩ := List.append_of_mem hfound
  refine ⟨past, rest, ?_⟩
  unfold CGovernanceManager.checkOrphanVotes
  rw [hman, hsplit, List.foldl_append, List.foldl_cons]
  exact Std.ExtTreeMap.getElem?_insert_self

theorem Single.keep (h : Single s) (op : Op) (hroom : HasRoom s op) (halone : Alone s op) :
    Single (step s op).2 := by
  cases op with
  | insert key value =>
    unfold step perform OrphanVotes.insert kept
    dsimp only
    by_cases hmem : (key, value) ∈ s.2
    · have hany : (s.1.listItems.any (holds key value)) = true := by
        rw [h.listItems, List.any_eq_true]
        exact ⟨_, hmem, by rw [holds_eq, beq_self_eq_true]⟩
      rw [if_pos hany, if_pos hmem]
      exact h
    · have hother : ∀ item ∈ s.2, item.1 ≠ key := by
        intro item hitem hkey
        apply hmem
        rw [← halone item hitem hkey, ← hkey]
        exact hitem
      have hany : ¬(s.1.listItems.any (holds key value)) = true := by
        rw [h.listItems, List.any_eq_true]
        intro hex
        obtain ⟨item, hitem, hholds⟩ := hex
        rw [holds_eq] at hholds
        exact hother item hitem (eq_of_beq hholds)
      have hlt : s.1.listItems.length ≠ s.1.nMaxSize := by
        rw [h.listItems]
        exact Nat.ne_of_lt hroom
      rw [if_neg hany, if_neg hmem]
      refine ⟨?_, ?_⟩
      · dsimp only
        rw [CacheMap.pruneLast, if_neg hlt, h.listItems]
      · intro a ha b hb hkey
        rcases List.mem_cons.mp ha with rfl | ha
        · rcases List.mem_cons.mp hb with rfl | hb
          · rfl
          · exact absurd hkey.symm (hother b hb)
        · rcases List.mem_cons.mp hb with rfl | hb
          · exact absurd hkey (hother a ha)
          · exact h.single a ha b hb hkey
  | erase key value =>
    constructor
    · unfold step perform erase kept
      dsimp only
      rw [h.listItems]
      refine List.filter_congr fun item hitem => ?_
      rw [holds_eq]
      by_cases hkey : item.1 = key
      · have hitem' : item = (key, value) := Prod.ext hkey (halone item hitem hkey)
        simp [hitem']
      · have hitem' : item ≠ (key, value) := fun heq => hkey (congrArg Prod.fst heq)
        simp [hkey, hitem']
    · intro a ha b hb
      exact h.single a (List.mem_of_mem_filter ha) b (List.mem_of_mem_filter hb)

/-- A pair for an object that has another one is not kept apart from it. -/
theorem Single.not_apart {G : Type} (h : Single s) (op : Op) (halone : ¬Alone s op) :
    ¬Apart G (step s op).2 := by
  intro hapart
  apply halone
  cases op with
  | insert key value =>
    intro item hitem hkey
    by_contra hvalue
    have hnew : (key, value) ∉ s.2 := by
      intro hmem
      have heq := h.single item hitem _ hmem hkey
      exact hvalue (congrArg Prod.snd heq)
    have hany : (s.1.listItems.any (holds key value)) = true := by
      rw [h.listItems, List.any_eq_true]
      exact ⟨item, hitem, by rw [holds_eq, hkey, beq_self_eq_true]⟩
    have hfound := hapart.getAll key value
    unfold step perform OrphanVotes.insert kept at hfound
    dsimp only at hfound
    rw [if_pos hany, if_neg hnew, mem_getAll, h.listItems] at hfound
    exact hnew (hfound.mpr List.mem_cons_self)
  | erase key value =>
    intro item hitem hkey
    by_contra hvalue
    have hne : item ≠ (key, value) := fun heq => hvalue (congrArg Prod.snd heq)
    have hkept : (key, item.2) ∈ kept s.2 (.erase key value) := by
      rw [← hkey] at hne ⊢
      exact List.mem_filter.mpr ⟨hitem, decide_eq_true hne⟩
    have hfound := (hapart.getAll key item.2).mpr hkept
    have herased : (key, item.2) ∈ (s.1.erase key value).listItems := mem_getAll.mp hfound
    have hholds := (List.mem_filter.mp herased).2
    rw [holds_eq, beq_self_eq_true] at hholds
    contradiction

/-- No two votes are told apart. So through any run below the capacity, the pairs are all found
and processed when their objects arrive exactly where no pair is inserted or erased beside another
one for its object. -/
theorem orphan_votes_apart_iff {G : Type} {nMaxSize : ℕ} {ops : List Op}
    (hroom : EveryStep step HasRoom (⟨nMaxSize, []⟩, []) ops) :
    (IsStrictWeakOrder CGovernanceVote fun vote1 vote2 => vote1.less vote2 = true) ∧
      (∀ a b, (equivalent a b = true ↔ a.1.content = b.1.content) ↔ a.1.content = b.1.content) ∧
      ((∀ past, past <+: ops → Apart G (final step (⟨nMaxSize, []⟩, []) past)) ↔
        EveryStep step Alone (⟨nMaxSize, []⟩, []) ops) := by
  refine ⟨less_isStrictWeakOrder, equivalent_iff_content, ?_⟩
  apply forall_prefix_iff_of Single (Apart G) (fun s h => h.apart) _ _ _ hroom
  · exact fun s op h hroom halone => h.keep op hroom halone
  · exact fun s op h _ halone => h.not_apart op halone
  · exact ⟨rfl, fun a ha => absurd ha List.not_mem_nil⟩

/-- A vote of one masternode, at some time. -/
def voteAt (nTime : Int64) : CGovernanceVote :=
  ⟨⟨1, 0⟩, 7, VOTE_OUTCOME_YES, VOTE_SIGNAL_FUNDING, nTime, []⟩

theorem orphan_votes_apart_two :
    Apart Unit (final step (⟨2, []⟩, [])
      [.insert 7 (voteAt 1, 600), .insert 8 (voteAt 2, 600)]) := by
  have hroom : EveryStep step HasRoom (⟨2, []⟩, [])
      [.insert 7 (voteAt 1, 600), .insert 8 (voteAt 2, 600)] := by
    simp [EveryStep, HasRoom, step, kept, perform, OrphanVotes.insert]
  refine ((orphan_votes_apart_iff hroom).2.2.mpr ?_) _ (List.prefix_refl _)
  simp [EveryStep, Alone, step, kept]

/-- The second vote for an object is taken for the first. -/
theorem orphan_vote_lost :
    ¬∀ ops : List Op, EveryStep step HasRoom (⟨2, []⟩, []) ops →
      ∀ past, past <+: ops → Apart Unit (final step (⟨2, []⟩, []) past) := by
  intro hall
  have hroom : EveryStep step HasRoom (⟨2, []⟩, [])
      [.insert 7 (voteAt 1, 600), .insert 7 (voteAt 2, 600)] := by
    simp [EveryStep, HasRoom, step, kept, perform, OrphanVotes.insert]
  have hapart := hall _ hroom _ (List.prefix_refl _)
  have hfound := (hapart.getAll 7 (voteAt 2, 600)).mpr (by decide)
  exact absurd hfound (by decide)

end OrphanVotes
end BabaChain.Governance
