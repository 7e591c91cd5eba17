import BabaChain.Primitives
import Mathlib.Combinatorics.SimpleGraph.Connectivity.Connected
import Mathlib.Data.Nat.Log
import Mathlib.Tactic

/-! Which members of a quorum connect to each other and relay to each other. -/
namespace BabaChain.LLMQ.Utils

/-! ### Who connects -/

/-- `serializeHash` is the hash of three hashes. -/
def deterministicOutboundConnection (serializeHash : uint256 → uint256 → uint256 → uint256)
    (proTxHash1 proTxHash2 : uint256) : uint256 :=
  let h1 :=
    if proTxHash1 < proTxHash2 then serializeHash proTxHash1 proTxHash2 proTxHash1
    else serializeHash proTxHash2 proTxHash1 proTxHash1
  let h2 :=
    if proTxHash1 < proTxHash2 then serializeHash proTxHash1 proTxHash2 proTxHash2
    else serializeHash proTxHash2 proTxHash1 proTxHash2
  if h1 < h2 then proTxHash1 else proTxHash2

/-! ### Relay members -/

/-- The members of a quorum, by their `proTxHash`. Their number fits into an `int`. -/
abbrev Members := List uint256

/-- The member at `idx`, unless it is the one that connects. -/
def emplaceOther (mns : Members) (proTxHash : uint256) (idx : ℕ) (r : Finset uint256) :
    Finset uint256 :=
  match mns[idx]? with
  | none => r
  | some otherDmn => if otherDmn = proTxHash then r else insert otherDmn r

/-- The loop of `calcOutbound`. -/
def outboundLoop (mns : Members) (i : ℕ) (proTxHash : uint256) (gap gap_max k : ℕ)
    (r : Finset uint256) : Finset uint256 :=
  if gap_max/2 ≠ 0 ∨ k ≤ 1 then
    let idx := (i+gap)%mns.length
    outboundLoop mns i proTxHash (gap*2) (gap_max/2) (k+1) (emplaceOther mns proTxHash idx r)
  else
    r
termination_by gap_max+(2-k)
decreasing_by omega

def calcOutbound (mns : Members) (i : ℕ) (proTxHash : uint256) : Finset uint256 :=
  if mns.length = 1 then ∅ else outboundLoop mns i proTxHash 1 (mns.length-1) 0 ∅

def addRelayMember (mns : Members) (forMember : uint256) (onlyOutbound : Bool)
    (result : Finset uint256) (member : uint256 × ℕ) : Finset uint256 :=
  let (dmn, i) := member
  if dmn = forMember then
    result ∪ calcOutbound mns i dmn
  else if onlyOutbound = false then
    if forMember ∈ calcOutbound mns i dmn then insert dmn result else result
  else
    result

def getQuorumRelayMembers (mns : Members) (forMember : uint256) (onlyOutbound : Bool) :
    Finset uint256 :=
  mns.zipIdx.foldl (addRelayMember mns forMember onlyOutbound) ∅

def addConnection (serializeHash : uint256 → uint256 → uint256 → uint256) (forMember : uint256)
    (onlyOutbound : Bool) (result : Finset uint256) (dmn : uint256) : Finset uint256 :=
  if dmn = forMember then
    result
  else if onlyOutbound = false ∨
      deterministicOutboundConnection serializeHash forMember dmn = dmn then
    insert dmn result
  else
    result

def getQuorumConnections (serializeHash : uint256 → uint256 → uint256 → uint256)
    (isAllMembersConnectedEnabled : Bool) (mns : Members) (forMember : uint256)
    (onlyOutbound : Bool) : Finset uint256 :=
  if isAllMembersConnectedEnabled = true then
    mns.foldl (addConnection serializeHash forMember onlyOutbound) ∅
  else
    getQuorumRelayMembers mns forMember onlyOutbound

/-! ### Gaps -/

variable {mns : Members} {i : ℕ} {proTxHash : uint256}

/-- How many turns the loop takes. -/
def turns (gap_max k : ℕ) : ℕ := max (Nat.log 2 gap_max) (2-k)

theorem turns_succ {gap_max k : ℕ} (h : gap_max/2 ≠ 0 ∨ k ≤ 1) :
    turns gap_max k = turns (gap_max/2) (k+1)+1 := by
  unfold turns
  have hlog : Nat.log 2 (gap_max/2) = Nat.log 2 gap_max-1 := Nat.log_div_base 2 gap_max
  have hpos : gap_max/2 ≠ 0 → 0 < Nat.log 2 gap_max := by
    intro hne
    apply Nat.log_pos
    · norm_num
    · omega
  omega

theorem turns_zero {gap_max k : ℕ} (h : ¬(gap_max/2 ≠ 0 ∨ k ≤ 1)) : turns gap_max k = 0 := by
  unfold turns
  have hlog : Nat.log 2 gap_max = 0 := by
    apply Nat.log_of_lt
    omega
  omega

/-- What one turn adds. -/
theorem mem_emplaceOther (idx : ℕ) (r : Finset uint256) (h : uint256) :
    h ∈ emplaceOther mns proTxHash idx r ↔ h ∈ r ∨ (mns[idx]? = some h ∧ h ≠ proTxHash) := by
  unfold emplaceOther
  cases mns[idx]? with
  | none => simp
  | some otherDmn =>
    by_cases hself : otherDmn = proTxHash
    · simp only [hself, if_true, Option.some.injEq]
      constructor
      · exact Or.inl
      · rintro (hmem | ⟨heq, hne⟩)
        · exact hmem
        · exact absurd heq.symm hne
    · simp only [hself, if_false, Finset.mem_insert, Option.some.injEq]
      constructor
      · rintro (heq | hmem)
        · exact Or.inr ⟨heq.symm, heq ▸ hself⟩
        · exact Or.inl hmem
      · rintro (hmem | ⟨heq, -⟩)
        · exact Or.inr hmem
        · exact Or.inl heq.symm

/-- The gap doubles at each turn. -/
theorem mem_outboundLoop (gap gap_max k : ℕ) (r : Finset uint256) (h : uint256) :
    h ∈ outboundLoop mns i proTxHash gap gap_max k r ↔ h ∈ r ∨
      ∃ j < turns gap_max k, mns[(i+gap*2^j)%mns.length]? = some h ∧ h ≠ proTxHash := by
  fun_induction outboundLoop mns i proTxHash gap gap_max k r with
  | case1 gap gap_max k r hturn idx ih =>
    rw [ih, mem_emplaceOther, turns_succ hturn, or_assoc]
    apply or_congr_right
    constructor
    · rintro (hfirst | ⟨j, hj, hlater⟩)
      · refine ⟨0, by omega, ?_⟩
        simpa using hfirst
      · refine ⟨j+1, by omega, ?_⟩
        rwa [pow_succ', ← mul_assoc]
    · rintro ⟨j, hj, hat⟩
      cases j with
      | zero => exact Or.inl (by simpa using hat)
      | succ j =>
        refine Or.inr ⟨j, by omega, ?_⟩
        rwa [pow_succ', ← mul_assoc] at hat
  | case2 gap gap_max k r hend =>
    rw [turns_zero hend]
    simp

/-- The member at index `i` relays to the members `2^j` further round the ring. -/
theorem mem_calcOutbound (hn : mns.length ≠ 1) (h : uint256) :
    h ∈ calcOutbound mns i proTxHash ↔ ∃ j < turns (mns.length-1) 0,
      mns[(i+2^j)%mns.length]? = some h ∧ h ≠ proTxHash := by
  unfold calcOutbound
  rw [if_neg hn, mem_outboundLoop]
  simp

/-- `a` relays to `b` of its own accord. -/
def Outbound (mns : Members) (a b : uint256) : Prop :=
  ∃ i, mns[i]? = some a ∧ b ∈ calcOutbound mns i a

theorem Outbound.length_ne {a b : uint256} (h : Outbound mns a b) : mns.length ≠ 1 := by
  obtain ⟨i, -, hb⟩ := h
  intro hn
  unfold calcOutbound at hb
  rw [if_pos hn] at hb
  simp at hb

theorem Outbound.ne {a b : uint256} (h : Outbound mns a b) : b ≠ a := by
  have hn := h.length_ne
  obtain ⟨i, -, hb⟩ := h
  obtain ⟨j, -, -, hne⟩ := (mem_calcOutbound hn b).mp hb
  exact hne

/-! ### Relays -/

theorem mem_addRelayMember (forMember : uint256) (onlyOutbound : Bool) (result : Finset uint256)
    (member : uint256 × ℕ) (h : uint256) :
    h ∈ addRelayMember mns forMember onlyOutbound result member ↔ h ∈ result ∨
      (member.1 = forMember ∧ h ∈ calcOutbound mns member.2 forMember) ∨
      (onlyOutbound = false ∧ h = member.1 ∧ h ≠ forMember ∧
        forMember ∈ calcOutbound mns member.2 h) := by
  obtain ⟨dmn, i⟩ := member
  unfold addRelayMember
  by_cases hfor : dmn = forMember
  · subst hfor
    simp only [if_true, Finset.mem_union, true_and]
    constructor
    · tauto
    · rintro (hmem | hmem | ⟨-, heq, hne, -⟩)
      · exact Or.inl hmem
      · exact Or.inr hmem
      · exact absurd heq hne
  · cases onlyOutbound with
    | true => simp [hfor]
    | false =>
      simp only [hfor, if_false, if_true, false_and, false_or, true_and]
      by_cases hin : forMember ∈ calcOutbound mns i dmn
      · rw [if_pos hin, Finset.mem_insert]
        constructor
        · rintro (heq | hmem)
          · exact Or.inr ⟨heq, heq ▸ hfor, heq ▸ hin⟩
          · exact Or.inl hmem
        · rintro (hmem | ⟨heq, -, -⟩)
          · exact Or.inr hmem
          · exact Or.inl heq
      · rw [if_neg hin]
        constructor
        · exact Or.inl
        · rintro (hmem | ⟨heq, -, hout⟩)
          · exact hmem
          · exact absurd (heq ▸ hout) hin

theorem mem_foldl_addRelayMember (forMember : uint256) (onlyOutbound : Bool)
    (members : List (uint256 × ℕ)) (result : Finset uint256) (h : uint256) :
    h ∈ members.foldl (addRelayMember mns forMember onlyOutbound) result ↔ h ∈ result ∨
      ∃ member ∈ members,
        (member.1 = forMember ∧ h ∈ calcOutbound mns member.2 forMember) ∨
        (onlyOutbound = false ∧ h = member.1 ∧ h ≠ forMember ∧
          forMember ∈ calcOutbound mns member.2 h) := by
  induction members generalizing result with
  | nil => simp
  | cons member members ih =>
    rw [List.foldl_cons, ih, mem_addRelayMember, or_assoc]
    simp only [List.mem_cons, exists_eq_or_imp]

/-- A member relays to those it connects to, and both ways to those that connect to it. -/
theorem mem_getQuorumRelayMembers (forMember : uint256) (onlyOutbound : Bool) (h : uint256) :
    h ∈ getQuorumRelayMembers mns forMember onlyOutbound ↔
      Outbound mns forMember h ∨ (onlyOutbound = false ∧ Outbound mns h forMember) := by
  unfold getQuorumRelayMembers
  rw [mem_foldl_addRelayMember]
  simp only [Finset.notMem_empty, false_or]
  constructor
  · rintro ⟨⟨dmn, i⟩, hmember, ⟨hfor, hout⟩ | ⟨honly, heq, -, hout⟩⟩
    · have hat := (List.mem_zipIdx_iff_getElem?).mp hmember
      exact Or.inl ⟨i, hfor ▸ hat, hout⟩
    · have hat := (List.mem_zipIdx_iff_getElem?).mp hmember
      exact Or.inr ⟨honly, i, heq ▸ hat, hout⟩
  · rintro (⟨i, hi, hout⟩ | ⟨honly, i, hi, hout⟩)
    · exact ⟨⟨forMember, i⟩, List.mem_zipIdx_iff_getElem?.mpr hi, Or.inl ⟨rfl, hout⟩⟩
    · have hne : h ≠ forMember := (Outbound.ne ⟨i, hi, hout⟩).symm
      exact ⟨⟨h, i⟩, List.mem_zipIdx_iff_getElem?.mpr hi, Or.inr ⟨honly, rfl, hne, hout⟩⟩

theorem relay_symm (a b : uint256) :
    b ∈ getQuorumRelayMembers mns a false ↔ a ∈ getQuorumRelayMembers mns b false := by
  rw [mem_getQuorumRelayMembers, mem_getQuorumRelayMembers]
  simp only [true_and]
  exact or_comm

theorem not_mem_own (a : uint256) (onlyOutbound : Bool) :
    a ∉ getQuorumRelayMembers mns a onlyOutbound := by
  rw [mem_getQuorumRelayMembers]
  rintro (hout | ⟨-, hout⟩)
  · exact hout.ne rfl
  · exact hout.ne rfl

/-- Who relays to whom in a quorum. -/
def relayGraph (mns : Members) : SimpleGraph {proTxHash // proTxHash ∈ mns} where
  Adj a b := b.1 ∈ getQuorumRelayMembers mns a.1 false
  symm := ⟨fun a b h => (relay_symm a.1 b.1).mp h⟩
  loopless := ⟨fun a h => not_mem_own a.1 false h⟩

/-- Each member relays to the next one on the ring. -/
theorem outbound_next (hdistinct : mns.Nodup) (hi : i+1 < mns.length) :
    Outbound mns mns[i] mns[i+1] := by
  have hturns : 0 < turns (mns.length-1) 0 := by
    unfold turns
    omega
  have hat : mns[(i+2^0)%mns.length]? = some mns[i+1] := by
    rw [pow_zero, Nat.mod_eq_of_lt hi]
    exact List.getElem?_eq_getElem hi
  have hne : mns[i+1] ≠ mns[i] := by
    intro heq
    have hidx : i+1 = i := (List.Nodup.getElem_inj_iff hdistinct).mp heq
    omega
  refine ⟨i, List.getElem?_eq_getElem (by omega), ?_⟩
  apply (mem_calcOutbound (by omega) _).mpr
  exact ⟨0, hturns, hat, hne⟩

/-- Round the ring, every member is reached from the first. -/
theorem reachable_from_first (hdistinct : mns.Nodup) (hpos : 0 < mns.length) (i : ℕ)
    (hi : i < mns.length) :
    (relayGraph mns).Reachable ⟨mns[0], List.getElem_mem hpos⟩ ⟨mns[i], List.getElem_mem hi⟩ := by
  induction i with
  | zero => exact SimpleGraph.Reachable.refl _
  | succ i ih =>
    have hnext : Outbound mns mns[i] mns[i+1] := outbound_next hdistinct hi
    have hadj : (relayGraph mns).Adj ⟨mns[i], List.getElem_mem (by omega)⟩
        ⟨mns[i+1], List.getElem_mem hi⟩ :=
      (mem_getQuorumRelayMembers mns[i] false mns[i+1]).mpr (Or.inl hnext)
    exact (ih (by omega)).trans hadj.reachable

theorem relayGraph_connected (hdistinct : mns.Nodup) (hpos : 0 < mns.length) :
    (relayGraph mns).Connected := by
  have hfirst (a : {proTxHash // proTxHash ∈ mns}) :
      (relayGraph mns).Reachable ⟨mns[0], List.getElem_mem hpos⟩ a := by
    obtain ⟨a, ha⟩ := a
    obtain ⟨i, hi, rfl⟩ := List.mem_iff_getElem.mp ha
    exact reachable_from_first hdistinct hpos i hi
  apply SimpleGraph.connected_iff _ |>.mpr
  constructor
  · intro a b
    exact (hfirst a).symm.trans (hfirst b)
  · exact ⟨⟨mns[0], List.getElem_mem hpos⟩⟩

/-! ### Connections of all members -/

variable {serializeHash : uint256 → uint256 → uint256 → uint256}

theorem deterministicOutboundConnection_mem (a b : uint256) :
    deterministicOutboundConnection serializeHash a b = a ∨
      deterministicOutboundConnection serializeHash a b = b := by
  unfold deterministicOutboundConnection
  apply ite_eq_or_eq

theorem lt_or_lt_of_ne {a b : uint256} (hne : a ≠ b) : a < b ∨ b < a := by
  have hnat : a.toNat ≠ b.toNat := fun h => hne (BitVec.eq_of_toNat_eq h)
  rcases lt_or_gt_of_ne hnat with hlt | hlt
  · exact Or.inl (BitVec.lt_def.mpr hlt)
  · exact Or.inr (BitVec.lt_def.mpr hlt)

/-- Two members agree on who is chosen unless their two hashes collide. -/
theorem deterministicOutboundConnection_comm {a b : uint256}
    (hlt : a < b) (hcollision : serializeHash a b a ≠ serializeHash a b b) :
    deterministicOutboundConnection serializeHash a b =
      deterministicOutboundConnection serializeHash b a := by
  have hnot : ¬b < a := BitVec.lt_asymm hlt
  unfold deterministicOutboundConnection
  simp only [hlt, hnot, if_true, if_false]
  rcases lt_or_lt_of_ne hcollision with hless | hmore
  · rw [if_pos hless, if_neg (BitVec.lt_asymm hless)]
  · rw [if_neg (BitVec.lt_asymm hmore), if_pos hmore]

theorem mem_addConnection (forMember : uint256) (onlyOutbound : Bool) (result : Finset uint256)
    (dmn h : uint256) :
    h ∈ addConnection serializeHash forMember onlyOutbound result dmn ↔ h ∈ result ∨
      (h = dmn ∧ h ≠ forMember ∧ (onlyOutbound = false ∨
        deterministicOutboundConnection serializeHash forMember h = h)) := by
  unfold addConnection
  split
  · rename_i hself
    constructor
    · exact Or.inl
    · rintro (hmem | ⟨heq, hne, -⟩)
      · exact hmem
      · exact absurd (heq.trans hself) hne
  · rename_i hself
    split
    · rename_i hchosen
      rw [Finset.mem_insert]
      constructor
      · rintro (rfl | hmem)
        · exact Or.inr ⟨rfl, hself, hchosen⟩
        · exact Or.inl hmem
      · rintro (hmem | ⟨heq, -⟩)
        · exact Or.inr hmem
        · exact Or.inl heq
    · rename_i hchosen
      constructor
      · exact Or.inl
      · rintro (hmem | ⟨rfl, -, hh⟩)
        · exact hmem
        · exact absurd hh hchosen

theorem mem_foldl_addConnection (forMember : uint256) (onlyOutbound : Bool) (members : Members)
    (result : Finset uint256) (h : uint256) :
    h ∈ members.foldl (addConnection serializeHash forMember onlyOutbound) result ↔ h ∈ result ∨
      (h ∈ members ∧ h ≠ forMember ∧ (onlyOutbound = false ∨
        deterministicOutboundConnection serializeHash forMember h = h)) := by
  induction members generalizing result with
  | nil => simp
  | cons dmn members ih =>
    rw [List.foldl_cons, ih, mem_addConnection, List.mem_cons]
    tauto

theorem mem_getQuorumConnections (forMember : uint256) (onlyOutbound : Bool) (h : uint256) :
    h ∈ getQuorumConnections serializeHash true mns forMember onlyOutbound ↔
      h ∈ mns ∧ h ≠ forMember ∧ (onlyOutbound = false ∨
        deterministicOutboundConnection serializeHash forMember h = h) := by
  unfold getQuorumConnections
  rw [if_pos rfl, mem_foldl_addConnection]
  simp

/-- Of two members exactly one connects to the other. -/
theorem one_connects {a b : uint256} (ha : a ∈ mns) (hb : b ∈ mns) (hne : a ≠ b)
    (hagree : deterministicOutboundConnection serializeHash a b =
      deterministicOutboundConnection serializeHash b a) :
    Xor (b ∈ getQuorumConnections serializeHash true mns a true)
      (a ∈ getQuorumConnections serializeHash true mns b true) := by
  have hab : b ∈ getQuorumConnections serializeHash true mns a true ↔
      deterministicOutboundConnection serializeHash a b = b := by
    rw [mem_getQuorumConnections]
    simp [hb, hne.symm]
  have hba : a ∈ getQuorumConnections serializeHash true mns b true ↔
      deterministicOutboundConnection serializeHash a b = a := by
    rw [mem_getQuorumConnections, ← hagree]
    simp [ha, hne]
  rw [hab, hba]
  have hmem : deterministicOutboundConnection serializeHash a b = a ∨
      deterministicOutboundConnection serializeHash a b = b := deterministicOutboundConnection_mem a b
  rcases hmem with h | h
  · exact Or.inr ⟨h, fun hb => hne (h.symm.trans hb)⟩
  · exact Or.inl ⟨h, fun ha => hne (ha.symm.trans h)⟩

theorem quorum_connections (serializeHash : uint256 → uint256 → uint256 → uint256)
    (mns : Members) (hdistinct : mns.Nodup) (htwo : 2 ≤ mns.length)
    (hcollision : ∀ lo ∈ mns, ∀ hi ∈ mns, lo < hi →
      serializeHash lo hi lo ≠ serializeHash lo hi hi) :
    (∀ a onlyOutbound, a ∉ getQuorumRelayMembers mns a onlyOutbound) ∧
    (∀ a b, b ∈ getQuorumRelayMembers mns a false ↔ a ∈ getQuorumRelayMembers mns b false) ∧
    (relayGraph mns).Connected ∧
    (∀ a b, b ∈ getQuorumRelayMembers mns a false ↔
      b ∈ getQuorumRelayMembers mns a true ∨ a ∈ getQuorumRelayMembers mns b true) ∧
    ∀ a ∈ mns, ∀ b ∈ mns, a ≠ b →
      deterministicOutboundConnection serializeHash a b =
        deterministicOutboundConnection serializeHash b a ∧
      (deterministicOutboundConnection serializeHash a b = a ∨
        deterministicOutboundConnection serializeHash a b = b) ∧
      Xor (b ∈ getQuorumConnections serializeHash true mns a true)
        (a ∈ getQuorumConnections serializeHash true mns b true) ∧
      b ∈ getQuorumConnections serializeHash true mns a false := by
  refine ⟨not_mem_own, relay_symm, relayGraph_connected hdistinct (by omega), ?_, ?_⟩
  · intro a b
    rw [mem_getQuorumRelayMembers, mem_getQuorumRelayMembers, mem_getQuorumRelayMembers]
    simp
  · intro a ha b hb hne
    have hagree : deterministicOutboundConnection serializeHash a b =
        deterministicOutboundConnection serializeHash b a := by
      rcases lt_or_lt_of_ne hne with hlt | hlt
      · exact deterministicOutboundConnection_comm hlt (hcollision a ha b hb hlt)
      · exact (deterministicOutboundConnection_comm hlt (hcollision b hb a ha hlt)).symm
    refine ⟨hagree, deterministicOutboundConnection_mem a b, one_connects ha hb hne hagree, ?_⟩
    apply (mem_getQuorumConnections a false b).mpr
    exact ⟨hb, hne.symm, Or.inl rfl⟩

/-- Three members, hashed to the last of the three hashes. -/
theorem quorum_connections_three :
    (relayGraph [5, 9, 2]).Connected ∧
      Xor ((9 : uint256) ∈ getQuorumConnections (fun _ _ c => c) true [5, 9, 2] 5 true)
        ((5 : uint256) ∈ getQuorumConnections (fun _ _ c => c) true [5, 9, 2] 9 true) := by
  have h := quorum_connections (fun _ _ c => c) [5, 9, 2] (by decide) (by decide)
    (fun lo _ hi _ hlt => BitVec.ne_of_lt hlt)
  exact ⟨h.2.2.1, (h.2.2.2.2 5 (by decide) 9 (by decide) (by decide)).2.2.1⟩

end BabaChain.LLMQ.Utils
