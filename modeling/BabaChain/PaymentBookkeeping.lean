import BabaChain.ListSuccession
import Mathlib

/-! What a block does to the payments of the masternodes, one loop at a time. -/
namespace BabaChain.Evo.ByValue
open BLS OrdMap OwnedCounts Guards
open Std (ExtTreeMap)

variable {G : Type*} [DecidableEq G] {codec : KeyCodec G} {sha256d : List UInt8 → uint256}
  {env : Environment G}

namespace CDeterministicMNList
variable {pindexPrev : CBlockIndex} {txs : List (CTransaction G)} {L N N' N'' : CDeterministicMNList G}
  {dmn : CDeterministicMN G}

section Loops

omit [DecidableEq G] in
theorem properties_of_alike {newState : CDeterministicMNState G} (halike : Alike dmn.pdmnState newState) :
    CDeterministicMN.uniqueProperties {dmn with pdmnState := newState} = dmn.uniqueProperties := by
  rw [CDeterministicMN.uniqueProperties, CDeterministicMN.uniqueProperties]
  dsimp only
  rw [halike.netInfo, halike.keyIDOwner, halike.pubKeyOperator, halike.platformNodeID]

/-- An update that leaves keys and addresses alone goes through. -/
theorem updateMN_of_alike (hinv : N.Inv codec sha256d) (hmn : N.mnMap[dmn.proTxHash]? = some dmn)
    {newState : CDeterministicMNState G} (halike : Alike dmn.pdmnState newState) :
    ∃ N', N.updateMN codec sha256d dmn newState = .ok N' ∧ N'.Inv codec sha256d ∧
      N' = {N with
        mnMap := N.mnMap.insert dmn.proTxHash {dmn with pdmnState := newState}
        mnUniquePropertyMap := N'.mnUniquePropertyMap} := by
  have hsame := properties_of_alike halike
  have hadmits : N.Admits codec sha256d {dmn with pdmnState := newState} := by
    refine ⟨?_, fun h hh k hk hheld => hh ?_⟩
    · rw [hsame]
      exact (hinv.registered _ dmn hmn).present
    · rw [CDeterministicMN.hashes, hsame] at hk
      have hown : k ∈ N.held codec sha256d dmn.proTxHash := by
        rw [held_of_some hmn]
        exact hk
      exact hinv.properties.owner_unique hheld hown
  rcases updateMN_spec hinv hmn (follows_of_alike hinv hmn halike) with
    ⟨-, N', hok, heq, hinv'⟩ | ⟨hnot, -⟩
  · exact ⟨N', hok, hinv', heq⟩
  · exact absurd hadmits hnot

variable (codec sha256d) in
/-- The second list has the masternodes of the first one, each changed. -/
structure Changed (g : CDeterministicMN G → CDeterministicMN G) (N N' : CDeterministicMNList G) :
    Prop where
  inv : N'.Inv codec sha256d
  nHeight : N'.nHeight = N.nHeight
  mnMap : ∀ h : uint256, N'.mnMap[h]? = N.mnMap[h]?.map g

/-- A loop over masternodes of the list that gives each of them a new state. -/
theorem loop_changed {ε : Type} {f : CDeterministicMNList G → CDeterministicMN G →
      Except ε (CDeterministicMNList G)}
    {next : CDeterministicMN G → CDeterministicMNState G} {dmns : List (CDeterministicMN G)}
    (hinv : N.Inv codec sha256d) (hnodup : (dmns.map CDeterministicMN.proTxHash).Nodup)
    (hmns : ∀ dmn ∈ dmns, N.mnMap[dmn.proTxHash]? = some dmn)
    (halike : ∀ dmn ∈ dmns, Alike dmn.pdmnState (next dmn))
    (hstep : ∀ (N : CDeterministicMNList G) (dmn : CDeterministicMN G),
      N.mnMap[dmn.proTxHash]? = some dmn → f N dmn = .ok N ∧ next dmn = dmn.pdmnState ∨
        ∀ N', N.updateMN codec sha256d dmn (next dmn) = .ok N' → f N dmn = .ok N') :
    ∃ N', dmns.foldlM f N = .ok N' ∧
      Changed codec sha256d (fun d => if d ∈ dmns then {d with pdmnState := next d} else d) N N' := by
  induction dmns generalizing N with
  | nil =>
    refine ⟨N, rfl, hinv, rfl, fun h => ?_⟩
    simp only [List.not_mem_nil, if_false]
    exact Option.map_id'.symm
  | cons dmn dmns ih =>
    obtain ⟨hnot, hnodup'⟩ := List.nodup_cons.mp hnodup
    obtain ⟨hmn, hrest⟩ := List.forall_mem_cons.mp hmns
    obtain ⟨hone, halikes⟩ := List.forall_mem_cons.mp halike
    have hapart : ∀ dmn' ∈ dmns, dmn.proTxHash ≠ dmn'.proTxHash := fun dmn' hmem heq =>
      hnot (heq ▸ List.mem_map_of_mem hmem)
    obtain ⟨N₁, hok, hinv₁, hheight, hget⟩ : ∃ N₁, f N dmn = .ok N₁ ∧ N₁.Inv codec sha256d ∧
        N₁.nHeight = N.nHeight ∧ ∀ h : uint256, N₁.mnMap[h]? =
          if dmn.proTxHash = h then some {dmn with pdmnState := next dmn} else N.mnMap[h]? := by
      rcases hstep N dmn hmn with ⟨hok, hsame⟩ | hok
      · refine ⟨N, hok, hinv, rfl, fun h => ?_⟩
        rw [hsame]
        split_ifs with hh
        · rw [← hh, hmn]
        · rfl
      · obtain ⟨N₁, hupdate, hinv₁, heq⟩ := updateMN_of_alike hinv hmn hone
        refine ⟨N₁, hok N₁ hupdate, hinv₁, by rw [heq], fun h => ?_⟩
        rw [heq]
        exact getElem?_insert _ _ _ _
    have hmns₁ : ∀ dmn' ∈ dmns, N₁.mnMap[dmn'.proTxHash]? = some dmn' := by
      intro dmn' hmem
      rw [hget, if_neg (hapart dmn' hmem)]
      exact hrest dmn' hmem
    obtain ⟨N', hfold, hchanged⟩ := ih hinv₁ hnodup' hmns₁ halikes
    refine ⟨N', ?_, hchanged.inv, hchanged.nHeight.trans hheight, fun h => ?_⟩
    · rw [List.foldlM_cons, hok]
      exact hfold
    · rw [hchanged.mnMap, hget]
      by_cases hh : dmn.proTxHash = h
      · -- the one that is updated here, which does not come again
        have hnotin : ({dmn with pdmnState := next dmn} : CDeterministicMN G) ∉ dmns := fun hmem =>
          hapart _ hmem rfl
        rw [if_pos hh, ← hh, hmn, Option.map_some, Option.map_some, if_neg hnotin,
          if_pos List.mem_cons_self]
      · rw [if_neg hh]
        cases hget' : N.mnMap[h]? with
        | none => rfl
        | some d =>
          have hd : d ≠ dmn := fun heq => hh (heq ▸ hinv.key h d hget')
          simp only [Option.map_some, List.mem_cons, hd, false_or]

end Loops

section Blocks

theorem decreaseScores_changed (hinv : N.Inv codec sha256d) :
    ∃ N', N.decreaseScores codec sha256d = .ok N' ∧ Changed codec sha256d (fun d =>
      if d ∈ N.validMNs.filter fun dmn => 0 < dmn.pdmnState.nPoSePenalty then
        {d with pdmnState := {d.pdmnState with nPoSePenalty := d.pdmnState.nPoSePenalty-1}}
      else d) N N' := by
  have hsub : (N.validMNs.filter fun dmn => 0 < dmn.pdmnState.nPoSePenalty).Sublist N.mns :=
    List.filter_sublist.trans List.filter_sublist
  exact loop_changed hinv ((mns_hashes_nodup hinv).sublist (hsub.map _))
    (fun d hd => (mem_mns hinv).mp (hsub.subset hd))
    (fun d _ => ⟨rfl, rfl, rfl, rfl, rfl, rfl, rfl, rfl, rfl, rfl, rfl⟩)
    (fun M d _ => Or.inr fun M' hok => hok)

end Blocks

end CDeterministicMNList
end BabaChain.Evo.ByValue
