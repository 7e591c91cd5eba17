import BabaChain.QuorumRotation
import BabaChain.Lib.Laps
import Mathlib

/-! The walk that fills new quarters, and the walk that its skip list describes. -/
namespace BabaChain.LLMQ.Utils
open Evo.ByValue Std Loops Laps

variable {G : Type} {c : Hashing G} {combined : List (CDeterministicMN G)}

/-! ### Skip lists -/

/-- Indices as they are kept, after a first skipped one. -/
def relative : ℕ → List ℕ → List ℤ
  | _, [] => []
  | first, e :: entries =>
    if first = 0 then (e : ℤ) :: relative e entries else ((e : ℤ)-first) :: relative first entries

/-- The first skipped index that is not 0. -/
def firstAfter : ℕ → List ℕ → ℕ
  | first, [] => first
  | first, e :: entries => firstAfter (if first = 0 then e else first) entries

theorem relative_append (first : ℕ) (entries entries' : List ℕ) :
    relative first (entries++entries') =
      relative first entries++relative (firstAfter first entries) entries' := by
  induction entries generalizing first with
  | nil => rfl
  | cons e entries ih =>
    rw [List.cons_append, relative, relative, firstAfter]
    split_ifs
    · exact congrArg _ (ih e)
    · exact congrArg _ (ih first)

theorem firstAfter_append (first : ℕ) (entries entries' : List ℕ) :
    firstAfter first (entries++entries') = firstAfter (firstAfter first entries) entries' := by
  induction entries generalizing first with
  | nil => rfl
  | cons e entries ih => exact ih _

theorem processedSkipList_relative (first : ℕ) (entries : List ℕ) :
    processedSkipList first (relative first entries) = entries.map fun e : ℕ => (e : ℤ) := by
  induction entries generalizing first with
  | nil => rfl
  | cons e entries ih =>
    rw [relative]
    split_ifs with hfirst
    · subst hfirst
      exact congrArg (List.cons (e : ℤ)) (ih e)
    · rw [processedSkipList, if_neg (by exact_mod_cast hfirst), add_sub_cancel, ih]
      rfl

/-! ### Walks and their marks -/

theorem nextIdx_val (idx : Fin combined.length) :
    (nextIdx idx : ℕ) = next combined.length idx := by
  have hlt := idx.isLt
  unfold nextIdx next
  dsimp only
  split_ifs with hlast
  · rw [hlast, Nat.mod_self]
  · exact (Nat.mod_eq_of_lt (by omega)).symm

/-- The hashes at some places of the list. -/
def hashesAt (combined : List (CDeterministicMN G)) (places : List ℕ) : List (Option uint256) :=
  places.map fun i => (combined.map CDeterministicMN.proTxHash)[i]?

def hashesOf (quarter : List (CDeterministicMN G)) : List (Option uint256) :=
  quarter.map fun mn => some mn.proTxHash

theorem hashesAt_append (places places' : List ℕ) :
    hashesAt combined (places++places') = hashesAt combined places++hashesAt combined places' :=
  List.map_append

theorem hash_get (idx : Fin combined.length) :
    (combined.map CDeterministicMN.proTxHash)[(idx : ℕ)]? = some (combined.get idx).proTxHash := by
  rw [List.getElem?_map, List.getElem?_eq_getElem idx.isLt]
  rfl

/-- A walk leads from one state to another, with these marks. -/
structure Walks (w : Walk combined) (marks : List Bool) (w' : Walk combined) : Prop where
  idx : (w'.idx : ℕ) = after combined.length w.idx marks
  skipList : w'.skipList =
    w.skipList++relative w.firstSkippedIndex (skipped combined.length w.idx marks)
  first : w'.firstSkippedIndex =
    firstAfter w.firstSkippedIndex (skipped combined.length w.idx marks)

variable {w w' w₂ : Walk combined} {marks marks' : List Bool}

theorem walks_self (w : Walk combined) : Walks w [] w := ⟨rfl, (List.append_nil _).symm, rfl⟩

theorem Walks.take (h : Walks {w with idx := nextIdx w.idx} marks w') :
    Walks w (false :: marks) w' := by
  obtain ⟨hidx, hskip, hfirst⟩ := h
  rw [nextIdx_val] at hidx hskip hfirst
  exact ⟨hidx, hskip, hfirst⟩

theorem Walks.skip (h : Walks {w.skip with idx := nextIdx w.idx} marks w') :
    Walks w (true :: marks) w' := by
  obtain ⟨hidx, hskip, hfirst⟩ := h
  rw [nextIdx_val] at hidx hskip hfirst
  refine ⟨hidx, ?_, ?_⟩
  · rw [hskip, skipped, relative, Walk.skip]
    split_ifs
    · exact List.append_assoc _ _ _
    · exact List.append_assoc _ _ _
  · rw [hfirst, skipped, firstAfter, Walk.skip]
    split_ifs
    · rfl
    · rfl

theorem Walks.append (h : Walks w marks w₂) (h' : Walks w₂ marks' w') :
    Walks w (marks++marks') w' where
  idx := by rw [h'.idx, h.idx, after_append]
  skipList := by
    rw [h'.skipList, h.skipList, h.first, h.idx, skipped_append, relative_append,
      List.append_assoc]
  first := by rw [h'.first, h.first, h.idx, skipped_append, firstAfter_append]

/-! ### One quarter -/

namespace Filling

variable {s s' t : Filling combined} {quarterSize usedMNsCount : ℕ}
  {initial_loop_idx : Fin combined.length}

variable (c) in
/-- Whether the masternode at the index is skipped. -/
def skips (s : Filling combined) : Bool := (withMN c s.used s.mn).isNone

theorem fill_walks (hrun : (fill c quarterSize usedMNsCount initial_loop_idx).run s = some t) :
    Walks s.toWalk ((fill c quarterSize usedMNsCount initial_loop_idx).trace (skips c) s)
        t.toWalk ∧
      hashesOf t.quarter = hashesOf s.quarter++hashesAt combined (taken combined.length s.idx
        ((fill c quarterSize usedMNsCount initial_loop_idx).trace (skips c) s)) := by
  refine Loop.run_rule (P := fun s marks => Walks s.toWalk marks t.toWalk ∧
    hashesOf t.quarter = hashesOf s.quarter++
      hashesAt combined (taken combined.length s.idx marks)) hrun
    (fun _ => ⟨walks_self _, (List.append_nil _).symm⟩) fun s s' marks _ hbody _ ih => ?_
  obtain ⟨hwalks, hquarter⟩ := ih
  rcases turn_cases hbody with ⟨used, updated, hused, rfl⟩ | ⟨updated, hused, rfl, -⟩
  · have hmark : skips c s = false := by rw [skips, hused]; rfl
    rw [hmark]
    refine ⟨hwalks.take, ?_⟩
    rw [hquarter, taken, nextIdx_val, hashesOf, List.map_append, List.append_assoc]
    refine congrArg (_++·) ?_
    exact congrArg (·::_) (hash_get s.idx).symm
  · have hmark : skips c s = true := by rw [skips, hused]; rfl
    rw [hmark]
    refine ⟨hwalks.skip, ?_⟩
    rw [hquarter, nextIdx_val]
    rfl

/-- Where no masternode can be added a loop that has not yet done gives up. -/
theorem fill_stuck (hstuck : ∀ mn ∈ combined, withMN c s.used mn = none)
    (hmore : s.more quarterSize usedMNsCount = true) :
    (fill c quarterSize usedMNsCount initial_loop_idx).run s ≠ some t := by
  intro hrun
  obtain ⟨⟨-, hquarter⟩, hdone⟩ := Loop.run_invariant
    (I := fun s' : Filling combined => s'.used = s.used ∧ s'.quarter = s.quarter) hrun ⟨rfl, rfl⟩
    fun s₁ s₂ hsame _ hbody => by
      rcases turn_cases hbody with ⟨used, updated, hused, rfl⟩ | ⟨updated, -, rfl, -⟩
      · rw [hsame.1, hstuck s₁.mn (List.getElem_mem _)] at hused
        contradiction
      · exact hsame
  have hsame : t.more quarterSize usedMNsCount = s.more quarterSize usedMNsCount := by
    unfold more
    rw [hquarter]
  rw [← hsame] at hmore
  rw [show t.more quarterSize usedMNsCount = false from hdone] at hmore
  contradiction

variable (c) in
/-- The last `k` masternodes before the index cannot be added. -/
def Passed (s : Filling combined) (k : ℕ) : Prop :=
  ∀ i : Fin combined.length, (∃ j, 0 < j ∧ j ≤ k ∧ (i+j)%combined.length = s.idx) →
    withMN c s.used (combined.get i) = none

/-- A whole lap is passed only if no masternode can be added. -/
theorem Passed.all {k : ℕ} (h : Passed c s k) (hk : combined.length ≤ k) :
    ∀ mn ∈ combined, withMN c s.used mn = none := by
  intro mn hmn
  obtain ⟨i, hi, rfl⟩ := List.getElem_of_mem hmn
  have hidx := s.idx.isLt
  rcases Nat.lt_or_ge i s.idx with hlt | hge
  · refine h ⟨i, hi⟩ ⟨s.idx-i, by omega, by omega, ?_⟩
    rw [Nat.add_sub_cancel' hlt.le, Nat.mod_eq_of_lt hidx]
  · refine h ⟨i, hi⟩ ⟨s.idx+combined.length-i, by omega, by omega, ?_⟩
    rw [Nat.add_sub_cancel' (by omega), Nat.add_mod_right, Nat.mod_eq_of_lt hidx]

theorem Passed.skip {k : ℕ} (h : Passed c s k) (hskip : withMN c s.used s.mn = none)
    (hused : s'.used = s.used) (hidx : s'.idx = nextIdx s.idx) : Passed c s' (k+1) := by
  rintro i ⟨j, hpos, hle, hplace⟩
  rw [hused]
  obtain ⟨j, rfl⟩ := Nat.exists_eq_succ_of_ne_zero hpos.ne'
  have hback : (i+j)%combined.length = s.idx := by
    have hmod : (i : ℕ)+j+1 ≡ s.idx+1 [MOD combined.length] := by
      rw [hidx, nextIdx_val] at hplace
      exact hplace
    have hback : ((i : ℕ)+j)%combined.length = (s.idx : ℕ)%combined.length :=
      Nat.ModEq.add_right_cancel' 1 hmod
    rw [hback, Nat.mod_eq_of_lt s.idx.isLt]
  rcases Nat.eq_zero_or_pos j with rfl | hj
  · rw [Nat.add_zero, Nat.mod_eq_of_lt i.isLt] at hback
    obtain rfl : i = s.idx := Fin.ext hback
    exact hskip
  · exact h i ⟨j, hj, Nat.le_of_succ_le_succ hle, hback⟩

theorem passed_zero (s : Filling combined) : Passed c s 0 :=
  fun _ ⟨_, hpos, hle, _⟩ => absurd hpos (Nat.not_lt.mpr hle)

theorem fill_gaps (hrun : (fill c quarterSize usedMNsCount initial_loop_idx).run s = some t) :
    Gaps combined.length 0
      ((fill c quarterSize usedMNsCount initial_loop_idx).trace (skips c) s) := by
  have hrule := Loop.run_rule (f := skips c) (P := fun s marks => ∀ k < combined.length,
    Passed c s k → (0 < k → s.more quarterSize usedMNsCount = true) →
      Gaps combined.length k marks) hrun
    (fun hdone k _ _ hmore => ?_) fun s s' marks hmore hbody hrun ih k hk hpassed _ => ?_
  · exact hrule 0 (Nat.zero_lt_of_lt s.idx.isLt) (passed_zero s)
      fun hpos => absurd hpos (Nat.lt_irrefl 0)
  · by_contra hne
    have hmore := hmore (Nat.pos_of_ne_zero hne)
    rw [show t.more quarterSize usedMNsCount = false from hdone] at hmore
    contradiction
  · rcases turn_cases hbody with ⟨used, updated, hused, hs'⟩ | ⟨updated, hskip, hs', -⟩
    · have hmark : skips c s = false := by rw [skips, hused]; rfl
      rw [hmark]
      exact ih 0 (Nat.zero_lt_of_lt hk) (passed_zero s')
        fun hpos => absurd hpos (Nat.lt_irrefl 0)
    · have hmark : skips c s = true := by rw [skips, hskip]; rfl
      rw [hmark]
      have hused : s'.used = s.used := by rw [hs']
      have hidx : s'.idx = nextIdx s.idx := by rw [hs']
      have hmore' : s'.more quarterSize usedMNsCount = true := by
        rw [hs']
        exact hmore
      have hpassed' := hpassed.skip hskip hused hidx
      have hlap : k+1 < combined.length := by
        by_contra hlap
        exact fill_stuck (hpassed'.all (Nat.le_of_not_lt hlap)) hmore' hrun
      exact ⟨hlap, ih (k+1) hlap hpassed' fun _ => hmore'⟩

/-- A quarter is full exactly if there is room for it. -/
theorem fill_length {used : CDeterministicMNList G}
    (hrun : (fill c quarterSize usedMNsCount initial_loop_idx).run {w with used} = some t) :
    t.quarter.length = quarterSize ↔
      quarterSize = 0 ∨ usedMNsCount+quarterSize ≤ combined.length := by
  obtain ⟨⟨hle, hroom⟩, hdone⟩ := Loop.run_invariant
    (I := fun s : Filling combined => s.quarter.length ≤ quarterSize ∧
      (0 < s.quarter.length → usedMNsCount+s.quarter.length ≤ combined.length)) hrun
    ⟨Nat.zero_le _, fun hpos => absurd hpos (Nat.lt_irrefl 0)⟩ fun s s' hs hmore hbody => by
      obtain ⟨hshort, hfree⟩ := of_decide_eq_true hmore
      rcases turn_cases hbody with ⟨used, updated, -, rfl⟩ | ⟨updated, -, rfl, -⟩
      · dsimp only
        rw [List.length_append, List.length_singleton]
        exact ⟨hshort, fun _ => hfree⟩
      · exact hs
  have hend : ¬(t.quarter.length < quarterSize ∧
      usedMNsCount+t.quarter.length < combined.length) := of_decide_eq_false hdone
  rw [not_and_or] at hend
  omega

end Filling

/-! ### All quarters -/

variable (c) in
/-- The marks of the walk that fills the quarters. -/
def walkMarks (quarterSize : ℕ) : List (CDeterministicMNList G) → Walk combined → List Bool
  | [], _ => []
  | used :: mnsUsedAtHIndexed, w =>
    let loop := Filling.fill c quarterSize used.mnMap.size w.idx
    loop.trace (Filling.skips c) {w with used} ++
      match loop.run {w with used} with
      | none => []
      | some s => walkMarks quarterSize mnsUsedAtHIndexed s.toWalk

variable {quarterSize : ℕ} {useds : List (CDeterministicMNList G)} {quarters : Quarters G}

/-- What the walk leaves: a quarter for each quorum. -/
structure Filled (c : Hashing G) (quarterSize : ℕ) (useds : List (CDeterministicMNList G))
    (w : Walk combined) (quarters : Quarters G) (w' : Walk combined) : Prop where
  walks : Walks w (walkMarks c quarterSize useds w) w'
  members : hashesOf quarters.flatten =
    hashesAt combined (taken combined.length w.idx (walkMarks c quarterSize useds w))
  gaps : Gaps combined.length 0 (walkMarks c quarterSize useds w)
  full : List.Forall₂ (fun used quarter => quarter.length = quarterSize ↔
    quarterSize = 0 ∨ used.mnMap.size+quarterSize ≤ combined.length) useds quarters

theorem fillQuarters_spec (hfill : fillQuarters c quarterSize useds w = some (quarters, w')) :
    Filled c quarterSize useds w quarters w' := by
  induction useds generalizing w quarters with
  | nil =>
    obtain ⟨rfl, rfl⟩ := Prod.mk.inj (Option.some.inj hfill)
    exact ⟨walks_self w, rfl, rfl, List.Forall₂.nil⟩
  | cons used useds ih =>
    rw [fillQuarters, Option.bind_eq_bind, Option.bind_eq_some_iff] at hfill
    obtain ⟨t, hrun, hfill⟩ := hfill
    rw [Option.bind_eq_bind, Option.bind_eq_some_iff] at hfill
    obtain ⟨⟨rest, w₂⟩, hrest, hfill⟩ := hfill
    obtain ⟨rfl, rfl⟩ := Prod.mk.inj (Option.some.inj hfill)
    have hspec := ih hrest
    obtain ⟨hwalks, hquarter⟩ := Filling.fill_walks hrun
    have hgaps := Filling.fill_gaps hrun
    have hmarks : walkMarks c quarterSize (used :: useds) w =
        (Filling.fill c quarterSize used.mnMap.size w.idx).trace (Filling.skips c) {w with used} ++
          walkMarks c quarterSize useds t.toWalk := by
      rw [walkMarks, hrun]
    refine ⟨?_, ?_, ?_, List.Forall₂.cons (Filling.fill_length hrun) hspec.full⟩
    · rw [hmarks]
      exact hwalks.append hspec.walks
    · rw [hmarks, taken_append, hashesAt_append, ← hwalks.idx, ← hspec.members, List.flatten_cons,
        hashesOf, List.map_append]
      exact congrArg (·++_) hquarter
    · rw [hmarks]
      exact hgaps.append hspec.gaps

/-! ### The walk of a skip list -/

/-- Members by index are members by place. -/
structure Replays (r : List (CDeterministicMN G) × Fin combined.length × List ℤ)
    (places : List ℕ × ℕ × List ℕ) : Prop where
  members : hashesOf r.1 = hashesAt combined places.1
  idx : (r.2.1 : ℕ) = places.2.1
  left : r.2.2 = places.2.2.map fun e : ℕ => (e : ℤ)

theorem Replays.push {idx : Fin combined.length}
    {r : List (CDeterministicMN G) × Fin combined.length × List ℤ} {places : List ℕ × ℕ × List ℕ}
    (h : Replays r places) :
    Replays (combined.get idx :: r.1, r.2) ((idx : ℕ) :: places.1, places.2) where
  members := by
    change some (combined.get idx).proTxHash :: hashesOf r.1 = _ :: hashesAt combined places.1
    rw [h.members, ← hash_get]
  idx := h.idx
  left := h.left

theorem fillBySkipList_replays (idx : Fin combined.length) (entries : List ℕ) (n : ℕ) :
    Replays (fillBySkipList (idx, entries.map fun e : ℕ => (e : ℤ)) n)
      (replay combined.length ((idx : ℕ), entries) n) := by
  induction n generalizing idx entries with
  | zero =>
    rw [fillBySkipList, replay]
    exact ⟨rfl, rfl, rfl⟩
  | succ n ih =>
    induction entries generalizing idx with
    | nil =>
      have hrest := ih (nextIdx idx) []
      rw [nextIdx_val] at hrest
      rw [List.map_nil, fillBySkipList, replay]
      exact hrest.push
    | cons e entries ihEntries =>
      rw [List.map_cons, fillBySkipList, replay]
      by_cases heq : (idx : ℕ) = e
      · have hrest := ihEntries (nextIdx idx)
        rw [nextIdx_val] at hrest
        rw [if_pos (by exact_mod_cast heq), if_pos heq]
        exact hrest
      · have hrest := ih (nextIdx idx) (e :: entries)
        rw [nextIdx_val] at hrest
        rw [if_neg (by exact_mod_cast heq), if_neg heq]
        exact hrest.push

theorem fillBySkipList_length (s : Fin combined.length × List ℤ) (n : ℕ) :
    (fillBySkipList s n).1.length = n := by
  fun_induction fillBySkipList s n with
  | case1 => rfl
  | case2 idx n quarter s hrest ih => rw [List.length_cons, ← ih, hrest]
  | case3 => assumption
  | case4 idx itsk rest n hne quarter s hrest ih => rw [List.length_cons, ← ih, hrest]

theorem fillAllBySkipList_members (quarterSize numQuorums : ℕ) (idx : Fin combined.length)
    (entries : List ℕ) :
    hashesOf (fillAllBySkipList quarterSize numQuorums
        (idx, entries.map fun e : ℕ => (e : ℤ))).flatten =
      hashesAt combined
        (replay combined.length ((idx : ℕ), entries) (numQuorums*quarterSize)).1 := by
  induction numQuorums generalizing idx entries with
  | zero =>
    rw [Nat.zero_mul, replay]
    rfl
  | succ numQuorums ih =>
    have hone := fillBySkipList_replays idx entries quarterSize
    rcases hfill : fillBySkipList (idx, entries.map fun e : ℕ => (e : ℤ)) quarterSize with
      ⟨quarter, idx', itsk⟩
    rw [hfill] at hone
    obtain ⟨hmembers, hidx, hleft⟩ := hone
    dsimp only at hmembers hidx hleft
    have hrest := ih idx' (replay combined.length ((idx : ℕ), entries) quarterSize).2.2
    rw [← hleft, hidx] at hrest
    rw [fillAllBySkipList, hfill, Nat.succ_mul, Nat.add_comm, replay_add, hashesAt_append,
      ← hmembers, ← hrest, List.flatten_cons, hashesOf, List.map_append]
    rfl

theorem fillAllBySkipList_lengths (quarterSize numQuorums : ℕ) (s : Fin combined.length × List ℤ) :
    (fillAllBySkipList quarterSize numQuorums s).map List.length =
      List.replicate numQuorums quarterSize := by
  induction numQuorums generalizing s with
  | zero => rfl
  | succ numQuorums ih =>
    rw [fillAllBySkipList, List.map_cons, fillBySkipList_length, ih, List.replicate_succ]

/-! ### Both walks -/

theorem hashesAt_injective (hnodup : (combined.map CDeterministicMN.proTxHash).Nodup)
    {places places' : List ℕ} (hplaces : ∀ i ∈ places, i < combined.length)
    (hplaces' : ∀ i ∈ places', i < combined.length)
    (h : hashesAt combined places = hashesAt combined places') : places = places' := by
  induction places generalizing places' with
  | nil => exact (List.map_eq_nil_iff.mp h.symm).symm
  | cons i places ih =>
    cases places' with
    | nil => exact absurd h (List.cons_ne_nil _ _)
    | cons j places' =>
      rw [List.forall_mem_cons] at hplaces hplaces'
      obtain ⟨hhash, hrest⟩ := List.cons.inj h
      have hlength : i < (combined.map CDeterministicMN.proTxHash).length := by
        rw [List.length_map]
        exact hplaces.1
      rw [(List.getElem?_inj hlength hnodup).mp hhash, ih hplaces.2 hplaces'.2 hrest]

theorem map_hashes_eq_iff {quarters quarters' : Quarters G} :
    quarters.map (List.map CDeterministicMN.proTxHash) =
        quarters'.map (List.map CDeterministicMN.proTxHash) ↔
      hashesOf quarters.flatten = hashesOf quarters'.flatten ∧
        quarters.map List.length = quarters'.map List.length := by
  have hsome : ∀ quarter : List (CDeterministicMN G),
      hashesOf quarter = (quarter.map CDeterministicMN.proTxHash).map some :=
    fun quarter => List.map_map.symm
  have hlengths : ∀ quarters : Quarters G,
      (quarters.map (List.map CDeterministicMN.proTxHash)).map List.length =
        quarters.map List.length := by
    intro quarters
    rw [List.map_map]
    exact List.map_congr_left fun quarter _ => List.length_map _
  rw [List.eq_iff_flatten_eq, hlengths, hlengths, ← List.map_flatten, ← List.map_flatten, hsome,
    hsome, (List.map_injective_iff.mpr (Option.some_injective uint256)).eq_iff]

theorem flatten_of_lengths_zero {quarters : Quarters G} {n : ℕ}
    (h : quarters.map List.length = List.replicate n 0) : quarters.flatten = [] := by
  refine List.eq_nil_of_length_eq_zero ?_
  rw [List.length_flatten, h, List.sum_replicate, smul_zero]

/-- All quarters are full exactly if there is room for each. -/
theorem Filled.lengths (h : Filled c quarterSize useds w quarters w') :
    quarters.map List.length = List.replicate useds.length quarterSize ↔
      ∀ used ∈ useds, quarterSize = 0 ∨ used.mnMap.size+quarterSize ≤ combined.length := by
  have hfull := h.full
  clear h
  induction hfull with
  | nil => exact iff_of_true rfl fun used hused => absurd hused List.not_mem_nil
  | cons hone _ ih =>
    rw [List.map_cons, List.length_cons, List.replicate_succ, List.cons.injEq,
      List.forall_mem_cons]
    exact and_congr hone ih

/-- The walk that a skip list describes fills the same quarters if and only if they are full and the
list tells the walk. -/
theorem fillAllBySkipList_eq_iff {combined' : List (CDeterministicMN G)}
    (hsame : combined'.map CDeterministicMN.proTxHash = combined.map CDeterministicMN.proTxHash)
    (hnodup : (combined.map CDeterministicMN.proTxHash).Nodup)
    {start : Fin combined.length} {start' : Fin combined'.length} (hstart : (start' : ℕ) = start)
    (hfill : fillQuarters c quarterSize useds ⟨start, [], 0⟩ = some (quarters, w')) :
    (fillAllBySkipList quarterSize useds.length
          (start', processedSkipList 0 w'.skipList)).map (List.map CDeterministicMN.proTxHash) =
        quarters.map (List.map CDeterministicMN.proTxHash) ↔
      quarterSize = 0 ∨ (∀ used ∈ useds, used.mnMap.size+quarterSize ≤ combined.length) ∧
        Told combined.length 0 (walkMarks c quarterSize useds ⟨start, [], 0⟩) := by
  have hspec := fillQuarters_spec hfill
  have hlength : combined'.length = combined.length := by
    rw [← List.length_map (f := CDeterministicMN.proTxHash), hsame, List.length_map]
  let marks := walkMarks c quarterSize useds (⟨start, [], 0⟩ : Walk combined)
  have hentries : processedSkipList 0 w'.skipList =
      (skipped combined.length start marks).map fun e : ℕ => (e : ℤ) := by
    rw [hspec.walks.skipList]
    exact processedSkipList_relative 0 _
  have hat : ∀ places, hashesAt combined' places = hashesAt combined places := by
    intro places
    unfold hashesAt
    rw [hsame]
  rw [map_hashes_eq_iff, hentries, fillAllBySkipList_members, fillAllBySkipList_lengths, hat,
    hspec.members, hstart, hlength, eq_comm (a := List.replicate _ _), hspec.lengths]
  change hashesAt combined (replay combined.length ((start : ℕ), _) _).1 =
    hashesAt combined (taken combined.length start marks) ∧ _ ↔ _
  rcases Nat.eq_zero_or_pos quarterSize with rfl | hpos
  · refine iff_of_true ⟨?_, fun _ _ => Or.inl rfl⟩ (Or.inl rfl)
    have hnone := flatten_of_lengths_zero (hspec.lengths.mpr fun _ _ => Or.inl rfl)
    have hmembers := hspec.members
    rw [hnone] at hmembers
    rw [Nat.mul_zero, replay]
    exact hmembers
  · have hne : quarterSize ≠ 0 := hpos.ne'
    simp only [hne, false_or]
    have hcount : (∀ used ∈ useds, used.mnMap.size+quarterSize ≤ combined.length) →
        useds.length*quarterSize = marks.count false := by
      intro hroom
      have hlengths := hspec.lengths.mpr fun used hused => Or.inr (hroom used hused)
      have hsum := congrArg List.length hspec.members
      unfold hashesOf hashesAt at hsum
      rw [List.length_map, List.length_map, List.length_flatten, hlengths, List.sum_replicate,
        smul_eq_mul, length_taken] at hsum
      exact hsum
    constructor
    · rintro ⟨hmembers, hroom⟩
      refine ⟨hroom, ?_⟩
      rw [hcount hroom] at hmembers
      exact (replay_skipped_iff hspec.gaps start.isLt).mp (hashesAt_injective hnodup
        (replay_lt _ _ start.isLt) (taken_lt start.isLt) hmembers)
    · rintro ⟨hroom, htold⟩
      refine ⟨?_, hroom⟩
      rw [hcount hroom, (replay_skipped_iff hspec.gaps start.isLt).mpr htold]

end BabaChain.LLMQ.Utils
