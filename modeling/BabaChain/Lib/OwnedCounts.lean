import BabaChain.Lib.OrdMap

/-! Keys with one owner each, and how often their owner holds them. -/
namespace OwnedCounts
open Std

variable {κ ω : Type*} [Ord κ] [TransOrd κ] [DecidableEq ω]

/-- Adds a key unless another owner holds it. -/
def add (o : ω) (k : κ) (m : ExtTreeMap κ (ω × UInt32)) : Option (ExtTreeMap κ (ω × UInt32)) :=
  match m[k]? with
  | some e => if e.1 ≠ o then none else some (m.insert k (o, e.2+1))
  | none => some (m.insert k (o, 1))

/-- Deletes a key that the owner holds, once. -/
def delete (o : ω) (k : κ) (m : ExtTreeMap κ (ω × UInt32)) : Option (ExtTreeMap κ (ω × UInt32)) :=
  match m[k]? with
  | some e =>
    if e.1 ≠ o then none
    else if e.2 = 1 then some (m.erase k)
    else some (m.insert k (o, e.2-1))
  | none => none

/-- How often an owner holds a key. -/
def countOf (m : ExtTreeMap κ (ω × UInt32)) (o : ω) (k : κ) : ℕ :=
  match m[k]? with
  | some e => if e.1 = o then e.2.toNat else 0
  | none => 0

variable [DecidableEq κ]

/-- The map counts exactly the keys that the owners hold. -/
structure Counts (props : ω → Multiset κ) (m : ExtTreeMap κ (ω × UInt32)) : Prop where
  count : ∀ o k, countOf m o k = (props o).count k
  ne_zero : ∀ (k : κ) (e : ω × UInt32), m[k]? = some e → e.2 ≠ 0

variable {props : ω → Multiset κ} {m m' : ExtTreeMap κ (ω × UInt32)} {o : ω} {k : κ}

omit [DecidableEq κ] in
theorem countOf_of_some {e : ω × UInt32} (h : m[k]? = some e) (o : ω) :
    countOf m o k = if e.1 = o then e.2.toNat else 0 := by
  rw [countOf, h]

omit [DecidableEq κ] in
theorem countOf_of_none (h : m[k]? = none) (o : ω) : countOf m o k = 0 := by
  rw [countOf, h]

theorem counts_empty : Counts (fun _ : ω => (0 : Multiset κ)) ∅ where
  count o k := by
    rw [countOf_of_none ExtTreeMap.getElem?_empty, Multiset.count_zero]
  ne_zero k e h := by
    rw [ExtTreeMap.getElem?_empty] at h
    exact absurd h (Option.some_ne_none e).symm

theorem Counts.mem_iff (h : Counts props m) :
    k ∈ props o ↔ ∃ c, m[k]? = some (o, c) := by
  rw [← Multiset.count_pos, ← h.count]
  constructor
  · intro hpos
    cases hk : m[k]? with
    | none =>
      rw [countOf_of_none hk] at hpos
      exact absurd hpos (Nat.lt_irrefl 0)
    | some e =>
      rw [countOf_of_some hk] at hpos
      split_ifs at hpos with ho
      · exact ⟨e.2, by rw [← ho]⟩
      · exact absurd hpos (Nat.lt_irrefl 0)
  · rintro ⟨c, hk⟩
    have hne := h.ne_zero k (o, c) hk
    rw [countOf_of_some hk, if_pos rfl]
    exact Nat.pos_of_ne_zero fun hzero => hne (UInt32.toNat_inj.mp hzero)

theorem Counts.owner_unique (h : Counts props m) {o' : ω} (ho : k ∈ props o) (ho' : k ∈ props o') :
    o = o' := by
  obtain ⟨c, hc⟩ := h.mem_iff.mp ho
  obtain ⟨c', hc'⟩ := h.mem_iff.mp ho'
  rw [hc] at hc'
  exact congrArg Prod.fst (Option.some_inj.mp hc')

theorem Counts.getElem?_eq_none_iff (h : Counts props m) : m[k]? = none ↔ ∀ o, k ∉ props o := by
  constructor
  · intro hnone o hmem
    obtain ⟨c, hc⟩ := h.mem_iff.mp hmem
    rw [hnone] at hc
    exact absurd hc (Option.some_ne_none _).symm
  · intro hnot
    by_contra hne
    obtain ⟨e, he⟩ := Option.ne_none_iff_exists'.mp hne
    exact hnot e.1 (h.mem_iff.mpr ⟨e.2, he⟩)

/-- What the owners hold determines the map. -/
theorem Counts.unique [LawfulEqOrd κ] (h : Counts props m) (h' : Counts props m') : m = m' := by
  apply ExtTreeMap.ext_getElem?
  intro k
  cases hk : m[k]? with
  | none =>
    exact (h'.getElem?_eq_none_iff.mpr (h.getElem?_eq_none_iff.mp hk)).symm
  | some e =>
    obtain ⟨c', hc'⟩ := h'.mem_iff.mp (h.mem_iff.mpr ⟨e.2, hk⟩)
    have hcount := (h.count e.1 k).trans (h'.count e.1 k).symm
    rw [countOf_of_some hk, countOf_of_some hc', if_pos rfl, if_pos rfl] at hcount
    have heq : e.2 = c' := UInt32.toNat_inj.mp hcount
    rw [hc', ← heq]

variable [LawfulEqOrd κ]

/-- A key that no other owner holds is added. -/
theorem add_spec (h : Counts props m) (hfit : (props o).count k+1 < 2^32) :
    (∀ o' ≠ o, k ∉ props o') ∧
        (∃ m', add o k m = some m' ∧ Counts (Function.update props o (k ::ₘ props o)) m') ∨
      (∃ o' ≠ o, k ∈ props o') ∧ add o k m = none := by
  -- the count of the key under its owner is the only one that changes
  have hkeep : ∀ c : UInt32, c.toNat = (props o).count k+1 → (∀ o' ≠ o, k ∉ props o') →
      Counts (Function.update props o (k ::ₘ props o)) (m.insert k (o, c)) := by
    intro c hc hothers
    refine ⟨fun o' k' => ?_, fun k' e he => ?_⟩
    · by_cases hk : k = k'
      · subst hk
        rw [countOf_of_some (OrdMap.getElem?_insert m k k (o, c) ▸ if_pos rfl)]
        by_cases ho : o = o'
        · subst ho
          rw [if_pos rfl, Function.update_self, Multiset.count_cons_self, hc]
        · rw [if_neg ho, Function.update_of_ne (Ne.symm ho)]
          exact (Multiset.count_eq_zero.mpr (hothers o' (Ne.symm ho))).symm
      · have hget : (m.insert k (o, c))[k']? = m[k']? := by
          rw [OrdMap.getElem?_insert, if_neg hk]
        have hcount : countOf (m.insert k (o, c)) o' k' = countOf m o' k' := by
          rw [countOf, countOf, hget]
        rw [hcount, h.count]
        by_cases ho : o = o'
        · subst ho
          rw [Function.update_self, Multiset.count_cons_of_ne (Ne.symm hk)]
        · rw [Function.update_of_ne (Ne.symm ho)]
    · rw [OrdMap.getElem?_insert] at he
      split_ifs at he
      · rw [← Option.some_inj.mp he]
        intro hzero
        exact absurd ((congrArg UInt32.toNat hzero).symm.trans hc) (Nat.succ_ne_zero _).symm
      · exact h.ne_zero k' e he
  cases hk : m[k]? with
  | none =>
    have hnot := h.getElem?_eq_none_iff.mp hk
    refine Or.inl ⟨fun o' _ => hnot o', _, by rw [add, hk], hkeep 1 ?_ fun o' _ => hnot o'⟩
    rw [Multiset.count_eq_zero.mpr (hnot o)]
    rfl
  | some e =>
    by_cases ho : e.1 = o
    · subst ho
      have hcount := h.count e.1 k
      rw [countOf_of_some hk, if_pos rfl] at hcount
      have hothers : ∀ o' ≠ e.1, k ∉ props o' := by
        intro o' ho' hmem
        exact ho' (h.owner_unique hmem (h.mem_iff.mpr ⟨e.2, hk⟩))
      refine Or.inl ⟨hothers, _, by rw [add, hk]; exact if_neg fun hne => hne rfl,
        hkeep (e.2+1) ?_ hothers⟩
      rw [← hcount] at hfit ⊢
      rw [UInt32.toNat_add]
      exact Nat.mod_eq_of_lt hfit
    · refine Or.inr ⟨⟨e.1, ho, h.mem_iff.mpr ⟨e.2, hk⟩⟩, ?_⟩
      rw [add, hk]
      exact if_pos ho

/-- A key that the owner holds is deleted. -/
theorem delete_spec (h : Counts props m) :
    k ∈ props o ∧
        (∃ m', delete o k m = some m' ∧ Counts (Function.update props o ((props o).erase k)) m') ∨
      k ∉ props o ∧ delete o k m = none := by
  by_cases hmem : k ∈ props o
  · obtain ⟨c, hk⟩ := h.mem_iff.mp hmem
    have hcount := h.count o k
    rw [countOf_of_some hk, if_pos rfl] at hcount
    have hothers : ∀ o' ≠ o, (props o').count k = 0 := by
      intro o' ho'
      exact Multiset.count_eq_zero.mpr fun hmem' => ho' (h.owner_unique hmem' hmem)
    -- away from the key, nothing changes
    have hframe : ∀ (m' : ExtTreeMap κ (ω × UInt32)) (o' : ω) (k' : κ), k ≠ k' →
        m'[k']? = m[k']? →
        countOf m' o' k' = (Function.update props o ((props o).erase k) o').count k' := by
      intro m' o' k' hne hget
      have hsame : countOf m' o' k' = countOf m o' k' := by rw [countOf, countOf, hget]
      rw [hsame, h.count]
      by_cases ho : o = o'
      · subst ho
        rw [Function.update_self, Multiset.count_erase_of_ne (Ne.symm hne)]
      · rw [Function.update_of_ne (Ne.symm ho)]
    refine Or.inl ⟨hmem, ?_⟩
    by_cases hone : c = 1
    · refine ⟨m.erase k, ?_, fun o' k' => ?_, fun k' e he => ?_⟩
      · rw [delete, hk]
        simp only [ne_eq, not_true_eq_false, if_false, if_pos hone]
      · by_cases hne : k = k'
        · subst hne
          rw [countOf_of_none (OrdMap.getElem?_erase m k k ▸ if_pos rfl)]
          by_cases ho : o = o'
          · subst ho
            rw [Function.update_self, Multiset.count_erase_self, ← hcount, hone]
            rfl
          · rw [Function.update_of_ne (Ne.symm ho), hothers o' (Ne.symm ho)]
        · exact hframe _ o' k' hne (by rw [OrdMap.getElem?_erase, if_neg hne])
      · rw [OrdMap.getElem?_erase] at he
        split_ifs at he
        exact h.ne_zero k' e he
    · have hc : c.toNat ≠ 0 := fun hzero =>
        h.ne_zero k (o, c) hk (UInt32.toNat_inj.mp hzero)
      have hne1 : c.toNat ≠ 1 := fun hone' => hone (UInt32.toNat_inj.mp hone')
      have hsub : (c-1).toNat = c.toNat-1 := by
        rw [UInt32.toNat_sub_of_le c 1 (UInt32.le_iff_toNat_le.mpr (Nat.one_le_iff_ne_zero.mpr hc))]
        rfl
      refine ⟨m.insert k (o, c-1), ?_, fun o' k' => ?_, fun k' e he => ?_⟩
      · rw [delete, hk]
        simp only [ne_eq, not_true_eq_false, if_false, if_neg hone]
      · by_cases hne : k = k'
        · subst hne
          rw [countOf_of_some (OrdMap.getElem?_insert m k k (o, c-1) ▸ if_pos rfl)]
          by_cases ho : o = o'
          · subst ho
            rw [if_pos rfl, Function.update_self, Multiset.count_erase_self, hsub, hcount]
          · rw [if_neg ho, Function.update_of_ne (Ne.symm ho), hothers o' (Ne.symm ho)]
        · exact hframe _ o' k' hne (by rw [OrdMap.getElem?_insert, if_neg hne])
      · rw [OrdMap.getElem?_insert] at he
        split_ifs at he
        · rw [← Option.some_inj.mp he]
          intro hzero
          have hz : (c-1).toNat = 0 := congrArg UInt32.toNat hzero
          omega
        · exact h.ne_zero k' e he
  · refine Or.inr ⟨hmem, ?_⟩
    rw [delete]
    cases hk : m[k]? with
    | none => rfl
    | some e =>
      refine if_pos fun ho => hmem (h.mem_iff.mpr ⟨e.2, ?_⟩)
      rw [← ho]
      exact hk

/-- Several keys, one after the other. -/
def addAll (o : ω) : List κ → ExtTreeMap κ (ω × UInt32) → Option (ExtTreeMap κ (ω × UInt32))
  | [], m => some m
  | k :: ks, m => (add o k m).bind (addAll o ks)

def deleteAll (o : ω) : List κ → ExtTreeMap κ (ω × UInt32) → Option (ExtTreeMap κ (ω × UInt32))
  | [], m => some m
  | k :: ks, m => (delete o k m).bind (deleteAll o ks)

theorem addAll_spec (h : Counts props m) {ks : List κ} (hfit : (props o).card+ks.length < 2^32) :
    (∀ o' ≠ o, ∀ k ∈ ks, k ∉ props o') ∧
        (∃ m', addAll o ks m = some m' ∧ Counts (Function.update props o (ks+props o)) m') ∨
      (∃ o' ≠ o, ∃ k ∈ ks, k ∈ props o') ∧ addAll o ks m = none := by
  induction ks generalizing props m with
  | nil =>
    refine Or.inl ⟨fun o' _ k hmem => absurd hmem List.not_mem_nil, m, rfl, ?_⟩
    have hsame : Function.update props o (([] : List κ)+props o) = props := by
      rw [Multiset.coe_nil, zero_add, Function.update_eq_self]
    rw [hsame]
    exact h
  | cons k ks ih =>
    have hcard : (props o).count k ≤ (props o).card := Multiset.count_le_card k _
    rw [List.length_cons] at hfit
    rcases add_spec h (o := o) (k := k) (by omega) with ⟨hothers, m₁, hadd, h₁⟩ | ⟨hother, hadd⟩
    · have hfit₁ : (Function.update props o (k ::ₘ props o) o).card+ks.length < 2^32 := by
        rw [Function.update_self, Multiset.card_cons]
        omega
      have hmem₁ : ∀ o' ≠ o, Function.update props o (k ::ₘ props o) o' = props o' :=
        fun o' ho' => Function.update_of_ne ho' _ _
      rcases ih h₁ hfit₁ with ⟨hothers₁, m₂, hall, h₂⟩ | ⟨⟨o', ho', k', hk', hmem'⟩, hall⟩
      · refine Or.inl ⟨fun o' ho' k' hmem => ?_, m₂, ?_, ?_⟩
        · rcases List.mem_cons.mp hmem with rfl | hmem
          · exact hothers o' ho'
          · rw [← hmem₁ o' ho']
            exact hothers₁ o' ho' k' hmem
        · rw [addAll, hadd]
          exact hall
        · have hsum : (ks : Multiset κ)+(k ::ₘ props o) = ((k :: ks : List κ) : Multiset κ)+props o := by
            rw [← Multiset.cons_coe, Multiset.add_cons, Multiset.cons_add]
          rw [Function.update_self, Function.update_idem, hsum] at h₂
          exact h₂
      · rw [hmem₁ o' ho'] at hmem'
        refine Or.inr ⟨⟨o', ho', k', List.mem_cons_of_mem k hk', hmem'⟩, ?_⟩
        rw [addAll, hadd]
        exact hall
    · obtain ⟨o', ho', hmem⟩ := hother
      refine Or.inr ⟨⟨o', ho', k, List.mem_cons_self, hmem⟩, ?_⟩
      rw [addAll, hadd]
      rfl

/-- What the owner holds can be deleted, in any order. -/
theorem deleteAll_spec (h : Counts props m) {ks : List κ} (hks : (ks : Multiset κ) ≤ props o) :
    ∃ m', deleteAll o ks m = some m' ∧ Counts (Function.update props o (props o-ks)) m' := by
  induction ks generalizing props m with
  | nil =>
    refine ⟨m, rfl, ?_⟩
    have hsame : Function.update props o (props o-(([] : List κ) : Multiset κ)) = props := by
      rw [Multiset.coe_nil, Multiset.sub_zero, Function.update_eq_self]
    rw [hsame]
    exact h
  | cons k ks ih =>
    rw [← Multiset.cons_coe] at hks
    have hmem : k ∈ props o := Multiset.mem_of_le hks (Multiset.mem_cons_self k _)
    rcases delete_spec h (o := o) (k := k) with ⟨_, m₁, hdelete, h₁⟩ | ⟨hnot, _⟩
    · have hks₁ : (ks : Multiset κ) ≤ Function.update props o ((props o).erase k) o := by
        rw [Function.update_self]
        have herase := Multiset.erase_le_erase k hks
        rwa [Multiset.erase_cons_head] at herase
      obtain ⟨m₂, hall, h₂⟩ := ih h₁ hks₁
      refine ⟨m₂, ?_, ?_⟩
      · rw [deleteAll, hdelete]
        exact hall
      · rw [Function.update_self, Function.update_idem, ← Multiset.sub_cons, Multiset.cons_coe] at h₂
        exact h₂
    · exact absurd hmem hnot

/-- What comes of replacing keys of an owner by new ones: the owner holds those
next to the rest, or another owner holds one of them and nothing comes. -/
def Replaced (props : ω → Multiset κ) (o : ω) (rest new : Multiset κ)
    (r : Option (ExtTreeMap κ (ω × UInt32))) : Prop :=
  (∀ o' ≠ o, ∀ k ∈ new, k ∉ props o') ∧
      (∃ m', r = some m' ∧ Counts (Function.update props o (rest+new)) m') ∨
    (∃ o' ≠ o, ∃ k ∈ new, k ∈ props o') ∧ r = none

variable {rest rest₁ new new₁ new₂ : Multiset κ} {r : Option (ExtTreeMap κ (ω × UInt32))}

omit [LawfulEqOrd κ] in
/-- The keys that an owner holds already need no replacing. -/
theorem Replaced.keep (h : Counts props m) (hrest : props o = rest+new) :
    Replaced props o rest new (some m) := by
  refine Or.inl ⟨fun o' ho' k hk hmem => ?_, m, rfl, ?_⟩
  · have hown : k ∈ props o := hrest ▸ Multiset.mem_add.mpr (Or.inr hk)
    exact ho' (h.owner_unique hmem hown)
  · rw [← hrest, Function.update_eq_self]
    exact h

omit [LawfulEqOrd κ] in
/-- One replacement after the other. -/
theorem Replaced.bind {f : ExtTreeMap κ (ω × UInt32) → Option (ExtTreeMap κ (ω × UInt32))}
    (h₁ : Replaced props o rest₁ new₁ r)
    (h₂ : ∀ m', Counts (Function.update props o (rest₁+new₁)) m' →
      Replaced (Function.update props o (rest₁+new₁)) o (rest+new₁) new₂ (f m')) :
    Replaced props o rest (new₁+new₂) (r.bind f) := by
  rcases h₁ with ⟨hothers₁, m₁, hr, hm₁⟩ | ⟨⟨o', ho', k, hk, hmem⟩, hr⟩
  · have hsame : ∀ o' ≠ o, Function.update props o (rest₁+new₁) o' = props o' :=
      fun o' ho' => Function.update_of_ne ho' _ _
    rcases h₂ m₁ hm₁ with ⟨hothers₂, m₂, hf, hm₂⟩ | ⟨⟨o', ho', k, hk, hmem⟩, hf⟩
    · refine Or.inl ⟨fun o' ho' k hk => ?_, m₂, by rw [hr]; exact hf, ?_⟩
      · rcases Multiset.mem_add.mp hk with hk | hk
        · exact hothers₁ o' ho' k hk
        · rw [← hsame o' ho']
          exact hothers₂ o' ho' k hk
      · rw [Function.update_idem, add_assoc] at hm₂
        exact hm₂
    · rw [hsame o' ho'] at hmem
      exact Or.inr ⟨⟨o', ho', k, Multiset.mem_add.mpr (Or.inr hk), hmem⟩, by rw [hr]; exact hf⟩
  · exact Or.inr ⟨⟨o', ho', k, Multiset.mem_add.mpr (Or.inl hk), hmem⟩, by rw [hr]; rfl⟩

/-- All old keys go before the new ones come. -/
theorem replaceAll_spec (h : Counts props m) {old new : List κ} (hrest : props o = rest+old)
    (hfit : rest.card+new.length < 2^32) :
    Replaced props o rest new ((deleteAll o old m).bind (addAll o new)) := by
  have hold : (old : Multiset κ) ≤ props o := hrest ▸ Multiset.le_add_left _ _
  obtain ⟨m₁, hdelete, h₁⟩ := deleteAll_spec h hold
  have hsub : props o-old = rest := by rw [hrest, Multiset.add_sub_cancel_right]
  rw [hsub] at h₁
  have hsame : ∀ o' ≠ o, Function.update props o rest o' = props o' :=
    fun o' ho' => Function.update_of_ne ho' _ _
  have hfit₁ : (Function.update props o rest o).card+new.length < 2^32 := by
    rw [Function.update_self]
    exact hfit
  rw [hdelete, Option.bind_some]
  rcases addAll_spec h₁ hfit₁ with ⟨hothers, m₂, hadd, h₂⟩ | ⟨⟨o', ho', k, hk, hmem⟩, hadd⟩
  · refine Or.inl ⟨fun o' ho' k hk => ?_, m₂, hadd, ?_⟩
    · rw [← hsame o' ho']
      exact hothers o' ho' k hk
    · rw [Function.update_self, Function.update_idem, add_comm] at h₂
      exact h₂
  · rw [hsame o' ho'] at hmem
    exact Or.inr ⟨⟨o', ho', k, hk, hmem⟩, hadd⟩

end OwnedCounts
