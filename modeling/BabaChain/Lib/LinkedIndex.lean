import Mathlib.Tactic

/-! A list of nodes, and an index that finds the node of a key. -/
namespace LinkedIndex

variable {ι κ : Type*} {key : ι → κ} {items : List (ℕ × ι)} {index index' : κ → Option ℕ}

/-- Every node is listed once, and the index has the keys of the items, each with its node. -/
structure Linked (key : ι → κ) (items : List (ℕ × ι)) (index : κ → Option ℕ) : Prop where
  nodup : (items.map Prod.fst).Nodup
  index_iff : ∀ k n, index k = some n ↔ ∃ p, (n, p) ∈ items ∧ key p = k

theorem linked_nil (h : ∀ k, index k = none) : Linked key [] index :=
  ⟨List.nodup_nil, fun k n => by simp [h]⟩

namespace Linked

variable {n : ℕ} {p : ι} {q : ℕ × ι}

theorem index_eq (h : Linked key items index) (hp : (n, p) ∈ items) : index (key p) = some n :=
  (h.index_iff _ _).mpr ⟨p, hp, rfl⟩

/-- A node and its key tell each other. -/
theorem node_iff (h : Linked key items index) (hp : (n, p) ∈ items) (hq : q ∈ items) :
    q.1 = n ↔ key q.2 = key p := by
  constructor
  · intro hn
    have hpair := List.inj_on_of_nodup_map h.nodup hq hp hn
    rw [hpair]
  · intro hkey
    have hindex := h.index_eq (n := q.1) (p := q.2) hq
    rw [hkey, h.index_eq hp] at hindex
    exact (Option.some.inj hindex).symm

theorem perm (h : Linked key items index) {items' : List (ℕ × ι)} (hperm : items.Perm items') :
    Linked key items' index := by
  refine ⟨(hperm.map Prod.fst).nodup_iff.mp h.nodup, fun k n => ?_⟩
  rw [h.index_iff]
  exact exists_congr fun p => and_congr_left fun _ => hperm.mem_iff

variable [DecidableEq κ]

/-- A new node for a new key, at the front. -/
theorem cons (h : Linked key items index) (hn : n ∉ items.map Prod.fst)
    (hk : index (key p) = none)
    (hindex : ∀ k, index' k = if key p = k then some n else index k) :
    Linked key ((n, p) :: items) index' := by
  refine ⟨List.nodup_cons.mpr ⟨hn, h.nodup⟩, fun k n' => ?_⟩
  rw [hindex]
  split_ifs with hkey
  · subst hkey
    constructor
    · intro heq
      obtain rfl := Option.some.inj heq
      exact ⟨p, List.mem_cons_self, rfl⟩
    · rintro ⟨p', hp', hsame⟩
      rcases List.mem_cons.mp hp' with heq | hp'
      · obtain ⟨rfl, rfl⟩ := Prod.mk.inj heq
        rfl
      · have hold := h.index_eq hp'
        rw [hsame, hk] at hold
        exact nomatch hold
  · rw [h.index_iff]
    constructor
    · rintro ⟨p', hp', hsame⟩
      exact ⟨p', List.mem_cons_of_mem _ hp', hsame⟩
    · rintro ⟨p', hp', hsame⟩
      rcases List.mem_cons.mp hp' with heq | hp'
      · obtain ⟨rfl, rfl⟩ := Prod.mk.inj heq
        exact absurd hsame hkey
      · exact ⟨p', hp', hsame⟩

omit [DecidableEq κ] in
/-- The items of some keys go, and the index forgets those keys. -/
theorem filter (h : Linked key items index) (keep : κ → Bool)
    (hindex : ∀ k, index' k = if keep k then index k else none) :
    Linked key (items.filter fun q => keep (key q.2)) index' := by
  refine ⟨h.nodup.sublist (List.filter_sublist.map _), fun k n => ?_⟩
  rw [hindex]
  split_ifs with hkeep
  · rw [h.index_iff]
    refine exists_congr fun p => ?_
    rw [List.mem_filter, and_assoc]
    refine and_congr_right fun _ => ⟨fun hk => ⟨hk.symm ▸ hkeep, hk⟩, And.right⟩
  · refine iff_of_false nofun ?_
    rintro ⟨p, hp, rfl⟩
    exact hkeep (List.mem_filter.mp hp).2

omit [DecidableEq κ] in
theorem dropLast_nodes (h : Linked key items index) (hlast : items.getLast? = some (n, p)) :
    items.dropLast = items.filter fun q => q.1 ≠ n := by
  obtain ⟨front, rfl⟩ := List.getLast?_eq_some_iff.mp hlast
  have hnodup := h.nodup
  rw [List.map_append, List.nodup_append] at hnodup
  have hfront : (front.filter fun q => q.1 ≠ n) = front := by
    refine List.filter_eq_self.mpr fun q hq => decide_eq_true ?_
    exact hnodup.2.2 _ (List.mem_map_of_mem hq) n List.mem_cons_self
  rw [List.dropLast_concat, List.filter_append, hfront]
  simp

/-- Taking a node out takes its key out. -/
theorem filter_node (h : Linked key items index) (hp : (n, p) ∈ items) :
    (items.filter fun q => q.1 ≠ n) = items.filter fun q => decide (key q.2 ≠ key p) := by
  refine List.filter_congr fun q hq => ?_
  rw [decide_eq_decide]
  exact not_congr (h.node_iff hp hq)

/-- The last node goes, and the index forgets its key. -/
theorem dropLast (h : Linked key items index) (hlast : items.getLast? = some (n, p))
    (hindex : ∀ k, index' k = if key p = k then none else index k) :
    Linked key items.dropLast index' := by
  have hp := List.mem_of_getLast? hlast
  rw [h.dropLast_nodes hlast, h.filter_node hp]
  refine h.filter (fun k => decide (k ≠ key p)) fun k => ?_
  rw [hindex]
  by_cases hk : key p = k
  · rw [if_pos hk, if_neg (by simp [hk])]
  · rw [if_neg hk, if_pos (decide_eq_true (Ne.symm hk))]

omit [DecidableEq κ] in
theorem keys_nodup (h : Linked key items index) : (items.map fun q => key q.2).Nodup := by
  refine List.Nodup.map_on (fun q hq q' hq' hkey => ?_) h.nodup.of_map
  have hnode := (h.node_iff (n := q'.1) (p := q'.2) hq' hq).mpr hkey
  exact List.inj_on_of_nodup_map h.nodup hq hq' hnode

end Linked

/-- An index that is built again from the items finds them. -/
theorem linked_foldl [DecidableEq κ] {I : Type*} (get : I → κ → Option ℕ)
    (emplace : I → ℕ × ι → I)
    (hget : ∀ m q k, get m (key q.2) = none →
      get (emplace m q) k = if key q.2 = k then some q.1 else get m k)
    {older : List (ℕ × ι)} {m : I} (h : Linked key older (get m))
    (hnodes : ((items ++ older).map Prod.fst).Nodup)
    (hkeys : ((items ++ older).map fun q => key q.2).Nodup) :
    Linked key (items ++ older) (get (items.foldl emplace m)) := by
  induction items generalizing older m with
  | nil => exact h
  | cons q items ih =>
    have hperm : (items ++ q :: older).Perm (q :: items ++ older) := List.perm_middle
    refine (ih ?_ ?_ ?_).perm hperm
    · have hnodes' := (hperm.map Prod.fst).nodup_iff.mpr hnodes
      have hkeys' := (hperm.map fun q => key q.2).nodup_iff.mpr hkeys
      rw [List.map_append, List.nodup_append, List.map_cons, List.nodup_cons] at hnodes' hkeys'
      have hfresh : get m (key q.2) = none := by
        cases hfind : get m (key q.2) with
        | none => rfl
        | some n =>
          obtain ⟨p, hp, hsame⟩ := (h.index_iff _ _).mp hfind
          exact absurd (List.mem_map.mpr ⟨(n, p), hp, hsame⟩) hkeys'.2.1.1
      exact h.cons hnodes'.2.1.1 hfresh fun k => hget m q k hfresh
    · exact (hperm.map Prod.fst).nodup_iff.mpr hnodes
    · exact (hperm.map fun q => key q.2).nodup_iff.mpr hkeys

end LinkedIndex
