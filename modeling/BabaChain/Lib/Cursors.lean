import BabaChain.Lib.StoreWrites

/-! Cursors that walk over the keys of ordered stores, and what is left of an ordered list from a
key on. -/
namespace Cursors
open Std

variable {π κ β : Type*}

/-- A cursor over keys. From any position it can move on a bounded number of times. -/
structure Cursor (π κ : Type*) where
  valid : π → Bool
  getKey : π → κ
  next : π → π
  seek : κ → π → π
  seekToFirst : π → π
  left : π → ℕ
  left_next : ∀ it, valid it = true → left (next it) < left it

/-- What is read at each position from `it` on. -/
def collect (c : Cursor π κ) (f : π → β) (it : π) : List β :=
  if _h : c.valid it = true then
    f it :: collect c f (c.next it)
  else
    []
termination_by c.left it
decreasing_by exact c.left_next it ‹_›

variable [Ord κ]

/-- Keys in ascending order, none of them twice. -/
def Ascending (keys : List κ) : Prop := keys.Pairwise fun a b => compare a b = .lt

/-- The keys that are not below `k`. -/
def onward (k : κ) (keys : List κ) : List κ := keys.filter fun a => (compare a k).isGE

/-- A cursor that walks over the given keys: `At it rest` says that it stands in front of `rest`. -/
structure Walks (c : Cursor π κ) (keys : List κ) (At : π → List κ → Prop) : Prop where
  valid_iff : ∀ {it rest}, At it rest → (c.valid it = true ↔ rest ≠ [])
  getKey : ∀ {it k rest}, At it (k :: rest) → c.getKey it = k
  next : ∀ {it k rest}, At it (k :: rest) → At (c.next it) rest
  ascending : ∀ {it rest}, At it rest → Ascending rest
  seek : ∀ it k, At (c.seek k it) (onward k keys)
  seekToFirst : ∀ it, At (c.seekToFirst it) keys

/-- A walk reads each key that is left once, in order. -/
theorem Walks.collect_eq {c : Cursor π κ} {keys : List κ} {At : π → List κ → Prop}
    (h : Walks c keys At) {f : π → β} {g : κ → β}
    (hfg : ∀ it, c.valid it = true → f it = g (c.getKey it)) {it : π} {rest : List κ}
    (hat : At it rest) : collect c f it = rest.map g := by
  induction rest generalizing it with
  | nil =>
    have hend : ¬c.valid it = true := fun hvalid => (h.valid_iff hat).mp hvalid rfl
    rw [collect, dif_neg hend, List.map_nil]
  | cons k rest ih =>
    have hvalid : c.valid it = true := (h.valid_iff hat).mpr (List.cons_ne_nil k rest)
    rw [collect, dif_pos hvalid, List.map_cons, hfg it hvalid, h.getKey hat, ih (h.next hat)]

variable {keys keys' : List κ}

theorem Ascending.onward (h : Ascending keys) (k : κ) : Ascending (onward k keys) :=
  h.sublist List.filter_sublist

/-- Leaving out the keys below a key and keeping those that are not below it is the same. -/
theorem dropWhile_eq_onward [TransOrd κ] (h : Ascending keys) (k : κ) :
    (keys.dropWhile fun a => (compare a k).isLT) = onward k keys := by
  rw [Cursors.onward, OrdMap.dropWhile_eq_filter h]
  · apply List.filter_congr
    intro a _
    cases compare a k <;> rfl
  · intro a _ b _ hab hb
    rw [Ordering.isLT_iff_eq_lt] at hb ⊢
    exact TransCmp.lt_trans hab hb

variable [TransOrd κ]

theorem ascending_keys {ν : Type*} (m : ExtTreeMap κ ν) : Ascending m.keys :=
  ExtTreeMap.ordered_keys

theorem Ascending.nodup (h : Ascending keys) : keys.Nodup := by
  refine h.imp fun {a b} hlt heq => ?_
  have hself : compare b b = .eq := ReflCmp.compare_self
  rw [heq, hself] at hlt
  contradiction

/-- What follows the least key. -/
theorem Ascending.tail_of_least {k a : κ} {rest : List κ} (h : Ascending (a :: rest))
    (hmem : k ∈ a :: rest) (hleast : ∀ b ∈ a :: rest, b ≠ k → compare k b = .lt) :
    a = k ∧ ∀ b, b ∈ rest ↔ b ∈ a :: rest ∧ b ≠ k := by
  obtain ⟨hlt, -⟩ := List.pairwise_cons.mp h
  have heq : a = k := by
    by_contra hne
    have hka := hleast a List.mem_cons_self hne
    have hak := hlt k ((List.mem_cons.mp hmem).resolve_left (Ne.symm hne))
    rw [OrientedCmp.gt_iff_lt.mpr hak] at hka
    contradiction
  subst heq
  refine ⟨rfl, fun b => ⟨fun hb => ⟨List.mem_cons_of_mem a hb, ?_⟩, fun hb => ?_⟩⟩
  · rintro rfl
    exact (List.nodup_cons.mp h.nodup).1 hb
  · exact (List.mem_cons.mp hb.1).resolve_left hb.2

/-! ### A list of keys as a store -/

/-- The cursor over a list: the keys that are left. -/
def ofKeys (default : κ) (keys : List κ) : Cursor (List κ) κ where
  valid rest := !rest.isEmpty
  getKey rest := rest.headD default
  next rest := rest.tail
  seek k _ := keys.dropWhile fun a => (compare a k).isLT
  seekToFirst _ := keys
  left rest := rest.length
  left_next rest h := by
    cases rest with
    | nil => cases h
    | cons k rest => exact Nat.lt_succ_self _

theorem walks_ofKeys (default : κ) (h : Ascending keys) :
    Walks (ofKeys default keys) keys fun it rest => it = rest ∧ Ascending rest where
  valid_iff := by
    rintro rest _ ⟨rfl, -⟩
    cases rest <;> simp [ofKeys]
  getKey := by
    rintro _ k rest ⟨rfl, -⟩
    rfl
  next := by
    rintro _ k rest ⟨rfl, hrest⟩
    exact ⟨rfl, (List.pairwise_cons.mp hrest).2⟩
  ascending hat := hat.2
  seek it k := ⟨dropWhile_eq_onward h k, h.onward k⟩
  seekToFirst it := ⟨rfl, h⟩

end Cursors
