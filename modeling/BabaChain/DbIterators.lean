import BabaChain.DbTransactions
import Mathlib.Data.List.TakeWhile

/-! The keys that an iterator over a transaction visits. -/
namespace BabaChain.DbWrapper
open Std Cursors

variable {C : Codecs} {π : Type} {parent : Cursor π Key} {parentKeys : List Key}
  {At : π → List Key → Prop}

/-- What is hidden is skipped, and the key that is left in front is remembered. -/
theorem skip_spec (h : Walks parent parentKeys At) (t : CDBTransaction C) {it : π}
    {rest : List Key} (hat : At it rest) (parentKey : Key) :
    At (skipDeletedAndOverwritten parent t it parentKey).1 (rest.dropWhile t.hides) ∧
      ∀ k ∈ (rest.dropWhile t.hides).head?,
        (skipDeletedAndOverwritten parent t it parentKey).2 = k := by
  induction rest generalizing it parentKey with
  | nil =>
    have hend : ¬parent.valid it = true := fun hvalid => (h.valid_iff hat).mp hvalid rfl
    rw [skipDeletedAndOverwritten, dif_neg hend]
    exact ⟨hat, nofun⟩
  | cons k rest ih =>
    have hvalid : parent.valid it = true := (h.valid_iff hat).mpr (List.cons_ne_nil k rest)
    rw [skipDeletedAndOverwritten, dif_pos hvalid, h.getKey hat]
    rcases hhides : t.hides k with _ | _
    · rw [if_neg Bool.false_ne_true, List.dropWhile_cons_of_neg (by simp [hhides])]
      exact ⟨hat, fun _ heq => Option.some.inj heq⟩
    · rw [if_pos rfl, List.dropWhile_cons_of_pos hhides]
      exact ih (h.next hat) k

/-- The keys in front of which an iterator stands, where its parent stands in front of `below`. -/
structure Position (At : π → List Key → Prop) (t : CDBTransaction C)
    (it : CDBTransactionIterator parent) (rest below : List Key) : Prop where
  parentAt : At it.parentIt below
  head : ∀ k ∈ below.head?, it.parentKey = k ∧ t.hides k = false
  curIsParent : ∀ w ∈ it.transactionIt.head?, ∀ k ∈ below.head?,
    it.curIsParent = !(compare w k).isLT
  written : ∀ w ∈ it.transactionIt, t.hides w = true
  written_ascending : Ascending it.transactionIt
  ascending : Ascending rest
  mem_iff : ∀ k, k ∈ rest ↔ k ∈ it.transactionIt ∨ k ∈ below ∧ t.hides k = false

def StandsBefore (At : π → List Key → Prop) (t : CDBTransaction C)
    (it : CDBTransactionIterator parent) (rest : List Key) : Prop :=
  ∃ below, Position At t it rest below

variable (h : Walks parent parentKeys At) (t : CDBTransaction C)
include h

/-- A skip and a decision bring the iterator into position. -/
theorem position_of_skip {written rest below : List Key} {parentIt : π} (hat : At parentIt below)
    (parentKey : Key) (curIsParent : Bool) (hwritten : ∀ w ∈ written, t.hides w = true)
    (hascending : Ascending written) (hrest : Ascending rest)
    (hmem : ∀ k, k ∈ rest ↔ k ∈ written ∨ k ∈ below ∧ t.hides k = false) :
    StandsBefore At t (afterDecideCur parent written
      (skipDeletedAndOverwritten parent t parentIt parentKey).1
      (skipDeletedAndOverwritten parent t parentIt parentKey).2 curIsParent) rest := by
  obtain ⟨hskip, hkey⟩ := skip_spec h t hat parentKey
  have hhead : ∀ k ∈ (below.dropWhile t.hides).head?, t.hides k = false := by
    intro k hk
    have hnot := List.head?_dropWhile_not t.hides below
    rw [Option.mem_def.mp hk] at hnot
    simpa using hnot
  refine ⟨below.dropWhile t.hides, hskip, fun k hk => ⟨hkey k hk, hhead k hk⟩, ?_, hwritten,
    hascending, hrest, fun k => ?_⟩
  · intro w hw k hk
    have hvalid : parent.valid (skipDeletedAndOverwritten parent t parentIt parentKey).1 = true := by
      refine (h.valid_iff hskip).mpr ?_
      rintro hnil
      rw [hnil] at hk
      cases hk
    rcases written with _ | ⟨w', written⟩
    · cases hw
    · obtain rfl := Option.some.inj hw
      simp only [afterDecideCur, decideCur, hvalid, hkey k hk]
  · rw [hmem k]
    refine or_congr_right ⟨fun hk => ⟨?_, hk.2⟩, fun hk => ⟨?_, hk.2⟩⟩
    · have happend := List.takeWhile_append_dropWhile (p := t.hides) (l := below)
      rw [← happend, List.mem_append] at hk
      refine hk.1.resolve_left fun htake => ?_
      rw [List.mem_takeWhile_imp htake] at hk
      exact absurd hk.2 (by simp)
    · exact (List.dropWhile_sublist _).subset hk.1

theorem Position.valid_iff {it : CDBTransactionIterator parent} {rest below : List Key}
    (hpos : Position At t it rest below) : it.valid = true ↔ rest ≠ [] := by
  have hsplit : it.valid = true ↔ it.transactionIt ≠ [] ∨ below ≠ [] := by
    rw [← h.valid_iff hpos.parentAt]
    simp [CDBTransactionIterator.valid]
  rw [hsplit]
  constructor
  · rintro (hwritten | hbelow)
    · obtain ⟨w, hw⟩ := List.exists_mem_of_ne_nil _ hwritten
      exact List.ne_nil_of_mem ((hpos.mem_iff w).mpr (.inl hw))
    · obtain ⟨k, below', rfl⟩ := List.exists_cons_of_ne_nil hbelow
      exact List.ne_nil_of_mem
        ((hpos.mem_iff k).mpr (.inr ⟨List.mem_cons_self, (hpos.head k rfl).2⟩))
  · intro hrest
    obtain ⟨k, hk⟩ := List.exists_mem_of_ne_nil _ hrest
    exact ((hpos.mem_iff k).mp hk).imp List.ne_nil_of_mem fun hk => List.ne_nil_of_mem hk.1

/-- A key of the parent that comes first is the least that is left. -/
theorem Position.least_parent {it : CDBTransactionIterator parent} {k : Key}
    {rest below : List Key} (hpos : Position At t it rest (k :: below))
    (hcur : it.curIsParent = true) : ∀ b ∈ rest, b ≠ k → compare k b = .lt := by
  obtain ⟨-, hhead⟩ := hpos.head k rfl
  have hlt := (List.pairwise_cons.mp (h.ascending hpos.parentAt)).1
  intro b hb hne
  rcases (hpos.mem_iff b).mp hb with hw | ⟨hbelow, -⟩
  · obtain ⟨w, written, hwritten⟩ := List.exists_cons_of_ne_nil (List.ne_nil_of_mem hw)
    have hdecided := hpos.curIsParent w (by rw [hwritten]; rfl) k rfl
    have hwk : compare k w = .lt := by
      rw [hcur, Bool.true_eq, Bool.not_eq_true', ← Bool.not_eq_true, Ordering.isLT_iff_eq_lt]
        at hdecided
      rcases hcmp : compare w k with _ | _ | _
      · exact absurd hcmp hdecided
      · -- the written keys are hidden, and this one is not
        have heq : w = k := LawfulEqCmp.eq_of_compare hcmp
        have hhides := hpos.written w (by rw [hwritten]; exact List.mem_cons_self)
        rw [heq, hhead] at hhides
        cases hhides
      · exact OrientedCmp.gt_iff_lt.mp hcmp
    rw [hwritten] at hw
    rcases List.mem_cons.mp hw with rfl | hw
    · exact hwk
    · have hascending := hpos.written_ascending
      rw [hwritten] at hascending
      exact TransCmp.lt_trans hwk ((List.pairwise_cons.mp hascending).1 b hw)
  · exact hlt b ((List.mem_cons.mp hbelow).resolve_left hne)

/-- A written key that comes first is the least that is left. -/
theorem Position.least_written {it : CDBTransactionIterator parent} {w : Key}
    {rest below written : List Key} (hpos : Position At t it rest below)
    (hwritten : it.transactionIt = w :: written) (hcur : it.curIsParent = false) :
    ∀ b ∈ rest, b ≠ w → compare w b = .lt := by
  intro b hb hne
  rcases (hpos.mem_iff b).mp hb with hw | ⟨hbelow, -⟩
  · have hascending := hpos.written_ascending
    rw [hwritten] at hw hascending
    exact (List.pairwise_cons.mp hascending).1 b ((List.mem_cons.mp hw).resolve_left hne)
  · obtain ⟨k, below, rfl⟩ := List.exists_cons_of_ne_nil (List.ne_nil_of_mem hbelow)
    have hdecided := hpos.curIsParent w (by rw [hwritten]; rfl) k rfl
    rw [hcur, Bool.false_eq, Bool.not_eq_false', Ordering.isLT_iff_eq_lt] at hdecided
    rcases List.mem_cons.mp hbelow with rfl | hbelow
    · exact hdecided
    · exact TransCmp.lt_trans hdecided
        ((List.pairwise_cons.mp (h.ascending hpos.parentAt)).1 b hbelow)

/-- The current key is the first of those that are left. -/
theorem Position.current {it : CDBTransactionIterator parent} {a : Key} {rest below : List Key}
    (hpos : Position At t it (a :: rest) below) :
    (it.curIsParent = true ∧ it.parentKey = a ∧ ∃ below', below = a :: below') ∨
      (it.curIsParent = false ∧ ∃ written, it.transactionIt = a :: written) := by
  have hvalid := (hpos.valid_iff h t).mpr (List.cons_ne_nil a rest)
  have hdecided := it.decided (by simpa [CDBTransactionIterator.valid] using hvalid)
  rcases hcur : it.curIsParent with _ | _
  · rw [hcur, if_neg Bool.false_ne_true] at hdecided
    obtain ⟨w, written, hwritten⟩ := List.exists_cons_of_ne_nil hdecided
    have hfirst : w ∈ it.transactionIt := by
      rw [hwritten]
      exact List.mem_cons_self
    have hmem : w ∈ a :: rest := (hpos.mem_iff w).mpr (.inl hfirst)
    obtain ⟨rfl, -⟩ := hpos.ascending.tail_of_least hmem (hpos.least_written h t hwritten hcur)
    exact .inr ⟨rfl, written, hwritten⟩
  · rw [hcur, if_pos rfl, h.valid_iff hpos.parentAt] at hdecided
    obtain ⟨k, below', rfl⟩ := List.exists_cons_of_ne_nil hdecided
    obtain ⟨hkey, hhead⟩ := hpos.head k rfl
    have hmem : k ∈ a :: rest := (hpos.mem_iff k).mpr (.inr ⟨List.mem_cons_self, hhead⟩)
    obtain ⟨rfl, -⟩ := hpos.ascending.tail_of_least hmem (hpos.least_parent h t hcur)
    exact .inl ⟨rfl, hkey, below', rfl⟩

theorem Position.getKey {it : CDBTransactionIterator parent} {a : Key} {rest below : List Key}
    (hpos : Position At t it (a :: rest) below) : it.getKey = a := by
  have hvalid := (hpos.valid_iff h t).mpr (List.cons_ne_nil a rest)
  rw [CDBTransactionIterator.getKey, hvalid, Bool.not_true, if_neg Bool.false_ne_true]
  rcases hpos.current h t with ⟨hcur, hkey, -⟩ | ⟨hcur, written, hwritten⟩
  · rw [hcur, if_pos rfl, hkey]
  · rw [hcur, if_neg Bool.false_ne_true, hwritten, List.headD_cons]

/-- `Next` leaves the current key behind. -/
theorem Position.next {it : CDBTransactionIterator parent} {a : Key} {rest below : List Key}
    (hpos : Position At t it (a :: rest) below) : StandsBefore At t (it.next t) rest := by
  have hvalid := (hpos.valid_iff h t).mpr (List.cons_ne_nil a rest)
  have hrest : Ascending rest := (List.pairwise_cons.mp hpos.ascending).2
  have hnodup := (List.nodup_cons.mp hpos.ascending.nodup).1
  have hleft : ∀ k, k ∈ rest ↔ k ∈ a :: rest ∧ k ≠ a := by
    intro k
    rw [List.mem_cons]
    constructor
    · intro hk
      exact ⟨.inr hk, fun heq => hnodup (heq ▸ hk)⟩
    · exact fun hk => hk.1.resolve_left hk.2
  rw [CDBTransactionIterator.next, hvalid, Bool.not_true, if_neg Bool.false_ne_true]
  rcases hpos.current h t with ⟨hcur, -, below', rfl⟩ | ⟨hcur, written, hwritten⟩
  · rw [hcur, if_pos rfl]
    refine position_of_skip h t (h.next hpos.parentAt) it.parentKey true hpos.written
      hpos.written_ascending hrest fun k => ?_
    have hbelow := (List.nodup_cons.mp (h.ascending hpos.parentAt).nodup).1
    have hhead := (hpos.head a rfl).2
    rw [hleft, hpos.mem_iff]
    constructor
    · rintro ⟨hw | ⟨hk, hshows⟩, hne⟩
      · exact .inl hw
      · exact .inr ⟨(List.mem_cons.mp hk).resolve_left hne, hshows⟩
    · rintro (hw | ⟨hk, hshows⟩)
      · refine ⟨.inl hw, ?_⟩
        rintro rfl
        rw [hpos.written k hw] at hhead
        cases hhead
      · exact ⟨.inr ⟨List.mem_cons_of_mem a hk, hshows⟩, fun heq => hbelow (heq ▸ hk)⟩
  · rw [hcur, if_neg Bool.false_ne_true, hwritten, List.tail_cons]
    have hascending := hpos.written_ascending
    rw [hwritten] at hascending
    have hfirst := (List.nodup_cons.mp hascending.nodup).1
    have hwrites : ∀ w, w ∈ it.transactionIt ↔ w = a ∨ w ∈ written := by
      intro w
      rw [hwritten, List.mem_cons]
    refine ⟨below, hpos.parentAt, hpos.head, ?_, fun w hw => hpos.written w ((hwrites w).mpr (.inr hw)),
      (List.pairwise_cons.mp hascending).2, hrest, fun k => ?_⟩
    · intro w hw k hk
      have hparent : parent.valid it.parentIt = true := by
        refine (h.valid_iff hpos.parentAt).mpr ?_
        rintro rfl
        cases hk
      rcases written with _ | ⟨w', written⟩
      · cases hw
      · obtain rfl := Option.some.inj hw
        simp only [afterDecideCur, decideCur, hparent, (hpos.head k hk).1]
    · rw [hleft, hpos.mem_iff, hwrites]
      constructor
      · rintro ⟨(heq | hw) | hk, hne⟩
        · exact absurd heq hne
        · exact .inl hw
        · exact .inr hk
      · rintro (hw | ⟨hk, hshows⟩)
        · exact ⟨.inl (.inr hw), fun heq => hfirst (heq ▸ hw)⟩
        · refine ⟨.inr ⟨hk, hshows⟩, ?_⟩
          rintro rfl
          rw [hpos.written k ((hwrites k).mpr (.inl rfl))] at hshows
          cases hshows

omit h in
theorem hides_of_written {k : Key} (hk : k ∈ t.writes.keys) : t.hides k = true := by
  rw [ExtTreeMap.mem_keys, ExtTreeMap.mem_iff_isSome_getElem?] at hk
  rw [CDBTransaction.hides, hk, Bool.or_true]

/-- An iterator over a transaction walks over the keys that are written or show through. -/
theorem walks_iterator {keys : List Key} (hlive : Ascending keys)
    (hmem : ∀ k, k ∈ keys ↔ t.writes[k]?.isSome = true ∨ k ∈ parentKeys ∧ t.hides k = false) :
    Walks (t.iterator parent) keys (StandsBefore At t) where
  valid_iff hat := by
    obtain ⟨below, hpos⟩ := hat
    exact hpos.valid_iff h t
  getKey hat := by
    obtain ⟨below, hpos⟩ := hat
    exact hpos.getKey h t
  next hat := by
    obtain ⟨below, hpos⟩ := hat
    exact hpos.next h t
  ascending hat := by
    obtain ⟨below, hpos⟩ := hat
    exact hpos.ascending
  seek it k := by
    have hwrites := ascending_keys t.writes
    have hhides : ∀ w ∈ onward k t.writes.keys, t.hides w = true :=
      fun w hw => hides_of_written t (List.mem_of_mem_filter hw)
    have hmem' : ∀ a, a ∈ onward k keys ↔
        a ∈ onward k t.writes.keys ∨ a ∈ onward k parentKeys ∧ t.hides a = false := by
      intro a
      simp only [onward, List.mem_filter, hmem, ExtTreeMap.mem_keys,
        ExtTreeMap.mem_iff_isSome_getElem?]
      tauto
    have hpos := position_of_skip h t (h.seek it.parentIt k) it.parentKey it.curIsParent
      hhides (hwrites.onward k) (hlive.onward k) hmem'
    rw [← dropWhile_eq_onward hwrites k] at hpos
    exact hpos
  seekToFirst it := by
    refine position_of_skip h t (h.seekToFirst it.parentIt) it.parentKey it.curIsParent
      (fun w hw => hides_of_written t hw) (ascending_keys t.writes) hlive fun k => ?_
    rw [hmem, ExtTreeMap.mem_keys, ExtTreeMap.mem_iff_isSome_getElem?]

end BabaChain.DbWrapper
