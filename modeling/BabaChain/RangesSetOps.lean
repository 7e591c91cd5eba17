import BabaChain.Lib.Refinement
import BabaChain.RangesSet
import Mathlib.Data.Fintype.Basic

/-! Sequences of operations on a set of ranges, beside the mathematical set. -/
namespace BabaChain.CRangesSet
open Refinement

/-- The range that `Remove` takes the value from, with the ranges before and after it. There is
no result when the first assertion fails. -/
def current (s : CRangesSet) (value : UInt64) : Option (List Range × Range × List Range) :=
  if (s.after value).head?.any fun it => it.begin = value then
    (s.after value).head?.map fun it => (s.before value, it, (s.after value).tail)
  else
    (s.before value).getLast?.map fun it => ((s.before value).dropLast, it, s.after value)

/-- `std::set::insert` and the assertion that the range was new. -/
def insertNew (r : Range) (ranges : List Range) : Option (List Range) :=
  if (insertRange r ranges).1 then some (insertRange r ranges).2 else none

/-- Puts back what is left of a range on one side of a removed value, if anything is. -/
def insertRest (begin end_ : UInt64) (ranges : List Range) : Option (List Range) :=
  if begin ≠ end_ then insertNew ⟨begin, end_⟩ ranges else some ranges

/-- `Remove`. -/
def remove (s : CRangesSet) (value : UInt64) : Option (Bool × CRangesSet) :=
  if !s.contains value then
    some (false, s)
  else do
    let (before, current_range, after) ← s.current value
    let ranges ← insertRest current_range.begin value (before++after)
    let ranges ← insertRest (value+1) current_range.end_ ranges
    return (true, ⟨ranges⟩)

/-- `Size`, a 64-bit sum. -/
def size (s : CRangesSet) : UInt64 :=
  s.ranges.foldl (fun result i => result+(i.end_-i.begin)) 0

inductive Op where
  | add (value : UInt64)
  | remove (value : UInt64)
deriving DecidableEq, Repr

def step (s : CRangesSet) : Op → Option (Bool × CRangesSet)
  | .add value => s.add value
  | .remove value => s.remove value

/-- The operation on the mathematical set, and whether it changes the set. -/
def setStep (t : Finset UInt64) : Op → Bool × Finset UInt64
  | .add value => (decide (value ∉ t), insert value t)
  | .remove value => (decide (value ∈ t), t.erase value)

/-- The queries answer for the mathematical set, and the ranges are not empty, in order, and
have gaps between them. -/
structure Shows (s : CRangesSet) (t : Finset UInt64) : Prop where
  separated : Separated s
  contains : ∀ v, s.contains v = decide (v ∈ t)
  isEmpty : s.isEmpty = decide (t = ∅)
  size : s.size.toNat = t.card

variable {s : CRangesSet} {value : UInt64} {t : Finset UInt64}

section Remove

theorem insertNew_between {r : Range} {l m : List Range} (hl : ∀ a ∈ l, a.begin < r.begin)
    (hm : ∀ a ∈ m, r.begin < a.begin) : insertNew r (l++m) = some (l++r :: m) := by
  rw [insertNew, insertRange_between hl hm, if_pos rfl]

/-- What is left of a range on one side of a removed value. -/
def piece (begin end_ : UInt64) : List Range := if begin ≠ end_ then [⟨begin, end_⟩] else []

theorem mem_piece {begin end_ : UInt64} {r : Range} (hr : r ∈ piece begin end_) :
    r.begin = begin ∧ r.end_ = end_ ∧ begin ≠ end_ := by
  unfold piece at hr
  split_ifs at hr with hne
  · cases List.mem_singleton.mp hr
    exact ⟨rfl, rfl, hne⟩
  · exact absurd hr List.not_mem_nil

theorem pairwise_piece (begin end_ : UInt64) :
    (piece begin end_).Pairwise fun a b => a.end_ < b.begin := by
  unfold piece
  split_ifs
  · exact List.pairwise_singleton _ _
  · exact List.Pairwise.nil

theorem covers_nil {v : UInt64} : ¬Covers [] v := by
  rintro ⟨r, hr, -⟩
  exact absurd hr List.not_mem_nil

theorem covers_piece {begin end_ v : UInt64} :
    Covers (piece begin end_) v ↔ begin ≤ v ∧ v < end_ := by
  unfold piece
  split_ifs with hne
  · rw [covers_cons, or_iff_left covers_nil]
  · refine iff_of_false covers_nil fun hv => ?_
    lia

theorem insertRest_eq {begin end_ : UInt64} {l m : List Range} (hl : ∀ a ∈ l, a.begin < begin)
    (hm : ∀ a ∈ m, begin < a.begin) :
    insertRest begin end_ (l++m) = some (l++piece begin end_++m) := by
  unfold insertRest piece
  split_ifs
  · rw [insertNew_between hl hm, List.append_assoc, List.singleton_append]
  · rw [List.append_nil]

/-- A value of the set lies in the range that is found for it. -/
theorem current_spec (hc : s.contains value = true) :
    ∃ l it m, s.current value = some (l, it, m) ∧ s.ranges = l++it :: m ∧ it.begin ≤ value ∧
      (it.begin = value ∨ value < it.end_) := by
  unfold contains at hc
  unfold current
  split_ifs at hc ⊢ with hhead
  · obtain ⟨it, hit, hbegin⟩ := (Option.any_eq_true _ _).mp hhead
    have hafter := List.eq_cons_of_mem_head? hit
    have heq : it.begin = value := of_decide_eq_true hbegin
    refine ⟨s.before value, it, (s.after value).tail, ?_, ?_, by lia, Or.inl heq⟩
    · rw [Option.mem_def.mp hit, Option.map_some]
    · rw [← hafter, before_append_after]
  · obtain ⟨it, hit, hin⟩ := (Option.any_eq_true _ _).mp hc
    obtain ⟨hle, hlt⟩ := of_decide_eq_true hin
    obtain ⟨init, hinit⟩ := List.getLast?_eq_some_iff.mp hit
    refine ⟨(s.before value).dropLast, it, s.after value, ?_, ?_, hle, Or.inr hlt⟩
    · rw [Option.mem_def.mp hit, Option.map_some]
    · rw [hinit, List.dropLast_concat, ← before_append_after s value, hinit, List.append_assoc,
        List.singleton_append]

/-- `Remove` replaces the range of a number of the set by what is left of it. -/
theorem remove_eq (h : Separated s) (hmem : value ∈ s.members) :
    ∃ l it m, s.ranges = l++it :: m ∧ it.begin ≤ value ∧ value < it.end_ ∧
      s.remove value =
        some (true, ⟨l++piece it.begin value++piece (value+1) it.end_++m⟩) := by
  have hc := (contains_iff h).mpr hmem
  obtain ⟨l, it, m, hcurrent, hranges, hle, hlt⟩ := current_spec hc
  have hnonempty := h.nonempty
  have hapart := h.apart
  rw [hranges, List.pairwise_append, List.pairwise_cons] at hapart
  obtain ⟨-, ⟨hitm, -⟩, hlm⟩ := hapart
  rw [hranges] at hnonempty
  have hit := hnonempty it (List.mem_append_right l List.mem_cons_self)
  have hvalue : value < it.end_ := by
    rcases hlt with hbegin | hlt
    · lia
    · exact hlt
  have hl : ∀ a ∈ l, a.begin < it.begin := fun a ha => by
    have h₁ := hlm a ha it List.mem_cons_self
    have h₂ := hnonempty a (List.mem_append_left _ ha)
    lia
  have hm : ∀ a ∈ m, it.end_ < a.begin := hitm
  have hfirst : insertRest it.begin value (l++m) = some (l++piece it.begin value++m) := by
    apply insertRest_eq hl
    intro a ha
    have h₁ := hm a ha
    lia
  have hsecond : insertRest (value+1) it.end_ (l++piece it.begin value++m) =
      some (l++piece it.begin value++piece (value+1) it.end_++m) := by
    apply insertRest_eq
    · intro a ha
      rcases List.mem_append.mp ha with ha | ha
      · have h₁ := hl a ha
        lia
      · have h₁ := (mem_piece ha).1
        lia
    · intro a ha
      have h₁ := hm a ha
      lia
  refine ⟨l, it, m, hranges, hle, hvalue, ?_⟩
  unfold remove
  rw [hc, Bool.not_true, if_neg Bool.false_ne_true, hcurrent]
  dsimp only [Option.bind_eq_bind, Option.bind_some]
  rw [hfirst, Option.bind_some, hsecond]
  rfl

/-- `Remove` takes a number of the set out of it. -/
theorem remove_spec (h : Separated s) (hmem : value ∈ s.members) :
    ∃ s', s.remove value = some (true, s') ∧ Separated s' ∧ s'.members = s.members \ {value} := by
  obtain ⟨l, it, m, hranges, hle, hvalue, hremove⟩ := remove_eq h hmem
  have hnonempty := h.nonempty
  have hapart := h.apart
  rw [hranges] at hnonempty hapart
  rw [List.pairwise_append, List.pairwise_cons] at hapart
  obtain ⟨hl, ⟨hitm, hm⟩, hlm⟩ := hapart
  have hlit : ∀ a ∈ l, a.end_ < it.begin := fun a ha => hlm a ha it List.mem_cons_self
  refine ⟨_, hremove, ⟨?_, ?_⟩, ?_⟩
  · intro r hr
    simp only [List.mem_append] at hr
    rcases hr with ((hr | hr) | hr) | hr
    · exact hnonempty r (List.mem_append_left _ hr)
    · obtain ⟨h₁, h₂, hne⟩ := mem_piece hr
      lia
    · obtain ⟨h₁, h₂, hne⟩ := mem_piece hr
      lia
    · exact hnonempty r (List.mem_append_right _ (List.mem_cons_of_mem it hr))
  · simp only [List.pairwise_append, List.mem_append]
    refine ⟨⟨⟨hl, pairwise_piece _ _, ?_⟩, pairwise_piece _ _, ?_⟩, hm, ?_⟩
    · intro a ha b hb
      have h₁ := hlit a ha
      have h₂ := (mem_piece hb).1
      lia
    · rintro a (ha | ha) b hb
      · have h₁ := hlit a ha
        have h₂ := (mem_piece hb).1
        lia
      · have h₁ := (mem_piece ha).2.1
        have h₂ := (mem_piece hb).1
        lia
    · rintro a ((ha | ha) | ha) b hb
      · have h₁ := hlit a ha
        have h₂ := hitm b hb
        lia
      · have h₁ := (mem_piece ha).2.1
        have h₂ := hitm b hb
        lia
      · have h₁ := (mem_piece ha).2.1
        have h₂ := hitm b hb
        lia
  · have hnotl : ¬Covers l value := by
      rintro ⟨a, ha, -, h₁⟩
      have h₂ := hlit a ha
      lia
    have hnotm : ¬Covers m value := by
      rintro ⟨a, ha, h₁, -⟩
      have h₂ := hitm a ha
      lia
    ext v
    rw [Set.mem_sdiff, Set.mem_singleton_iff, members, members, Set.mem_ofPred_eq,
      Set.mem_ofPred_eq, hranges, covers_append, covers_append, covers_append, covers_append,
      covers_cons, covers_piece, covers_piece]
    have hmid : (it.begin ≤ v ∧ v < it.end_) ∧ v ≠ value ↔
        (it.begin ≤ v ∧ v < value) ∨ (value+1 ≤ v ∧ v < it.end_) := by lia
    have hself : v = value → ¬Covers l v ∧ ¬Covers m v := by
      rintro rfl
      exact ⟨hnotl, hnotm⟩
    by_cases hv : v = value
    · refine iff_of_false ?_ fun h => h.2 hv
      rintro (((hl | hpiece) | hpiece) | hm)
      · exact (hself hv).1 hl
      · exact (hmid.mpr (Or.inl hpiece)).2 hv
      · exact (hmid.mpr (Or.inr hpiece)).2 hv
      · exact (hself hv).2 hm
    · rw [and_iff_left hv, ← or_assoc]
      refine or_congr_left (or_assoc.trans (or_congr_right ?_))
      rw [← hmid]
      exact and_iff_left hv

end Remove

section Size

/-- The numbers that the ranges hold, counted without a bound. -/
def total (l : List Range) : ℕ := (l.map fun r => r.end_.toNat-r.begin.toNat).sum

theorem total_cons (r : Range) (l : List Range) :
    total (r :: l) = r.end_.toNat-r.begin.toNat+total l :=
  rfl

/-- Ranges with gaps between them fit behind any number that none of them begins before. -/
theorem total_add_le {l : List Range} (hpos : ∀ r ∈ l, r.begin < r.end_)
    (hapart : l.Pairwise fun a b => a.end_ < b.begin) {b : UInt64} (hb : ∀ r ∈ l, b ≤ r.begin) :
    total l+b.toNat < 2^64 := by
  induction l generalizing b with
  | nil =>
    have hlt := b.toNat_lt
    rw [total, List.map_nil, List.sum_nil]
    omega
  | cons r l ih =>
    rw [List.forall_mem_cons] at hpos hb
    rw [List.pairwise_cons] at hapart
    have hrest : ∀ a ∈ l, r.end_ ≤ a.begin := fun a ha => by
      have h₁ := hapart.1 a ha
      lia
    have hle := ih hpos.2 hapart.2 hrest
    have h₁ := UInt64.le_iff_toNat_le.mp hb.1
    have h₂ := UInt64.lt_iff_toNat_lt.mp hpos.1
    rw [total_cons]
    omega

theorem foldl_size {l : List Range} (hpos : ∀ r ∈ l, r.begin < r.end_) (n : UInt64)
    (hfits : n.toNat+total l < 2^64) :
    (l.foldl (fun result i => result+(i.end_-i.begin)) n).toNat = n.toNat+total l := by
  induction l generalizing n with
  | nil => rfl
  | cons r l ih =>
    rw [List.forall_mem_cons] at hpos
    rw [total_cons] at hfits ⊢
    have hle : r.begin ≤ r.end_ := by
      have h₁ := hpos.1
      lia
    have hsub : (r.end_-r.begin).toNat = r.end_.toNat-r.begin.toNat :=
      UInt64.toNat_sub_of_le _ _ hle
    have hadd : (n+(r.end_-r.begin)).toNat = n.toNat+(r.end_.toNat-r.begin.toNat) := by
      rw [UInt64.toNat_add, hsub, Nat.mod_eq_of_lt (by omega)]
    rw [List.foldl_cons, ih hpos.2 _ (by omega), hadd, Nat.add_assoc]

/-- As many numbers lie in a range as its bounds are apart. -/
theorem card_range {t : Finset UInt64} {r : Range} (ht : ∀ v, v ∈ t ↔ r.begin ≤ v ∧ v < r.end_) :
    t.card = r.end_.toNat-r.begin.toNat := by
  have himage : t.map ⟨UInt64.toNat, fun _ _ => UInt64.toNat_inj.mp⟩ =
      Finset.Ico r.begin.toNat r.end_.toNat := by
    ext n
    simp only [Finset.mem_map, Finset.mem_Ico]
    constructor
    · rintro ⟨v, hv, rfl⟩
      obtain ⟨hle, hlt⟩ := (ht v).mp hv
      exact ⟨UInt64.le_iff_toNat_le.mp hle, UInt64.lt_iff_toNat_lt.mp hlt⟩
    · rintro ⟨hle, hlt⟩
      have hn : (UInt64.ofNat n).toNat = n := by
        rw [UInt64.toNat_ofNat']
        exact Nat.mod_eq_of_lt (hlt.trans r.end_.toNat_lt)
      refine ⟨UInt64.ofNat n, (ht _).mpr ⟨?_, ?_⟩, hn⟩
      · rw [UInt64.le_iff_toNat_le, hn]
        exact hle
      · rw [UInt64.lt_iff_toNat_lt, hn]
        exact hlt
  rw [← Finset.card_map, himage, Nat.card_Ico]

theorem card_eq_total {l : List Range} (hapart : l.Pairwise fun a b => a.end_ < b.begin)
    (hpos : ∀ r ∈ l, r.begin < r.end_) {t : Finset UInt64} (ht : ∀ v, v ∈ t ↔ Covers l v) :
    t.card = total l := by
  induction l generalizing t with
  | nil =>
    have hempty : t = ∅ := Finset.eq_empty_of_forall_notMem fun v hv => covers_nil ((ht v).mp hv)
    rw [hempty]
    rfl
  | cons r l ih =>
    rw [List.pairwise_cons] at hapart
    rw [List.forall_mem_cons] at hpos
    -- the numbers before the end of the first range lie in it, the others in the rest
    have hfirst : ∀ v, v ∈ t.filter (· < r.end_) ↔ r.begin ≤ v ∧ v < r.end_ := by
      intro v
      rw [Finset.mem_filter, ht, covers_cons]
      constructor
      · rintro ⟨hv | ⟨a, ha, hle, -⟩, hlt⟩
        · exact hv
        · have h₁ := hapart.1 a ha
          lia
      · exact fun hv => ⟨Or.inl hv, hv.2⟩
    have hrest : ∀ v, v ∈ t.filter (¬· < r.end_) ↔ Covers l v := by
      intro v
      rw [Finset.mem_filter, ht, covers_cons]
      constructor
      · rintro ⟨hv | hv, hnot⟩
        · exact absurd hv.2 hnot
        · exact hv
      · rintro ⟨a, ha, hle, hlt⟩
        have h₁ := hapart.1 a ha
        exact ⟨Or.inr ⟨a, ha, hle, hlt⟩, by lia⟩
    rw [← Finset.card_filter_add_card_filter_not (· < r.end_), card_range hfirst,
      ih hapart.2 hpos.2 hrest, total_cons]

end Size

section Canonical

variable {r r' : Range} {l l' : List Range}

theorem first_begin_le (hpos : r.begin < r.end_) (hpos' : r'.begin < r'.end_)
    (hapart' : ∀ a ∈ l', r'.end_ < a.begin) (h : ∀ v, Covers (r :: l) v → Covers (r' :: l') v) :
    r'.begin ≤ r.begin := by
  have hcov := h r.begin (covers_cons.mpr (Or.inl ⟨by lia, hpos⟩))
  rcases covers_cons.mp hcov with hin | ⟨a, ha, hle, -⟩
  · exact hin.1
  · have h₁ := hapart' a ha
    lia

theorem first_end_le (hapart : ∀ a ∈ l, r.end_ < a.begin) (hpos : r.begin < r.end_)
    (hbegin : r'.begin = r.begin) (h : ∀ v, Covers (r' :: l') v → Covers (r :: l) v) :
    r'.end_ ≤ r.end_ := by
  by_contra hlt
  have hle : r'.begin ≤ r.end_ := hbegin ▸ UInt64.le_of_lt hpos
  have hcov := h r.end_ (covers_cons.mpr (Or.inl ⟨hle, by lia⟩))
  rcases covers_cons.mp hcov with hin | ⟨a, ha, hle, -⟩
  · lia
  · have h₁ := hapart a ha
    lia

theorem covers_rest (hapart : ∀ a ∈ l, r.end_ < a.begin) (v : UInt64) :
    Covers l v ↔ Covers (r :: l) v ∧ r.end_ ≤ v := by
  rw [covers_cons]
  constructor
  · rintro ⟨a, ha, hle, hlt⟩
    have h₁ := hapart a ha
    exact ⟨Or.inr ⟨a, ha, hle, hlt⟩, by lia⟩
  · rintro ⟨hin | hcov, hle⟩
    · lia
    · exact hcov

/-- Ranges with gaps between them that hold the same numbers are the same. -/
theorem ranges_eq_of_covers (hpos : ∀ r ∈ l, r.begin < r.end_)
    (hapart : l.Pairwise fun a b => a.end_ < b.begin) (hpos' : ∀ r ∈ l', r.begin < r.end_)
    (hapart' : l'.Pairwise fun a b => a.end_ < b.begin) (h : ∀ v, Covers l v ↔ Covers l' v) :
    l = l' := by
  induction l generalizing l' with
  | nil =>
    cases l' with
    | nil => rfl
    | cons r' l' =>
      rw [List.forall_mem_cons] at hpos'
      have hcov := (h r'.begin).mpr ⟨r', List.mem_cons_self, by lia, hpos'.1⟩
      exact absurd hcov covers_nil
  | cons r l ih =>
    rw [List.forall_mem_cons] at hpos
    cases l' with
    | nil =>
      have hcov := (h r.begin).mp ⟨r, List.mem_cons_self, by lia, hpos.1⟩
      exact absurd hcov covers_nil
    | cons r' l' =>
      rw [List.forall_mem_cons] at hpos'
      rw [List.pairwise_cons] at hapart hapart'
      have hfirst : r = r' := by
        have h₁ := first_begin_le hpos.1 hpos'.1 hapart'.1 fun v => (h v).mp
        have h₂ := first_begin_le hpos'.1 hpos.1 hapart.1 fun v => (h v).mpr
        have hbegin : r'.begin = r.begin := by lia
        have h₃ := first_end_le hapart.1 hpos.1 hbegin fun v => (h v).mpr
        have h₄ := first_end_le hapart'.1 hpos'.1 hbegin.symm fun v => (h v).mp
        cases r
        cases r'
        dsimp only at *
        rw [hbegin, UInt64.le_antisymm h₃ h₄]
      subst hfirst
      rw [ih hpos.2 hapart.2 hpos'.2 hapart'.2 fun v => ?_]
      rw [covers_rest hapart.1, covers_rest hapart'.1, h v]

/-- Equal sets have equal representations. -/
theorem Shows.canonical {s s' : CRangesSet} {t : Finset UInt64} (h : Shows s t) (h' : Shows s' t) :
    s = s' := by
  have hcov : ∀ v, Covers s.ranges v ↔ Covers s'.ranges v := fun v => by
    have h₁ := @contains_iff _ v h.separated
    have h₂ := @contains_iff _ v h'.separated
    rw [h.contains v] at h₁
    rw [h'.contains v] at h₂
    exact h₁.symm.trans h₂
  have hranges := ranges_eq_of_covers h.separated.nonempty h.separated.apart h'.separated.nonempty
    h'.separated.apart hcov
  cases s
  cases s'
  exact congrArg CRangesSet.mk hranges

end Canonical

section Steps

/-- Ranges that hold the numbers of a finite set answer every query for it. -/
theorem shows_of_members (h : Separated s) (hmem : ∀ v, v ∈ t ↔ v ∈ s.members) : Shows s t where
  separated := h
  contains v := by
    rw [Bool.eq_iff_iff, contains_iff h, decide_eq_true_iff, hmem]
  isEmpty := by
    rw [Bool.eq_iff_iff, decide_eq_true_iff, isEmpty, List.isEmpty_iff,
      Finset.eq_empty_iff_forall_notMem]
    constructor
    · intro hnil v hv
      obtain ⟨r, hr, -⟩ := (hmem v).mp hv
      rw [hnil] at hr
      exact absurd hr List.not_mem_nil
    · intro hnone
      rw [List.eq_nil_iff_forall_not_mem]
      intro r hr
      exact hnone r.begin ((hmem _).mpr ⟨r, hr, by lia, h.nonempty r hr⟩)
  size := by
    have htotal := total_add_le (b := 0) h.nonempty h.apart fun r _ => by lia
    have hsize := foldl_size h.nonempty 0 (by rw [Nat.add_comm]; exact htotal)
    rw [card_eq_total h.apart h.nonempty hmem, size, hsize]
    exact Nat.zero_add _

theorem Shows.mem_members (h : Shows s t) (v : UInt64) : v ∈ t ↔ v ∈ s.members := by
  rw [← contains_iff h.separated, h.contains, decide_eq_true_iff]

theorem shows_empty : Shows {} ∅ := by
  apply shows_of_members separated_empty
  intro v
  rw [members_empty]
  exact iff_of_false (Finset.notMem_empty v) (Set.notMem_empty v)

/-- Every operation but the addition of the greatest number does to the ranges what it does to
the set. -/
theorem step_shows (h : Shows s t) {op : Op} (hop : op ≠ .add 0xffffffffffffffff) :
    ∃ s', step s op = some ((setStep t op).1, s') ∧ Shows s' (setStep t op).2 := by
  cases op with
  | add value =>
    by_cases hmem : value ∈ t
    · have hc : s.contains value = true := (h.contains value).trans (decide_eq_true hmem)
      refine ⟨s, ?_, ?_⟩
      · rw [step, add, if_pos hc, setStep, decide_eq_false (not_not.mpr hmem)]
      · rw [setStep, Finset.insert_eq_of_mem hmem]
        exact h
    · have hnew : value ∉ s.members := fun hv => hmem ((h.mem_members value).mpr hv)
      obtain ⟨s', hs', hsep, hmembers⟩ :=
        add_spec h.separated (fun hmax => hop (congrArg Op.add hmax)) hnew
      refine ⟨s', ?_, shows_of_members hsep fun v => ?_⟩
      · rw [step, hs', setStep, decide_eq_true hmem]
      · rw [setStep, hmembers, Finset.mem_insert, Set.mem_insert_iff, h.mem_members]
  | remove value =>
    by_cases hmem : value ∈ t
    · obtain ⟨s', hs', hsep, hmembers⟩ :=
        remove_spec h.separated ((h.mem_members value).mp hmem)
      refine ⟨s', ?_, shows_of_members hsep fun v => ?_⟩
      · rw [step, hs', setStep, decide_eq_true hmem]
      · rw [setStep, hmembers, Finset.mem_erase, Set.mem_sdiff, Set.mem_singleton_iff,
          h.mem_members, and_comm]
    · have hc : s.contains value = false := (h.contains value).trans (decide_eq_false hmem)
      refine ⟨s, ?_, ?_⟩
      · rw [step, remove, hc, Bool.not_false, if_pos rfl, setStep, decide_eq_false hmem]
      · rw [setStep, Finset.erase_eq_of_notMem hmem]
        exact h

/-- `Contains` finds the greatest number in no range but the one that begins and ends at it. -/
theorem not_contains_max (hends : ∀ r ∈ s.ranges, r.begin ≠ 0xffffffffffffffff ∨
    r.end_ ≠ 0xffffffffffffffff) : s.contains 0xffffffffffffffff = false := by
  unfold contains
  rw [if_neg]
  · rw [Bool.eq_false_iff]
    intro hany
    obtain ⟨prev, -, hin⟩ := (Option.any_eq_true _ _).mp hany
    have hlt := (of_decide_eq_true hin).2
    lia
  · intro hany
    obtain ⟨it, hit, hbegin⟩ := (Option.any_eq_true _ _).mp hany
    have heq : it.begin = 0xffffffffffffffff := of_decide_eq_true hbegin
    have hmem : it ∈ s.ranges := (mem_ranges_iff _).mpr (Or.inr (List.mem_of_head? hit))
    have hnot : ¬it.less ⟨0xffffffffffffffff, 0xffffffffffffffff⟩ = true := by
      have hhead := List.head?_dropWhile_not
        (fun r : Range => r.less ⟨0xffffffffffffffff, 0xffffffffffffffff⟩) s.ranges
      rw [show s.ranges.dropWhile (fun r => r.less ⟨0xffffffffffffffff, 0xffffffffffffffff⟩) =
        s.after 0xffffffffffffffff from rfl, Option.mem_def.mp hit] at hhead
      simpa using hhead
    rw [less_iff] at hnot
    have hend := hends it hmem
    dsimp only at hnot
    lia

theorem mem_insertRange {r a : Range} {l : List Range} (ha : a ∈ (insertRange r l).2) :
    a = r ∨ a ∈ l := by
  induction l with
  | nil => exact Or.inl (List.mem_singleton.mp ha)
  | cons b l ih =>
    unfold insertRange at ha
    split_ifs at ha
    · exact List.mem_cons.mp ha
    · rcases List.mem_cons.mp ha with rfl | ha
      · exact Or.inr List.mem_cons_self
      · exact (ih ha).imp_right (List.mem_cons_of_mem b)
    · exact Or.inr ha

/-- The range that `Add` makes for the greatest number ends at zero, and the number is not
found. -/
theorem add_max_not_shown (h : Shows s t) {r : Bool × CRangesSet}
    (hr : s.add 0xffffffffffffffff = some r) : r.2.contains 0xffffffffffffffff = false := by
  have hsep := h.separated
  have hold : ∀ a ∈ s.ranges, a.begin ≠ 0xffffffffffffffff ∨ a.end_ ≠ 0xffffffffffffffff := by
    intro a ha
    have h₁ := hsep.nonempty a ha
    lia
  have hafter : s.after 0xffffffffffffffff = [] := by
    rw [List.eq_nil_iff_forall_not_mem]
    intro a ha
    have h₁ := le_begin_of_mem_after hsep ha
    have h₂ := hsep.nonempty a ((mem_ranges_iff _).mpr (Or.inr ha))
    lia
  unfold add at hr
  rw [not_contains_max hold, if_neg Bool.false_ne_true, hafter] at hr
  dsimp only [mergeNext] at hr
  split_ifs at hr
  cases hr
  apply not_contains_max
  intro a ha
  have hzero : (0xffffffffffffffff+1 : UInt64) ≠ 0xffffffffffffffff := by decide
  rcases mem_insertRange ha with rfl | ha
  · exact Or.inr hzero
  · apply hold
    have hsub : (mergePrev 0xffffffffffffffff (s.before 0xffffffffffffffff)).2.Sublist
        (s.before 0xffffffffffffffff) :=
      (mergePrev_spec hsep (not_contains_max hold)).2.1
    rw [List.append_nil] at ha
    exact (mem_ranges_iff _).mpr (Or.inl (hsub.subset ha))

/-- A sequence of operations on the empty ranges does to them what it does to the empty set,
without a failed assertion, exactly when it never adds the greatest number. Two such sequences
that make the same set make the same ranges. -/
theorem ranges_implement_set_iff (ops : List Op) :
    (Follows step setStep Shows {} ∅ ops ↔ ∀ op ∈ ops, op ≠ .add 0xffffffffffffffff) ∧
    ∀ ops' : List Op, Follows step setStep Shows {} ∅ ops →
      Follows step setStep Shows {} ∅ ops' →
      finalSpec setStep ∅ ops = finalSpec setStep ∅ ops' →
        final step {} ops = final step {} ops' := by
  constructor
  · apply follows_iff Shows (fun op : Op => op ≠ .add 0xffffffffffffffff) ?_ ?_ ?_ shows_empty
    · exact fun s t h => h
    · exact fun s t op h hop => step_shows h hop
    intro s t op h hop r hr hshows
    cases not_not.mp hop
    have hc := hshows.contains 0xffffffffffffffff
    rw [add_max_not_shown h hr, setStep, eq_comm, decide_eq_false_iff_not] at hc
    exact hc (Finset.mem_insert_self _ _)
  · intro ops' h h' heq
    obtain ⟨s, hs, hshows⟩ := h.final
    obtain ⟨s', hs', hshows'⟩ := h'.final
    rw [hs, hs', hshows.canonical (heq ▸ hshows')]

/-- The number two, added in two ways. -/
theorem ranges_implement_set_iff_two :
    Follows step setStep Shows {} ∅ [.add 1, .add 2, .remove 1] ∧
      final step {} [.add 1, .add 2, .remove 1] = final step {} [.add 2] := by
  have hlong := (ranges_implement_set_iff [.add 1, .add 2, .remove 1]).1.mpr (by decide)
  have hshort := (ranges_implement_set_iff [.add 2]).1.mpr (by decide)
  exact ⟨hlong, (ranges_implement_set_iff _).2 _ hlong hshort (by decide)⟩

/-- The greatest number is added to the empty ranges and not found. -/
theorem add_greatest_not_found :
    (({} : CRangesSet).add 0xffffffffffffffff = some (true, ⟨[⟨0xffffffffffffffff, 0⟩]⟩)) ∧
      (⟨[⟨0xffffffffffffffff, 0⟩]⟩ : CRangesSet).contains 0xffffffffffffffff = false ∧
      ¬∀ ops : List Op, Follows step setStep Shows {} ∅ ops := by
  refine ⟨by decide, by decide, fun h => ?_⟩
  obtain ⟨-, r, hr, -, hrest⟩ := h [.add 0xffffffffffffffff]
  have hc := hrest.contains 0xffffffffffffffff
  have hfound : r.2.contains 0xffffffffffffffff = false := add_max_not_shown shows_empty hr
  rw [hfound, setStep, eq_comm, decide_eq_false_iff_not] at hc
  exact hc (Finset.mem_insert_self _ _)

end Steps

end BabaChain.CRangesSet
