import Mathlib.Data.List.TakeWhile
import Mathlib.Tactic

/-! Sets of 64-bit numbers kept as ranges, each with the number that follows its
last. -/
namespace BabaChain

structure CRangesSet.Range where
  begin : UInt64
  end_ : UInt64
deriving DecidableEq, Repr

/-- `operator<` of ranges. -/
def CRangesSet.Range.less (a b : CRangesSet.Range) : Bool :=
  if a.begin ≠ b.begin then decide (a.begin < b.begin) else decide (a.end_ < b.end_)

/-- The ranges in the order of the `std::set` that holds them. -/
structure CRangesSet where
  ranges : List CRangesSet.Range := []
deriving DecidableEq, Repr

namespace CRangesSet

/-- `std::set::insert`: whether the range was new, and the ranges after. -/
def insertRange (r : Range) : List Range → Bool × List Range
  | [] => (true, [r])
  | a :: l =>
    if r.less a then (true, r :: a :: l)
    else if a.less r then ((insertRange r l).1, a :: (insertRange r l).2)
    else (false, a :: l)

/-- The ranges before `lower_bound({value, value})`. -/
def before (s : CRangesSet) (value : UInt64) : List Range :=
  s.ranges.takeWhile fun r => r.less ⟨value, value⟩

/-- The ranges from `lower_bound({value, value})` on. -/
def after (s : CRangesSet) (value : UInt64) : List Range :=
  s.ranges.dropWhile fun r => r.less ⟨value, value⟩

def isEmpty (s : CRangesSet) : Bool := s.ranges.isEmpty

/-- `Contains`. -/
def contains (s : CRangesSet) (value : UInt64) : Bool :=
  if (s.after value).head?.any fun it => it.begin = value then
    true
  else
    (s.before value).getLast?.any fun prev => prev.begin ≤ value ∧ value < prev.end_

/-- The new range of `Add` and what is left before it, once the range that ends
at the value is taken in. -/
def mergePrev (value : UInt64) (before : List Range) : UInt64 × List Range :=
  match before.getLast? with
  | none => (value, before)
  | some prev => if prev.end_ = value then (prev.begin, before.dropLast) else (value, before)

/-- The end of the new range and what is left after it, once the range that
begins behind the value is taken in. -/
def mergeNext (value : UInt64) : List Range → UInt64 × List Range
  | [] => (value+1, [])
  | next :: rest => if next.begin = value+1 then (next.end_, rest) else (value+1, next :: rest)

/-- `Add`. There is no result when the last assertion fails. -/
def add (s : CRangesSet) (value : UInt64) : Option (Bool × CRangesSet) :=
  if s.contains value then
    some (false, s)
  else
    let (begin, before) := mergePrev value (s.before value)
    let (end_, after) := mergeNext value (s.after value)
    let (second, ranges) := insertRange ⟨begin, end_⟩ (before++after)
    if second then some (true, ⟨ranges⟩) else none

/-- A number lies in one of the ranges. -/
def Covers (l : List Range) (v : UInt64) : Prop := ∃ r ∈ l, r.begin ≤ v ∧ v < r.end_

/-- The numbers that a set of ranges stands for. -/
def members (s : CRangesSet) : Set UInt64 := {v | Covers s.ranges v}

/-- No range is empty, and between two ranges there is a gap. -/
structure Separated (s : CRangesSet) : Prop where
  nonempty : ∀ r ∈ s.ranges, r.begin < r.end_
  apart : s.ranges.Pairwise fun a b => a.end_ < b.begin

theorem separated_empty : Separated {} := ⟨fun _ h => absurd h List.not_mem_nil, List.Pairwise.nil⟩

theorem members_empty : members {} = ∅ := by
  ext v
  simp only [members, Covers, List.not_mem_nil, false_and, exists_false, Set.ofPred_false,
    Set.mem_empty_iff_false]

variable {s : CRangesSet} {value : UInt64}

theorem before_append_after (s : CRangesSet) (value : UInt64) :
    s.before value++s.after value = s.ranges :=
  List.takeWhile_append_dropWhile

theorem less_iff {a b : Range} :
    a.less b = true ↔ a.begin < b.begin ∨ (a.begin = b.begin ∧ a.end_ < b.end_) := by
  unfold Range.less
  by_cases h : a.begin = b.begin
  · rw [if_neg (not_not.mpr h), decide_eq_true_iff]
    lia
  · rw [if_pos h, decide_eq_true_iff]
    simp only [h, false_and, or_false]

/-- The ranges before the lower bound begin before the value. -/
theorem begin_lt_of_mem_before (h : Separated s) {r : Range} (hr : r ∈ s.before value) :
    r.begin < value := by
  have hless : r.less ⟨value, value⟩ = true :=
    List.mem_takeWhile_imp (p := fun r : Range => r.less ⟨value, value⟩) hr
  have hmem : r ∈ s.ranges := by
    rw [← before_append_after s value]
    exact List.mem_append_left _ hr
  have hpos := h.nonempty r hmem
  have hkey := less_iff.mp hless
  dsimp only at hkey
  lia

/-- Those from it on begin at the value or behind it. -/
theorem le_begin_of_mem_after (h : Separated s) {r : Range} (hr : r ∈ s.after value) :
    value ≤ r.begin := by
  have hsub : ∀ r ∈ s.after value, r ∈ s.ranges := fun r hr => by
    rw [← before_append_after s value]
    exact List.mem_append_right _ hr
  have hapart : (s.after value).Pairwise fun a b => a.end_ < b.begin :=
    h.apart.sublist (List.dropWhile_sublist _)
  cases hafter : s.after value with
  | nil =>
    rw [hafter] at hr
    exact absurd hr List.not_mem_nil
  | cons next rest =>
    -- the first one is not less than the key, the others begin later still
    have hnot : next.less ⟨value, value⟩ ≠ true := by
      have hhead := List.head?_dropWhile_not (fun r : Range => r.less ⟨value, value⟩) s.ranges
      rw [show s.ranges.dropWhile (fun r => r.less ⟨value, value⟩) = next :: rest from hafter]
        at hhead
      simpa using hhead
    have hnext : value ≤ next.begin := by
      rw [ne_eq, less_iff] at hnot
      dsimp only at hnot
      lia
    rw [hafter] at hr hapart hsub
    rcases List.mem_cons.mp hr with rfl | hr
    · exact hnext
    · have hlt := List.rel_of_pairwise_cons hapart hr
      have hpos := h.nonempty next (hsub next List.mem_cons_self)
      lia

/-- The last range before the value ends last of those before it. -/
theorem end_le_of_mem_before (h : Separated s) {prev r : Range}
    (hprev : (s.before value).getLast? = some prev) (hr : r ∈ s.before value) :
    r = prev ∨ r.end_ < prev.begin := by
  obtain ⟨init, hinit⟩ := List.getLast?_eq_some_iff.mp hprev
  have hapart : (s.before value).Pairwise fun a b => a.end_ < b.begin :=
    h.apart.sublist (List.takeWhile_sublist _)
  rw [hinit] at hr hapart
  rcases List.mem_append.mp hr with hr | hr
  · exact .inr ((List.pairwise_append.mp hapart).2.2 r hr prev List.mem_cons_self)
  · exact .inl (List.mem_singleton.mp hr)

theorem mem_ranges_iff (value : UInt64) {r : Range} :
    r ∈ s.ranges ↔ r ∈ s.before value ∨ r ∈ s.after value := by
  rw [← List.mem_append, before_append_after s value]

/-- A number that `Contains` denies lies in a gap: the ranges before it end at it
or earlier, the others begin later. -/
theorem gap_of_not_contains (h : Separated s) (hc : s.contains value = false) :
    (∀ r ∈ s.before value, r.end_ ≤ value) ∧ ∀ r ∈ s.after value, value < r.begin := by
  unfold contains at hc
  split at hc
  · contradiction
  · next hhead =>
    constructor
    · intro r hr
      cases hlast : (s.before value).getLast? with
      | none =>
        rw [List.getLast?_eq_none_iff.mp hlast] at hr
        exact absurd hr List.not_mem_nil
      | some prev =>
        have hmem := List.mem_of_getLast? hlast
        have hlt := begin_lt_of_mem_before h hmem
        have hle : prev.end_ ≤ value := by
          rw [hlast, Option.any_some, decide_eq_false_iff_not] at hc
          lia
        rcases end_le_of_mem_before h hlast hr with rfl | hr
        · exact hle
        · lia
    · intro r hr
      have hle := le_begin_of_mem_after h hr
      cases hafter : s.after value with
      | nil =>
        rw [hafter] at hr
        exact absurd hr List.not_mem_nil
      | cons next rest =>
        have hnext : next.begin ≠ value := by
          rw [hafter, List.head?_cons, Option.any_some, decide_eq_true_iff] at hhead
          exact hhead
        have hmem : next ∈ s.after value := hafter ▸ List.mem_cons_self
        have hle' := le_begin_of_mem_after h hmem
        have hpos := h.nonempty next ((mem_ranges_iff value).mpr (.inr hmem))
        rw [hafter] at hr
        rcases List.mem_cons.mp hr with rfl | hr
        · lia
        · have hapart : (s.after value).Pairwise fun a b => a.end_ < b.begin :=
            h.apart.sublist (List.dropWhile_sublist _)
          rw [hafter] at hapart
          have hlt := List.rel_of_pairwise_cons hapart hr
          lia

/-- While the ranges are separated, `Contains` answers for the numbers that they
stand for. -/
theorem contains_iff (h : Separated s) : s.contains value = true ↔ value ∈ s.members := by
  constructor
  · intro hc
    unfold contains at hc
    split at hc
    · next hhead =>
      obtain ⟨it, hit, hbegin⟩ := (Option.any_eq_true _ _).mp hhead
      have hmem : it ∈ s.ranges := (mem_ranges_iff value).mpr (.inr (List.mem_of_head? hit))
      have hpos := h.nonempty it hmem
      have heq := of_decide_eq_true hbegin
      exact ⟨it, hmem, by lia, by lia⟩
    · obtain ⟨prev, hprev, hin⟩ := (Option.any_eq_true _ _).mp hc
      have hmem : prev ∈ s.ranges := (mem_ranges_iff value).mpr (.inl (List.mem_of_getLast? hprev))
      exact ⟨prev, hmem, of_decide_eq_true hin⟩
  · rintro ⟨r, hr, hle, hlt⟩
    by_contra hc
    obtain ⟨hbefore, hafter⟩ := gap_of_not_contains h (Bool.not_eq_true _ ▸ hc)
    rcases (mem_ranges_iff value).mp hr with hr | hr
    · have hend := hbefore r hr
      lia
    · have hbegin := hafter r hr
      lia

/-- A range that belongs between two lists of ranges is inserted there. -/
theorem insertRange_between {r : Range} {l m : List Range} (hl : ∀ a ∈ l, a.begin < r.begin)
    (hm : ∀ a ∈ m, r.begin < a.begin) : insertRange r (l++m) = (true, l++r :: m) := by
  induction l with
  | nil =>
    cases m with
    | nil => rfl
    | cons a m =>
      have hless : r.less a = true := less_iff.mpr (.inl (hm a List.mem_cons_self))
      rw [List.nil_append, insertRange, if_pos hless, List.nil_append]
  | cons a l ih =>
    have hlt := hl a List.mem_cons_self
    have hless : a.less r = true := less_iff.mpr (.inl hlt)
    have hnot : ¬r.less a = true := fun h => by
      have hkey := less_iff.mp h
      lia
    rw [List.cons_append, insertRange, if_neg hnot, if_pos hless,
      ih fun b hb => hl b (List.mem_cons_of_mem a hb), List.cons_append]

theorem covers_append {l m : List Range} {v : UInt64} :
    Covers (l++m) v ↔ Covers l v ∨ Covers m v := by
  simp only [Covers, List.mem_append, or_and_right, exists_or]

theorem covers_cons {r : Range} {l : List Range} {v : UInt64} :
    Covers (r :: l) v ↔ (r.begin ≤ v ∧ v < r.end_) ∨ Covers l v := by
  simp only [Covers, List.mem_cons, or_and_right, exists_or, exists_eq_left]

/-- The new range takes in the one that ends at the value, and keeps a gap to the
others before it. -/
theorem mergePrev_spec (h : Separated s) (hc : s.contains value = false) :
    (mergePrev value (s.before value)).1 ≤ value ∧
      (mergePrev value (s.before value)).2.Sublist (s.before value) ∧
      (∀ r ∈ (mergePrev value (s.before value)).2, r.end_ < (mergePrev value (s.before value)).1) ∧
      ∀ v, Covers (s.before value) v ↔ Covers (mergePrev value (s.before value)).2 v ∨
        ((mergePrev value (s.before value)).1 ≤ v ∧ v < value) := by
  have hend := (gap_of_not_contains h hc).1
  have hself : ∀ v, ¬(value ≤ v ∧ v < value) := fun v hv => by lia
  unfold mergePrev
  cases hlast : (s.before value).getLast? with
  | none =>
    rw [List.getLast?_eq_none_iff.mp hlast]
    refine ⟨by lia, .refl _, fun r hr => absurd hr List.not_mem_nil, fun v => ?_⟩
    simp only [hself, or_false]
  | some prev =>
    obtain ⟨init, hinit⟩ := List.getLast?_eq_some_iff.mp hlast
    have hmem := List.mem_of_getLast? hlast
    have hlt := begin_lt_of_mem_before h hmem
    dsimp only
    by_cases hprev : prev.end_ = value
    · -- the last range before the value ends at it
      rw [if_pos hprev]
      have hdrop : (s.before value).dropLast = init := by
        rw [hinit, List.dropLast_concat]
      have hinitLt : ∀ r ∈ init, r.end_ < prev.begin := fun r hr => by
        have hapart : (s.before value).Pairwise fun a b => a.end_ < b.begin :=
          h.apart.sublist (List.takeWhile_sublist _)
        rw [hinit] at hapart
        exact (List.pairwise_append.mp hapart).2.2 r hr prev List.mem_cons_self
      refine ⟨by lia, List.dropLast_sublist _, fun r hr => hinitLt r (hdrop ▸ hr), fun v => ?_⟩
      rw [hdrop, hinit, covers_append, covers_cons, ← hprev]
      simp only [Covers, List.not_mem_nil, false_and, exists_false, or_false]
    · rw [if_neg hprev]
      refine ⟨by lia, .refl _, fun r hr => ?_, fun v => by simp only [hself, or_false]⟩
      have hle := hend r hr
      have hle' := hend prev hmem
      rcases end_le_of_mem_before h hlast hr with rfl | hr
      · lia
      · lia

/-- The new range takes in the one that begins behind the value, and keeps a gap to
the others after it. -/
theorem mergeNext_spec (h : Separated s) (hc : s.contains value = false)
    (hmax : value ≠ 0xffffffffffffffff) :
    value < (mergeNext value (s.after value)).1 ∧
      (mergeNext value (s.after value)).2.Sublist (s.after value) ∧
      (∀ r ∈ (mergeNext value (s.after value)).2, (mergeNext value (s.after value)).1 < r.begin) ∧
      ∀ v, Covers (s.after value) v ↔ Covers (mergeNext value (s.after value)).2 v ∨
        (value < v ∧ v < (mergeNext value (s.after value)).1) := by
  have hbegin := (gap_of_not_contains h hc).2
  have hapart : (s.after value).Pairwise fun a b => a.end_ < b.begin :=
    h.apart.sublist (List.dropWhile_sublist _)
  have hself : ∀ v, ¬(value < v ∧ v < value+1) := fun v hv => by lia
  have hpos : ∀ r ∈ s.after value, r.begin < r.end_ := fun r hr =>
    h.nonempty r ((mem_ranges_iff value).mpr (.inr hr))
  cases hafter : s.after value with
  | nil =>
    rw [mergeNext]
    refine ⟨by lia, .refl _, fun r hr => absurd hr List.not_mem_nil, fun v => ?_⟩
    simp only [hself, or_false]
  | cons next rest =>
    rw [hafter] at hbegin hapart hpos
    have hnext := hbegin next List.mem_cons_self
    have hnextPos := hpos next List.mem_cons_self
    rw [mergeNext]
    by_cases heq : next.begin = value+1
    · rw [if_pos heq]
      refine ⟨by lia, List.sublist_cons_self next rest,
        fun r hr => List.rel_of_pairwise_cons hapart hr, fun v => ?_⟩
      rw [covers_cons, or_comm]
      exact or_congr_right (by lia)
    · rw [if_neg heq]
      refine ⟨by lia, .refl _, fun r hr => ?_, fun v => by simp only [hself, or_false]⟩
      rcases List.mem_cons.mp hr with rfl | hr
      · lia
      · have hlt := List.rel_of_pairwise_cons hapart hr
        lia

/-- `Add` puts a new number into the set, except the greatest one: the number that
would follow it wraps around. -/
theorem add_spec (h : Separated s) (hmax : value ≠ 0xffffffffffffffff)
    (hnew : value ∉ s.members) :
    ∃ s', s.add value = some (true, s') ∧ Separated s' ∧ s'.members = insert value s.members := by
  have hc : s.contains value = false := by
    rw [← Bool.not_eq_true, contains_iff h]
    exact hnew
  obtain ⟨hb, hsubB, hgapB, hcovB⟩ := mergePrev_spec h hc
  obtain ⟨he, hsubA, hgapA, hcovA⟩ := mergeNext_spec h hc hmax
  have hbefore : ∀ r ∈ s.before value, r.begin < r.end_ := fun r hr =>
    h.nonempty r ((mem_ranges_iff value).mpr (.inl hr))
  have hafter : ∀ r ∈ s.after value, r.begin < r.end_ := fun r hr =>
    h.nonempty r ((mem_ranges_iff value).mpr (.inr hr))
  have happend : s.ranges = s.before value++s.after value := (before_append_after s value).symm
  unfold add
  rw [if_neg (by rw [hc]; exact Bool.noConfusion)]
  generalize mergePrev value (s.before value) = p at hb hsubB hgapB hcovB ⊢
  generalize mergeNext value (s.after value) = n at he hsubA hgapA hcovA ⊢
  obtain ⟨begin, l⟩ := p
  obtain ⟨end_, m⟩ := n
  dsimp only at hb hsubB hgapB hcovB he hsubA hgapA hcovA ⊢
  have hl : ∀ a ∈ l, a.begin < begin := fun a ha => by
    have h₁ := hgapB a ha
    have h₂ := hbefore a (hsubB.subset ha)
    lia
  have hm : ∀ a ∈ m, begin < a.begin := fun a ha => by
    have h₁ := hgapA a ha
    lia
  rw [insertRange_between (r := ⟨begin, end_⟩) hl hm, if_pos rfl]
  refine ⟨_, rfl, ⟨fun r hr => ?_, ?_⟩, ?_⟩
  · rcases List.mem_append.mp hr with hr | hr
    · exact hbefore r (hsubB.subset hr)
    · rcases List.mem_cons.mp hr with rfl | hr
      · dsimp only
        lia
      · exact hafter r (hsubA.subset hr)
  · have hapart := h.apart
    rw [happend, List.pairwise_append] at hapart
    rw [List.pairwise_append, List.pairwise_cons]
    refine ⟨hapart.1.sublist hsubB, ⟨hgapA, hapart.2.1.sublist hsubA⟩, fun a ha b hb => ?_⟩
    have h₁ := hgapB a ha
    rcases List.mem_cons.mp hb with rfl | hb
    · exact h₁
    · have h₂ := hgapA b hb
      lia
  · ext v
    rw [Set.mem_insert_iff, members, members, Set.mem_ofPred_eq, Set.mem_ofPred_eq, happend,
      covers_append, covers_append, covers_cons, hcovB, hcovA]
    have hmid : (begin ≤ v ∧ v < end_) ↔
        v = value ∨ (begin ≤ v ∧ v < value) ∨ (value < v ∧ v < end_) := by lia
    rw [hmid]
    tauto

end CRangesSet

end BabaChain
