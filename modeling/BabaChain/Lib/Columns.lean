import Mathlib.Data.List.Sort
import Mathlib.Order.Lattice
import Mathlib.Tactic

/-! Rows that are listed column by column, and when listing a filtered part of the rows
continues such a list where it was cut. -/
namespace Columns

variable {α : Type*} {w d : ℕ} {rows : ℕ → List α}

/-- The entries of one rank, by row. -/
def column (w : ℕ) (rows : ℕ → List α) (rank : ℕ) : List α :=
  (List.range w).filterMap fun i => (rows i)[rank]?

def tails (rows : ℕ → List α) : ℕ → List α := fun i => (rows i).tail

/-- The first columns in turn. -/
def columns (w : ℕ) (rows : ℕ → List α) : ℕ → List α
  | 0 => []
  | d+1 => column w rows 0 ++ columns w (tails rows) d

/-- No row has an entry past the depth. -/
def Deep (w : ℕ) (rows : ℕ → List α) (d : ℕ) : Prop := ∀ i < w, (rows i).length ≤ d

def depth (w : ℕ) (rows : ℕ → List α) : ℕ := (Finset.range w).sup fun i => (rows i).length

/-- All columns in turn. -/
def listing (w : ℕ) (rows : ℕ → List α) : List α := columns w rows (depth w rows)

theorem deep_depth (w : ℕ) (rows : ℕ → List α) : Deep w rows (depth w rows) := fun _ hi =>
  Finset.le_sup (f := fun i => (rows i).length) (Finset.mem_range.mpr hi)

theorem Deep.tail (h : Deep w rows (d+1)) : Deep w (tails rows) d := by
  intro i hi
  have hle := h i hi
  rw [tails, List.length_tail]
  omega

theorem Deep.tails (h : Deep w rows d) : Deep w (tails rows) d := by
  intro i hi
  have hle := h i hi
  rw [Columns.tails, List.length_tail]
  omega

theorem column_congr {rows' : ℕ → List α} (h : ∀ i < w, rows i = rows' i) (rank : ℕ) :
    column w rows rank = column w rows' rank := by
  apply List.filterMap_congr
  intro i hi
  rw [h i (List.mem_range.mp hi)]

theorem columns_congr {rows' : ℕ → List α} (h : ∀ i < w, rows i = rows' i) (d : ℕ) :
    columns w rows d = columns w rows' d := by
  induction d generalizing rows rows' with
  | zero => rfl
  | succ d ih =>
    have htails : ∀ i < w, tails rows i = tails rows' i := fun i hi => by
      rw [tails, tails, h i hi]
    rw [columns, columns, column_congr h, ih htails]

theorem column_succ (w : ℕ) (rows : ℕ → List α) (rank : ℕ) :
    column w rows (rank+1) = column w (tails rows) rank := by
  unfold column tails
  simp only [List.getElem?_tail]

theorem mem_column {x : α} : x ∈ column w rows 0 ↔ ∃ i < w, (rows i).head? = some x := by
  unfold column
  simp only [List.mem_filterMap, List.mem_range, List.head?_eq_getElem?]

theorem mem_of_mem_columns {x : α} (hx : x ∈ columns w rows d) : ∃ i < w, x ∈ rows i := by
  induction d generalizing rows with
  | zero => exact absurd hx List.not_mem_nil
  | succ d ih =>
    rcases List.mem_append.mp hx with hx | hx
    · obtain ⟨i, hi, hhead⟩ := mem_column.mp hx
      exact ⟨i, hi, List.mem_of_mem_head? hhead⟩
    · obtain ⟨i, hi, hmem⟩ := ih hx
      exact ⟨i, hi, List.mem_of_mem_tail hmem⟩

theorem mem_columns_of_mem (hdeep : Deep w rows d) {i : ℕ} (hi : i < w) {x : α}
    (hx : x ∈ rows i) : x ∈ columns w rows d := by
  induction d generalizing rows with
  | zero =>
    have hnil := List.length_eq_zero_iff.mp (Nat.le_zero.mp (hdeep i hi))
    rw [hnil] at hx
    exact absurd hx List.not_mem_nil
  | succ d ih =>
    rw [columns, List.mem_append]
    cases hrow : rows i with
    | nil =>
      rw [hrow] at hx
      exact absurd hx List.not_mem_nil
    | cons a rest =>
      rw [hrow] at hx
      rcases List.mem_cons.mp hx with rfl | hx
      · exact Or.inl (mem_column.mpr ⟨i, hi, by rw [hrow, List.head?_cons]⟩)
      · refine Or.inr (ih hdeep.tail ?_)
        rw [tails, hrow]
        exact hx

theorem columns_of_empty (h : ∀ i < w, rows i = []) (d : ℕ) : columns w rows d = [] := by
  rw [List.eq_nil_iff_forall_not_mem]
  intro x hx
  obtain ⟨i, hi, hmem⟩ := mem_of_mem_columns hx
  rw [h i hi] at hmem
  exact List.not_mem_nil hmem

/-- Columns past the depth add nothing. -/
theorem columns_of_deep (h : Deep w rows d) (e : ℕ) : columns w rows (d+e) = columns w rows d := by
  induction d generalizing rows with
  | zero =>
    rw [columns_of_empty (fun i hi => List.length_eq_zero_iff.mp (Nat.le_zero.mp (h i hi))),
      columns]
  | succ d ih =>
    rw [show d+1+e = d+e+1 by omega, columns, columns, ih h.tail]

theorem columns_split (h : Deep w rows d) :
    columns w rows d = column w rows 0 ++ columns w (tails rows) d :=
  (columns_of_deep h 1).symm

theorem listing_eq (h : Deep w rows d) : listing w rows = columns w rows d := by
  have hle : depth w rows ≤ d := Finset.sup_le fun i hi => h i (Finset.mem_range.mp hi)
  obtain ⟨e, rfl⟩ := Nat.exists_eq_add_of_le hle
  exact (columns_of_deep (deep_depth w rows) e).symm

theorem mem_listing {x : α} : x ∈ listing w rows ↔ ∃ i < w, x ∈ rows i :=
  ⟨mem_of_mem_columns, fun ⟨_, hi, hx⟩ => mem_columns_of_mem (deep_depth w rows) hi hx⟩

theorem column_eq_nil (h : column w rows 0 = []) {i : ℕ} (hi : i < w) : rows i = [] := by
  cases hrow : rows i with
  | nil => rfl
  | cons a rest =>
    have hmem : a ∈ column w rows 0 := mem_column.mpr ⟨i, hi, by rw [hrow, List.head?_cons]⟩
    rw [h] at hmem
    exact absurd hmem List.not_mem_nil

theorem columns_map {β : Type*} (f : α → β) (d : ℕ) :
    columns w (fun i => (rows i).map f) d = (columns w rows d).map f := by
  induction d generalizing rows with
  | zero => rfl
  | succ d ih =>
    have htails : tails (fun i => (rows i).map f) = fun i => (tails rows i).map f := by
      funext i
      rw [tails, tails, List.map_tail]
    have hcolumn : column w (fun i => (rows i).map f) 0 = (column w rows 0).map f := by
      unfold column
      rw [List.map_filterMap]
      simp only [List.getElem?_map]
    rw [columns, columns, hcolumn, htails, ih, List.map_append]

theorem listing_map {β : Type*} (f : α → β) :
    listing w (fun i => (rows i).map f) = (listing w rows).map f := by
  have hdepth : depth w (fun i => (rows i).map f) = depth w rows := by
    unfold depth
    simp only [List.length_map]
  rw [listing, listing, hdepth, columns_map]

theorem listing_congr {rows' : ℕ → List α} (h : ∀ i < w, rows i = rows' i) :
    listing w rows = listing w rows' := by
  have hdeep : Deep w rows (depth w rows') := fun i hi => h i hi ▸ deep_depth w rows' i hi
  rw [listing_eq hdeep, columns_congr h, listing]

/-- One row is listed as it is. -/
theorem listing_one (l : List α) : listing 1 (fun _ => l) = l := by
  have hcolumns : ∀ l : List α, columns 1 (fun _ => l) l.length = l := by
    intro l
    induction l with
    | nil => rfl
    | cons a l ih =>
      have hhead : column 1 (fun _ => a :: l) 0 = [a] := rfl
      rw [List.length_cons, columns, hhead]
      exact congrArg (List.cons a) ih
  rw [listing_eq fun _ _ => le_refl l.length, hcolumns]

/-! ### Reading up to a number of entries -/

/-- Columns are read until there are enough entries or an empty column is met. -/
def readColumns (col : ℕ → List α) (maxCount : ℕ) : ℕ → ℕ → List α → List α
  | 0, _, ret => ret
  | turns+1, rank, ret =>
    if ret.length < maxCount then
      if (col rank).isEmpty = true then
        ret
      else
        readColumns col maxCount turns (rank+1) (ret ++ (col rank).take (maxCount-ret.length))
    else
      ret

/-- Every turn reads an entry, so there are turns enough. -/
theorem readColumns_eq {col : ℕ → List α} {maxCount : ℕ} {turns rank : ℕ} {ret : List α}
    (hcol : ∀ r, col (rank+r) = column w rows r) (hdeep : Deep w rows d)
    (hturns : maxCount-ret.length ≤ turns) :
    readColumns col maxCount turns rank ret =
      ret ++ (columns w rows d).take (maxCount-ret.length) := by
  induction turns generalizing rank ret rows d with
  | zero =>
    rw [Nat.le_zero.mp hturns, List.take_zero, List.append_nil, readColumns]
  | succ turns ih =>
    rw [readColumns]
    by_cases hlt : ret.length < maxCount
    · rw [if_pos hlt]
      have hhead : col rank = column w rows 0 := hcol 0
      rw [hhead]
      by_cases hempty : (column w rows 0).isEmpty = true
      · rw [if_pos hempty, columns_of_empty fun i hi => column_eq_nil
          (List.isEmpty_iff.mp hempty) hi, List.take_nil, List.append_nil]
      · rw [if_neg hempty]
        have hpos : 0 < (column w rows 0).length := by
          rw [List.length_pos_iff]
          exact fun hnil => hempty (List.isEmpty_iff.mpr hnil)
        have hnext : ∀ r, col (rank+1+r) = column w (tails rows) r := fun r => by
          rw [Nat.add_assoc, Nat.add_comm 1 r, hcol, column_succ]
        rw [ih hnext hdeep.tails (by
          rw [List.length_append, List.length_take]
          omega), columns_split hdeep, List.take_append, List.append_assoc, List.length_append,
          List.length_take]
        congr 3
        omega
    · rw [if_neg hlt, Nat.sub_eq_zero_of_le (not_lt.mp hlt), List.take_zero, List.append_nil]

/-! ### Cutting a listing -/

variable {tag : α → ℕ} {p : α → Bool}

theorem column_pairwise (htag : ∀ i < w, ∀ x ∈ rows i, tag x = i) :
    (column w rows 0).Pairwise fun a b => tag a < tag b := by
  unfold column
  refine List.Pairwise.filterMap _ (S := fun a b => tag a < tag b)
    (R := fun i j => i < j ∧ i < w ∧ j < w) ?_ ?_
  · rintro i j ⟨hlt, hi, hj⟩ a ha b hb
    rw [htag i hi a (List.mem_of_getElem? ha), htag j hj b (List.mem_of_getElem? hb)]
    exact hlt
  · refine List.Pairwise.imp_of_mem (fun ha hb hlt => ?_) (List.pairwise_lt_range)
    exact ⟨hlt, List.mem_range.mp ha, List.mem_range.mp hb⟩

theorem nodup_columns (htag : ∀ i < w, ∀ x ∈ rows i, tag x = i)
    (hrows : ∀ i < w, (rows i).Nodup) (d : ℕ) : (columns w rows d).Nodup := by
  induction d generalizing rows with
  | zero => exact List.nodup_nil
  | succ d ih =>
    rw [columns, List.nodup_append]
    refine ⟨?_, ?_, ?_⟩
    · refine (column_pairwise htag).imp fun {a b} hlt heq => ?_
      rw [heq] at hlt
      exact Nat.lt_irrefl _ hlt
    · exact ih (fun i hi x hx => htag i hi x (List.mem_of_mem_tail hx)) fun i hi =>
        (hrows i hi).sublist (List.tail_sublist _)
    · rintro x hx y hy rfl
      obtain ⟨i, hi, hhead⟩ := mem_column.mp hx
      obtain ⟨j, hj, htail⟩ := mem_of_mem_columns hy
      have hij : i = j := by
        rw [← htag i hi x (List.mem_of_mem_head? hhead),
          ← htag j hj x (List.mem_of_mem_tail htail)]
      subst hij
      obtain ⟨rest, hrow⟩ := List.head?_eq_some_iff.mp hhead
      have hnodup := hrows i hi
      rw [hrow, List.nodup_cons] at hnodup
      rw [tails, hrow, List.tail_cons] at htail
      exact hnodup.1 htail

theorem nodup_listing (htag : ∀ i < w, ∀ x ∈ rows i, tag x = i)
    (hrows : ∀ i < w, (rows i).Nodup) : (listing w rows).Nodup :=
  nodup_columns htag hrows (depth w rows)

/-- The rest of a column after an entry is what lies in the later rows. -/
theorem drop_eq_filter {l : List α} (hl : l.Pairwise fun a b => tag a < tag b) {k : ℕ} {last : α}
    (hlast : l[k]? = some last) :
    l.drop (k+1) = l.filter fun x => decide (tag last < tag x) := by
  have hsplit : l = l.take k ++ last :: l.drop (k+1) := by
    obtain ⟨hk, rfl⟩ := List.getElem?_eq_some_iff.mp hlast
    rw [← List.drop_eq_getElem_cons hk, List.take_append_drop]
  rw [hsplit, List.pairwise_append, List.pairwise_cons] at hl
  obtain ⟨-, ⟨hlater, -⟩, hcross⟩ := hl
  have hfirst : (l.take k).filter (fun x => decide (tag last < tag x)) = [] := by
    rw [List.filter_eq_nil_iff]
    intro x hx hlt
    have hbefore := hcross x hx last List.mem_cons_self
    exact absurd (of_decide_eq_true hlt) hbefore.not_gt
  have hrest : (l.drop (k+1)).filter (fun x => decide (tag last < tag x)) = l.drop (k+1) :=
    List.filter_eq_self.mpr fun x hx => decide_eq_true (hlater x hx)
  conv_rhs => rw [hsplit]
  rw [List.filter_append, hfirst, List.nil_append, List.filter_cons_of_neg (by simp), hrest]

/-- The rows past an entry that is the first of its row. -/
def cut (rows : ℕ → List α) (i : ℕ) : ℕ → List α := fun j =>
  if j ≤ i then (rows j).tail else rows j

theorem column_cut (htag : ∀ i < w, ∀ x ∈ rows i, tag x = i) {i : ℕ}
    (hbefore : ∀ j < w, j ≤ i → (rows j).tail = []) :
    column w (cut rows i) 0 = (column w rows 0).filter fun x => decide (i < tag x) := by
  unfold column
  rw [List.filter_filterMap]
  apply List.filterMap_congr
  intro j hj
  have hjw := List.mem_range.mp hj
  rw [cut]
  cases hrow : (rows j)[0]? with
  | none =>
    have hnil : rows j = [] := List.eq_nil_of_length_eq_zero
      (Nat.le_zero.mp (List.getElem?_eq_none_iff.mp hrow))
    rw [hnil]
    split_ifs <;> rfl
  | some x =>
    rw [Option.filter_some, htag j hjw x (List.mem_of_getElem? hrow)]
    by_cases hle : j ≤ i
    · rw [if_pos hle, hbefore j hjw hle, if_neg (by simpa using hle)]
      rfl
    · rw [if_neg hle, hrow, if_pos (by simpa using hle)]

/-- What the cut rows list goes on after the entry when all that is left lies on one side of its
row. -/
theorem columns_cut (htag : ∀ i < w, ∀ x ∈ rows i, tag x = i) (hdeep : Deep w rows (d+1)) {i : ℕ}
    (hside : (∀ j < w, i < j → rows j = []) ∨ ∀ j < w, j ≤ i → (rows j).tail = []) :
    columns w (cut rows i) (d+1) =
      (column w rows 0).filter (fun x => decide (i < tag x)) ++ columns w (tails rows) d := by
  rcases hside with hafter | hbefore
  · have hcut : ∀ j < w, cut rows i j = tails rows j := fun j hj => by
      rw [cut, tails]
      split_ifs with hle
      · rfl
      · rw [hafter j hj (not_le.mp hle), List.tail_nil]
    have hnone : (column w rows 0).filter (fun x => decide (i < tag x)) = [] := by
      rw [List.filter_eq_nil_iff]
      intro x hx hlt
      obtain ⟨j, hj, hhead⟩ := mem_column.mp hx
      have hmem := List.mem_of_mem_head? hhead
      have hij := of_decide_eq_true hlt
      rw [htag j hj x hmem] at hij
      rw [hafter j hj hij] at hmem
      exact List.not_mem_nil hmem
    rw [columns_congr hcut, hnone, List.nil_append, columns_of_deep hdeep.tail 1]
  · have htails : ∀ j < w, tails (cut rows i) j = tails rows j := fun j hj => by
      rw [tails, cut, tails]
      split_ifs with hle
      · rw [hbefore j hj hle, List.tail_nil]
      · rfl
    rw [columns, columns_congr htails, column_cut htag hbefore]

/-- The entries that meet the condition, when these are the ones past an entry of the first
column. -/
theorem filter_eq_cut (htag : ∀ i < w, ∀ x ∈ rows i, tag x = i) (hdeep : Deep w rows (d+1))
    {k : ℕ} {last : α} (hlast : (column w rows 0)[k]? = some last)
    (hkept : ∀ x ∈ (column w rows 0).take (k+1), p x = false)
    (hrest : ∀ x ∈ (column w rows 0).drop (k+1) ++ columns w (tails rows) d, p x = true) :
    ∀ j < w, (rows j).filter p = cut rows (tag last) j := by
  intro j hj
  have hdrop := drop_eq_filter (column_pairwise htag) hlast
  have htail : (rows j).tail.filter p = (rows j).tail := by
    rw [List.filter_eq_self]
    intro x hx
    exact hrest x (List.mem_append_right _ (mem_columns_of_mem hdeep.tail hj hx))
  rw [cut]
  cases hrow : rows j with
  | nil => rw [List.filter_nil, List.tail_nil, ite_self]
  | cons x rest =>
    rw [hrow, List.tail_cons] at htail
    have hx : x ∈ column w rows 0 := mem_column.mpr ⟨j, hj, by rw [hrow, List.head?_cons]⟩
    have htagx : tag x = j := htag j hj x (by rw [hrow]; exact List.mem_cons_self)
    rw [← List.take_append_drop (k+1) (column w rows 0), List.mem_append] at hx
    split_ifs with hle
    · have htake : x ∈ (column w rows 0).take (k+1) := by
        refine hx.resolve_right fun hmem => ?_
        rw [hdrop] at hmem
        have hlt := of_decide_eq_true (List.mem_filter.mp hmem).2
        omega
      rw [List.filter_cons_of_neg (by rw [hkept x htake]; exact Bool.false_ne_true), htail,
        List.tail_cons]
    · have hmem : x ∈ (column w rows 0).drop (k+1) := by
        rw [hdrop]
        refine List.mem_filter.mpr ⟨?_, decide_eq_true (by omega)⟩
        rw [← List.take_append_drop (k+1) (column w rows 0), List.mem_append]
        exact hx
      rw [List.filter_cons_of_pos (hrest x (List.mem_append_left _ hmem)), htail]

/-- All entries past one lie in the rows up to its own, or all in later ones. -/
def OneSide (tag : α → ℕ) (last : α) (rest : List α) : Prop :=
  (∀ x ∈ rest, tag x ≤ tag last) ∨ ∀ x ∈ rest, tag last < tag x

/-- Listing the cut rows goes on after the entry exactly when what is left lies on one side. -/
theorem columns_cut_iff (htag : ∀ i < w, ∀ x ∈ rows i, tag x = i) (hdeep : Deep w rows (d+1))
    {k : ℕ} {last : α} (hlast : (column w rows 0)[k]? = some last) :
    columns w (cut rows (tag last)) (d+1) =
        (column w rows 0).drop (k+1) ++ columns w (tails rows) d ↔
      OneSide tag last ((column w rows 0).drop (k+1) ++ columns w (tails rows) d) := by
  have hdrop := drop_eq_filter (column_pairwise htag) hlast
  have hhead : ∀ j < w, tag last < j → ∀ x, (rows j).head? = some x →
      x ∈ (column w rows 0).drop (k+1) := by
    intro j hj hlt x hx
    rw [hdrop, List.mem_filter, htag j hj x (List.mem_of_mem_head? hx)]
    exact ⟨mem_column.mpr ⟨j, hj, hx⟩, decide_eq_true hlt⟩
  constructor
  · intro heq
    by_contra hboth
    rw [OneSide, not_or] at hboth
    push Not at hboth
    obtain ⟨⟨x, hx, hafter⟩, z, hz, hbefore⟩ := hboth
    -- the list goes on with a later row
    have hlater : ∃ y rest, (column w rows 0).drop (k+1) = y :: rest ∧ tag last < tag y := by
      have hne : (column w rows 0).drop (k+1) ≠ [] := by
        intro hnil
        rw [hnil, List.nil_append] at hx
        obtain ⟨j, hj, hmem⟩ := mem_of_mem_columns hx
        have hmem := List.mem_of_mem_tail hmem
        rw [htag j hj x hmem] at hafter
        obtain ⟨a, ha⟩ := Option.isSome_iff_exists.mp
          (List.isSome_head?.mpr (List.ne_nil_of_mem hmem))
        have hmem' := hhead j hj hafter a ha
        rw [hnil] at hmem'
        exact List.not_mem_nil hmem'
      obtain ⟨y, rest, hcons⟩ := List.exists_cons_of_ne_nil hne
      have hy : y ∈ (column w rows 0).drop (k+1) := by rw [hcons]; exact List.mem_cons_self
      rw [hdrop] at hy
      exact ⟨y, rest, hcons, of_decide_eq_true (List.mem_filter.mp hy).2⟩
    obtain ⟨y, rest, hcons, hy⟩ := hlater
    -- while the cut rows begin with one that is not later
    have hzrow : ∃ j < w, j ≤ tag last ∧ z ∈ (rows j).tail := by
      rcases List.mem_append.mp hz with hz | hz
      · rw [hdrop] at hz
        exact absurd (of_decide_eq_true (List.mem_filter.mp hz).2) hbefore.not_gt
      · obtain ⟨j, hj, hmem⟩ := mem_of_mem_columns hz
        refine ⟨j, hj, ?_, hmem⟩
        rw [← htag j hj z (List.mem_of_mem_tail hmem)]
        exact hbefore
    obtain ⟨j, hj, hle, hz⟩ := hzrow
    have hcuttag : ∀ i < w, ∀ x ∈ cut rows (tag last) i, tag x = i := by
      intro i hi x hx
      rw [cut] at hx
      split_ifs at hx
      · exact htag i hi x (List.mem_of_mem_tail hx)
      · exact htag i hi x hx
    obtain ⟨a, ha⟩ := Option.isSome_iff_exists.mp
      (List.isSome_head?.mpr (List.ne_nil_of_mem hz))
    have hacut : (cut rows (tag last) j).head? = some a := by rw [cut, if_pos hle, ha]
    have hmem : a ∈ column w (cut rows (tag last)) 0 := mem_column.mpr ⟨j, hj, hacut⟩
    obtain ⟨y', rest', hcons'⟩ := List.exists_cons_of_ne_nil (List.ne_nil_of_mem hmem)
    have hpair := column_pairwise hcuttag
    rw [columns, hcons', hcons, List.cons_append, List.cons_append, List.cons.injEq] at heq
    rw [hcons', List.pairwise_cons] at hpair
    rw [hcons', heq.1] at hmem
    have haj := htag j hj a (List.mem_of_mem_tail (List.mem_of_mem_head? ha))
    rcases List.mem_cons.mp hmem with rfl | hmem
    · omega
    · have hlt := hpair.1 a hmem
      rw [heq.1] at hlt
      omega
  · intro hside
    rw [columns_cut htag hdeep, hdrop]
    rw [hdrop] at hside hhead
    refine hside.imp (fun hall j hj hlt => ?_) fun hall j hj hle => ?_
    · cases hrow : rows j with
      | nil => rfl
      | cons x rest =>
        have hx : (rows j).head? = some x := by rw [hrow, List.head?_cons]
        have hlow := hall x (List.mem_append_left _ (hhead j hj hlt x hx))
        rw [htag j hj x (List.mem_of_mem_head? hx)] at hlow
        exact absurd hlt hlow.not_gt
    · rw [List.eq_nil_iff_forall_not_mem]
      intro x hx
      have hhigh := hall x (List.mem_append_right _ (mem_columns_of_mem hdeep.tail hj hx))
      rw [htag j hj x (List.mem_of_mem_tail hx)] at hhigh
      exact absurd hhigh hle.not_gt

/-- A condition that no entry up to the `k`-th meets and every later one does: what is listed of
the rows by it goes on where the list was cut exactly when it lies on one side. -/
theorem columns_filter_iff (htag : ∀ i < w, ∀ x ∈ rows i, tag x = i) (hdeep : Deep w rows d)
    {k : ℕ} {last : α} (hlast : (columns w rows d)[k]? = some last)
    (hkept : ∀ x ∈ (columns w rows d).take (k+1), p x = false)
    (hrest : ∀ x ∈ (columns w rows d).drop (k+1), p x = true) :
    columns w (fun i => (rows i).filter p) d = (columns w rows d).drop (k+1) ↔
      OneSide tag last ((columns w rows d).drop (k+1)) := by
  induction d generalizing rows k with
  | zero =>
    rw [columns, List.getElem?_nil] at hlast
    contradiction
  | succ d ih =>
    rw [columns] at hlast hkept hrest
    by_cases hlt : k < (column w rows 0).length
    · rw [List.getElem?_append_left hlt] at hlast
      have hzero : k+1-(column w rows 0).length = 0 := by omega
      rw [List.drop_append, hzero, List.drop_zero] at hrest
      rw [List.take_append, hzero, List.take_zero, List.append_nil] at hkept
      have hdrop : (columns w rows (d+1)).drop (k+1) =
          (column w rows 0).drop (k+1) ++ columns w (tails rows) d := by
        rw [columns, List.drop_append, hzero, List.drop_zero]
      rw [columns_congr (filter_eq_cut htag hdeep hlast hkept hrest), hdrop,
        columns_cut_iff htag hdeep hlast]
    · have hle := not_lt.mp hlt
      have hnext : k+1-(column w rows 0).length = k-(column w rows 0).length+1 := by omega
      rw [List.getElem?_append_right hle] at hlast
      rw [List.drop_append, List.drop_eq_nil_of_le (by omega), List.nil_append, hnext] at hrest
      rw [List.take_append, List.take_of_length_le (by omega), hnext] at hkept
      have hfilter : ∀ j < w, (rows j).filter p = (tails rows j).filter p := by
        intro j hj
        rw [tails]
        cases hrow : rows j with
        | nil => rfl
        | cons x rest =>
          have hx : x ∈ column w rows 0 := mem_column.mpr ⟨j, hj, by rw [hrow, List.head?_cons]⟩
          rw [List.filter_cons_of_neg (by
            rw [hkept x (List.mem_append_left _ hx)]
            exact Bool.false_ne_true), List.tail_cons]
      have hdeep' : Deep w (fun i => (tails rows i).filter p) d := fun i hi =>
        (List.length_filter_le _ _).trans (hdeep.tail i hi)
      have htag' : ∀ i < w, ∀ x ∈ tails rows i, tag x = i := fun i hi x hx =>
        htag i hi x (List.mem_of_mem_tail hx)
      have hdrop : (columns w rows (d+1)).drop (k+1) =
          (columns w (tails rows) d).drop (k-(column w rows 0).length+1) := by
        rw [columns, List.drop_append, List.drop_eq_nil_of_le (by omega), List.nil_append, hnext]
      rw [columns_congr hfilter, columns_of_deep hdeep' 1, hdrop,
        ih htag' hdeep.tail hlast (fun x hx => hkept x (List.mem_append_right _ hx)) hrest]

/-- Listing the entries that meet a condition which the last one kept does not: the list goes on
where it was cut exactly when the condition parts what is kept from what is left and that lies on
one side. -/
theorem listing_filter_iff (htag : ∀ i < w, ∀ x ∈ rows i, tag x = i)
    (hnodup : (listing w rows).Nodup) {k : ℕ} {last : α}
    (hlast : (listing w rows)[k]? = some last) :
    listing w (fun i => (rows i).filter p) = (listing w rows).drop (k+1) ↔
      (∀ x ∈ (listing w rows).take (k+1), p x = false) ∧
        (∀ x ∈ (listing w rows).drop (k+1), p x = true) ∧
        OneSide tag last ((listing w rows).drop (k+1)) := by
  have hdeep : Deep w (fun i => (rows i).filter p) (depth w rows) := fun i hi =>
    (List.length_filter_le _ _).trans (deep_depth w rows i hi)
  have hiff := fun hkept hrest =>
    columns_filter_iff (p := p) htag (deep_depth w rows) hlast hkept hrest
  rw [← listing_eq hdeep] at hiff
  constructor
  · intro heq
    have hrest : ∀ x ∈ (listing w rows).drop (k+1), p x = true := by
      intro x hx
      rw [← heq] at hx
      obtain ⟨i, -, hmem⟩ := mem_listing.mp hx
      exact (List.mem_filter.mp hmem).2
    have hkept : ∀ x ∈ (listing w rows).take (k+1), p x = false := by
      intro x hx
      rw [Bool.eq_false_iff]
      intro hp
      obtain ⟨i, hi, hmem⟩ := mem_listing.mp (List.mem_of_mem_take hx)
      have hleft : x ∈ (listing w rows).drop (k+1) := by
        rw [← heq]
        exact mem_listing.mpr ⟨i, hi, List.mem_filter.mpr ⟨hmem, hp⟩⟩
      exact List.disjoint_take_drop hnodup (le_refl (k+1)) hx hleft
    exact ⟨hkept, hrest, (hiff hkept hrest).mp heq⟩
  · rintro ⟨hkept, hrest, hside⟩
    exact (hiff hkept hrest).mpr hside

end Columns
