import Mathlib.Tactic

/-! Walks round a circle of `N` places that take some places and skip others. A list of the skipped
places describes such a walk exactly if no place is skipped when the whole lap before was taken. -/
namespace Laps

/-- The next place. -/
def next (N p : ℕ) : ℕ := (p+1)%N

/-- The places that are taken. A mark is `true` where the walk skips. -/
def taken (N : ℕ) : ℕ → List Bool → List ℕ
  | _, [] => []
  | p, true :: marks => taken N (next N p) marks
  | p, false :: marks => p :: taken N (next N p) marks

/-- The places that are skipped. -/
def skipped (N : ℕ) : ℕ → List Bool → List ℕ
  | _, [] => []
  | p, true :: marks => p :: skipped N (next N p) marks
  | p, false :: marks => skipped N (next N p) marks

/-- The place after a walk. -/
def after (N : ℕ) : ℕ → List Bool → ℕ
  | p, [] => p
  | p, _ :: marks => after N (next N p) marks

/-- A walk that takes `n` places and skips the listed ones as it comes to them, and where it is
afterwards. -/
def replay (N : ℕ) : ℕ × List ℕ → ℕ → List ℕ × ℕ × List ℕ
  | s, 0 => ([], s)
  | (p, []), n+1 =>
    let (places, s) := replay N (next N p, []) n
    (p :: places, s)
  | (p, e :: entries), n+1 =>
    if p = e then
      replay N (next N p, entries) (n+1)
    else
      let (places, s) := replay N (next N p, e :: entries) n
      (p :: places, s)
termination_by s n => s.2.length+n

/-- Fewer than `N` places are skipped in a row, where `k` have been already, and the last place is
taken. -/
def Gaps (N : ℕ) : ℕ → List Bool → Prop
  | k, [] => k = 0
  | k, true :: marks => k+1 < N ∧ Gaps N (k+1) marks
  | _, false :: marks => Gaps N 0 marks

/-- No place is skipped right after a lap in which all were taken, where `k` have been in a row. -/
def Told (N : ℕ) : ℕ → List Bool → Prop
  | _, [] => True
  | k, true :: marks => k < N ∧ Told N 0 marks
  | k, false :: marks => Told N (k+1) marks

instance Told.decidable (N : ℕ) : ∀ k marks, Decidable (Told N k marks)
  | _, [] => .isTrue trivial
  | k, true :: marks =>
    have : Decidable (Told N 0 marks) := Told.decidable N 0 marks
    inferInstanceAs (Decidable (k < N ∧ Told N 0 marks))
  | k, false :: marks => Told.decidable N (k+1) marks

variable {N p k n : ℕ} {marks : List Bool} {entries : List ℕ}

theorem next_lt (hp : p < N) : next N p < N := Nat.mod_lt _ (Nat.zero_lt_of_lt hp)

theorem length_taken (p : ℕ) (marks : List Bool) :
    (taken N p marks).length = marks.count false := by
  induction marks generalizing p with
  | nil => rfl
  | cons mark marks ih =>
    cases mark with
    | true => exact (ih _).trans (List.count_cons_of_ne (by decide)).symm
    | false => rw [taken, List.length_cons, ih, List.count_cons_self]

theorem length_skipped (p : ℕ) (marks : List Bool) :
    (skipped N p marks).length = marks.count true := by
  induction marks generalizing p with
  | nil => rfl
  | cons mark marks ih =>
    cases mark with
    | true => rw [skipped, List.length_cons, ih, List.count_cons_self]
    | false => exact (ih _).trans (List.count_cons_of_ne (by decide)).symm

theorem taken_append (p : ℕ) (marks marks' : List Bool) :
    taken N p (marks++marks') = taken N p marks++taken N (after N p marks) marks' := by
  induction marks generalizing p with
  | nil => rfl
  | cons mark marks ih =>
    cases mark with
    | true => exact ih _
    | false => exact congrArg (List.cons p) (ih _)

theorem skipped_append (p : ℕ) (marks marks' : List Bool) :
    skipped N p (marks++marks') = skipped N p marks++skipped N (after N p marks) marks' := by
  induction marks generalizing p with
  | nil => rfl
  | cons mark marks ih =>
    cases mark with
    | true => exact congrArg (List.cons p) (ih _)
    | false => exact ih _

theorem after_append (p : ℕ) (marks marks' : List Bool) :
    after N p (marks++marks') = after N (after N p marks) marks' := by
  induction marks generalizing p with
  | nil => rfl
  | cons mark marks ih => exact ih _

theorem Gaps.append {marks' : List Bool} (h : Gaps N k marks) (h' : Gaps N 0 marks') :
    Gaps N k (marks++marks') := by
  induction marks generalizing k with
  | nil =>
    obtain rfl : k = 0 := h
    exact h'
  | cons mark marks ih =>
    cases mark with
    | true => exact ⟨h.1, ih h.2⟩
    | false =>
      have hrest : Gaps N 0 marks := h
      exact ih hrest

theorem taken_lt (hp : p < N) : ∀ o ∈ taken N p marks, o < N := by
  induction marks generalizing p with
  | nil => exact fun o ho => absurd ho List.not_mem_nil
  | cons mark marks ih =>
    cases mark with
    | true => exact ih (next_lt hp)
    | false => exact List.forall_mem_cons.mpr ⟨hp, ih (next_lt hp)⟩

theorem replay_lt (s : ℕ × List ℕ) (n : ℕ) (hp : s.1 < N) : ∀ o ∈ (replay N s n).1, o < N := by
  fun_induction replay N s n with
  | case1 => exact fun o ho => absurd ho List.not_mem_nil
  | case2 p n places s hrest ih =>
    have hrest' := ih (next_lt hp)
    rw [hrest] at hrest'
    exact List.forall_mem_cons.mpr ⟨hp, hrest'⟩
  | case3 p entries n ih => exact ih (next_lt hp)
  | case4 p e entries n hne places s hrest ih =>
    have hrest' := ih (next_lt hp)
    rw [hrest] at hrest'
    exact List.forall_mem_cons.mpr ⟨hp, hrest'⟩

/-! ### One replay after another -/

theorem replay_add (s : ℕ × List ℕ) (m n : ℕ) :
    replay N s (m+n) = ((replay N s m).1++(replay N (replay N s m).2 n).1,
      (replay N (replay N s m).2 n).2) := by
  fun_induction replay N s m with
  | case1 s =>
    rw [Nat.zero_add]
    rfl
  | case2 p m places s hrest ih =>
    rw [hrest] at ih
    rw [Nat.succ_add, replay, ih]
    rfl
  | case3 p entries m ih =>
    rw [Nat.add_right_comm] at ih
    rw [Nat.succ_add, replay, if_pos rfl]
    exact ih
  | case4 p e entries m hne places s hrest ih =>
    rw [hrest] at ih
    rw [Nat.succ_add, replay, if_neg hne, ih]
    rfl

/-! ### How many places must be skipped -/

/-- The steps from a place to another. -/
def distance (N p o : ℕ) : ℕ := (o+N-p)%N

/-- The least number of skips with which the places are taken in turn. -/
def need (N : ℕ) : ℕ → List ℕ → ℕ
  | _, [] => 0
  | p, o :: places => distance N p o+need N (next N o) places

theorem distance_self (N p : ℕ) : distance N p p = 0 := by
  rw [distance, Nat.add_sub_cancel_left, Nat.mod_self]

theorem distance_eq (hp : p < N) (o : ℕ) :
    distance N p o = (distance N (next N p) o+1)%N := by
  unfold distance next
  rcases Nat.lt_or_ge (p+1) N with hlt | hge
  · rw [Nat.mod_eq_of_lt hlt, Nat.mod_add_mod]
    congr 1
    omega
  · obtain rfl : N = p+1 := by omega
    rw [Nat.mod_self, Nat.sub_zero, Nat.mod_add_mod]
    rw [Nat.add_right_comm o (p+1) 1, Nat.add_mod_right]
    congr 1
    omega

theorem distance_le (hp : p < N) (o : ℕ) : distance N p o ≤ distance N (next N p) o+1 := by
  rw [distance_eq hp]
  exact Nat.mod_le _ _

theorem need_le_next (hp : p < N) (places : List ℕ) :
    need N p places ≤ need N (next N p) places+1 := by
  cases places with
  | nil => exact Nat.zero_le _
  | cons o places =>
    have hdistance := distance_le hp o
    unfold need
    omega

/-- A replay skips as many of its entries as its places need. -/
theorem need_replay_le (s : ℕ × List ℕ) (n : ℕ) (hp : s.1 < N) :
    need N s.1 (replay N s n).1 ≤ s.2.length := by
  fun_induction replay N s n with
  | case1 => exact Nat.zero_le _
  | case2 p n places s hrest ih =>
    have hle := ih (next_lt hp)
    rw [hrest] at hle
    change distance N p p+need N (next N p) places ≤ _
    rw [distance_self, Nat.zero_add]
    exact hle
  | case3 p entries n ih =>
    exact (need_le_next hp _).trans (Nat.succ_le_succ (ih (next_lt hp)))
  | case4 p e entries n hne places s hrest ih =>
    have hle := ih (next_lt hp)
    rw [hrest] at hle
    change distance N p p+need N (next N p) places ≤ _
    rw [distance_self, Nat.zero_add]
    exact hle

theorem Gaps.head_taken (h : Gaps N k marks) (hk : k < N) (hp : p < N) :
    ∀ o places, taken N p marks = o :: places → k+distance N p o < N := by
  induction marks generalizing k p with
  | nil => exact fun o places htaken => absurd htaken nofun
  | cons mark marks ih =>
    intro o places htaken
    cases mark with
    | true =>
      have hlt := ih h.2 h.1 (next_lt hp) o places htaken
      have hdistance := distance_le hp o
      omega
    | false =>
      obtain ⟨rfl, -⟩ := List.cons.inj htaken
      rw [distance_self]
      exact hk

/-- A walk that has skipped takes a place after that. -/
theorem Gaps.exists_taken (h : Gaps N (k+1) marks) : ∃ n, marks.count false = n+1 := by
  induction marks generalizing k with
  | nil => exact absurd h (Nat.succ_ne_zero k)
  | cons mark marks ih =>
    cases mark with
    | true =>
      rw [List.count_cons_of_ne (by decide)]
      exact ih h.2
    | false => exact ⟨marks.count false, List.count_cons_self⟩

/-- A walk without a lap of skips skips no more than its places need. -/
theorem Gaps.need_taken (h : Gaps N k marks) (hk : k < N) (hp : p < N) :
    need N p (taken N p marks) = marks.count true := by
  induction marks generalizing k p with
  | nil => rfl
  | cons mark marks ih =>
    cases mark with
    | true =>
      have hrest := ih h.2 h.1 (next_lt hp)
      rw [List.count_cons_self, ← hrest]
      change need N p (taken N (next N p) marks) = _
      obtain ⟨n, hn⟩ := h.2.exists_taken
      cases htaken : taken N (next N p) marks with
      | nil =>
        have hlength := length_taken (N := N) (next N p) marks
        rw [htaken, hn] at hlength
        exact absurd hlength nofun
      | cons o places =>
        have hlt := h.2.head_taken h.1 (next_lt hp) o places htaken
        have hdistance := distance_eq hp o
        rw [Nat.mod_eq_of_lt (by omega)] at hdistance
        unfold need
        omega
    | false =>
      change distance N p p+need N (next N p) (taken N (next N p) marks) = _
      rw [distance_self, ih h (Nat.zero_lt_of_lt hp) (next_lt hp), Nat.zero_add]
      exact (List.count_cons_of_ne (by decide)).symm

/-! ### What a list of skipped places tells -/

/-- Where the walk next skips. -/
theorem Told.head_skipped (h : Told N k marks) (hp : p < N) :
    ∀ e entries, skipped N p marks = e :: entries → ∃ a, k+a < N ∧ e = (p+a)%N := by
  induction marks generalizing k p with
  | nil => exact fun e entries hskipped => absurd hskipped nofun
  | cons mark marks ih =>
    intro e entries hskipped
    cases mark with
    | true =>
      obtain ⟨rfl, -⟩ := List.cons.inj hskipped
      exact ⟨0, h.1, (Nat.mod_eq_of_lt hp).symm⟩
    | false =>
      obtain ⟨a, ha, rfl⟩ := ih h (next_lt hp) e entries hskipped
      refine ⟨a+1, by omega, ?_⟩
      rw [next, Nat.mod_add_mod, Nat.add_right_comm, Nat.add_assoc]

theorem ne_of_lt_lap {a : ℕ} (hp : p < N) (ha : a+1 < N) : p ≠ (next N p+a)%N := by
  rw [next, Nat.mod_add_mod]
  intro heq
  rcases Nat.lt_or_ge (p+1+a) N with hlt | hge
  · rw [Nat.mod_eq_of_lt hlt] at heq
    omega
  · rw [Nat.mod_eq_sub_mod hge, Nat.mod_eq_of_lt (by omega)] at heq
    omega

theorem Told.replay (h : Told N k marks) {j : ℕ} (hgaps : Gaps N j marks) (hp : p < N) :
    (Laps.replay N (p, skipped N p marks) (marks.count false)).1 = taken N p marks := by
  induction marks generalizing k j p with
  | nil =>
    rw [List.count_nil, Laps.replay]
    rfl
  | cons mark marks ih =>
    cases mark with
    | true =>
      obtain ⟨n, hn⟩ := hgaps.2.exists_taken
      have hrest := ih h.2 hgaps.2 (next_lt hp)
      rw [hn] at hrest
      rw [List.count_cons_of_ne (by decide), hn, skipped, Laps.replay, if_pos rfl]
      exact hrest
    | false =>
      have hrest := ih h hgaps (next_lt hp)
      rw [List.count_cons_self, skipped, taken]
      cases hskipped : skipped N (next N p) marks with
      | nil =>
        rw [hskipped] at hrest
        rw [Laps.replay]
        exact congrArg (List.cons p) hrest
      | cons e entries =>
        have htold : Told N (k+1) marks := h
        obtain ⟨a, ha, he⟩ := htold.head_skipped (next_lt hp) e entries hskipped
        have hne : p ≠ e := by
          rw [he]
          exact ne_of_lt_lap hp (by omega)
        rw [hskipped] at hrest
        rw [Laps.replay, if_neg hne]
        exact congrArg (List.cons p) hrest

/-- The places of the last `k` steps are not skipped next. -/
def Spared (N p k : ℕ) (entries : List ℕ) : Prop :=
  ∀ q < N, ∀ j, 0 < j → j ≤ k → (q+j)%N = p → ∀ rest, entries ≠ q :: rest

theorem told_of_replay {j : ℕ} (hgaps : Gaps N j marks) (hj : j < N) (hp : p < N)
    (hspared : Spared N p k (skipped N p marks))
    (hreplay : (replay N (p, skipped N p marks) (marks.count false)).1 = taken N p marks) :
    Told N k marks := by
  induction marks generalizing k j p with
  | nil => trivial
  | cons mark marks ih =>
    cases mark with
    | true =>
      obtain ⟨n, hn⟩ := hgaps.2.exists_taken
      rw [List.count_cons_of_ne (by decide), hn, skipped, replay, if_pos rfl, ← hn] at hreplay
      refine ⟨?_, ih hgaps.2 hgaps.1 (next_lt hp) ?_ hreplay⟩
      · -- otherwise the place was taken a lap before
        by_contra hlap
        refine hspared p hp N (Nat.zero_lt_of_lt hp) (Nat.le_of_not_lt hlap) ?_ _ rfl
        rw [Nat.add_mod_right, Nat.mod_eq_of_lt hp]
      · exact fun q _ i hi hle => absurd hi (Nat.not_lt.mpr hle)
    | false =>
      have hpushed : ∀ rest, skipped N (next N p) marks ≠ p :: rest := by
        intro rest hskipped
        have hlength := length_skipped (N := N) (next N p) marks
        have hrest : Gaps N 0 marks := hgaps
        have hneed := hrest.need_taken (Nat.zero_lt_of_lt hp) (next_lt hp)
        have hle := need_replay_le (next N p, rest) (marks.count false+1) (next_lt hp)
        rw [List.count_cons_self, skipped, hskipped, replay, if_pos rfl] at hreplay
        rw [hreplay, taken, need] at hle
        rw [hskipped, List.length_cons] at hlength
        dsimp only at hle
        omega
      rw [List.count_cons_self, skipped, taken] at hreplay
      have hrest : (replay N (next N p, skipped N (next N p) marks) (marks.count false)).1 =
          taken N (next N p) marks := by
        cases hskipped : skipped N (next N p) marks with
        | nil =>
          rw [hskipped, replay] at hreplay
          exact (List.cons.inj hreplay).2
        | cons e entries =>
          have hne : p ≠ e := fun heq => hpushed entries (heq ▸ hskipped)
          rw [hskipped, replay, if_neg hne] at hreplay
          exact (List.cons.inj hreplay).2
      refine ih hgaps (Nat.zero_lt_of_lt hp) (next_lt hp) ?_ hrest
      intro q hq i hi hle hplace rest
      obtain ⟨i, rfl⟩ := Nat.exists_eq_succ_of_ne_zero hi.ne'
      have hback : (q+i)%N = p := by
        have hmod : q+i+1 ≡ p+1 [MOD N] := hplace
        have hback : (q+i)%N = p%N := Nat.ModEq.add_right_cancel' 1 hmod
        rw [hback, Nat.mod_eq_of_lt hp]
      rcases Nat.eq_zero_or_pos i with rfl | hpos
      · rw [Nat.add_zero, Nat.mod_eq_of_lt hq] at hback
        rw [hback]
        exact hpushed rest
      · exact hspared q hq i hpos (Nat.le_of_succ_le_succ hle) hback rest

/-- A list of the skipped places leads to the same places if and only if no place is skipped right
after a lap in which all were taken. -/
theorem replay_skipped_iff (hgaps : Gaps N 0 marks) (hp : p < N) :
    (replay N (p, skipped N p marks) (marks.count false)).1 = taken N p marks ↔ Told N 0 marks := by
  constructor
  · intro hreplay
    refine told_of_replay hgaps (Nat.zero_lt_of_lt hp) hp ?_ hreplay
    exact fun q _ i hi hle => absurd hi (Nat.not_lt.mpr hle)
  · exact fun h => h.replay hgaps hp

end Laps
