import Mathlib.Data.Finset.Card
import Mathlib.Tactic

/-! A search that keeps the nodes still to visit on a stack, and pushes a node the first
time an item leads to it: it finds what is below its start. -/
namespace Worklist

variable {ν ι : Type*} [DecidableEq ν]

structure Search (ν ι : Type*) where
  stack : List ν
  added : Finset ν
  found : List ι

/-- An item is found, and its node pushed unless that has been done before. -/
def visit (node : ι → ν) (s : Search ν ι) (i : ι) : Search ν ι where
  stack := if node i ∈ s.added then s.stack else node i :: s.stack
  added := insert (node i) s.added
  found := s.found ++ [i]

def turn (items : ν → List ι) (node : ι → ν) (s : Search ν ι) (v : ν) (stack : List ν) :
    Search ν ι :=
  (items v).foldl (visit node) {s with stack := stack}

/-- The search, for a number of turns. -/
def search (items : ν → List ι) (node : ι → ν) : ℕ → Search ν ι → Search ν ι
  | 0, s => s
  | fuel+1, s =>
    match s.stack with
    | [] => s
    | v :: stack => search items node fuel (turn items node s v stack)

/-- The items of a node, those of the nodes they lead to, and so on. -/
inductive Below (items : ν → List ι) (node : ι → ν) (start : ν) : ι → Prop
  | direct {i : ι} (h : i ∈ items start) : Below items node start i
  | step {i j : ι} (hj : Below items node start j) (h : i ∈ items (node j)) :
    Below items node start i

variable {items : ν → List ι} {node : ι → ν} {start : ν} {s : Search ν ι}

theorem visits_found (is : List ι) (s : Search ν ι) :
    (is.foldl (visit node) s).found = s.found ++ is := by
  induction is generalizing s with
  | nil => exact (List.append_nil _).symm
  | cons i is ih => rw [List.foldl_cons, ih, visit, List.append_assoc, List.singleton_append]

theorem mem_visits_added (is : List ι) (s : Search ν ι) (v : ν) :
    v ∈ (is.foldl (visit node) s).added ↔ v ∈ s.added ∨ ∃ i ∈ is, node i = v := by
  induction is generalizing s with
  | nil => simp
  | cons i is ih =>
    rw [List.foldl_cons, ih, visit, Finset.mem_insert, List.exists_mem_cons_iff]
    grind

/-- What is on the stack after the items of a node: what was there, and each new node. -/
theorem mem_visits_stack (is : List ι) (s : Search ν ι) (v : ν) :
    v ∈ (is.foldl (visit node) s).stack ↔
      v ∈ s.stack ∨ v ∉ s.added ∧ ∃ i ∈ is, node i = v := by
  induction is generalizing s with
  | nil => simp
  | cons i is ih =>
    rw [List.foldl_cons, ih, visit, Finset.mem_insert, List.exists_mem_cons_iff]
    split_ifs with hin
    · grind
    · rw [List.mem_cons]
      grind

/-- Each push uses up a node that had not been added. -/
theorem length_visits_stack {nodes : Finset ν} (is : List ι) (s : Search ν ι)
    (hnodes : ∀ i ∈ is, node i ∈ nodes) :
    (is.foldl (visit node) s).stack.length+(nodes \ (is.foldl (visit node) s).added).card =
      s.stack.length+(nodes \ s.added).card := by
  induction is generalizing s with
  | nil => rfl
  | cons i is ih =>
    rw [List.forall_mem_cons] at hnodes
    rw [List.foldl_cons, ih _ hnodes.2, visit]
    split_ifs with hin
    · rw [Finset.insert_eq_of_mem hin]
    · have hmem : node i ∈ nodes \ s.added := Finset.mem_sdiff.mpr ⟨hnodes.1, hin⟩
      have hcard := Finset.card_erase_add_one hmem
      rw [Finset.sdiff_insert, List.length_cons]
      omega

/-- What holds of a search between its turns: all found is below the start, and the items
of every added node are found or still to come. -/
structure Sound (items : ν → List ι) (node : ι → ν) (start : ν) (s : Search ν ι) : Prop where
  below : ∀ i ∈ s.found, Below items node start i
  stack : ∀ v ∈ s.stack, v = start ∨ ∃ i ∈ s.found, node i = v
  added : ∀ i ∈ s.found, node i ∈ s.added
  complete : ∀ v, v = start ∨ v ∈ s.added → v ∈ s.stack ∨ ∀ i ∈ items v, i ∈ s.found

omit [DecidableEq ν] in
theorem sound_start (items : ν → List ι) (node : ι → ν) (start : ν) :
    Sound items node start ⟨[start], ∅, []⟩ where
  below _ h := absurd h List.not_mem_nil
  stack v h := Or.inl (List.mem_singleton.mp h)
  added _ h := absurd h List.not_mem_nil
  complete v h := Or.inl (by simpa using h)

theorem Sound.turn (h : Sound items node start s) {v : ν} {stack : List ν}
    (hs : s.stack = v :: stack) : Sound items node start (turn items node s v stack) := by
  have hv : v = start ∨ ∃ i ∈ s.found, node i = v :=
    h.stack v (by rw [hs]; exact List.mem_cons_self)
  have hbelow : ∀ i ∈ items v, Below items node start i := by
    intro i hi
    rcases hv with rfl | ⟨j, hj, rfl⟩
    · exact Below.direct hi
    · exact Below.step (h.below j hj) hi
  unfold Worklist.turn
  refine ⟨fun i hi => ?_, fun w hw => ?_, fun i hi => ?_, fun w hw => ?_⟩
  · rw [visits_found, List.mem_append] at hi
    exact hi.elim (h.below i) (hbelow i)
  · rw [visits_found]
    rcases (mem_visits_stack _ _ _).mp hw with hw | ⟨-, i, hi, rfl⟩
    · rcases h.stack w (by rw [hs]; exact List.mem_cons_of_mem v hw) with rfl | ⟨i, hi, rfl⟩
      · exact Or.inl rfl
      · exact Or.inr ⟨i, List.mem_append_left _ hi, rfl⟩
    · exact Or.inr ⟨i, List.mem_append_right _ hi, rfl⟩
  · rw [visits_found, List.mem_append] at hi
    rw [mem_visits_added]
    exact hi.imp (h.added i) fun hi => ⟨i, hi, rfl⟩
  · rw [visits_found, mem_visits_stack]
    rw [mem_visits_added] at hw
    by_cases hwv : w = v
    · subst hwv
      exact Or.inr fun i hi => List.mem_append_right _ hi
    · have hold : w = start ∨ w ∈ s.added →
          (w ∈ stack ∨ w ∉ s.added ∧ ∃ i ∈ items v, node i = w) ∨
            ∀ i ∈ items w, i ∈ s.found ++ items v := by
        intro hw
        rcases h.complete w hw with hin | hall
        · rw [hs, List.mem_cons] at hin
          exact Or.inl (Or.inl (hin.resolve_left hwv))
        · exact Or.inr fun i hi => List.mem_append_left _ (hall i hi)
      rcases hw with hw | hw | ⟨i, hi, rfl⟩
      · exact hold (Or.inl hw)
      · exact hold (Or.inr hw)
      · by_cases hadded : node i ∈ s.added
        · exact hold (Or.inr hadded)
        · exact Or.inl (Or.inr ⟨hadded, i, hi, rfl⟩)

/-- With a turn for every node there may be, the search ends. -/
theorem search_spec {nodes : Finset ν} (hnodes : ∀ v, ∀ i ∈ items v, node i ∈ nodes) {fuel : ℕ}
    (hfuel : s.stack.length+(nodes \ s.added).card ≤ fuel) (h : Sound items node start s) :
    (search items node fuel s).stack = [] ∧ Sound items node start (search items node fuel s) := by
  induction fuel generalizing s with
  | zero =>
    have hzero : s.stack.length = 0 := by omega
    exact ⟨List.length_eq_zero_iff.mp hzero, h⟩
  | succ fuel ih =>
    rw [search]
    split
    · rename_i hs
      exact ⟨hs, h⟩
    · rename_i v stack hs
      apply ih _ (h.turn hs)
      have hlength := length_visits_stack (items v) {s with stack := stack} (hnodes v)
      rw [hs, List.length_cons] at hfuel
      rw [Worklist.turn, hlength]
      dsimp only
      omega

omit [DecidableEq ν] in
/-- A search that has ended has found all below its start, and nothing else. -/
theorem Sound.mem_found_iff (h : Sound items node start s) (hs : s.stack = []) (i : ι) :
    i ∈ s.found ↔ Below items node start i := by
  refine ⟨h.below i, fun hi => ?_⟩
  have hall : ∀ v, v = start ∨ v ∈ s.added → ∀ i ∈ items v, i ∈ s.found := by
    intro v hv
    refine (h.complete v hv).resolve_left ?_
    rw [hs]
    exact List.not_mem_nil
  induction hi with
  | direct hi => exact hall start (Or.inl rfl) _ hi
  | step hj hi ih => exact hall _ (Or.inr (h.added _ ih)) _ hi

end Worklist
