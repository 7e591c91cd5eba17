import Mathlib.Logic.Relation
import Mathlib.Tactic

/-! Relations without cycles, and what a new edge makes of them. -/
namespace Forests
open Relation

variable {α : Type*} {r : α → α → Prop} {a b : α}

def Acyclic (r : α → α → Prop) : Prop := ∀ x, ¬TransGen r x x

/-- A relation with one more edge. -/
def addEdge (r : α → α → Prop) (a b x y : α) : Prop := r x y ∨ (x = a ∧ y = b)

theorem le_addEdge : r ≤ addEdge r a b := fun _ _ => Or.inl

/-- A path over the new edge leads to its start and on from its end. -/
theorem reflTransGen_addEdge {x y : α} (h : ReflTransGen (addEdge r a b) x y) :
    ReflTransGen r x y ∨ (ReflTransGen r x a ∧ ReflTransGen r b y) := by
  induction h with
  | refl => exact Or.inl .refl
  | tail _ hlast ih =>
    rcases hlast with hold | ⟨rfl, rfl⟩
    · rcases ih with hpath | ⟨hstart, hend⟩
      · exact Or.inl (hpath.tail hold)
      · exact Or.inr ⟨hstart, hend.tail hold⟩
    · rcases ih with hpath | ⟨hstart, -⟩
      · exact Or.inr ⟨hpath, .refl⟩
      · exact Or.inr ⟨hstart, .refl⟩

/-- A new edge closes a cycle exactly when a path leads back from its end to its start. -/
theorem acyclic_addEdge_iff :
    Acyclic (addEdge r a b) ↔ Acyclic r ∧ ¬ReflTransGen r b a := by
  constructor
  · intro h
    refine ⟨fun x hx => h x (TransGen.mono le_addEdge _ _ hx), fun hback => h a ?_⟩
    exact TransGen.head' (Or.inr ⟨rfl, rfl⟩) (ReflTransGen.mono le_addEdge _ _ hback)
  · rintro ⟨hacyclic, hback⟩ x hx
    obtain ⟨y, hxy, hyx⟩ := TransGen.head'_iff.mp hx
    rcases hxy with hold | ⟨rfl, rfl⟩
    · rcases reflTransGen_addEdge hyx with hpath | ⟨hstart, hend⟩
      · exact hacyclic x (TransGen.head' hold hpath)
      · exact hback (hend.trans (ReflTransGen.head hold hstart))
    · rcases reflTransGen_addEdge hyx with hpath | ⟨-, hend⟩
      · exact hback hpath
      · exact hback hend

end Forests
