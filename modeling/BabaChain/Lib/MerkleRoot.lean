import Mathlib.Data.Nat.Notation

/-! The root of a hash tree in which an odd level repeats its last hash. -/
namespace MerkleRoot

variable {α : Type*} [DecidableEq α]

/-- Whether a level pairs two equal hashes. -/
def mutatedLevel : List α → Bool
  | a :: b :: rest => decide (a = b) || mutatedLevel rest
  | _ => false

/-- The next level; the last hash of an odd level is paired with itself. -/
def nextLevel (hash : α → α → α) : List α → List α
  | a :: b :: rest => hash a b :: nextLevel hash rest
  | [a] => [hash a a]
  | [] => []

/-- The root, and whether any level paired two equal hashes. Every level halves,
so the number of hashes bounds the number of levels. -/
def levels (hash : α → α → α) (zero : α) : ℕ → List α → Bool → α × Bool
  | _, [], mutation => (zero, mutation)
  | _, [root], mutation => (root, mutation)
  | 0, root :: _, mutation => (root, mutation)
  | fuel+1, hashes, mutation =>
    levels hash zero fuel (nextLevel hash hashes) (mutation || mutatedLevel hashes)

def computeMerkleRoot (hash : α → α → α) (zero : α) (hashes : List α) : α × Bool :=
  levels hash zero hashes.length hashes false

end MerkleRoot
