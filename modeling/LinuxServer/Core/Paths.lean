import Mathlib

/-!
# Paths through a tree of directories

A directory is the list of the names that lead to it from the root. A component of a path stays where it
is, leads to the directory above, of which the root has none, or leads down. A path leads so many directories
up and then down by some names, wherever it begins.
-/

namespace Core

/-- What a component of a path does. -/
inductive Move (α : Type*)
  | stay
  | up
  | down (name : α)

variable {α : Type*}

/-- The directory behind a component. -/
def Move.apply (dir : List α) : Move α → List α
  | .stay => dir
  | .up => dir.dropLast
  | .down name => dir ++ [name]

/-- The directory that a path leads to. -/
def destination (dir : List α) (moves : List (Move α)) : List α := moves.foldl Move.apply dir

/-- So many directories up, and down by the names. -/
structure Way (α : Type*) where
  ups : ℕ
  names : List α

namespace Way

/-- The way is gone on by a component. -/
def apply (way : Way α) : Move α → Way α
  | .stay => way
  | .up => if way.names = [] then ⟨way.ups + 1, []⟩ else ⟨way.ups, way.names.dropLast⟩
  | .down name => ⟨way.ups, way.names ++ [name]⟩

/-- The way of a path. -/
def ofMoves (moves : List (Move α)) : Way α := moves.foldl apply ⟨0, []⟩

/-- The directory that a way leads to. -/
def follow (way : Way α) (dir : List α) : List α := dir.rdrop way.ups ++ way.names

/-- The way comes back to the directory that it begins at, or does not leave it. -/
def Returns (way : Way α) (dir : List α) : Prop := dir.rtake way.ups <+: way.names

variable {dir : List α}

lemma follow_apply (way : Way α) (m : Move α) : (way.apply m).follow dir = m.apply (way.follow dir) := by
  cases m with
  | stay => rfl
  | up =>
    rw [apply, Move.apply]
    split
    next hnil =>
      rw [follow, follow, hnil, List.append_nil, List.append_nil, List.rdrop, List.rdrop,
        List.dropLast_eq_take, List.take_take, List.length_take]
      congr 1
      dsimp only
      omega
    next hne => rw [follow, follow, List.dropLast_append_of_ne_nil hne]
  | down name => exact (List.append_assoc _ _ _).symm

/-- Wherever a path begins, it leads along its way. -/
theorem destination_eq (moves : List (Move α)) : destination dir moves = (ofMoves moves).follow dir := by
  have hnil : (⟨0, []⟩ : Way α).follow dir = dir := by
    rw [follow, List.rdrop_zero, List.append_nil]
  rw [destination, ofMoves, ← List.foldl_hom (fun way => follow way dir) fun way m => (follow_apply way m).symm,
    hnil]

/-- A path ends in or below the directory that it begins at if and only if its way comes back to it. -/
theorem isPrefix_destination_iff (moves : List (Move α)) :
    dir <+: destination dir moves ↔ (ofMoves moves).Returns dir := by
  have hdir : dir = dir.rdrop (ofMoves moves).ups ++ dir.rtake (ofMoves moves).ups :=
    (List.take_append_drop _ dir).symm
  rw [destination_eq, follow, Returns]
  nth_rewrite 1 [hdir]
  exact List.prefix_append_right_inj _

end Way

end Core
