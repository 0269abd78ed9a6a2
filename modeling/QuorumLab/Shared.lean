import QuorumLab.Failure

/-!
# Handles to shared cells

Several handles may lead to one cell; what is written through one is read through all.
Every handle carries a tag of its own.
-/

namespace QuorumLab

structure Shared (τ α : Type) where
  cells : List α := []
  handles : List (Nat × τ) := []
  deriving Repr, Inhabited

namespace Shared

variable {τ α : Type}

/-- Add a cell with a handle to it. -/
def add (s : Shared τ α) (tag : τ) (a : α) : Shared τ α :=
  { cells := s.cells ++ [a], handles := s.handles ++ [(s.cells.length, tag)] }

/-- What every handle leads to, with its tag. -/
def toList (s : Shared τ α) : List (τ × α) :=
  s.handles.filterMap fun (cell, tag) => (s.cells[cell]?).map (tag, ·)

/-- The tag of a handle and what it leads to. -/
def get (s : Shared τ α) (k : Nat) : Except Fault (τ × α) :=
  match s.toList[k]? with
  | some x => .ok x
  | none => .error (.outOfBounds s.handles.length k)

/-- Write through a handle. -/
def set (s : Shared τ α) (k : Nat) (tag : τ) (a : α) : Shared τ α :=
  match s.handles[k]? with
  | some (cell, _) => { cells := s.cells.set cell a, handles := s.handles.set k (cell, tag) }
  | none => s

/-- Another handle to the same cell; its number is that of the handles before it. -/
def clone (s : Shared τ α) (k : Nat) (tag : τ) : Except Fault (Nat × Shared τ α) :=
  match s.handles[k]? with
  | some (cell, _) => .ok (s.handles.length, { s with handles := s.handles ++ [(cell, tag)] })
  | none => .error (.outOfBounds s.handles.length k)

end Shared

end QuorumLab
