import Mathlib.Data.List.Basic
import Mathlib.Tactic.Common

/-!
# Lexical resolution of paths

A path is cut at its separators, and every segment is a move from one directory to the next
one. A directory is the list of the names from the root to it. A sequence of moves has a normal
form that does not depend on where it starts: so many steps up, then the names that are entered.
-/
namespace LightAgent.Library

/-- What one segment of a path does. -/
inductive Move (Name : Type*) where
  | stay
  | up
  | into (name : Name)
  deriving DecidableEq, Repr

/-- A normal form of moves: first up, then down. -/
structure Route (Name : Type*) where
  climbs : Nat
  names : List Name
  deriving DecidableEq, Repr

section Moves

variable {Name : Type*}

/-- One move. The parent of the root is the root. -/
def Move.go (dir : List Name) : Move Name → List Name
  | .stay => dir
  | .up => dir.dropLast
  | .into name => dir ++ [name]

/-- The moves one after another. -/
def follow (dir : List Name) (moves : List (Move Name)) : List Name := moves.foldl Move.go dir

/-- A route with one move more. -/
def Route.go (route : Route Name) : Move Name → Route Name
  | .stay => route
  | .up =>
    if route.names = [] then { route with climbs := route.climbs + 1 }
    else { route with names := route.names.dropLast }
  | .into name => { route with names := route.names ++ [name] }

def Route.of (moves : List (Move Name)) : Route Name := moves.foldl Route.go ⟨0, []⟩

/-- Where a route leads. -/
def Route.from (route : Route Name) (dir : List Name) : List Name :=
  dir.take (dir.length - route.climbs) ++ route.names

theorem Route.go_from (route : Route Name) (dir : List Name) (move : Move Name) :
    (route.go move).from dir = move.go (route.from dir) := by
  cases move with
  | stay => rfl
  | into name => exact (List.append_assoc _ _ _).symm
  | up =>
    simp only [Route.go, Move.go]
    split
    next empty =>
      -- Nothing to leave below the lowest directory, so it is the lowest one that is left.
      unfold Route.from
      rw [empty, List.append_nil, List.append_nil, List.dropLast_eq_take, List.take_take,
        List.length_take]
      congr 1
      dsimp only
      omega
    next some_ =>
      unfold Route.from
      rw [List.dropLast_append_of_ne_nil some_]

/-- The moves lead where their normal form leads. -/
theorem follow_eq (dir : List Name) (moves : List (Move Name)) :
    follow dir moves = (Route.of moves).from dir := by
  have all (route : Route Name) :
      moves.foldl Move.go (route.from dir) = (moves.foldl Route.go route).from dir := by
    induction moves generalizing route with
    | nil => rfl
    | cons move moves ih => rw [List.foldl_cons, List.foldl_cons, ← Route.go_from, ih]
  have start : (⟨0, []⟩ : Route Name).from dir = dir := by simp [Route.from]
  have run := all ⟨0, []⟩
  rw [start] at run
  exact run

/-- A route that starts in a directory ends inside it when the directories it leaves are the
first ones it enters again. -/
theorem Route.inside_iff (route : Route Name) (dir : List Name) :
    dir <+: route.from dir ↔ dir.drop (dir.length - route.climbs) <+: route.names := by
  have whole : dir.take (dir.length - route.climbs) ++ dir.drop (dir.length - route.climbs) <+:
      route.from dir ↔ dir.drop (dir.length - route.climbs) <+: route.names :=
    List.prefix_append_right_inj _
  rwa [List.take_append_drop] at whole

/-- From the root a route leads to its names. -/
theorem Route.from_root (route : Route Name) : route.from [] = route.names := by
  simp [Route.from]

end Moves

section Paths

variable {α : Type*} [DecidableEq α] (sep dot : α)

/-- The move of a segment: nothing and `.` stay, `..` goes up. -/
def moveOf (segment : List α) : Move (List α) :=
  if segment = [] ∨ segment = [dot] then .stay
  else if segment = [dot, dot] then .up
  else .into segment

def pathMoves (path : List α) : List (Move (List α)) := (path.splitOn sep).map (moveOf dot)

/-- The directory or file a path names, seen from `cwd`. -/
def resolve (cwd : List (List α)) (path : List α) : List (List α) :=
  follow (if path.head? = some sep then [] else cwd) (pathMoves sep dot path)

/-- An absolute path enters `cwd` first; a relative one enters again what it leaves of it. -/
def Returns (cwd : List (List α)) (path : List α) : Prop :=
  let route := Route.of (pathMoves sep dot path)
  if path.head? = some sep then cwd <+: route.names
  else cwd.drop (cwd.length - route.climbs) <+: route.names

instance (cwd : List (List α)) (path : List α) : Decidable (Returns sep dot cwd path) :=
  inferInstanceAs (Decidable (if path.head? = some sep then
    cwd <+: (Route.of (pathMoves sep dot path)).names
    else cwd.drop (cwd.length - (Route.of (pathMoves sep dot path)).climbs) <+:
      (Route.of (pathMoves sep dot path)).names))

theorem resolve_inside_iff (cwd : List (List α)) (path : List α) :
    cwd <+: resolve sep dot cwd path ↔ Returns sep dot cwd path := by
  unfold resolve Returns
  rw [follow_eq]
  split
  · rw [Route.from_root]
  · exact Route.inside_iff _ _

end Paths

end LightAgent.Library
