import Mathlib.Data.List.Basic
import Mathlib.Data.List.Infix
import Mathlib.Data.List.DropRight
import Mathlib.Tactic.Common

/-! Resolution of POSIX paths by their segments: empty segments and dots stay, double dots climb,
names descend. Characters are of any type with a slash and a dot. -/
namespace Lib.PosixPath

variable {α : Type} [DecidableEq α] (slash dot : α)

/-- The segments between slashes; some may be empty. -/
def segments : List α → List (List α)
  | [] => [[]]
  | c :: cs =>
    if c = slash then [] :: segments cs
    else match segments cs with
      | [] => [[c]]
      | s :: rest => (c :: s) :: rest

/-- One segment, from a directory given by its names from the root. -/
def step (dir : List (List α)) (s : List α) : List (List α) :=
  if s = [] ∨ s = [dot] then dir
  else if s = [dot, dot] then dir.dropLast
  else dir ++ [s]

def walk (dir segs : List (List α)) : List (List α) := segs.foldl (step dot) dir

/-- The names of an absolute path from the root. -/
def resolve (path : List α) : List (List α) := walk dot [] (segments slash path)

/-- What segments come to from any directory: how far they climb, then the names they descend. -/
def net (segs : List (List α)) : Nat × List (List α) :=
  segs.foldl (fun n s =>
    if s = [] ∨ s = [dot] then n
    else if s = [dot, dot] then if n.2 = [] then (n.1 + 1, []) else (n.1, n.2.dropLast)
    else (n.1, n.2 ++ [s])) (0, [])

/-- The segments climb no further than they name again what they left. -/
def Returns (dir segs : List (List α)) : Prop :=
  dir.drop (dir.length - (net dot segs).1) <+: (net dot segs).2

instance (dir segs : List (List α)) : Decidable (Returns dot dir segs) :=
  inferInstanceAs (Decidable (_ <+: _))

/-- A path resolves to a directory's own names with more behind them, or none. -/
def Inside (base path : List α) : Prop := resolve slash dot base <+: resolve slash dot path

instance (base path : List α) : Decidable (Inside slash dot base path) :=
  inferInstanceAs (Decidable (_ <+: _))

section Segments

variable {slash dot}

theorem segments_ne_nil (path : List α) : segments slash path ≠ [] := by
  cases path with
  | nil => simp [segments]
  | cons c cs =>
    unfold segments
    split
    · simp
    · split <;> simp

theorem segments_append (a b : List α) :
    segments slash (a ++ slash :: b) = segments slash a ++ segments slash b := by
  induction a with
  | nil => simp [segments]
  | cons c a ih =>
    rw [List.cons_append, segments, segments]
    by_cases here : c = slash
    · rw [if_pos here, if_pos here, ih, List.cons_append]
    · rw [if_neg here, if_neg here, ih]
      cases h : segments slash a with
      | nil => exact absurd h (segments_ne_nil a)
      | cons s rest => rfl

end Segments

section Walks

variable {slash dot}

theorem walk_append (dir a b : List (List α)) : walk dot dir (a ++ b) = walk dot (walk dot dir a) b :=
  List.foldl_append ..

theorem walk_concat (dir segs : List (List α)) (s : List α) :
    walk dot dir (segs ++ [s]) = step dot (walk dot dir segs) s := by
  rw [walk_append]
  rfl

theorem net_concat (segs : List (List α)) (s : List α) :
    net dot (segs ++ [s]) =
      if s = [] ∨ s = [dot] then net dot segs
      else if s = [dot, dot] then
        if (net dot segs).2 = [] then ((net dot segs).1 + 1, [])
        else ((net dot segs).1, (net dot segs).2.dropLast)
      else ((net dot segs).1, (net dot segs).2 ++ [s]) := by
  rw [net, List.foldl_append]
  rfl

/-- A walk climbs, at most to the root, and then descends. -/
theorem walk_net (dir segs : List (List α)) : walk dot dir segs =
    dir.take (dir.length - (net dot segs).1) ++ (net dot segs).2 := by
  induction segs using List.reverseRecOn with
  | nil => simp [walk, net]
  | append_singleton segs s ih =>
    rw [walk_concat, net_concat, ih, step]
    by_cases stay : s = [] ∨ s = [dot]
    · rw [if_pos stay, if_pos stay]
    · rw [if_neg stay, if_neg stay]
      by_cases up : s = [dot, dot]
      · rw [if_pos up, if_pos up]
        by_cases none : (net dot segs).2 = []
        · rw [if_pos none, none, List.append_nil, List.append_nil, List.dropLast_eq_take,
            List.take_take, List.length_take]
          congr 1
          omega
        · rw [if_neg none, List.dropLast_append_of_ne_nil none]
      · rw [if_neg up, if_neg up, List.append_assoc]

/-- A walk ends inside its directory exactly when its segments return. -/
theorem inside_walk (dir segs : List (List α)) : dir <+: walk dot dir segs ↔ Returns dot dir segs := by
  rw [walk_net, Returns]
  conv_lhs =>
    lhs
    rw [← List.take_append_drop (dir.length - (net dot segs).1) dir]
  exact List.prefix_append_right_inj _

variable (slash dot) in
theorem resolve_append (a b : List α) : resolve slash dot (a ++ slash :: b) =
    walk dot (resolve slash dot a) (segments slash b) := by
  rw [resolve, segments_append, walk_append]
  rfl

theorem resolve_concat_slash (path : List α) :
    resolve slash dot (path ++ [slash]) = resolve slash dot path := by
  have stays (dir : List (List α)) : walk dot dir [[]] = dir := by simp [walk, step]
  have same := resolve_append slash dot path []
  rw [same, segments, stays]

/-- Trailing slashes do not count. -/
theorem resolve_rdropWhile (path : List α) :
    resolve slash dot (path.rdropWhile (· = slash)) = resolve slash dot path := by
  induction path using List.reverseRecOn with
  | nil => rfl
  | append_singleton path c ih =>
    by_cases trailing : c = slash
    · subst trailing
      rw [List.rdropWhile_concat_pos _ _ _ (by simp), ih, resolve_concat_slash]
    · rw [List.rdropWhile_concat_neg _ _ _ (by simpa using trailing)]

theorem inside_append {base rest : List α} : Inside slash dot base (base ++ slash :: rest) ↔
    Returns dot (resolve slash dot base) (segments slash rest) := by
  rw [Inside, resolve_append, inside_walk]

end Walks

end Lib.PosixPath
