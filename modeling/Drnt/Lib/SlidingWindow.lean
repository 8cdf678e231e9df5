import Mathlib.Algebra.Order.Group.Defs
import Mathlib.Algebra.Order.Group.Basic
import Mathlib.Order.Lattice
import Mathlib.Data.List.Basic

/-! Sliding windows: of the times at which something was granted, those of the last `span`, and
a list that is pruned only when someone looks at it. -/
namespace Lib.SlidingWindow

variable {T : Type} [AddCommGroup T] [LinearOrder T] {span : T}

section Windows

variable (span) in
/-- The times that are less than `span` ago. -/
def recent (now : T) (times : List T) : List T := times.filter (now - span < ·)

variable (span) in
/-- The times in the window that ends with `x`. -/
def within (x : T) (times : List T) : List T := times.filter fun t => x - span < t ∧ t ≤ x

variable {now x : T} {times : List T}

theorem recent_append (now : T) (a b : List T) :
    recent span now (a ++ b) = recent span now a ++ recent span now b := List.filter_append ..

theorem within_append (x : T) (a b : List T) :
    within span x (a ++ b) = within span x a ++ within span x b := List.filter_append ..

theorem within_eq_recent (past : ∀ t ∈ times, t ≤ now) :
    within span now times = recent span now times := by
  apply List.filter_congr
  intro t mem
  simp [past t mem]

variable [IsOrderedAddMonoid T]

/-- A window that has moved on sees nothing that it had left. -/
theorem recent_recent {later : T} (h : now ≤ later) (times : List T) :
    recent span later (recent span now times) = recent span later times := by
  unfold recent
  rw [List.filter_filter]
  apply List.filter_congr
  intro t _
  have moved : now - span ≤ later - span := sub_le_sub_right h span
  by_cases sees : later - span < t
  · simp [sees, moved.trans_lt sees]
  · simp [sees]

variable (span) in
/-- A window that still holds `now` sees no more before `now` than the window that ends there. -/
theorem within_length_le (h : now ≤ x) (times : List T) :
    (within span x times).length ≤ (recent span now times).length := by
  apply List.Sublist.length_le
  apply List.monotone_filter_right
  intro t seen
  have seen : x - span < t ∧ t ≤ x := by simpa using seen
  have moved : now - span ≤ x - span := sub_le_sub_right h span
  simpa using moved.trans_lt seen.1

end Windows

section Tracking

variable {granted kept : List T} {last now : T} {limit : Int}

variable (span) in
/-- From `last` on the list that is kept does for the grants. -/
def Tracks (granted : List T) (last : T) (kept : List T) : Prop :=
  ∀ now, last ≤ now → recent span now kept = recent span now granted

theorem tracks_nil (last : T) : Tracks span [] last [] := fun _ _ => rfl

theorem Tracks.later (h : Tracks span granted last kept) (later : last ≤ now) :
    Tracks span granted now kept := fun next after => h next (later.trans after)

theorem Tracks.grant (h : Tracks span granted now kept) :
    Tracks span (granted ++ [now]) now (kept ++ [now]) := by
  intro next after
  rw [recent_append, recent_append, h next after]

variable (span) in
/-- No window holds more grants than the limit. -/
def Bounded (limit : Int) (granted : List T) : Prop :=
  ∀ x, ((within span x granted).length : Int) ≤ max limit 0

theorem bounded_nil : Bounded span limit [] := by
  intro x
  simp [within]

variable [IsOrderedAddMonoid T]

theorem Tracks.prune (h : Tracks span granted last kept) (later : last ≤ now) :
    Tracks span granted now (recent span now kept) := by
  intro next after
  rw [recent_recent after]
  exact h next (later.trans after)

/-- One more grant, where the window that ends with it has room. -/
theorem Bounded.grant (h : Bounded span limit granted)
    (room : ((recent span now granted).length : Int) < limit) :
    Bounded span limit (granted ++ [now]) := by
  intro x
  have before := h x
  rw [within_append, List.length_append]
  by_cases inside : x - span < now ∧ now ≤ x
  · have fewer := within_length_le span inside.2 granted
    have one : (within span x [now]).length = 1 := by simp [within, inside]
    rw [one]
    omega
  · have none_ : within span x [now] = [] := by simpa [within] using inside
    rw [none_, List.length_nil]
    omega

end Tracking

end Lib.SlidingWindow
