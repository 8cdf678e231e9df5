import Mathlib.Data.List.Infix
import Mathlib.Data.Nat.Find
import Mathlib.Data.List.Induction

/-! Histories of results that grow at their end: where a run of results last ended, and how long
the last one is. -/
namespace Lib.History

section Runs

variable {α : Type} [DecidableEq α]

/-- Where `run` last ended, as the number of results up to its end; 0 if it never did. -/
def lastEnd (run h : List α) : Nat := Nat.findGreatest (fun n => run <:+ h.take n) h.length

/-- The number of results `a` at the end. -/
def trailing (a : α) (h : List α) : Nat := (h.reverse.takeWhile (· = a)).length

theorem lastEnd_le (run h : List α) : lastEnd run h ≤ h.length := Nat.findGreatest_le _

theorem lastEnd_concat (run h : List α) (a : α) : lastEnd run (h ++ [a]) =
    if run <:+ h ++ [a] then h.length + 1 else lastEnd run h := by
  have whole : (h ++ [a]).take (h.length + 1) = h ++ [a] := List.take_of_length_le (by simp)
  unfold lastEnd
  rw [List.length_append, List.length_singleton, Nat.findGreatest_succ, whole]
  split
  · rfl
  · -- up to there the two histories are the same
    obtain ⟨bound, here, later⟩ :=
      Nat.findGreatest_eq_iff.mp (rfl : Nat.findGreatest (fun n => run <:+ h.take n) h.length = _)
    have same {n : Nat} (small : n ≤ h.length) : (h ++ [a]).take n = h.take n :=
      List.take_append_of_le_length small
    refine Nat.findGreatest_eq_iff.mpr ⟨bound, fun some_ => ?_, fun n above small => ?_⟩
    · rw [same bound]
      exact here some_
    · rw [same small]
      exact later above small

@[simp] theorem trailing_self (a : α) (h : List α) : trailing a (h ++ [a]) = trailing a h + 1 := by
  simp [trailing]

theorem trailing_ne {a b : α} (other : b ≠ a) (h : List α) : trailing a (h ++ [b]) = 0 := by
  simp [trailing, other]

/-- A run of one result is at the end when enough of it are. -/
theorem replicate_suffix (a : α) (k : Nat) (h : List α) :
    List.replicate k a <:+ h ↔ k ≤ trailing a h := by
  induction h using List.reverseRecOn generalizing k with
  | nil => simp [trailing]
  | append_singleton h b ih =>
    cases k with
    | zero => simp
    | succ k =>
      rw [List.replicate_succ', List.suffix_concat_iff]
      constructor
      · rintro (none_ | ⟨t, eq, ends⟩)
        · simp at none_
        · obtain ⟨rfl, last⟩ := List.append_inj' eq rfl
          cases last
          have := (ih k).mp ends
          rw [trailing_self]
          omega
      · intro long
        by_cases same : b = a
        · subst same
          rw [trailing_self] at long
          exact .inr ⟨_, rfl, (ih k).mpr (by omega)⟩
        · rw [trailing_ne same] at long
          omega

/-- A run that is at the end has ended there. -/
theorem lastEnd_suffix {run h : List α} (ends : run <:+ h) : lastEnd run h = h.length := by
  refine Nat.findGreatest_eq_iff.mpr ⟨le_rfl, fun _ => ?_, fun n above small => by omega⟩
  rwa [List.take_length]

end Runs

section Values

variable {α β : Type} [DecidableEq β]

/-- The values that a function of the history takes on, each where it changes. -/
def changes (f : List α → β) (h : List α) : List β :=
  (List.range h.length).filterMap fun n =>
    if f (h.take (n + 1)) ≠ f (h.take n) then some (f (h.take (n + 1))) else none

theorem changes_concat (f : List α → β) (h : List α) (a : α) : changes f (h ++ [a]) =
    changes f h ++ if f (h ++ [a]) ≠ f h then [f (h ++ [a])] else [] := by
  have whole : (h ++ [a]).take (h.length + 1) = h ++ [a] := List.take_of_length_le (by simp)
  have before {n : Nat} (small : n ≤ h.length) : (h ++ [a]).take n = h.take n :=
    List.take_append_of_le_length small
  unfold changes
  rw [List.length_append, List.length_singleton, List.range_succ, List.filterMap_append]
  congr 1
  · refine List.filterMap_congr fun n mem => ?_
    have small := List.mem_range.mp mem
    rw [before (by omega), before (by omega)]
  · simp only [List.filterMap_cons, List.filterMap_nil, whole, before le_rfl, List.take_length]
    by_cases same : f (h ++ [a]) = f h
    · simp [same]
    · simp [same]

end Values

end Lib.History
