import Mathlib.Logic.Basic

/-! Chains of checks that stop at the first failure. -/
namespace Lib.Checks

variable {ε α β : Type}

theorem bind_ok {x : Except ε α} {f : α → Except ε β} {b : β} :
    (x >>= f) = .ok b ↔ ∃ a, x = .ok a ∧ f a = .ok b := by
  cases x with
  | error e => exact iff_of_false nofun fun ⟨_, h, _⟩ => nomatch h
  | ok a =>
    constructor
    · exact fun h => ⟨a, rfl, h⟩
    · rintro ⟨_, h, rest⟩
      cases h
      exact rest

theorem check_ok {x : Except ε Unit} {k : Unit → Except ε β} {b : β} :
    (x >>= k) = .ok b ↔ x = .ok () ∧ k () = .ok b := by
  rw [bind_ok]
  constructor
  · rintro ⟨⟨⟩, done, rest⟩
    exact ⟨done, rest⟩
  · rintro ⟨done, rest⟩
    exact ⟨(), done, rest⟩

theorem guard_ok {p : Prop} [Decidable p] {e : ε} {k : Unit → Except ε β} {b : β} :
    (if p then throw e >>= k else k ()) = .ok b ↔ ¬p ∧ k () = .ok b := by
  by_cases h : p
  · rw [if_pos h]
    exact iff_of_false nofun fun both => both.1 h
  · rw [if_neg h, and_iff_right h]

/-- A loop of checks passes when each does. -/
theorem forM_ok {xs : List α} {f : α → Except ε Unit} :
    xs.forM f = .ok () ↔ ∀ x ∈ xs, f x = .ok () := by
  induction xs with
  | nil => exact iff_of_true rfl nofun
  | cons x xs ih =>
    rw [List.forall_mem_cons, ← ih]
    exact check_ok

end Lib.Checks
