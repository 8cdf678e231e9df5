import Mathlib.Data.List.Basic
import Mathlib.Algebra.GroupWithZero.Nat

/-! A weight summed over a list, and how it changes with one entry of the list. -/
namespace Lib

variable {α : Type} (f : α → Nat)

def tally (l : List α) : Nat := (l.map f).sum

@[simp] theorem tally_nil : tally f [] = 0 := rfl

@[simp] theorem tally_cons (a : α) (l : List α) : tally f (a :: l) = f a + tally f l := by
  simp [tally]

@[simp] theorem tally_append (l m : List α) : tally f (l ++ m) = tally f l + tally f m := by
  simp [tally]

variable {f} {l : List α}

theorem tally_set {i : Nat} {a : α} (h : l[i]? = some a) (b : α) :
    tally f (l.set i b) + f a = tally f l + f b := by
  induction l generalizing i with
  | nil => simp at h
  | cons c l ih =>
    cases i with
    | zero => simp at h; subst h; simp; omega
    | succ i => simp at h; simp; have := ih h; omega

theorem le_tally {i : Nat} {a : α} (h : l[i]? = some a) : f a ≤ tally f l := by
  induction l generalizing i with
  | nil => simp at h
  | cons c l ih =>
    cases i with
    | zero => simp at h; subst h; simp
    | succ i => simp at h; have := ih h; simp; omega

theorem add_le_tally {i k : Nat} {a b : α} (ne : i ≠ k) (hi : l[i]? = some a)
    (hk : l[k]? = some b) : f a + f b ≤ tally f l := by
  induction l generalizing i k with
  | nil => simp at hi
  | cons c l ih =>
    cases i with
    | zero =>
      cases k with
      | zero => exact absurd rfl ne
      | succ k => simp at hi hk; subst hi; have := le_tally (f := f) hk; simp; omega
    | succ i =>
      cases k with
      | zero => simp at hi hk; subst hk; have := le_tally (f := f) hi; simp; omega
      | succ k => simp at hi hk; have := ih (by omega) hi hk; simp; omega

theorem tally_mono {g : α → Nat} (h : ∀ a, f a ≤ g a) (l : List α) : tally f l ≤ tally g l := by
  induction l with
  | nil => exact Nat.le_refl 0
  | cons a l ih =>
    have := h a
    simp only [tally_cons]
    omega

theorem tally_pos {i : Nat} {a : α} (h : l[i]? = some a) (pos : 0 < f a) : 0 < tally f l :=
  Nat.lt_of_lt_of_le pos (le_tally h)

theorem exists_of_tally_pos (pos : 0 < tally f l) :
    ∃ (i : Nat) (a : α), l[i]? = some a ∧ 0 < f a := by
  induction l with
  | nil => simp at pos
  | cons c l ih =>
    by_cases hc : 0 < f c
    · exact ⟨0, c, by simp, hc⟩
    · obtain ⟨i, a, h, ha⟩ := ih (by simp at pos; omega)
      exact ⟨i + 1, a, by simpa using h, ha⟩

end Lib
