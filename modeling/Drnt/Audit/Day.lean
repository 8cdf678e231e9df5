import Drnt.Envelope
import Mathlib.Data.String.Basic

/-! UTC days, by which the audit log is divided into files. -/
namespace Drnt

theorem daysInMonth_bounds (y m : Nat) : 28 ≤ daysInMonth y m ∧ daysInMonth y m ≤ 31 := by
  unfold daysInMonth
  split_ifs <;> omega

structure Day where
  year : Nat
  month : Nat
  day : Nat
  hyear : 1970 ≤ year ∧ year ≤ 9999
  hmonth : 1 ≤ month ∧ month ≤ 12
  hday : 1 ≤ day ∧ day ≤ daysInMonth year month
  deriving Repr

instance : DecidableEq Day := fun d e =>
  decidable_of_iff (d.year = e.year ∧ d.month = e.month ∧ d.day = e.day) <| by
    cases d
    cases e
    simp

def UtcTime.date (t : UtcTime) : Day := ⟨t.year, t.month, t.day, t.hyear, t.hmonth, t.hday⟩

namespace Day

/-- The digits of a day as a number. -/
def key (d : Day) : Nat := d.year * 10000 + d.month * 100 + d.day

instance : LT Day := ⟨fun d e => d.key < e.key⟩

instance : LE Day := ⟨fun d e => d.key ≤ e.key⟩

theorem lt_iff {d e : Day} : d < e ↔ d.key < e.key := Iff.rfl

theorem le_iff {d e : Day} : d ≤ e ↔ d.key ≤ e.key := Iff.rfl

theorem key_injective {d e : Day} (h : d.key = e.key) : d = e := by
  obtain ⟨y, m, a, hy, hm, ha⟩ := d
  obtain ⟨y', m', a', hy', hm', ha'⟩ := e
  have bound := daysInMonth_bounds y m
  have bound' := daysInMonth_bounds y' m'
  unfold key at h
  obtain ⟨rfl, rfl, rfl⟩ : y = y' ∧ m = m' ∧ a = a' := by
    dsimp only at h
    omega
  rfl

theorem lt_or_eq_of_le {d e : Day} (h : d ≤ e) : d < e ∨ d = e :=
  (Nat.lt_or_eq_of_le h).imp_right key_injective

/-- The day before; the first day has none. -/
def yesterday (d : Day) : Option Day :=
  if later : 1 < d.day then
    some ⟨d.year, d.month, d.day - 1, d.hyear, d.hmonth, by have := d.hday; omega⟩
  else if later : 1 < d.month then
    some ⟨d.year, d.month - 1, daysInMonth d.year (d.month - 1), d.hyear,
      by have := d.hmonth; omega, by have := daysInMonth_bounds d.year (d.month - 1); omega⟩
  else if later : 1970 < d.year then
    some ⟨d.year - 1, 12, 31, by have := d.hyear; omega, by decide, by
      have last : daysInMonth (d.year - 1) 12 = 31 := rfl
      omega⟩
  else none

theorem yesterday_lt {d e : Day} (h : d.yesterday = some e) : e < d := by
  have hmonth := d.hmonth
  have hday := d.hday
  unfold yesterday at h
  split_ifs at h
  all_goals
    cases h
    rw [lt_iff]
    unfold key
    dsimp only
  case pos => omega
  case pos =>
    have := daysInMonth_bounds d.year (d.month - 1)
    omega
  case pos => omega

/-- No day lies between a day and the day before it. -/
theorem le_yesterday {d e x : Day} (h : d.yesterday = some e) (less : x < d) : x ≤ e := by
  have hmonth := d.hmonth
  have hday := d.hday
  have xmonth := x.hmonth
  have xday := x.hday
  have xbound := daysInMonth_bounds x.year x.month
  rw [lt_iff] at less
  rw [le_iff]
  unfold key at less ⊢
  unfold yesterday at h
  split_ifs at h
  all_goals
    cases h
    dsimp only
  case pos => omega
  case pos =>
    have bound := daysInMonth_bounds d.year (d.month - 1)
    by_cases same : x.year = d.year ∧ x.month = d.month - 1
    · rw [same.1, same.2] at xday
      omega
    · omega
  case pos => omega

theorem yesterday_none {d : Day} (h : d.yesterday = none) (x : Day) : d ≤ x := by
  have hyear := d.hyear
  have hmonth := d.hmonth
  have hday := d.hday
  have xyear := x.hyear
  have xmonth := x.hmonth
  have xday := x.hday
  unfold yesterday at h
  split_ifs at h
  rw [le_iff]
  unfold key
  omega

/-- The form %Y-%m-%d. -/
def chars (d : Day) : List Char :=
  UtcTime.digits 4 d.year ++ '-' :: UtcTime.digits 2 d.month ++ '-' :: UtcTime.digits 2 d.day

def text (d : Day) : String := String.ofList d.chars

theorem digitChar_lt {a b : Nat} (hb : b < 10) (h : a < b) : Nat.digitChar a < Nat.digitChar b := by
  have table : ∀ b < 10, ∀ a < b, Nat.digitChar a < Nat.digitChar b := by decide
  exact table b hb a h

/-- Numbers of one width are in the order of their digits. -/
theorem digits_lt {width a b : Nat} {x y : List Char}
    (h : a % 10 ^ width < b % 10 ^ width ∨ a % 10 ^ width = b % 10 ^ width ∧ x < y) :
    UtcTime.digits width a ++ x < UtcTime.digits width b ++ y := by
  induction width with
  | zero =>
    rcases h with h | h
    · simp [Nat.mod_one] at h
    · exact h.2
  | succ width ih =>
    have split (n : Nat) : n % 10 ^ (width + 1) = n / 10 ^ width % 10 * 10 ^ width + n % 10 ^ width := by
      rw [Nat.pow_succ, Nat.mod_mul, Nat.mul_comm, Nat.add_comm]
    have low (n : Nat) : n % 10 ^ width < 10 ^ width := Nat.mod_lt _ (Nat.pow_pos (by decide))
    have lowA := low a
    have lowB := low b
    rw [split, split] at h
    rw [UtcTime.digits, UtcTime.digits, List.cons_append, List.cons_append, List.cons_lt_cons_iff]
    have top : b / 10 ^ width % 10 < 10 := Nat.mod_lt _ (by decide)
    generalize a / 10 ^ width % 10 = u at h ⊢
    generalize b / 10 ^ width % 10 = v at h top ⊢
    rcases Nat.lt_trichotomy u v with less | rfl | more
    · exact .inl (digitChar_lt top less)
    · exact .inr ⟨rfl, ih (h.imp (fun less => by omega) fun ⟨same, rest⟩ => ⟨by omega, rest⟩)⟩
    · have room : (v + 1) * 10 ^ width ≤ u * 10 ^ width := Nat.mul_le_mul_right _ more
      rw [Nat.add_mul, Nat.one_mul] at room
      omega

/-- Texts are in the order of the days. -/
theorem text_lt {d e : Day} (h : d < e) : d.text < e.text := by
  have hd := d.hyear
  have he := e.hyear
  have md := d.hmonth
  have me := e.hmonth
  have dd := d.hday
  have de := e.hday
  have boundD := daysInMonth_bounds d.year d.month
  have boundE := daysInMonth_bounds e.year e.month
  rw [lt_iff] at h
  unfold key at h
  have hyphen {x y : List Char} (less : x < y) : '-' :: x < '-' :: y :=
    List.cons_lt_cons_iff.mpr (.inr ⟨rfl, less⟩)
  have last (days : d.day < e.day) : UtcTime.digits 2 d.day < UtcTime.digits 2 e.day := by
    have less := @digits_lt 2 d.day e.day [] [] (.inl (by omega))
    rwa [List.append_nil, List.append_nil] at less
  rw [String.lt_iff_toList_lt, text, text, String.toList_ofList, String.toList_ofList]
  simp only [chars, List.append_assoc, List.cons_append]
  apply digits_lt
  by_cases years : d.year = e.year
  · right
    refine ⟨by omega, hyphen (digits_lt ?_)⟩
    by_cases months : d.month = e.month
    · exact .inr ⟨by omega, hyphen (last (by omega))⟩
    · exact .inl (by omega)
  · exact .inl (by omega)

theorem text_injective {d e : Day} (h : d.text = e.text) : d = e := by
  rcases Nat.lt_trichotomy d.key e.key with less | same | more
  · exact absurd h (text_lt less).ne
  · exact key_injective same
  · exact absurd h.symm (text_lt more).ne

theorem length_chars (d : Day) : d.chars.length = 10 := rfl

end Day

end Drnt
