import Drnt.Lib.Utf8

/-! Files that are opened in text mode: strict UTF-8, universal newlines, iterated by line. -/
namespace Lib.TextMode

def lineFeed : CodePoint := 10

def carriageReturn : CodePoint := 13

/-- CR and CRLF become LF; the flag tells that a CR was just read. -/
def universalFrom : Bool → PyStr → PyStr
  | _, [] => []
  | afterReturn, c :: rest =>
    if c = lineFeed then
      if afterReturn then universalFrom false rest else lineFeed :: universalFrom false rest
    else if c = carriageReturn then lineFeed :: universalFrom true rest
    else c :: universalFrom false rest

def universal (s : PyStr) : PyStr := universalFrom false s

/-- The lines without their line feeds. -/
def split : PyStr → List PyStr
  | [] => []
  | c :: rest =>
    if c = lineFeed then [] :: split rest
    else match split rest with
      | [] => [[c]]
      | l :: ls => (c :: l) :: ls

/-- The lines of a file; none stands for UnicodeDecodeError. -/
def read (data : Bytes) : Option (List PyStr) := (Utf8.decode data).map fun s => split (universal s)

/-- str.isspace, which str.strip goes by. -/
def isSpace (c : CodePoint) : Bool :=
  let n := c.val
  (0x09 ≤ n && n ≤ 0x0D) || (0x1C ≤ n && n ≤ 0x20) || n = 0x85 || n = 0xA0 || n = 0x1680 ||
    (0x2000 ≤ n && n ≤ 0x200A) || n = 0x2028 || n = 0x2029 || n = 0x202F || n = 0x205F ||
    n = 0x3000

def isBlank (s : PyStr) : Bool := s.all isSpace

section Lines

variable {s t : PyStr}

theorem universal_append (plain : ∀ c ∈ s, c ≠ lineFeed ∧ c ≠ carriageReturn) (t : PyStr) :
    universal (s ++ t) = s ++ universal t := by
  induction s with
  | nil => rfl
  | cons c s ih =>
    obtain ⟨feed, ret⟩ := plain c (List.mem_cons_self ..)
    have ih : universal (s ++ t) = s ++ universal t :=
      ih fun c mem => plain c (List.mem_cons_of_mem _ mem)
    unfold universal at ih ⊢
    rw [List.cons_append, universalFrom, if_neg feed, if_neg ret, ih, List.cons_append]

theorem universal_feed (t : PyStr) : universal (lineFeed :: t) = lineFeed :: universal t := rfl

theorem split_append (plain : lineFeed ∉ s) (t : PyStr) :
    split (s ++ lineFeed :: t) = s :: split t := by
  induction s with
  | nil => simp [split]
  | cons c s ih =>
    obtain ⟨other, plain⟩ := not_or.mp fun mem => plain (List.mem_cons.mpr mem)
    rw [List.cons_append, split, if_neg fun eq => other eq.symm, ih plain]

theorem split_last (plain : lineFeed ∉ s) (some : s ≠ []) : split s = [s] := by
  induction s with
  | nil => exact absurd rfl some
  | cons c s ih =>
    obtain ⟨other, plain⟩ := not_or.mp fun mem => plain (List.mem_cons.mpr mem)
    rw [split, if_neg fun eq => other eq.symm]
    cases s with
    | nil => rfl
    | cons d s => rw [ih plain (by simp)]

end Lines

end Lib.TextMode
