import Drnt.Lib.TextMode
import Drnt.Lib.Loads

/-! Texts read as integers. -/
namespace Lib.IntText

def stripLeft (s : PyStr) : PyStr := s.dropWhile TextMode.isSpace

def strip (s : PyStr) : PyStr := (stripLeft (stripLeft s).reverse).reverse

/-- What int skips around the digits: not the separators U+001C to U+001F. -/
def isIntSpace (c : CodePoint) : Bool :=
  TextMode.isSpace c && !decide (0x1c ≤ c.val ∧ c.val ≤ 0x1f)

def trimInt (s : PyStr) : PyStr :=
  ((s.dropWhile isIntSpace).reverse.dropWhile isIntSpace).reverse

variable (decimal? : CodePoint → Option Nat)

/-- Digits with single underscores between them; the flag tells that a digit was just read. -/
def readDigits (value count : Nat) : Bool → PyStr → Option Nat
  | afterDigit, [] => if afterDigit ∧ count ≤ Loads.maxStrDigits then some value else none
  | afterDigit, c :: rest =>
    if c = Loads.ch '_' then if afterDigit then readDigits value count false rest else none
    else match decimal? c with
      | some d => readDigits (10 * value + d) (count + 1) true rest
      | none => none

/-- int of a text; none stands for ValueError. -/
def intOf (s : PyStr) : Option Int :=
  match trimInt s with
  | [] => none
  | c :: rest =>
    if c = Loads.ch '-' then (readDigits decimal? 0 0 false rest).map fun n => -(n : Int)
    else if c = Loads.ch '+' then (readDigits decimal? 0 0 false rest).map fun n => (n : Int)
    else (readDigits decimal? 0 0 false (c :: rest)).map fun n => (n : Int)

end Lib.IntText
