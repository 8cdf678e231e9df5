import Mathlib.Data.List.Basic
import Mathlib.Algebra.GroupWithZero.Nat

/-! Values as Python's json module reads and writes them. -/
namespace Lib

/-- A Python string is a sequence of code points; a surrogate may stand alone. -/
abbrev CodePoint := Fin 0x110000

abbrev PyStr := List CodePoint

instance neZero_codePoints : NeZero 0x110000 := ⟨by decide⟩

instance : LawfulBEq CodePoint := inferInstance

instance : LawfulBEq PyStr := inferInstance

def CodePoint.ofChar (c : Char) : CodePoint :=
  ⟨c.toNat, by
    have h := c.valid
    simp only [UInt32.isValidChar, Nat.isValidChar] at h
    simp only [Char.toNat]
    omega⟩

def py (s : String) : PyStr := s.toList.map CodePoint.ofChar

def CodePoint.toChar? (c : CodePoint) : Option Char :=
  if h : c.val.isValidChar then some (Char.ofNatAux c.val h) else none

/-- A string without surrogates; only such a string can be encoded as UTF-8. -/
def decode? (s : PyStr) : Option String := (s.mapM CodePoint.toChar?).map String.ofList

theorem CodePoint.toChar?_ofChar (c : Char) : CodePoint.toChar? (.ofChar c) = some c := by
  have valid : (CodePoint.ofChar c).val.isValidChar := c.valid
  have same : Char.ofNatAux (CodePoint.ofChar c).val valid = c := rfl
  rw [toChar?, dif_pos valid, same]

theorem decode?_py (s : String) : decode? (py s) = some s := by
  have h (cs : List Char) : (cs.map CodePoint.ofChar).mapM CodePoint.toChar? = some cs := by
    induction cs with
    | nil => rfl
    | cons c cs ih => simp [CodePoint.toChar?_ofChar, ih]
  simp [decode?, py, h]

/-- A float, kept as the text of its literal. -/
structure PyFloat where
  literal : String
  deriving DecidableEq, Repr

inductive Json
  | null
  | bool (b : Bool)
  | int (n : Int)
  | float (x : PyFloat)
  | str (s : PyStr)
  | arr (xs : List Json)
  | obj (fields : List (PyStr × Json))
  deriving Repr

namespace Json

mutual

def same : Json → Json → Bool
  | null, null => true
  | bool a, bool b => a == b
  | int a, int b => a == b
  | float a, float b => a == b
  | str a, str b => a == b
  | arr xs, arr ys => sameItems xs ys
  | obj fs, obj gs => sameFields fs gs
  | _, _ => false

def sameItems : List Json → List Json → Bool
  | [], [] => true
  | x :: xs, y :: ys => same x y && sameItems xs ys
  | _, _ => false

def sameFields : List (PyStr × Json) → List (PyStr × Json) → Bool
  | [], [] => true
  | (k, v) :: fs, (l, w) :: gs => k == l && same v w && sameFields fs gs
  | _, _ => false

end

mutual

theorem same_iff : ∀ a b : Json, same a b = true ↔ a = b
  | null, b => by cases b <;> simp [same]
  | bool a, b => by cases b <;> simp [same]
  | int a, b => by cases b <;> simp [same]
  | float a, b => by cases b <;> simp [same]
  | str a, b => by cases b <;> simp [same]
  | arr xs, b => by cases b <;> simp [same, sameItems_iff xs]
  | obj fs, b => by cases b <;> simp [same, sameFields_iff fs]

theorem sameItems_iff : ∀ xs ys : List Json, sameItems xs ys = true ↔ xs = ys
  | [], ys => by cases ys <;> simp [sameItems]
  | x :: xs, ys => by cases ys <;> simp [sameItems, same_iff x, sameItems_iff xs]

theorem sameFields_iff : ∀ fs gs : List (PyStr × Json), sameFields fs gs = true ↔ fs = gs
  | [], gs => by cases gs <;> simp [sameFields]
  | (k, v) :: fs, gs => by
    cases gs with
    | nil => simp [sameFields]
    | cons g gs =>
      obtain ⟨l, w⟩ := g
      simp [sameFields, same_iff v, sameFields_iff fs]

end

instance : DecidableEq Json := fun a b => decidable_of_iff _ (same_iff a b)

/-- The value under a key; a key occurs once in a Python dict. -/
def field? (k : PyStr) : List (PyStr × Json) → Option Json
  | [] => none
  | (l, v) :: rest => if l = k then some v else field? k rest

def get? : Json → PyStr → Option Json
  | obj fields, k => field? k fields
  | _, _ => none

def text (s : String) : Json := str (py s)

def textOrNull : Option String → Json
  | none => null
  | some s => text s

def nat (n : Nat) : Json := int n

def intOrNull : Option Int → Json
  | none => null
  | some n => int n

def floatOrNull : Option PyFloat → Json
  | none => null
  | some x => float x

def fields (entries : List (String × Json)) : Json := obj (entries.map fun f => (py f.1, f.2))

def texts (xs : List String) : Json := arr (xs.map text)

end Json

end Lib
