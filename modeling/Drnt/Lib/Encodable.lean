import Drnt.Lib.Surrogates

/-! Values that json.loads can return and those that can be written as UTF-8: a text may hold a
surrogate, which json.dumps passes on. -/
namespace Lib

namespace Json

mutual

/-- Every text of a value can be encoded. -/
def encodable : Json → Bool
  | .str s => Utf8.encodable s
  | .arr xs => encodableItems xs
  | .obj fields => encodableFields fields
  | .null | .bool _ | .int _ | .float _ => true

def encodableItems : List Json → Bool
  | [] => true
  | x :: xs => x.encodable && encodableItems xs

def encodableFields : List (PyStr × Json) → Bool
  | [] => true
  | (k, v) :: fields => Utf8.encodable k && v.encodable && encodableFields fields

end

theorem encodableItems_iff {xs : List Json} :
    encodableItems xs = true ↔ ∀ x ∈ xs, x.encodable = true := by
  induction xs with
  | nil => simp [encodableItems]
  | cons x xs ih => simp [encodableItems, ih]

theorem encodableFields_iff {fields : List (PyStr × Json)} : encodableFields fields = true ↔
    ∀ f ∈ fields, Utf8.encodable f.1 = true ∧ f.2.encodable = true := by
  induction fields with
  | nil => simp [encodableFields]
  | cons f fields ih => simp [encodableFields, ih, and_assoc]

end Json

namespace Loads

section Values

/-- Values that json.loads can return, with at most so many containers in one another. -/
inductive Loaded (py : Python) : Nat → Json → Prop
  | null {n} : Loaded py n .null
  | bool {n} (b : Bool) : Loaded py n (.bool b)
  | int {n} {k : Int} (short : (digits k.natAbs).length ≤ maxStrDigits) : Loaded py n (.int k)
  | float {n x} (text : FloatText py x) : Loaded py n (.float x)
  | str {n} (s : PyStr) : Loaded py n (.str s)
  | arr {n xs} (items : ∀ x ∈ xs, Loaded py n x) : Loaded py (n + 1) (.arr xs)
  | obj {n fields} (distinct : (fields.map Prod.fst).Nodup)
      (values : ∀ f ∈ fields, Loaded py n f.2) : Loaded py (n + 1) (.obj fields)

theorem fits_of_loaded {py : Python} {n : Nat} {v : Json} (h : Loaded py n v) (plain : v.encodable = true) : Fits py n v := by
  induction h with
  | null => exact .null
  | bool b => exact .bool b
  | int short => exact .int short
  | float text => exact .float text
  | str s => exact .str plain
  | arr items ih =>
    rw [Json.encodable, Json.encodableItems_iff] at plain
    exact .arr fun x mem => ih x mem (plain x mem)
  | obj distinct values ih =>
    rw [Json.encodable, Json.encodableFields_iff] at plain
    exact .obj distinct (fun f mem => (plain f mem).1) fun f mem => ih f mem (plain f mem).2

theorem loaded_of_fits {py : Python} {n : Nat} {v : Json} (h : Fits py n v) : Loaded py n v := by
  induction h with
  | null => exact .null
  | bool b => exact .bool b
  | int short => exact .int short
  | float text => exact .float text
  | str plain => exact .str _
  | arr items ih => exact .arr ih
  | obj distinct keys values ih => exact .obj distinct ih

end Values

section Texts

open Dumps (dumps dumpsItems dumpsFields)

theorem encodable_append (a b : PyStr) :
    Utf8.encodable (a ++ b) = (Utf8.encodable a && Utf8.encodable b) := List.all_append

theorem encodable_cons {c : CodePoint} (plain : Utf8.isSurrogate c.val = false) (s : PyStr) :
    Utf8.encodable (c :: s) = Utf8.encodable s := by
  rw [Utf8.encodable, List.all_cons, plain]
  rfl

/-- A character is written as itself or in ASCII. -/
theorem encodable_char (c : CodePoint) :
    Utf8.encodable (Dumps.char false c) = !Utf8.isSurrogate c.val := by
  cases plain : Utf8.isSurrogate c.val with
  | false => exact encodable_of_clean (clean_char plain)
  | true =>
    have range : 0xD800 ≤ c.val := by
      simp only [Utf8.isSurrogate, Bool.and_eq_true, decide_eq_true_eq] at plain
      exact plain.1
    have direct : Dumps.char false c = [c] := by
      have ne {d : CodePoint} (small : d.val < 0xD800) : c ≠ d := by
        rintro rfl
        omega
      unfold Dumps.char
      rw [if_neg (ne (by decide)), if_neg (ne (by decide)), if_neg (ne (by decide)),
        if_neg (ne (by decide)), if_neg (ne (by decide)), if_neg (ne (by decide)),
        if_neg (ne (by decide)), if_neg (by omega), if_pos (.inl rfl)]
    simp [direct, Utf8.encodable, plain]

theorem encodable_chars (s : PyStr) :
    Utf8.encodable (s.flatMap (Dumps.char false)) = Utf8.encodable s := by
  induction s with
  | nil => rfl
  | cons c s ih =>
    rw [List.flatMap_cons, encodable_append, encodable_char, ih]
    rfl

theorem encodable_text (s : PyStr) : Utf8.encodable (Dumps.text false s) = Utf8.encodable s := by
  rw [Dumps.text, List.cons_append, encodable_cons rfl, encodable_append, encodable_chars]
  exact Bool.and_true _

theorem encodable_literal (s : String) : Utf8.encodable (Lib.py s) = true := by
  refine List.all_eq_true.mpr fun c mem => ?_
  obtain ⟨x, -, rfl⟩ := List.mem_map.mp mem
  have valid : x.toNat.isValidChar := x.valid
  have plain : Utf8.isSurrogate x.toNat = false := by
    rw [Utf8.not_surrogate_iff]
    exact valid.imp_right fun high => by omega
  simpa [CodePoint.ofChar] using plain

mutual

/-- A value can be written just if its texts can. -/
theorem encodable_dumps : (v : Json) → Utf8.encodable (dumps false v) = v.encodable
  | .null => encodable_literal _
  | .bool true => encodable_literal _
  | .bool false => encodable_literal _
  | .int _ => encodable_literal _
  | .float _ => encodable_literal _
  | .str s => by rw [dumps, encodable_text, Json.encodable]
  | .arr [] => rfl
  | .arr (x :: xs) => by
    rw [dumps, List.cons_append, encodable_cons rfl, encodable_append, encodable_dumps x,
      encodable_dumpsItems xs]
    rfl
  | .obj [] => rfl
  | .obj ((k, v) :: fields) => by
    rw [dumps, List.append_assoc, List.cons_append, List.cons_append, encodable_cons rfl,
      encodable_append, encodable_text, encodable_cons rfl, encodable_append, encodable_dumps v,
      encodable_dumpsFields fields, ← Bool.and_assoc]
    rfl

theorem encodable_dumpsItems : (xs : List Json) →
    Utf8.encodable (dumpsItems false xs) = Json.encodableItems xs
  | [] => rfl
  | x :: xs => by
    rw [dumpsItems, List.cons_append, encodable_cons rfl, encodable_append, encodable_dumps x,
      encodable_dumpsItems xs]
    rfl

theorem encodable_dumpsFields : (fields : List (PyStr × Json)) →
    Utf8.encodable (dumpsFields false fields) = Json.encodableFields fields
  | [] => rfl
  | (k, v) :: fields => by
    rw [dumpsFields, List.append_assoc, List.cons_append, List.cons_append, encodable_cons rfl,
      encodable_append, encodable_text, encodable_cons rfl, encodable_append, encodable_dumps v,
      encodable_dumpsFields fields, ← Bool.and_assoc]
    rfl

end

end Texts

end Loads

end Lib
