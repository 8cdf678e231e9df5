import Drnt.Lib.Dumps
import Drnt.Lib.Utf8
import Mathlib.Tactic.IntervalCases

/-! json.loads reads back what json.dumps writes. -/
namespace Lib

namespace Loads

open Dumps (dumps dumpsItems dumpsFields hexDigit escapeUnit)

/-- A state that has read the value `v`: its end, and what it does at a delimiter or a space. -/
def Ends (py : Python) (s : State) (v : Json) (stack : List Frame) : Prop :=
  finish py s = close v stack ∧
    ∀ c, c = ch ',' ∨ c = ch ']' ∨ c = ch '}' ∨ isSpace c = true →
      step py s c = stepAfter v stack c

section Text

variable {py : Python} {asKey : Bool} {read : PyStr} {stack : List Frame}

theorem run_cons (s : State) (c : CodePoint) (text : PyStr) :
    run py s (c :: text) = (step py s c).bind fun s => run py s text := by
  simp only [run, List.foldlM_cons]
  rfl

theorem run_then {s s' : State} {a : PyStr} (h : run py s a = .ok s') (b : PyStr) :
    run py s (a ++ b) = run py s' b := by
  rw [run_append, h]
  rfl

theorem run_step {s s' : State} {c : CodePoint} (h : step py s c = .ok s') (text : PyStr) :
    run py s (c :: text) = run py s' text := by
  rw [run_cons, h]
  rfl

@[simp] theorem run_nil (s : State) : run py s [] = .ok s := rfl

theorem hexDigit?_hexDigit {n : Nat} (h : n < 16) : hexDigit? (hexDigit n) = some n := by
  have table : ∀ n < 16, hexDigit? (hexDigit n) = some n := by decide
  exact table n h

/-- An escape by number is read as that number. -/
theorem run_escapeUnit {n : Nat} (h : n < 0x10000) (high : Bool) :
    run py ⟨.text asKey read .plain high, stack⟩ (escapeUnit n) =
      .ok ⟨unit asKey read high n, stack⟩ := by
  have d (k : Nat) : hexDigit? (hexDigit (k % 16)) = some (k % 16) :=
    hexDigit?_hexDigit (Nat.mod_lt _ (by decide))
  have value : hexOf [hexDigit (n / 4096 % 16), hexDigit (n / 256 % 16), hexDigit (n / 16 % 16),
      hexDigit (n % 16)] = n := by
    simp only [hexOf, List.foldl_cons, List.foldl_nil, d, Option.getD_some]
    omega
  have slash : step py ⟨.text asKey read .plain high, stack⟩ (ch '\\') =
      .ok ⟨.text asKey read .slash high, stack⟩ := rfl
  have mark : step py ⟨.text asKey read .slash high, stack⟩ (ch 'u') =
      .ok ⟨.text asKey read (.hex []) high, stack⟩ := rfl
  have next (digits : PyStr) (short : digits.length < 3) (k : Nat) :
      step py ⟨.text asKey read (.hex digits) high, stack⟩ (hexDigit (k % 16)) =
        .ok ⟨.text asKey read (.hex (digits ++ [hexDigit (k % 16)])) high, stack⟩ := by
    simp [step, stepText, d, short]
  have last (digits : PyStr) (full : digits.length = 3) (k : Nat) :
      step py ⟨.text asKey read (.hex digits) high, stack⟩ (hexDigit (k % 16)) =
        .ok ⟨unit asKey read high (hexOf (digits ++ [hexDigit (k % 16)])), stack⟩ := by
    simp [step, stepText, d, full]
  rw [escapeUnit, run_step slash, run_step mark, run_step (next [] (by decide) _),
    run_step (next _ (by simp) _), run_step (next _ (by simp) _), run_step (last _ (by simp) _),
    run_nil]
  simp only [List.nil_append, List.cons_append, value]

theorem isHigh_of_plain {n : Nat} (plain : Utf8.isSurrogate n = false) : isHigh n = false := by
  simp only [Utf8.isSurrogate, isHigh, Bool.and_eq_false_iff, decide_eq_false_iff_not] at plain ⊢
  omega

theorem ofNat_val (c : CodePoint) : Fin.ofNat 0x110000 c.val = c :=
  Fin.ext (Nat.mod_eq_of_lt c.isLt)

theorem unit_false (n : Nat) :
    unit asKey read false n = .text asKey (read ++ [Fin.ofNat _ n]) .plain (isHigh n) := by
  unfold unit
  split <;> simp

theorem unit_true {c : CodePoint} {n : Nat} (low : isLow n = true) :
    unit asKey (read ++ [c]) true n = .text asKey (read ++ [Fin.ofNat _ (join c.val n)]) .plain false := by
  simp [unit, low]

/-- A pair of surrogates is read as one character. -/
theorem run_pair {c : CodePoint} (h : 0x10000 ≤ c.val) :
    run py ⟨.text asKey read .plain false, stack⟩
      (escapeUnit (0xD800 + (c.val - 0x10000) / 1024) ++
        escapeUnit (0xDC00 + (c.val - 0x10000) % 1024)) =
      .ok ⟨.text asKey (read ++ [c]) .plain false, stack⟩ := by
  have bound := c.isLt
  generalize top : 0xD800 + (c.val - 0x10000) / 1024 = high
  generalize bottom : 0xDC00 + (c.val - 0x10000) % 1024 = low
  have highIs : isHigh high = true := by
    simp only [isHigh, Bool.and_eq_true, decide_eq_true_eq]
    omega
  have lowIs : isLow low = true := by
    simp only [isLow, Bool.and_eq_true, decide_eq_true_eq]
    omega
  have joined : join high low = c.val := by
    unfold join
    omega
  have value : (Fin.ofNat 0x110000 high).val = high := Nat.mod_eq_of_lt (by omega)
  have first : run py ⟨.text asKey read .plain false, stack⟩ (escapeUnit high) =
      .ok ⟨.text asKey (read ++ [Fin.ofNat _ high]) .plain true, stack⟩ := by
    rw [run_escapeUnit (by omega), unit_false, highIs]
  have second : run py ⟨.text asKey (read ++ [Fin.ofNat _ high]) .plain true, stack⟩
      (escapeUnit low) = .ok ⟨.text asKey (read ++ [c]) .plain false, stack⟩ := by
    rw [run_escapeUnit (by omega), unit_true lowIs, value, joined, ofNat_val]
  rw [run_then first, second]

/-- The forms in which a character is written. -/
inductive Written (ascii : Bool) (c : CodePoint) : Prop
  | short (d : Char) (eq : Dumps.char ascii c = [ch '\\', ch d]) (value : escaped? (ch d) = some c)
      (other : ch d ≠ ch 'u') (clean : 0x20 ≤ (ch d).val ∧ (ch d).val < 0x80)
  | number (eq : Dumps.char ascii c = escapeUnit c.val) (low : c.val < 0x10000)
  | direct (eq : Dumps.char ascii c = [c]) (quote : c ≠ ch '"') (slash : c ≠ ch '\\')
      (control : 0x20 ≤ c.val)
  | pair (eq : Dumps.char ascii c = escapeUnit (0xD800 + (c.val - 0x10000) / 1024) ++
      escapeUnit (0xDC00 + (c.val - 0x10000) % 1024)) (high : 0x10000 ≤ c.val)

theorem written (ascii : Bool) (c : CodePoint) : Written ascii c := by
  by_cases quote : c = ch '"'
  · subst quote
    exact .short '"' rfl rfl (by decide) (by decide)
  by_cases slash : c = ch '\\'
  · subst slash
    exact .short '\\' rfl rfl (by decide) (by decide)
  by_cases feed : c = 10
  · subst feed
    exact .short 'n' rfl rfl (by decide) (by decide)
  by_cases ret : c = 13
  · subst ret
    exact .short 'r' rfl rfl (by decide) (by decide)
  by_cases tab : c = 9
  · subst tab
    exact .short 't' rfl rfl (by decide) (by decide)
  by_cases form : c = 12
  · subst form
    exact .short 'f' rfl rfl (by decide) (by decide)
  by_cases back : c = 8
  · subst back
    exact .short 'b' rfl rfl (by decide) (by decide)
  have longer : Dumps.char ascii c = if c.val < 0x20 then escapeUnit c.val
      else if !ascii ∨ c.val < 0x7F then [c]
      else if c.val < 0x10000 then escapeUnit c.val
      else escapeUnit (0xD800 + (c.val - 0x10000) / 1024) ++
        escapeUnit (0xDC00 + (c.val - 0x10000) % 1024) := by
    rw [Dumps.char, if_neg quote, if_neg slash, if_neg feed, if_neg ret, if_neg tab, if_neg form,
      if_neg back]
  by_cases control : c.val < 0x20
  · exact .number (by rw [longer, if_pos control]) (by omega)
  by_cases direct : !ascii ∨ c.val < 0x7F
  · exact .direct (by rw [longer, if_neg control, if_pos direct]) quote slash (by omega)
  by_cases low : c.val < 0x10000
  · exact .number (by rw [longer, if_neg control, if_neg direct, if_pos low]) low
  · exact .pair (by rw [longer, if_neg control, if_neg direct, if_neg low]) (by omega)

/-- A character is read as itself. -/
theorem run_char (ascii : Bool) {c : CodePoint} (plain : Utf8.isSurrogate c.val = false) :
    run py ⟨.text asKey read .plain false, stack⟩ (Dumps.char ascii c) =
      .ok ⟨.text asKey (read ++ [c]) .plain false, stack⟩ := by
  cases written ascii c with
  | short d eq value other clean =>
    have first : step py ⟨.text asKey read .plain false, stack⟩ (ch '\\') =
        .ok ⟨.text asKey read .slash false, stack⟩ := rfl
    have second : step py ⟨.text asKey read .slash false, stack⟩ (ch d) =
        .ok ⟨.text asKey (read ++ [c]) .plain false, stack⟩ := by
      simp [step, stepText, other, value]
    rw [eq, run_step first, run_step second, run_nil]
  | number eq low => rw [eq, run_escapeUnit low, unit_false, ofNat_val, isHigh_of_plain plain]
  | direct eq quote slash control =>
    have direct : step py ⟨.text asKey read .plain false, stack⟩ c =
        .ok ⟨.text asKey (read ++ [c]) .plain false, stack⟩ := by
      simp [step, stepText, quote, slash, Nat.not_lt.mpr control]
    rw [eq, run_step direct, run_nil]
  | pair eq high => rw [eq, run_pair high]

/-- The characters of a text are read as themselves. -/
theorem run_chars (ascii : Bool) {s : PyStr} (plain : Utf8.encodable s = true) :
    run py ⟨.text asKey read .plain false, stack⟩ (s.flatMap (Dumps.char ascii)) =
      .ok ⟨.text asKey (read ++ s) .plain false, stack⟩ := by
  induction s generalizing read with
  | nil => simp
  | cons c s ih =>
    simp only [Utf8.encodable, List.all_cons, Bool.and_eq_true, Bool.not_eq_true'] at plain
    rw [List.flatMap_cons, run_then (run_char ascii plain.1),
      ih (by simpa [Utf8.encodable] using plain.2), List.append_assoc, List.singleton_append]

end Text

section Numbers

variable {py : Python} {stack : List Frame}

def digits (n : Nat) : PyStr := (Nat.toDigits 10 n).map CodePoint.ofChar

theorem digit?_digitChar {n : Nat} (h : n < 10) :
    digit? (CodePoint.ofChar (Nat.digitChar n)) = some n := by
  have table : ∀ n < 10, digit? (CodePoint.ofChar (Nat.digitChar n)) = some n := by decide
  exact table n h

theorem digits_small {n : Nat} (h : n < 10) :
    digits n = [CodePoint.ofChar (Nat.digitChar n)] := by
  rw [digits, Nat.toDigits_of_lt_base h]
  rfl

theorem digits_large {n : Nat} (h : 10 ≤ n) :
    digits n = digits (n / 10) ++ [CodePoint.ofChar (Nat.digitChar (n % 10))] := by
  rw [digits, Nat.toDigits_of_base_le (by decide) h, List.map_append]
  rfl

theorem natOf_concat (s : PyStr) (c : CodePoint) :
    natOf (s ++ [c]) = 10 * natOf s + (digit? c).getD 0 := by
  simp [natOf]

/-- The digits of a number: their value, and the first of them. -/
theorem digits_spec (n : Nat) : natOf (digits n) = n ∧ (∀ c ∈ digits n, isDigit c = true) ∧
    ∃ c rest, digits n = c :: rest ∧ (n = 0 → c = ch '0' ∧ rest = []) ∧ (n ≠ 0 → c ≠ ch '0') := by
  induction n using Nat.strongRecOn with
  | ind n ih =>
    by_cases small : n < 10
    · have value := digit?_digitChar small
      rw [digits_small small]
      refine ⟨by simp [natOf, value], by simp [isDigit, value], _, [], rfl, ?_, ?_⟩
      · rintro rfl
        exact ⟨rfl, rfl⟩
      · rintro some same
        rw [same] at value
        exact some (Option.some.inj value).symm
    · obtain ⟨value, all, c, rest, first, -, some⟩ := ih (n / 10) (by omega)
      have last := digit?_digitChar (Nat.mod_lt n (show 0 < 10 by decide))
      rw [digits_large (by omega)]
      refine ⟨?_, ?_, c, rest ++ [CodePoint.ofChar (Nat.digitChar (n % 10))], ?_, ?_, ?_⟩
      · rw [natOf_concat, value, last, Option.getD_some]
        omega
      · intro d mem
        rcases List.mem_append.mp mem with mem | mem
        · exact all d mem
        · rw [List.mem_singleton.mp mem, isDigit, last]
          rfl
      · rw [first]
        rfl
      · intro zero
        omega
      · exact fun _ => some (by omega)

theorem run_whole {ds : PyStr} (all : ∀ c ∈ ds, isDigit c = true) (read : PyStr) (k : Nat) :
    run py ⟨.number .whole read k, stack⟩ ds =
      .ok ⟨.number .whole (read ++ ds) (k + ds.length), stack⟩ := by
  induction ds generalizing read k with
  | nil => simp
  | cons c ds ih =>
    have digit : isDigit c = true := all c (List.mem_cons_self ..)
    have here : step py ⟨.number .whole read k, stack⟩ c =
        .ok ⟨.number .whole (read ++ [c]) (k + 1), stack⟩ := by
      simp [step, stepNumber, NumPart.next?, digit]
    rw [run_step here, ih fun d mem => all d (List.mem_cons_of_mem _ mem)]
    simp only [List.append_assoc, List.singleton_append, List.length_cons, Nat.add_assoc,
      Nat.add_comm 1]

/-- Digits are read as a number, after a state that begins one. -/
theorem run_digits {s : State} {sign : PyStr}
    (begins : ∀ c, isDigit c = true → step py s c =
      .ok ⟨.number (if c = ch '0' then .zero else .whole) (sign ++ [c]) 1, stack⟩) (n : Nat) :
    ∃ part, (part = .zero ∨ part = .whole) ∧ run py s (digits n) =
      .ok ⟨.number part (sign ++ digits n) (digits n).length, stack⟩ := by
  obtain ⟨-, all, c, rest, eq, zero, some⟩ := digits_spec n
  rw [eq] at all ⊢
  have first := begins c (all c (List.mem_cons_self ..))
  by_cases none : n = 0
  · obtain ⟨rfl, rfl⟩ := zero none
    exact ⟨.zero, .inl rfl, by rw [run_step first]; rfl⟩
  · rw [if_neg (some none)] at first
    refine ⟨.whole, .inr rfl, ?_⟩
    rw [run_step first, run_whole fun d mem => all d (List.mem_cons_of_mem _ mem)]
    simp [Nat.add_comm]

theorem int_nonneg (n : Nat) : Dumps.int n = digits n := by
  have text : (toString (n : Int)).toList = Nat.toDigits 10 n := String.toList_ofList
  rw [Dumps.int, py, text, digits]

theorem int_neg (n : Nat) : Dumps.int (.negSucc n) = ch '-' :: digits (n + 1) := by
  have text : (toString (Int.negSucc n)).toList = '-' :: Nat.toDigits 10 (n + 1) := by
    show ("-" ++ String.ofList (Nat.toDigits 10 (n + 1))).toList = _
    rw [String.toList_append]
    exact congrArg ('-' :: ·) String.toList_ofList
  rw [Dumps.int, py, text, digits]
  rfl

/-- A number that has been read ends at a delimiter. -/
theorem ends_number {part : NumPart} {read : PyStr} {k : Nat} {v : Json}
    (complete : part = .zero ∨ part = .whole ∨ part = .frac ∨ part = .power)
    (value : number py part read k = .ok v) : Ends py ⟨.number part read k, stack⟩ v stack := by
  constructor
  case left => simp [finish, value, Except.bind]
  case right =>
    intro c delimiter
    have stops : part.next? c = none := by
      rcases delimiter with rfl | rfl | rfl | space
      · rcases complete with rfl | rfl | rfl | rfl <;> rfl
      · rcases complete with rfl | rfl | rfl | rfl <;> rfl
      · rcases complete with rfl | rfl | rfl | rfl <;> rfl
      · exact next?_space space part
    have notMinus : part ≠ .minus := by
      rcases complete with rfl | rfl | rfl | rfl <;> decide
    simp [step, stepNumber, stops, notMinus, value]

theorem ne_of_digit {c : CodePoint} (digit : isDigit c = true) {d : Char}
    (other : isDigit (ch d) = false) : c ≠ ch d := by
  rintro rfl
  rw [other] at digit
  cases digit

theorem not_space_of_digit {c : CodePoint} (digit : isDigit c = true) : isSpace c = false := by
  simp [isSpace, ne_of_digit digit (d := ' ') rfl, ne_of_digit digit (d := '\t') rfl,
    ne_of_digit digit (d := '\n') rfl, ne_of_digit digit (d := '\r') rfl]

theorem begins_value (c : CodePoint) (digit : isDigit c = true) :
    step py ⟨.value, stack⟩ c =
      .ok ⟨.number (if c = ch '0' then .zero else .whole) ([] ++ [c]) 1, stack⟩ := by
  have space := not_space_of_digit digit
  by_cases zero : c = ch '0'
  · subst zero
    rfl
  · simp [step, space, stepValue, ne_of_digit digit (d := '"') rfl,
      ne_of_digit digit (d := '{') rfl, ne_of_digit digit (d := '[') rfl,
      ne_of_digit digit (d := 'n') rfl, ne_of_digit digit (d := 't') rfl,
      ne_of_digit digit (d := 'f') rfl, ne_of_digit digit (d := 'N') rfl,
      ne_of_digit digit (d := 'I') rfl, ne_of_digit digit (d := '-') rfl, zero, digit]

theorem begins_minus (c : CodePoint) (digit : isDigit c = true) :
    step py ⟨.number .minus [ch '-'] 0, stack⟩ c =
      .ok ⟨.number (if c = ch '0' then .zero else .whole) ([ch '-'] ++ [c]) 1, stack⟩ := by
  by_cases zero : c = ch '0'
  · subst zero
    rfl
  · simp [step, stepNumber, NumPart.next?, zero, ne_of_digit digit (d := 'I') rfl, digit]

theorem intOf_int (n : Int) : intOf (Dumps.int n) = n := by
  cases n with
  | ofNat n =>
    obtain ⟨value, all, c, rest, eq, -⟩ := digits_spec n
    have first : c ≠ ch '-' := ne_of_digit (all c (by simp [eq])) rfl
    rw [Int.ofNat_eq_natCast, int_nonneg]
    rw [eq] at value ⊢
    simp [intOf, first, value]
  | negSucc n =>
    obtain ⟨value, -⟩ := digits_spec (n + 1)
    rw [int_neg]
    simp [intOf, value, Int.negSucc_eq]

theorem int_injective : Function.Injective Dumps.int := by
  intro a b h
  rw [← intOf_int a, h, intOf_int]

/-- An integer is read as itself. -/
theorem run_int {n : Int} (short : (digits n.natAbs).length ≤ maxStrDigits) :
    ∃ s, run py ⟨.value, stack⟩ (Dumps.int n) = .ok s ∧ Ends py s (.int n) stack := by
  have done (part : NumPart) (complete : part = .zero ∨ part = .whole) :
      Ends py ⟨.number part (Dumps.int n) (digits n.natAbs).length, stack⟩ (.int n) stack := by
    apply ends_number (by tauto)
    rcases complete with rfl | rfl <;> simp [number, Nat.not_lt.mpr short, intOf_int]
  cases n with
  | ofNat n =>
    obtain ⟨part, complete, ran⟩ := run_digits (@begins_value py stack) n
    refine ⟨_, ?_, done part complete⟩
    rw [Int.ofNat_eq_natCast, int_nonneg]
    exact ran
  | negSucc n =>
    have minus : step py ⟨.value, stack⟩ (ch '-') = .ok ⟨.number .minus [ch '-'] 0, stack⟩ := rfl
    obtain ⟨part, complete, ran⟩ := run_digits (@begins_minus py stack) (n + 1)
    refine ⟨_, ?_, done part complete⟩
    rw [int_neg, run_step minus]
    exact ran

end Numbers

section Values

variable {py : Python} {stack : List Frame} {ascii : Bool}

def isNumeric (c : CodePoint) : Bool :=
  isDigit c || c = ch '-' || c = ch '+' || c = ch '.' || c = ch 'e' || c = ch 'E'

/-- A float whose literal is read as that float. -/
def FloatText (py : Python) (x : PyFloat) : Prop :=
  x.literal = "NaN" ∨ x.literal = "Infinity" ∨ x.literal = "-Infinity" ∨
    ∃ part k, (part = NumPart.frac ∨ part = .power) ∧ py.float (Lib.py x.literal) = x ∧
      (∀ c ∈ Lib.py x.literal, isNumeric c = true) ∧
      (∃ c rest, Lib.py x.literal = c :: rest ∧ (c = ch '-' ∨ isDigit c = true)) ∧
      ∀ stack, run py ⟨.value, stack⟩ (Lib.py x.literal) =
        .ok ⟨.number part (Lib.py x.literal) k, stack⟩

/-- Values that json.loads can return, with at most so many containers in one another and only
texts that can be encoded. -/
inductive Fits (py : Python) : Nat → Json → Prop
  | null {n} : Fits py n .null
  | bool {n} (b : Bool) : Fits py n (.bool b)
  | int {n} {k : Int} (short : (digits k.natAbs).length ≤ maxStrDigits) : Fits py n (.int k)
  | float {n x} (text : FloatText py x) : Fits py n (.float x)
  | str {n s} (plain : Utf8.encodable s = true) : Fits py n (.str s)
  | arr {n xs} (items : ∀ x ∈ xs, Fits py n x) : Fits py (n + 1) (.arr xs)
  | obj {n fields} (distinct : (fields.map Prod.fst).Nodup)
      (keys : ∀ f ∈ fields, Utf8.encodable f.1 = true) (values : ∀ f ∈ fields, Fits py n f.2) :
      Fits py (n + 1) (.obj fields)

/-- The first character of a value. -/
def Opens (c : CodePoint) : Prop := isSpace c = false ∧ c ≠ ch ']'

theorem dumps_opens {n : Nat} {v : Json} (h : Fits py n v) :
    ∃ c rest, dumps ascii v = c :: rest ∧ Opens c := by
  have digit {c : CodePoint} (h : isDigit c = true) : Opens c :=
    ⟨not_space_of_digit h, ne_of_digit h rfl⟩
  have minus : Opens (ch '-') := ⟨rfl, by decide⟩
  cases h with
  | null => exact ⟨ch 'n', _, rfl, rfl, by decide⟩
  | bool b =>
    cases b with
    | true => exact ⟨ch 't', _, rfl, rfl, by decide⟩
    | false => exact ⟨ch 'f', _, rfl, rfl, by decide⟩
  | @int n k short =>
    cases k with
    | ofNat k =>
      obtain ⟨-, all, c, rest, eq, -⟩ := digits_spec k
      refine ⟨c, rest, ?_, digit (all c (by simp [eq]))⟩
      rw [dumps, Int.ofNat_eq_natCast, int_nonneg, eq]
    | negSucc k => exact ⟨ch '-', _, by rw [dumps, int_neg], minus⟩
  | @float n x text =>
    rcases text with eq | eq | eq | ⟨-, -, -, -, -, ⟨c, rest, eq, first⟩, -⟩
    · exact ⟨ch 'N', _, by rw [dumps, eq]; rfl, rfl, by decide⟩
    · exact ⟨ch 'I', _, by rw [dumps, eq]; rfl, rfl, by decide⟩
    · exact ⟨ch '-', _, by rw [dumps, eq]; rfl, minus⟩
    · refine ⟨c, rest, by rw [dumps, eq], ?_⟩
      rcases first with rfl | first
      · exact minus
      · exact digit first
  | str plain => exact ⟨ch '"', _, rfl, rfl, by decide⟩
  | @arr n xs items =>
    cases xs with
    | nil => exact ⟨ch '[', _, by rw [dumps], rfl, by decide⟩
    | cons x xs => exact ⟨ch '[', _, by rw [dumps]; rfl, rfl, by decide⟩
  | @obj n fields distinct keys values =>
    rcases fields with - | ⟨⟨k, v⟩, fields⟩
    · exact ⟨ch '{', _, by rw [dumps], rfl, by decide⟩
    · exact ⟨ch '{', _, by rw [dumps]; rfl, rfl, by decide⟩

/-- The first item of an array is read as any value. -/
theorem run_first {n : Nat} {v : Json} (h : Fits py n v) :
    run py ⟨.first, stack⟩ (dumps ascii v) = run py ⟨.value, stack⟩ (dumps ascii v) := by
  obtain ⟨c, rest, eq, space, other⟩ := @dumps_opens py ascii n v h
  have same : step py ⟨.first, stack⟩ c = step py ⟨.value, stack⟩ c := by
    simp [step, space, other]
  rw [eq, run_cons, run_cons, same]

/-- A text after its quote, where a key or a value is read. -/
theorem run_quoted {s : PyStr} (plain : Utf8.encodable s = true) (asKey : Bool) :
    run py ⟨.text asKey [] .plain false, stack⟩ (s.flatMap (Dumps.char ascii)) =
      .ok ⟨.text asKey s .plain false, stack⟩ := run_chars ascii plain

theorem run_str {s : PyStr} (plain : Utf8.encodable s = true) :
    run py ⟨.value, stack⟩ (Dumps.text ascii s) = .ok ⟨.after (.str s), stack⟩ := by
  have quote : step py ⟨.value, stack⟩ (ch '"') = .ok ⟨.text false [] .plain false, stack⟩ := rfl
  rw [Dumps.text, List.cons_append, run_step quote, run_then (run_quoted plain false)]
  rfl

/-- A key and its colon, from a state that waits for a key. -/
theorem run_key {mode : Mode} (waits : mode = .firstKey ∨ mode = .key) {k : PyStr}
    (plain : Utf8.encodable k = true) (fields : List (PyStr × Json)) (text : PyStr) :
    run py ⟨mode, .obj fields :: stack⟩ (Dumps.text ascii k ++ ch ':' :: text) =
      run py ⟨.value, .field fields k :: stack⟩ text := by
  have quote : step py ⟨mode, .obj fields :: stack⟩ (ch '"') =
      .ok ⟨.text true [] .plain false, .obj fields :: stack⟩ := by
    rcases waits with rfl | rfl <;> rfl
  have close_ : step py ⟨.text true k .plain false, .obj fields :: stack⟩ (ch '"') =
      .ok ⟨.colon, .field fields k :: stack⟩ := rfl
  have colon : step py ⟨.colon, .field fields k :: stack⟩ (ch ':') =
      .ok ⟨.value, .field fields k :: stack⟩ := rfl
  rw [Dumps.text, List.cons_append, List.cons_append, run_step quote, List.append_assoc,
    run_then (run_quoted plain true), List.singleton_append, run_step close_, run_step colon]

/-- A value is read as itself: a state that waits for one comes to its end. -/
def Reads (py : Python) (ascii : Bool) (v : Json) (stack : List Frame) : Prop :=
  ∃ s, run py ⟨.value, stack⟩ (dumps ascii v) = .ok s ∧ Ends py s v stack

theorem ends_after (v : Json) : Ends py ⟨.after v, stack⟩ v stack := ⟨rfl, fun _ _ => rfl⟩

/-- The rest of an array, after an item. -/
theorem run_items {xs : List Json} (reads : ∀ x ∈ xs, ∀ items, Reads py ascii x (.arr items :: stack))
    {items : List Json} {x : Json} {s : State} (ends : Ends py s x (.arr items :: stack)) :
    run py s (dumpsItems ascii xs) = .ok ⟨.after (.arr (items ++ x :: xs)), stack⟩ := by
  induction xs generalizing items x s with
  | nil =>
    have last : step py s (ch ']') = .ok ⟨.after (.arr (items ++ [x])), stack⟩ :=
      ends.2 _ (.inr (.inl rfl))
    rw [dumpsItems, run_step last, run_nil]
  | cons y ys ih =>
    have comma : step py s (ch ',') = .ok ⟨.value, .arr (items ++ [x]) :: stack⟩ :=
      ends.2 _ (.inl rfl)
    obtain ⟨s', ran, ends'⟩ := reads y (List.mem_cons_self ..) (items ++ [x])
    rw [dumpsItems, List.cons_append, run_step comma, run_then ran,
      ih (fun z mem => reads z (List.mem_cons_of_mem _ mem)) ends', List.append_assoc]
    rfl

theorem setField_fresh {k : PyStr} {fields : List (PyStr × Json)}
    (fresh : k ∉ fields.map Prod.fst) (v : Json) : setField k v fields = fields ++ [(k, v)] := by
  induction fields with
  | nil => rfl
  | cons f fields ih =>
    obtain ⟨l, w⟩ := f
    obtain ⟨other, fresh⟩ := not_or.mp fun mem => fresh (List.mem_cons.mpr mem)
    rw [setField, if_neg fun eq => other eq.symm, ih fresh]
    rfl

theorem fresh_key {fields fs : List (PyStr × Json)} {k : PyStr} {v : Json}
    (distinct : ((fields ++ (k, v) :: fs).map Prod.fst).Nodup) : k ∉ fields.map Prod.fst := by
  rw [List.map_append, List.nodup_append] at distinct
  exact fun mem => distinct.2.2 k mem k (List.mem_cons_self ..) rfl

/-- The rest of an object, after a field. -/
theorem run_fields {fs : List (PyStr × Json)}
    (reads : ∀ f ∈ fs, Utf8.encodable f.1 = true ∧
      ∀ fields, Reads py ascii f.2 (.field fields f.1 :: stack))
    {fields : List (PyStr × Json)} {k : PyStr} {v : Json} {s : State}
    (distinct : ((fields ++ (k, v) :: fs).map Prod.fst).Nodup)
    (ends : Ends py s v (.field fields k :: stack)) :
    run py s (dumpsFields ascii fs) = .ok ⟨.after (.obj (fields ++ (k, v) :: fs)), stack⟩ := by
  induction fs generalizing fields k v s with
  | nil =>
    have fresh := fresh_key distinct
    have last : step py s (ch '}') = .ok ⟨.after (.obj (fields ++ [(k, v)])), stack⟩ := by
      rw [ends.2 _ (.inr (.inr (.inl rfl))), ← setField_fresh fresh]
      rfl
    rw [dumpsFields, run_step last, run_nil]
  | cons f fs ih =>
    obtain ⟨l, w⟩ := f
    have fresh := fresh_key distinct
    have comma : step py s (ch ',') = .ok ⟨.key, .obj (fields ++ [(k, v)]) :: stack⟩ := by
      rw [ends.2 _ (.inl rfl), ← setField_fresh fresh]
      rfl
    obtain ⟨plain, reads_⟩ := reads (l, w) (List.mem_cons_self ..)
    obtain ⟨s', ran, ends'⟩ := reads_ (fields ++ [(k, v)])
    have later : ((fields ++ [(k, v)] ++ (l, w) :: fs).map Prod.fst).Nodup := by
      simpa using distinct
    have rest := ih (fun g mem => reads g (List.mem_cons_of_mem _ mem)) later ends'
    rw [dumpsFields, List.append_assoc, List.cons_append, List.cons_append, run_step comma,
      run_key (.inr rfl) plain, run_then ran, rest]
    simp

theorem run_dumps {n : Nat} {v : Json} (h : Fits py n v) (stack : List Frame)
    (room : stack.length + n ≤ py.maxDepth) : Reads py ascii v stack := by
  induction h generalizing stack with
  | null => exact ⟨_, by rw [dumps]; rfl, ends_after _⟩
  | bool b => cases b <;> exact ⟨_, by rw [dumps]; rfl, ends_after _⟩
  | int short =>
    obtain ⟨s, ran, ends⟩ := @run_int py stack _ short
    exact ⟨s, by rw [dumps]; exact ran, ends⟩
  | @float n x text =>
    rcases text with eq | eq | eq | ⟨part, k, complete, value, -, -, ran⟩
    · obtain ⟨literal⟩ := x
      cases eq
      exact ⟨_, by rw [dumps]; rfl, ends_after _⟩
    · obtain ⟨literal⟩ := x
      cases eq
      exact ⟨_, by rw [dumps]; rfl, ends_after _⟩
    · obtain ⟨literal⟩ := x
      cases eq
      exact ⟨_, by rw [dumps]; rfl, ends_after _⟩
    · refine ⟨_, by rw [dumps]; exact ran stack, ends_number (by tauto) ?_⟩
      rcases complete with rfl | rfl <;> simp [number, value]
  | str plain => exact ⟨_, by rw [dumps]; exact run_str plain, ends_after _⟩
  | @arr n xs items ih =>
    have open_ : step py ⟨.value, stack⟩ (ch '[') = .ok ⟨.first, .arr [] :: stack⟩ := by
      have deeper : enter py .first (.arr []) stack = .ok ⟨.first, .arr [] :: stack⟩ :=
        if_pos (by omega)
      rw [← deeper]
      rfl
    have reads : ∀ x ∈ xs, ∀ items, Reads py ascii x (.arr items :: stack) := fun x mem items =>
      ih x mem _ (by rw [List.length_cons]; omega)
    cases xs with
    | nil =>
      refine ⟨_, ?_, ends_after _⟩
      rw [dumps, run_step open_]
      rfl
    | cons x xs =>
      obtain ⟨s, ran, ends⟩ := reads x (List.mem_cons_self ..) []
      refine ⟨_, ?_, ends_after _⟩
      rw [dumps, List.cons_append, run_step open_,
        run_then ((run_first (items x (List.mem_cons_self ..))).trans ran),
        run_items (fun y mem => reads y (List.mem_cons_of_mem _ mem)) ends]
      rfl
  | @obj n fields distinct keys values ih =>
    have open_ : step py ⟨.value, stack⟩ (ch '{') = .ok ⟨.firstKey, .obj [] :: stack⟩ := by
      have deeper : enter py .firstKey (.obj []) stack = .ok ⟨.firstKey, .obj [] :: stack⟩ :=
        if_pos (by omega)
      rw [← deeper]
      rfl
    have reads : ∀ f ∈ fields, Utf8.encodable f.1 = true ∧
        ∀ before, Reads py ascii f.2 (.field before f.1 :: stack) := fun f mem =>
      ⟨keys f mem, fun before => ih f mem _ (by rw [List.length_cons]; omega)⟩
    rcases fields with - | ⟨⟨k, v⟩, fields⟩
    · refine ⟨_, ?_, ends_after _⟩
      rw [dumps, run_step open_]
      rfl
    · obtain ⟨plain, reads_⟩ := reads (k, v) (List.mem_cons_self ..)
      obtain ⟨s, ran, ends⟩ := reads_ []
      refine ⟨_, ?_, ends_after _⟩
      rw [dumps, List.append_assoc, List.cons_append, List.cons_append, run_step open_,
        run_key (.inl rfl) plain, run_then ran,
        run_fields (fun f mem => reads f (List.mem_cons_of_mem _ mem)) distinct ends]
      rfl

/-- What is written is read back. -/
theorem loads_dumps (ascii : Bool) {v : Json} (h : Fits py py.maxDepth v) :
    loads py (dumps ascii v) = .ok v := by
  obtain ⟨s, ran, ends, -⟩ := @run_dumps py ascii _ v h [] (by simp)
  have value : run py start (dumps ascii v) = .ok s := ran
  have finished : finish py s = .ok v := ends
  rw [loads, value]
  exact finished

end Values

section Characters

variable {py : Python} {ascii : Bool}

/-- A character that is written: no control character and no surrogate. -/
def isClean (c : CodePoint) : Bool := 0x20 ≤ c.val && !Utf8.isSurrogate c.val

def Clean (s : PyStr) : Prop := s.all isClean = true

instance (s : PyStr) : Decidable (Clean s) := inferInstanceAs (Decidable (_ = true))

theorem Clean.append {a b : PyStr} (ha : Clean a) (hb : Clean b) : Clean (a ++ b) := by
  unfold Clean at *
  rw [List.all_append, ha, hb]
  rfl

theorem Clean.cons {c : CodePoint} {s : PyStr} (hc : isClean c = true) (hs : Clean s) :
    Clean (c :: s) := by
  unfold Clean at *
  rw [List.all_cons, hc, hs]
  rfl

theorem clean_iff {s : PyStr} : Clean s ↔ ∀ c ∈ s, isClean c = true := List.all_eq_true

theorem clean_of_numeric {s : PyStr} (h : ∀ c ∈ s, isNumeric c = true) : Clean s := by
  rw [clean_iff]
  intro c mem
  have numeric := h c mem
  simp only [isNumeric, Bool.or_eq_true, decide_eq_true_eq] at numeric
  rcases numeric with ((((digit | rfl) | rfl) | rfl) | rfl) | rfl
  · have range : 0x30 ≤ c.val ∧ c.val ≤ 0x39 := by
      by_contra out
      simp [isDigit, digit?, out] at digit
    have low : 0x20 ≤ c.val := by omega
    have plain : Utf8.isSurrogate c.val = false := Utf8.not_surrogate_iff.mpr (.inl (by omega))
    simp [isClean, low, plain]
  all_goals rfl

theorem clean_escapeUnit (n : Nat) : Clean (escapeUnit n) := by
  have table : ∀ k < 16, isClean (hexDigit k) = true := by decide
  have d (k : Nat) : isClean (hexDigit (k % 16)) = true := table _ (Nat.mod_lt _ (by decide))
  exact .cons rfl (.cons rfl (.cons (d _) (.cons (d _) (.cons (d _) (.cons (d _) rfl)))))

theorem clean_char {c : CodePoint} (plain : Utf8.isSurrogate c.val = false) :
    Clean (Dumps.char ascii c) := by
  cases written ascii c with
  | short d eq value other clean =>
    have plain : Utf8.isSurrogate (ch d).val = false :=
      Utf8.not_surrogate_iff.mpr (.inl (by omega))
    rw [eq]
    exact .cons rfl (.cons (by simp [isClean, clean.1, plain]) rfl)
  | number eq low =>
    rw [eq]
    exact clean_escapeUnit _
  | direct eq quote slash control =>
    rw [eq]
    exact .cons (by simp [isClean, control, plain]) rfl
  | pair eq high =>
    rw [eq]
    exact (clean_escapeUnit _).append (clean_escapeUnit _)

theorem clean_text {s : PyStr} (plain : Utf8.encodable s = true) : Clean (Dumps.text ascii s) := by
  have inner : Clean (s.flatMap (Dumps.char ascii)) := by
    rw [clean_iff]
    intro c mem
    obtain ⟨d, memd, mem⟩ := List.mem_flatMap.mp mem
    have plain : Utf8.isSurrogate d.val = false := by
      simpa using List.all_eq_true.mp plain d memd
    exact clean_iff.mp (clean_char plain) c mem
  exact .append (.cons rfl inner) rfl

theorem clean_int (n : Int) : Clean (Dumps.int n) := by
  have all (k : Nat) : Clean (digits k) := by
    refine clean_of_numeric fun c mem => ?_
    simp [isNumeric, (digits_spec k).2.1 c mem]
  cases n with
  | ofNat k =>
    rw [Int.ofNat_eq_natCast, int_nonneg]
    exact all k
  | negSucc k =>
    rw [int_neg]
    exact .cons rfl (all _)

/-- What is written has no control characters, hence is one line, and can be encoded. -/
theorem clean_dumps {n : Nat} {v : Json} (h : Fits py n v) : Clean (dumps ascii v) := by
  induction h with
  | null =>
    rw [dumps]
    rfl
  | bool b => cases b <;> (rw [dumps]; rfl)
  | int short =>
    rw [dumps]
    exact clean_int _
  | @float n x text =>
    rw [dumps]
    rcases text with eq | eq | eq | ⟨-, -, -, -, numeric, -⟩
    · rw [eq]
      rfl
    · rw [eq]
      rfl
    · rw [eq]
      rfl
    · exact clean_of_numeric numeric
  | str plain =>
    rw [dumps]
    exact clean_text plain
  | @arr n xs items ih =>
    have rest (ys : List Json) (clean : ∀ y ∈ ys, Clean (dumps ascii y)) :
        Clean (dumpsItems ascii ys) := by
      induction ys with
      | nil =>
        rw [dumpsItems]
        rfl
      | cons y ys ih =>
        rw [dumpsItems]
        exact .append (.cons rfl (clean y (List.mem_cons_self ..)))
          (ih fun z mem => clean z (List.mem_cons_of_mem _ mem))
    cases xs with
    | nil =>
      rw [dumps]
      rfl
    | cons x xs =>
      rw [dumps]
      exact .append (.cons rfl (ih x (List.mem_cons_self ..)))
        (rest xs fun y mem => ih y (List.mem_cons_of_mem _ mem))
  | @obj n fields distinct keys values ih =>
    have rest (fs : List (PyStr × Json)) (clean : ∀ f ∈ fs, Utf8.encodable f.1 = true ∧
        Clean (dumps ascii f.2)) : Clean (dumpsFields ascii fs) := by
      induction fs with
      | nil =>
        rw [dumpsFields]
        rfl
      | cons f fs ih =>
        obtain ⟨k, v⟩ := f
        obtain ⟨plain, value⟩ := clean (k, v) (List.mem_cons_self ..)
        rw [dumpsFields]
        exact .append (.append (.cons rfl (clean_text plain)) (.cons rfl value))
          (ih fun g mem => clean g (List.mem_cons_of_mem _ mem))
    rcases fields with - | ⟨⟨k, v⟩, fields⟩
    · rw [dumps]
      rfl
    · rw [dumps]
      exact .append (.append (.cons rfl (clean_text (keys _ (List.mem_cons_self ..))))
          (.cons rfl (ih _ (List.mem_cons_self ..))))
        (rest fields fun f mem => ⟨keys f (List.mem_cons_of_mem _ mem),
          ih f (List.mem_cons_of_mem _ mem)⟩)

theorem encodable_of_clean {s : PyStr} (h : Clean s) : Utf8.encodable s = true := by
  refine List.all_eq_true.mpr fun c mem => ?_
  have clean := clean_iff.mp h c mem
  rw [isClean, Bool.and_eq_true] at clean
  exact clean.2

end Characters

end Loads

end Lib
