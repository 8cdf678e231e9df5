import Drnt.Lib.Json

/-! json.loads as a machine that reads one code point at a time. -/
namespace Lib

/-- What the interpreter and its library fix: how deep calls nest, how a literal is rounded to a
float, given by the literal that is printed for it, and the hex digest of SHA-256. -/
structure Python where
  maxDepth : Nat
  float : PyStr → PyFloat
  sha256 : List UInt8 → PyStr

namespace Loads

/-- JSONDecodeError, the ValueError of an integer that is too long, and RecursionError. -/
inductive Fault
  | decode | value | recursion
  deriving DecidableEq, Repr

/-- A container that is open: an array, an object between its fields, and an object that waits
for the value of a key. -/
inductive Frame
  | arr (items : List Json)
  | obj (fields : List (PyStr × Json))
  | field (fields : List (PyStr × Json)) (key : PyStr)
  deriving DecidableEq, Repr

inductive Escape
  | plain | slash
  | hex (digits : PyStr)
  deriving DecidableEq, Repr

/-- How much of a number has been read; after the mark of an exponent, whether there is a
fraction. -/
inductive NumPart
  | minus | zero | whole | dot | frac
  | mark (fraction : Bool)
  | sign (fraction : Bool)
  | power
  deriving DecidableEq, Repr

inductive Word
  | null | true | false | nan | infinity | minusInfinity
  deriving DecidableEq, Repr

def Word.text : Word → PyStr
  | null => py "null"
  | true => py "true"
  | false => py "false"
  | nan => py "NaN"
  | infinity => py "Infinity"
  | minusInfinity => py "-Infinity"

def Word.value : Word → Json
  | null => .null
  | true => .bool .true
  | false => .bool .false
  | nan => .float ⟨"NaN"⟩
  | infinity => .float ⟨"Infinity"⟩
  | minusInfinity => .float ⟨"-Infinity"⟩

/-- What is being read. In a text, `high` says that the last code point is an escaped high
surrogate, which an escaped low surrogate joins. -/
inductive Mode
  | value
  | first
  | firstKey
  | key
  | colon
  | text (asKey : Bool) (read : PyStr) (escape : Escape) (high : Bool)
  | number (part : NumPart) (read : PyStr) (digits : Nat)
  | word (w : Word) (read : Nat)
  | after (v : Json)
  deriving DecidableEq, Repr

structure State where
  mode : Mode
  stack : List Frame
  deriving DecidableEq, Repr

def start : State := ⟨.value, []⟩

def ch (c : Char) : CodePoint := .ofChar c

def isSpace (c : CodePoint) : Bool := c = ch ' ' || c = ch '\t' || c = ch '\n' || c = ch '\r'

def digit? (c : CodePoint) : Option Nat :=
  if 0x30 ≤ c.val ∧ c.val ≤ 0x39 then some (c.val - 0x30) else none

def hexDigit? (c : CodePoint) : Option Nat :=
  if 0x61 ≤ c.val ∧ c.val ≤ 0x66 then some (c.val - 0x57)
  else if 0x41 ≤ c.val ∧ c.val ≤ 0x46 then some (c.val - 0x37)
  else digit? c

def isDigit (c : CodePoint) : Bool := (digit? c).isSome

def natOf (s : PyStr) : Nat := s.foldl (fun n c => 10 * n + (digit? c).getD 0) 0

def intOf (s : PyStr) : Int :=
  match s with
  | [] => 0
  | c :: rest => if c = ch '-' then -natOf rest else natOf s

def hexOf (s : PyStr) : Nat := s.foldl (fun n c => 16 * n + (hexDigit? c).getD 0) 0

/-- The default of sys.set_int_max_str_digits. -/
def maxStrDigits : Nat := 4300

/-- Assigning to a key of a dict: an old key keeps its place. -/
def setField (k : PyStr) (v : Json) : List (PyStr × Json) → List (PyStr × Json)
  | [] => [(k, v)]
  | (l, w) :: rest => if l = k then (k, v) :: rest else (l, w) :: setField k v rest

section Machine

variable (py : Python)

/-- What follows a value: the end of its container, or another value or key. -/
def stepAfter (v : Json) (stack : List Frame) (c : CodePoint) : Except Fault State :=
  if isSpace c then .ok ⟨.after v, stack⟩
  else match stack with
    | .arr items :: rest =>
      if c = ch ',' then .ok ⟨.value, .arr (items ++ [v]) :: rest⟩
      else if c = ch ']' then .ok ⟨.after (.arr (items ++ [v])), rest⟩
      else .error .decode
    | .field fields k :: rest =>
      if c = ch ',' then .ok ⟨.key, .obj (setField k v fields) :: rest⟩
      else if c = ch '}' then .ok ⟨.after (.obj (setField k v fields)), rest⟩
      else .error .decode
    | _ => .error .decode

def enter (mode : Mode) (frame : Frame) (stack : List Frame) : Except Fault State :=
  if stack.length < py.maxDepth then .ok ⟨mode, frame :: stack⟩ else .error .recursion

def stepValue (stack : List Frame) (c : CodePoint) : Except Fault State :=
  if c = ch '"' then .ok ⟨.text false [] .plain false, stack⟩
  else if c = ch '{' then enter py .firstKey (.obj []) stack
  else if c = ch '[' then enter py .first (.arr []) stack
  else if c = ch 'n' then .ok ⟨.word .null 1, stack⟩
  else if c = ch 't' then .ok ⟨.word .true 1, stack⟩
  else if c = ch 'f' then .ok ⟨.word .false 1, stack⟩
  else if c = ch 'N' then .ok ⟨.word .nan 1, stack⟩
  else if c = ch 'I' then .ok ⟨.word .infinity 1, stack⟩
  else if c = ch '-' then .ok ⟨.number .minus [c] 0, stack⟩
  else if c = ch '0' then .ok ⟨.number .zero [c] 1, stack⟩
  else if isDigit c then .ok ⟨.number .whole [c] 1, stack⟩
  else .error .decode

/-- The end of a string, which is a key or a value. -/
def endText (asKey : Bool) (read : PyStr) (stack : List Frame) : Except Fault State :=
  if asKey then
    match stack with
    | .obj fields :: rest => .ok ⟨.colon, .field fields read :: rest⟩
    | _ => .error .decode
  else .ok ⟨.after (.str read), stack⟩

def escaped? (c : CodePoint) : Option CodePoint :=
  if c = ch '"' ∨ c = ch '\\' ∨ c = ch '/' then some c
  else if c = ch 'b' then some 8
  else if c = ch 'f' then some 12
  else if c = ch 'n' then some 10
  else if c = ch 'r' then some 13
  else if c = ch 't' then some 9
  else none

def isHigh (n : Nat) : Bool := 0xD800 ≤ n && n < 0xDC00

def isLow (n : Nat) : Bool := 0xDC00 ≤ n && n < 0xE000

def join (high low : Nat) : Nat := 0x10000 + (high - 0xD800) * 0x400 + (low - 0xDC00)

/-- A string after an escape by number. -/
def unit (asKey : Bool) (read : PyStr) (high : Bool) (n : Nat) : Mode :=
  match read.getLast? with
  | some c =>
    if high && isLow n then
      .text asKey (read.dropLast ++ [Fin.ofNat _ (join c.val n)]) .plain false
    else .text asKey (read ++ [Fin.ofNat _ n]) .plain (isHigh n)
  | none => .text asKey (read ++ [Fin.ofNat _ n]) .plain (isHigh n)

def stepText (asKey : Bool) (read : PyStr) (escape : Escape) (high : Bool) (stack : List Frame)
    (c : CodePoint) : Except Fault State :=
  match escape with
  | .plain =>
    if c = ch '"' then endText asKey read stack
    else if c = ch '\\' then .ok ⟨.text asKey read .slash high, stack⟩
    else if c.val < 0x20 then .error .decode
    else .ok ⟨.text asKey (read ++ [c]) .plain false, stack⟩
  | .slash =>
    if c = ch 'u' then .ok ⟨.text asKey read (.hex []) high, stack⟩
    else match escaped? c with
      | some d => .ok ⟨.text asKey (read ++ [d]) .plain false, stack⟩
      | none => .error .decode
  | .hex digits =>
    if (hexDigit? c).isNone then .error .decode
    else if digits.length < 3 then .ok ⟨.text asKey read (.hex (digits ++ [c])) high, stack⟩
    else .ok ⟨unit asKey read high (hexOf (digits ++ [c])), stack⟩

/-- The next part of a number, if the code point belongs to it. -/
def NumPart.next? (part : NumPart) (c : CodePoint) : Option NumPart :=
  match part with
  | .minus => if c = ch '0' then some .zero else if isDigit c then some .whole else none
  | .zero =>
    if c = ch '.' then some .dot
    else if c = ch 'e' ∨ c = ch 'E' then some (.mark false) else none
  | .whole =>
    if isDigit c then some .whole
    else if c = ch '.' then some .dot
    else if c = ch 'e' ∨ c = ch 'E' then some (.mark false) else none
  | .dot => if isDigit c then some .frac else none
  | .frac =>
    if isDigit c then some .frac
    else if c = ch 'e' ∨ c = ch 'E' then some (.mark true) else none
  | .mark fraction =>
    if isDigit c then some .power
    else if c = ch '+' ∨ c = ch '-' then some (.sign fraction) else none
  | .sign _ => if isDigit c then some .power else none
  | .power => if isDigit c then some .power else none

/-- A number that ends here. One that ends inside its fraction or exponent ends before it, and
what is left over cannot follow; its integer is converted first. -/
def number (part : NumPart) (read : PyStr) (digits : Nat) : Except Fault Json :=
  match part with
  | .zero | .whole => if maxStrDigits < digits then .error .value else .ok (.int (intOf read))
  | .frac | .power => .ok (.float (py.float read))
  | .dot | .mark false | .sign false =>
    if maxStrDigits < digits then .error .value else .error .decode
  | .minus | .mark true | .sign true => .error .decode

def stepNumber (part : NumPart) (read : PyStr) (digits : Nat) (stack : List Frame)
    (c : CodePoint) : Except Fault State :=
  if part = .minus ∧ c = ch 'I' then
    .ok ⟨.word .minusInfinity 2, stack⟩
  else match part.next? c with
    | some next =>
      .ok ⟨.number next (read ++ [c])
        (if next = .zero ∨ next = .whole then digits + 1 else digits), stack⟩
    | none =>
      match number py part read digits with
      | .ok v => stepAfter v stack c
      | .error fault => .error fault

def stepWord (w : Word) (read : Nat) (stack : List Frame) (c : CodePoint) : Except Fault State :=
  if w.text[read]? ≠ some c then .error .decode
  else if read + 1 = w.text.length then .ok ⟨.after w.value, stack⟩
  else .ok ⟨.word w (read + 1), stack⟩

def step (s : State) (c : CodePoint) : Except Fault State :=
  match s.mode with
  | .value => if isSpace c then .ok s else stepValue py s.stack c
  | .first =>
    if isSpace c then .ok s
    else if c = ch ']' then .ok ⟨.after (.arr []), s.stack.tail⟩
    else stepValue py s.stack c
  | .firstKey =>
    if isSpace c then .ok s
    else if c = ch '}' then .ok ⟨.after (.obj []), s.stack.tail⟩
    else if c = ch '"' then .ok ⟨.text true [] .plain false, s.stack⟩
    else .error .decode
  | .key =>
    if isSpace c then .ok s
    else if c = ch '"' then .ok ⟨.text true [] .plain false, s.stack⟩
    else .error .decode
  | .colon =>
    if isSpace c then .ok s
    else if c = ch ':' then .ok ⟨.value, s.stack⟩
    else .error .decode
  | .text asKey read escape high => stepText asKey read escape high s.stack c
  | .number part read digits => stepNumber py part read digits s.stack c
  | .word w read => stepWord w read s.stack c
  | .after v => stepAfter v s.stack c

def run (s : State) (text : PyStr) : Except Fault State := text.foldlM (step py) s

/-- A value that is complete when no container is open. -/
def close (v : Json) : List Frame → Except Fault Json
  | [] => .ok v
  | _ :: _ => .error .decode

def finish (s : State) : Except Fault Json :=
  match s.mode with
  | .after v => close v s.stack
  | .number part read digits => (number py part read digits).bind fun v => close v s.stack
  | .value | .first | .firstKey | .key | .colon | .text _ _ _ _ | .word _ _ => .error .decode

def loads (text : PyStr) : Except Fault Json := (run py start text).bind (finish py)

end Machine

section Space

variable {py : Python} {c : CodePoint}

theorem run_append (s : State) (a b : PyStr) :
    run py s (a ++ b) = (run py s a).bind fun s => run py s b := by
  simp only [run, List.foldlM_append]
  rfl

theorem space_cases (h : isSpace c = true) :
    c = ch ' ' ∨ c = ch '\t' ∨ c = ch '\n' ∨ c = ch '\r' := by
  simpa [isSpace, or_assoc] using h

theorem next?_space (h : isSpace c = true) (part : NumPart) : part.next? c = none := by
  rcases space_cases h with rfl | rfl | rfl | rfl <;> cases part <;> rfl

/-- Whitespace at the end does not change what is read. -/
theorem finish_step_space (h : isSpace c = true) (s : State) :
    (step py s c).bind (finish py) = finish py s := by
  obtain ⟨mode, stack⟩ := s
  cases mode with
  | value | first | firstKey | key | colon => simp [step, h, Except.bind]
  | after v => simp [step, stepAfter, h, Except.bind]
  | text asKey read escape high =>
    cases escape with
    | plain => rcases space_cases h with rfl | rfl | rfl | rfl <;> rfl
    | slash => rcases space_cases h with rfl | rfl | rfl | rfl <;> rfl
    | hex digits => rcases space_cases h with rfl | rfl | rfl | rfl <;> rfl
  | number part read digits =>
    have other : c ≠ ch 'I' := by rcases space_cases h with rfl | rfl | rfl | rfl <;> decide
    simp only [step, stepNumber, other, and_false, if_false, next?_space h, finish]
    cases number py part read digits with
    | error fault => rfl
    | ok v => simp [stepAfter, h, Except.bind, finish]
  | word w read =>
    have other : w.text[read]? ≠ some c := fun at_ => absurd (List.mem_of_getElem? at_) <| by
      rcases space_cases h with rfl | rfl | rfl | rfl <;> cases w <;> decide
    simp only [step, stepWord, if_pos other, finish]
    rfl

theorem loads_space (h : isSpace c = true) (text : PyStr) :
    loads py (text ++ [c]) = loads py text := by
  unfold loads
  rw [run_append]
  cases run py start text with
  | error fault => rfl
  | ok s =>
    have last : run py s [c] = step py s c := by simp [run]
    simp only [Except.bind, last]
    exact finish_step_space h s

end Space

end Loads

end Lib
