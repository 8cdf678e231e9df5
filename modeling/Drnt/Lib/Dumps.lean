import Drnt.Lib.Loads

/-! json.dumps with the separators "," and ":". -/
namespace Lib.Dumps

open Loads (ch)

def hexDigit (n : Nat) : CodePoint := Fin.ofNat _ (if n < 10 then 0x30 + n else 0x57 + n)

/-- An escape by number, of a unit below 0x10000. -/
def escapeUnit (n : Nat) : PyStr :=
  [ch '\\', ch 'u', hexDigit (n / 4096 % 16), hexDigit (n / 256 % 16), hexDigit (n / 16 % 16),
    hexDigit (n % 16)]

/-- A character of a text; `ascii` is the option ensure_ascii. -/
def char (ascii : Bool) (c : CodePoint) : PyStr :=
  if c = ch '"' then [ch '\\', ch '"']
  else if c = ch '\\' then [ch '\\', ch '\\']
  else if c = 10 then [ch '\\', ch 'n']
  else if c = 13 then [ch '\\', ch 'r']
  else if c = 9 then [ch '\\', ch 't']
  else if c = 12 then [ch '\\', ch 'f']
  else if c = 8 then [ch '\\', ch 'b']
  else if c.val < 0x20 then escapeUnit c.val
  else if !ascii ∨ c.val < 0x7F then [c]
  else if c.val < 0x10000 then escapeUnit c.val
  else escapeUnit (0xD800 + (c.val - 0x10000) / 1024) ++
    escapeUnit (0xDC00 + (c.val - 0x10000) % 1024)

def text (ascii : Bool) (s : PyStr) : PyStr := ch '"' :: s.flatMap (char ascii) ++ [ch '"']

def int (n : Int) : PyStr := py (toString n)

mutual

/-- Of a value whose integers are not too long and whose containers are not nested too deep. -/
def dumps (ascii : Bool) : Json → PyStr
  | .null => py "null"
  | .bool b => if b then py "true" else py "false"
  | .int n => int n
  | .float x => py x.literal
  | .str s => text ascii s
  | .arr [] => [ch '[', ch ']']
  | .arr (x :: xs) => ch '[' :: dumps ascii x ++ dumpsItems ascii xs
  | .obj [] => [ch '{', ch '}']
  | .obj ((k, v) :: fields) =>
    ch '{' :: text ascii k ++ ch ':' :: dumps ascii v ++ dumpsFields ascii fields

def dumpsItems (ascii : Bool) : List Json → PyStr
  | [] => [ch ']']
  | x :: xs => ch ',' :: dumps ascii x ++ dumpsItems ascii xs

def dumpsFields (ascii : Bool) : List (PyStr × Json) → PyStr
  | [] => [ch '}']
  | (k, v) :: fields =>
    ch ',' :: text ascii k ++ ch ':' :: dumps ascii v ++ dumpsFields ascii fields

end

end Lib.Dumps
