import Drnt.Lib.IntText

/-! The allowlists and caps of the worker proxy. -/
namespace Drnt.WorkerProxy

open Lib

/-- What the interpreter decides: the case, digit and decimal properties of characters. -/
structure Interpreter where
  lower : PyStr → PyStr
  isDigit : CodePoint → Bool
  decimal? : CodePoint → Option Nat

section Integers

variable (py : Interpreter)

def multiplier? (c : CodePoint) : Option Int :=
  if c = Loads.ch 'k' then some 1024
  else if c = Loads.ch 'm' then some (1024 * 1024)
  else if c = Loads.ch 'g' then some (1024 * 1024 * 1024)
  else none

/-- Bytes of a Docker memory limit such as 256m; none stands for ValueError. -/
def parseMemBytes (value : PyStr) : Option Int :=
  let v := py.lower (IntText.strip value)
  match v.getLast? with
  | none => none
  | some last =>
    match multiplier? last with
    | some factor => (IntText.intOf py.decimal? v.dropLast).map (· * factor)
    | none => if py.isDigit last then IntText.intOf py.decimal? v else none

end Integers

section Allowlists

structure RegistryCaps where
  memLimitMax : PyStr := Lib.py "4g"
  pidsLimitMax : Int := 512
  wallTimeoutMax : Int := 3600
  deriving DecidableEq, Repr

structure Registry where
  approvedImages : List PyStr
  allowedNetworks : List PyStr
  allowedVolumeNames : List PyStr
  caps : RegistryCaps
  deriving DecidableEq, Repr

end Allowlists

end Drnt.WorkerProxy
