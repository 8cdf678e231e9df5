import Drnt.Lib.Json
import Mathlib.Algebra.Group.Nat.Defs

/-! Event envelopes: what an emitter writes into an event before the audit log writer
adds its own fields. -/
namespace Drnt

open Lib

/-- The bits of a version-7 UUID that are free. -/
structure Uuid7 where
  millis : Fin (2 ^ 48)
  randA : Fin (2 ^ 12)
  randB : Fin (2 ^ 62)
  deriving DecidableEq, Repr

instance neZero_millis : NeZero (2 ^ 48) := ⟨by decide⟩

instance neZero_randA : NeZero (2 ^ 12) := ⟨by decide⟩

instance neZero_randB : NeZero (2 ^ 62) := ⟨by decide⟩

namespace Uuid7

def hexDigit (n : Nat) : Char := "0123456789abcdef".toList.getD (n % 16) '0'

/-- The lowest `width` hexadecimal digits of `n`, most significant first. -/
def hexDigits : Nat → Nat → List Char
  | 0, _ => []
  | width + 1, n => hexDigit (n / 16 ^ width) :: hexDigits width n

def chars (u : Uuid7) : List Char :=
  hexDigits 8 (u.millis / 2 ^ 16) ++ '-' :: hexDigits 4 u.millis ++
    '-' :: '7' :: hexDigits 3 u.randA ++
    '-' :: hexDigits 4 (2 ^ 15 + u.randB / 2 ^ 48) ++ '-' :: hexDigits 12 u.randB

def text (u : Uuid7) : String := String.ofList u.chars

end Uuid7

def leapYear (y : Nat) : Bool := y % 4 == 0 && (y % 100 != 0 || y % 400 == 0)

def daysInMonth (y m : Nat) : Nat :=
  if m = 2 then (if leapYear y then 29 else 28)
  else if m = 4 ∨ m = 6 ∨ m = 9 ∨ m = 11 then 30 else 31

/-- An instant of the UTC clock, to the microsecond. -/
structure UtcTime where
  year : Nat
  month : Nat
  day : Nat
  hour : Nat
  minute : Nat
  second : Nat
  microsecond : Nat
  hyear : 1970 ≤ year ∧ year ≤ 9999
  hmonth : 1 ≤ month ∧ month ≤ 12
  hday : 1 ≤ day ∧ day ≤ daysInMonth year month
  hclock : hour < 24 ∧ minute < 60 ∧ second < 60 ∧ microsecond < 1000000
  deriving DecidableEq, Repr

namespace UtcTime

theorem year_2026 : 1970 ≤ 2026 ∧ 2026 ≤ 9999 := by decide

theorem january : 1 ≤ 1 ∧ 1 ≤ 12 := by decide

theorem first_january : 1 ≤ 1 ∧ 1 ≤ daysInMonth 2026 1 := by decide

/-- The lowest `width` decimal digits of `n`, zero-padded. -/
def digits : Nat → Nat → List Char
  | 0, _ => []
  | width + 1, n => Nat.digitChar (n / 10 ^ width % 10) :: digits width n

def chars (t : UtcTime) : List Char :=
  digits 4 t.year ++ '-' :: digits 2 t.month ++ '-' :: digits 2 t.day ++
    'T' :: digits 2 t.hour ++ ':' :: digits 2 t.minute ++ ':' :: digits 2 t.second ++
    '.' :: digits 6 t.microsecond ++ ['Z']

def isoformat (t : UtcTime) : String := String.ofList t.chars

/-- Days before the first of January of year `y`, counted from year 1. -/
def daysBeforeYear (y : Nat) : Nat := 365 * (y - 1) + (y - 1) / 4 - (y - 1) / 100 + (y - 1) / 400

def daysBeforeMonth (y : Nat) : Nat → Nat
  | 0 | 1 => 0
  | m + 1 => daysBeforeMonth y m + daysInMonth y m

/-- Microseconds since the start of year 1. -/
def micros (t : UtcTime) : Nat :=
  ((((daysBeforeYear t.year + daysBeforeMonth t.year t.month + (t.day - 1)) * 24 + t.hour) * 60 +
    t.minute) * 60 + t.second) * 1000000 + t.microsecond

end UtcTime

abbrev JobId := Uuid7

/-- What an event builder decides; the other envelope fields have the defaults of build_event. -/
structure Draft where
  eventType : String
  jobId : Option JobId
  durability : String := "durable"
  payload : List (String × Json)
  capabilityId : Option String := none
  walLevel : Option Int := none
  parentJobId : Option JobId := none
  source : String := "orchestrator"
  deriving DecidableEq, Repr

structure Event extends Draft where
  sourceEventId : Uuid7
  timestamp : UtcTime
  deriving DecidableEq, Repr

def schemaVersion : String := "2.0"

def buildEvent (draft : Draft) (sourceEventId : Uuid7) (timestamp : UtcTime) : Event :=
  { draft with sourceEventId, timestamp }

def uuidOrNull : Option Uuid7 → Json
  | none => .null
  | some u => .text u.text

namespace Event

/-- The envelope as the object that is sent to the log writer. -/
def toJson (e : Event) : Json :=
  .obj [(py "schema_version", .text schemaVersion),
    (py "source_event_id", .text e.sourceEventId.text),
    (py "timestamp", .text e.timestamp.isoformat),
    (py "event_type", .text e.eventType),
    (py "job_id", uuidOrNull e.jobId),
    (py "parent_job_id", uuidOrNull e.parentJobId),
    (py "capability_id", Json.textOrNull e.capabilityId),
    (py "wal_level", Json.intOrNull e.walLevel),
    (py "source", .text e.source),
    (py "durability", .text e.durability),
    (py "payload", .fields e.payload)]

end Event

end Drnt
