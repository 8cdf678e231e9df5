import Drnt.Lib.Coroutine
import Drnt.Lib.Dict
import Drnt.Lib.Json
import Mathlib.Data.Rat.Defs
import Mathlib.Algebra.Order.Ring.Unbundled.Rat
import Mathlib.Algebra.Ring.Rat

/-! capabilities.state.json: the WAL level of each capability, with the counters that earn or
cost it. -/
namespace Drnt.Wal

open Lib Lib.Coop

section Records

inductive Status | active | suspended
  deriving DecidableEq

/-- What `datetime.fromisoformat` reads in a timestamp, in microseconds. -/
inductive Stamp
  | aware (t : Int)
  | naive (t : Int)
  | unreadable
  deriving DecidableEq

/-- Subtracting a naive timestamp from an aware one raises. -/
def Stamp.instant? : Stamp → Option Int
  | .aware t => some t
  | .naive _ | .unreadable => none

/-- The decay evaluator takes a naive timestamp for UTC. -/
def Stamp.utc? : Stamp → Option Int
  | .aware t | .naive t => some t
  | .unreadable => none

def hour : Int := 3600 * 1000000

def day : Int := 24 * hour

structure Outcome where
  disposition : PyStr
  timestamp : Option Stamp
  deriving DecidableEq

structure Failure where
  timestamp : Stamp
  sourceEventId : PyStr
  deriving DecidableEq

structure Counters where
  evaluableOutcomes : List Outcome := []
  recentFailures : List Failure := []
  firstJobDate : Option Stamp := none
  lastIncidentSourceEventId : Option PyStr := none
  deriving DecidableEq

structure Entry where
  effectiveWalLevel : Int := 0
  status : Status := .active
  counters : Counters := {}
  deriving DecidableEq

structure Metadata where
  lastConfigHash : PyStr
  lastOllamaModel : Option PyStr
  lastOllamaDigest : Option PyStr
  deriving DecidableEq

/-- The dictionary of the state file, and its entry "_meta". -/
structure TrustState where
  entries : Dict PyStr Entry := ∅
  metadata : Option Metadata := none

def metaKey : PyStr := py "_meta"

def evaluableOutcomesMax : Nat := 200

def failureEvictionWindowHours : Int := 24

def failureDemotionThreshold : Nat := 3

def dispositionScore (d : PyStr) : Rat :=
  if d = py "accepted" then 1
  else if d = py "modified" then 1 / 2
  else if d = py "auto_delivered" then 1
  else 0

/-- The mean score of outcomes, of which there is at least one. -/
def score? : List Outcome → Option Rat
  | [] => none
  | os => some ((os.map fun o => dispositionScore o.disposition).sum / os.length)

end Records

namespace Entry

/-- The level of `get_effective_wal`. -/
def effective (e : Entry) : Int := if e.status = .suspended then -1 else e.effectiveWalLevel

def setLevel (level : Int) (e : Entry) : Entry := { e with effectiveWalLevel := level }

def activate (e : Entry) : Entry := { e with status := .active }

/-- What `demote` makes of an entry, and `suspend` where the level is -1. -/
def demote (level : Int) (e : Entry) : Entry :=
  if level = -1 then { e with effectiveWalLevel := -1, status := .suspended }
  else { e with effectiveWalLevel := level, status := .active }

def withCounters (f : Counters → Counters) (e : Entry) : Entry :=
  { e with counters := f e.counters }

@[simp] theorem effective_withCounters (f : Counters → Counters) (e : Entry) :
    (e.withCounters f).effective = e.effective := rfl

@[simp] theorem effective_demote (level : Int) (e : Entry) : (e.demote level).effective = level := by
  unfold demote
  split
  · rename_i floor
    rw [floor]
    rfl
  · rfl

@[simp] theorem counters_demote (level : Int) (e : Entry) :
    (e.demote level).counters = e.counters := by
  unfold demote
  split <;> rfl

theorem status_demote (level : Int) (e : Entry) :
    (e.demote level).status = .suspended ↔ level = -1 := by
  unfold demote
  split <;> simp [*]

end Entry

theorem status_of_ne {e : Entry} (h : e.effective ≠ -1) : e.status = .active := by
  cases status : e.status with
  | active => rfl
  | suspended => exact absurd (if_pos status) h

theorem status_of_effective {e : Entry} (h : 0 ≤ e.effective) : e.status = .active :=
  status_of_ne (by omega)

theorem effective_active {e : Entry} (h : e.status = .active) : e.effective = e.effectiveWalLevel := by
  rw [Entry.effective, h]
  rfl

namespace Counters

/-- The ring buffer evicts its oldest outcomes. -/
def record (o : Outcome) (c : Counters) : Counters :=
  let outcomes := c.evaluableOutcomes ++ [o]
  { c with evaluableOutcomes := outcomes.drop (outcomes.length - evaluableOutcomesMax) }

def fail (f : Failure) (c : Counters) : Counters :=
  { c with recentFailures := c.recentFailures ++ [f] }

def evict (kept : List Failure) (c : Counters) : Counters := { c with recentFailures := kept }

def firstJob (ts : Stamp) (c : Counters) : Counters := { c with firstJobDate := some ts }

def incident (id : PyStr) (c : Counters) : Counters :=
  { c with lastIncidentSourceEventId := some id }

/-- The reference to the last incident is preserved. -/
def reset (c : Counters) : Counters :=
  { lastIncidentSourceEventId := c.lastIncidentSourceEventId }

end Counters

/-- The failures of the last 24 hours, if all timestamps can be compared with now. -/
def recent? (now : Int) : List Failure → Option (List Failure)
  | [] => some []
  | f :: rest => do
    let t ← f.timestamp.instant?
    let kept ← recent? now rest
    return if now - t < failureEvictionWindowHours * hour then f :: kept else kept

end Drnt.Wal
