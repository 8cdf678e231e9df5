import Drnt.Audit.TextLines
import Drnt.Envelope
import Mathlib.Tactic.MkIffOfInductiveProp

/-! Validation of the envelope of an inbound event. -/
namespace Drnt.Audit

open Lib

/-- Functions of the interpreter that validation calls: str of a value, and whether
datetime.fromisoformat accepts a text. -/
structure Host extends Python where
  str : Json → PyStr
  fromisoformat : PyStr → Bool

def isHex (c : CodePoint) : Bool := (Loads.hexDigit? c).isSome

def isDash (c : CodePoint) : Bool := c = Loads.ch '-'

def isVersion (c : CodePoint) : Bool := c = Loads.ch '7'

def isVariant (c : CodePoint) : Bool := c ∈ Lib.py "89abAB"

/-- UUID_V7_PATTERN, which ignores case. -/
def uuidV7Pattern : List (CodePoint → Bool) :=
  .replicate 8 isHex ++ isDash :: .replicate 4 isHex ++ isDash :: isVersion :: .replicate 3 isHex ++
    isDash :: isVariant :: .replicate 3 isHex ++ isDash :: .replicate 12 isHex

/-- The `$` of the pattern stands also before a line feed at the end. -/
def matches_ : List (CodePoint → Bool) → PyStr → Bool
  | [], s => s = [] || s = [TextMode.lineFeed]
  | _ :: _, [] => false
  | p :: ps, c :: s => p c && matches_ ps s

def requiredFields : List String :=
  ["schema_version", "source_event_id", "timestamp", "event_type", "source", "durability", "payload"]

def nullableFields : List String := ["job_id", "parent_job_id", "capability_id", "wal_level"]

def validSources : List String :=
  ["orchestrator", "context_packager", "egress_gateway", "watch_app", "phone_app", "human", "system",
    "log_writer"]

def validDurability : List String := ["durable", "best_effort"]

/-- A value that can be looked up in a set; lists and dicts cannot be hashed. -/
def hashable : Json → Bool
  | .arr _ | .obj _ => false
  | _ => true

def isIn (v : Json) (texts : List String) : Except Raised Bool :=
  if hashable v then .ok (v ∈ texts.map .text) else .error .type

def isUuid : Json → Bool
  | .str s => matches_ uuidV7Pattern s
  | _ => false

def isStr : Json → Bool
  | .str _ => true
  | _ => false

def isDict : Json → Bool
  | .obj _ => true
  | _ => false

section Validation

variable (host : Host)

/-- The checks of the values, when all fields are there. -/
def validateFields (data : String → Json) : Except Raised (Option PyStr) := do
  if data "schema_version" ≠ .text schemaVersion then
    return some (Lib.py "Invalid schema_version: expected '2.0', got '" ++
      host.str (data "schema_version") ++ Lib.py "'")
  if !isUuid (data "source_event_id") then
    return some (Lib.py "Invalid source_event_id: must be a valid UUIDv7 format")
  match data "timestamp" with
  | .str s =>
    if !host.fromisoformat s then
      return some (Lib.py "Invalid timestamp: not a valid ISO 8601 format")
  | _ => return some (Lib.py "Invalid timestamp: must be a string")
  if !isStr (data "event_type") ∨ data "event_type" = .str [] then
    return some (Lib.py "Invalid event_type: must be a non-empty string")
  if !(← isIn (data "source") validSources) then
    return some (Lib.py "Invalid source: '" ++ host.str (data "source") ++
      Lib.py ("'. Must be one of: context_packager, egress_gateway, human, log_writer, " ++
        "orchestrator, phone_app, system, watch_app"))
  if !(← isIn (data "durability") validDurability) then
    return some (Lib.py "Invalid durability: '" ++ host.str (data "durability") ++
      Lib.py "'. Must be 'durable' or 'best_effort'")
  if !isDict (data "payload") then return some (Lib.py "Invalid payload: must be a JSON object")
  if data "job_id" ≠ .null ∧ !isUuid (data "job_id") then
    return some (Lib.py "Invalid job_id: must be a valid UUIDv7 format or null")
  if data "parent_job_id" ≠ .null ∧ !isUuid (data "parent_job_id") then
    return some (Lib.py "Invalid parent_job_id: must be a valid UUIDv7 format or null")
  if data "capability_id" ≠ .null ∧ !isStr (data "capability_id") then
    return some (Lib.py "Invalid capability_id: must be a string or null")
  match data "wal_level" with
  | .null => return none
  | .int n =>
    if n < -1 ∨ 3 < n then return some (Lib.py "Invalid wal_level: must be between -1 and 3")
    return none
  | _ => return some (Lib.py "Invalid wal_level: must be an integer or null")

/-- none, or the message of the first check that fails. -/
def validateEvent (data : Json) : Except Raised (Option PyStr) :=
  match data with
  | .obj fields =>
    match (requiredFields ++ nullableFields).find? fun name =>
      (Json.field? (Lib.py name) fields).isNone with
    | some name => .ok (some (Lib.py ("Missing required field: " ++ name)))
    | none => validateFields host fun name => (Json.field? (Lib.py name) fields).getD .null
  | _ => .ok (some (Lib.py "Event must be a JSON object"))

end Validation

section Accepting

variable {host : Host} {data : String → Json} {m : PyStr} {x : Except Raised (Option PyStr)}

theorem check_none {c : Prop} [Decidable c] :
    (if c then pure (some m) else x) = .ok none ↔ ¬ c ∧ x = .ok none := by
  by_cases h : c
  · simp [h, pure, Except.pure]
  · simp [h]

theorem among_none {r : Except Raised Bool} :
    (r >>= fun found => if (!found) = true then pure (some m) else x) = .ok none ↔
      r = .ok true ∧ x = .ok none := by
  match r with
  | .error fault => simp [bind, Except.bind]
  | .ok true => simp [bind, Except.bind]
  | .ok false => simp [bind, Except.bind, pure, Except.pure]

/-- What the values of an event that is accepted have to meet. -/
@[mk_iff] structure Accepted (host : Host) (data : String → Json) : Prop where
  schemaVersion : data "schema_version" = .text schemaVersion
  sourceEventId : isUuid (data "source_event_id") = true
  timestamp : ∃ s, data "timestamp" = .str s ∧ host.fromisoformat s = true
  eventType : isStr (data "event_type") = true ∧ data "event_type" ≠ .str []
  source : isIn (data "source") validSources = .ok true
  durability : isIn (data "durability") validDurability = .ok true
  payload : isDict (data "payload") = true
  jobId : data "job_id" = .null ∨ isUuid (data "job_id") = true
  parentJobId : data "parent_job_id" = .null ∨ isUuid (data "parent_job_id") = true
  capabilityId : data "capability_id" = .null ∨ isStr (data "capability_id") = true
  walLevel : data "wal_level" = .null ∨ ∃ n, data "wal_level" = .int n ∧ -1 ≤ n ∧ n ≤ 3

theorem validateFields_none : validateFields host data = .ok none ↔ Accepted host data := by
  rw [accepted_iff]
  have null {v : Json} {b : Bool} : ¬ (v ≠ .null ∧ (!b) = true) ↔ v = .null ∨ b = true := by
    by_cases h : v = .null <;> simp [h]
  have level (n : Int) : ¬ (n < -1 ∨ 3 < n) ↔ -1 ≤ n ∧ n ≤ 3 := by omega
  have done : (pure none : Except Raised (Option PyStr)) = .ok none := rfl
  have refused {m : PyStr} : (pure (some m) : Except Raised (Option PyStr)) ≠ .ok none := nofun
  unfold validateFields
  cases data "timestamp" with
  | str s =>
    simp only [check_none, among_none, null]
    cases data "wal_level" with
    | null => simp [done]
    | int n =>
      simp only [check_none, level]
      simp [done]
    | _ => simp [refused]
  | _ =>
    simp only [check_none]
    simp [refused]

theorem validateEvent_none {data : Json} : validateEvent host data = .ok none ↔
    ∃ fields, data = .obj fields ∧
      (∀ name ∈ requiredFields ++ nullableFields, Json.field? (Lib.py name) fields ≠ none) ∧
      Accepted host fun name => (Json.field? (Lib.py name) fields).getD .null := by
  cases data with
  | obj fields =>
    rw [validateEvent]
    cases missing : (requiredFields ++ nullableFields).find? fun name =>
        (Json.field? (Lib.py name) fields).isNone with
    | some name =>
      have out : Json.field? (Lib.py name) fields = none := by simpa using List.find?_some missing
      refine ⟨nofun, ?_⟩
      rintro ⟨fields', eq, all, -⟩
      cases eq
      exact absurd out (all name (List.mem_of_find?_eq_some missing))
    | none =>
      have all := List.find?_eq_none.mp missing
      dsimp only
      rw [validateFields_none]
      constructor
      · intro accepted
        exact ⟨fields, rfl, fun name mem => by simpa using all name mem, accepted⟩
      · rintro ⟨fields', eq, -, accepted⟩
        cases eq
        exact accepted
  | _ => simp [validateEvent]

end Accepting

end Drnt.Audit
