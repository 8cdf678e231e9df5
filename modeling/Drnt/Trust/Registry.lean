import Drnt.Lib.Json
import Drnt.Lib.Checks
import Mathlib.Data.List.Infix
import Mathlib.Data.Rat.Defs

/-! capabilities.json: what the registry accepts. -/
namespace Drnt.Trust

open Lib

section Names

def governingActions : List PyStr :=
  ["dispatch_local", "dispatch_cloud", "dispatch_multi", "select_model", "deliver_result",
    "format_result", "auto_retry"].map py

def auxiliaryActions : List PyStr :=
  ["package_context", "read_memory", "write_memory", "send_notification", "queue_job"].map py

def allActions : List PyStr := governingActions ++ auxiliaryActions

def validCapabilityTypes : List PyStr := ["governing", "auxiliary", "operational"].map py

def validGateTypes : List PyStr :=
  ["none", "pre_action", "pre_delivery", "post_action", "on_accept", "cost_approval"].map py

def validDependencyModes : List PyStr := ["required", "optional", "best_effort"].map py

def sentinelFailureIds : List PyStr :=
  ["egress_config", "egress_connectivity", "worker_sandbox"].map py

def requiredFields : List PyStr :=
  ["capability_id", "capability_name", "capability_type", "desired_wal_level", "max_wal",
    "declared_pipeline", "provider_dependencies", "action_policies", "promotion_criteria"].map py

def walLevels : List PyStr := ["0", "1", "2", "3"].map py

end Names

section Loading

abbrev Fields := List (PyStr × Json)

/-- Why a registry is refused; all but `raised` are ValueErrors. -/
inductive RegistryError
  | notObject
  | missingFields (cap : PyStr) (fields : List PyStr)
  | capabilityType (cap : PyStr)
  | desiredRange (cap : PyStr)
  | maxRange (cap : PyStr)
  | desiredExceedsMax (cap : PyStr)
  | missingLevel (cap level : PyStr)
  | levelNotDict (cap level : PyStr)
  | unknownAction (cap action : PyStr)
  | reviewGate (cap action : PyStr)
  | dependencyMode (cap : PyStr)
  | notOwned (cap : PyStr) (actions : List PyStr)
  | overlap (actions : List PyStr)
  | unknownAuxiliary (cap : PyStr)
  | unknownGoverning (cap : PyStr)
  | raised
  deriving DecidableEq

abbrev Check := Except RegistryError

/-- The value of a float, none for nan and the infinities; and whether a float exceeds a number. -/
structure Numbers where
  value : PyFloat → Option Rat
  exceeds : PyFloat → Json → Bool

/-- A value of a dict; what is no dict raises. -/
def asDict : Json → Check Fields
  | .obj fields => .ok fields
  | _ => .error .raised

/-- Membership in a set of texts: a list or a dict cannot be hashed. -/
def inTexts (texts : List PyStr) : Json → Check Bool
  | .str s => .ok (s ∈ texts)
  | .arr _ | .obj _ => .error .raised
  | _ => .ok false

/-- `key in value`. -/
def contains (key : PyStr) : Json → Check Bool
  | .obj fields => .ok (Json.field? key fields).isSome
  | .arr xs => .ok (xs.any fun x => x = .str key)
  | .str s => .ok (decide (key <:+: s))
  | _ => .error .raised

def item (key : PyStr) (fields : Fields) : Check Json :=
  match Json.field? key fields with
  | some v => .ok v
  | none => .error .raised

variable (num : Numbers)

/-- A number between 0 and 3; what is no number cannot be compared. -/
def level (outOfRange : RegistryError) (v : Json) : Check Rat :=
  let checked (x : Option Rat) : Check Rat :=
    match x with
    | some x => if 0 ≤ x ∧ x ≤ 3 then .ok x else .error outOfRange
    | none => .error outOfRange
  match v with
  | .int n => checked (some n)
  | .bool b => checked (some (if b then 1 else 0))
  | .float x => checked (num.value x)
  | _ => .error .raised

def truthy : Json → Bool
  | .null => false
  | .bool b => b
  | .int n => n ≠ 0
  | .float x => num.value x ≠ some 0
  | .str s => s ≠ []
  | .arr xs => xs ≠ []
  | .obj fields => fields ≠ []

/-- The elements of `value or []` in a loop that takes each for a dict. -/
def elements (v : Option Json) : Check (List Json) :=
  match v with
  | none => .ok []
  | some v =>
    if truthy num v then
      match v with
      | .arr xs => .ok xs
      | .obj fields => .ok (fields.map fun f => .str f.1)
      | .str s => .ok (s.map fun c => .str [c])
      | _ => .error .raised
    else .ok []

def checkPolicy (cap action : PyStr) (policy : Json) : Check Unit :=
  if action ∉ allActions then .error (.unknownAction cap action)
  else match policy with
    | .obj fields =>
      match Json.field? (py "review_gate") fields with
      | none => .ok ()
      | some gate => do
        if ← inTexts validGateTypes gate then return () else throw (.reviewGate cap action)
    | _ => .ok ()

def checkLevelPolicies (cap lvl : PyStr) : Json → Check Unit
  | .obj policies => policies.forM fun e => checkPolicy cap e.1 e.2
  | _ => .error (.levelNotDict cap lvl)

def checkLevelPresent (cap : PyStr) (policies : Json) (lvl : PyStr) : Check Unit := do
  if ← contains lvl policies then return () else throw (.missingLevel cap lvl)

def checkPipelineEntry (cap : PyStr) (entry : Json) : Check Unit := do
  let fields ← asDict entry
  let mode := (Json.field? (py "dependency_mode") fields).getD .null
  if ← inTexts validDependencyModes mode then return () else throw (.dependencyMode cap)

def checkMissing (cap : PyStr) (fields : Fields) : Check Unit :=
  match requiredFields.filter fun f => (Json.field? f fields).isNone with
  | [] => .ok ()
  | missing => .error (.missingFields cap missing)

def checkType (cap : PyStr) (fields : Fields) : Check Unit := do
  let capType ← item (py "capability_type") fields
  if ← inTexts validCapabilityTypes capType then return () else throw (.capabilityType cap)

def checkLevels (cap : PyStr) (fields : Fields) : Check Unit := do
  let desired ← level num (.desiredRange cap) (← item (py "desired_wal_level") fields)
  let maxWal ← level num (.maxRange cap) (← item (py "max_wal") fields)
  if maxWal < desired then throw (.desiredExceedsMax cap) else return ()

def checkPolicies (cap : PyStr) (fields : Fields) : Check Unit := do
  let policies ← item (py "action_policies") fields
  walLevels.forM (checkLevelPresent cap policies)
  let levels ← asDict policies
  levels.forM fun e => checkLevelPolicies cap e.1 e.2

def validateFields (cap : PyStr) (value : Json) : Check Unit := do
  let fields ← asDict value
  checkMissing cap fields
  checkType cap fields
  checkLevels num cap fields
  checkPolicies cap fields
  (← elements num (Json.field? (py "declared_pipeline") fields)).forM (checkPipelineEntry cap)

/-- The actions of a capability's policies, of all levels. -/
def actionsOf (fields : Fields) : List PyStr :=
  match Json.field? (py "action_policies") fields with
  | some (.obj levels) => levels.flatMap fun e =>
      match e.2 with
      | .obj policies => policies.map Prod.fst
      | _ => []
  | _ => []

def ownsType (name : String) (fields : Fields) : Bool :=
  Json.field? (py "capability_type") fields = some (.str (py name))

def dictOf : Json → Fields
  | .obj fields => fields
  | _ => []

def checkOwnership (cap : PyStr) (value : Json) : Check Unit :=
  let fields := dictOf value
  let only (allowed : List PyStr) : Check Unit :=
    match (actionsOf fields).filter (· ∉ allowed) with
    | [] => .ok ()
    | others => .error (.notOwned cap others)
  if ownsType "governing" fields then only governingActions
  else if ownsType "auxiliary" fields then only auxiliaryActions
  else .ok ()

def ownedBy (name : String) (data : Fields) : List PyStr :=
  data.flatMap fun e => if ownsType name (dictOf e.2) then actionsOf (dictOf e.2) else []

def validateExclusiveOwnership (data : Fields) : Check Unit := do
  data.forM fun e => checkOwnership e.1 e.2
  match (ownedBy "governing" data).filter (· ∈ ownedBy "auxiliary" data) with
  | [] => return ()
  | both => throw (.overlap both)

def idsOf (name : String) (data : Fields) : List PyStr :=
  (data.filter fun e => ownsType name (dictOf e.2)).map Prod.fst

def checkReferences (data : Fields) (cap : PyStr) (value : Json) : Check Unit := do
  let fields := dictOf value
  (← elements num (Json.field? (py "declared_pipeline") fields)).forM fun entry => do
    let ref ← item (py "capability_id") (dictOf entry)
    if ← inTexts (idsOf "auxiliary" data) ref then return () else throw (.unknownAuxiliary cap)
  (← elements num (Json.field? (py "provider_dependencies") fields)).forM fun dep => do
    if ← inTexts (idsOf "governing" data) dep then return () else throw (.unknownGoverning cap)

/-- The capabilities of a registry file, from its JSON value. -/
def load (data : Json) : Check Fields := do
  match data with
  | .obj caps =>
    caps.forM fun e => validateFields num e.1 e.2
    validateExclusiveOwnership caps
    caps.forM fun e => checkReferences num caps e.1 e.2
    return caps
  | _ => throw .notObject

end Loading

section Accepted

variable {num : Numbers} {data : Json} {caps : Fields}

theorem load_validates (accepted : load num data = .ok caps) :
    data = .obj caps ∧ ∀ e ∈ caps, validateFields num e.1 e.2 = .ok () := by
  unfold load at accepted
  split at accepted
  · obtain ⟨fields, rest⟩ := Checks.check_ok.mp accepted
    obtain ⟨-, rest⟩ := Checks.check_ok.mp rest
    obtain ⟨-, rest⟩ := Checks.check_ok.mp rest
    cases rest
    exact ⟨rfl, Checks.forM_ok.mp fields⟩
  · cases accepted

theorem item_ok {key : PyStr} {fields : Fields} {v : Json} :
    item key fields = .ok v ↔ Json.field? key fields = some v := by
  unfold item
  cases Json.field? key fields with
  | none => exact iff_of_false nofun nofun
  | some w =>
    constructor
    all_goals
      intro h
      cases h
      rfl

theorem asDict_ok {v : Json} {fields : Fields} : asDict v = .ok fields ↔ v = .obj fields := by
  constructor
  · intro h
    cases v with
    | obj fields => cases h; rfl
    | _ => cases h
  · rintro rfl
    rfl

theorem mem_of_field {key : PyStr} {v : Json} {fields : Fields}
    (h : Json.field? key fields = some v) : (key, v) ∈ fields := by
  induction fields with
  | nil => cases h
  | cons f rest ih =>
    obtain ⟨k, w⟩ := f
    rw [Json.field?] at h
    by_cases here : k = key
    · rw [if_pos here] at h
      cases h
      rw [here]
      exact List.mem_cons_self ..
    · rw [if_neg here] at h
      exact List.mem_cons_of_mem _ (ih h)

theorem inTexts_ok {texts : List PyStr} {v : Json} (h : inTexts texts v = .ok true) :
    ∃ s ∈ texts, v = .str s := by
  cases v with
  | str s =>
    have mem : decide (s ∈ texts) = true := Except.ok.inj h
    exact ⟨s, of_decide_eq_true mem, rfl⟩
  | arr | obj => cases h
  | _ => cases Except.ok.inj h

theorem known_of_checked {e : RegistryError} {x : Check Bool}
    (h : (do if ← x then return () else throw e : Check Unit) = .ok ()) : x = .ok true := by
  obtain ⟨b, eq, rest⟩ := Checks.bind_ok.mp h
  cases b with
  | true => exact eq
  | false => cases rest

/-- A policy that the registry accepts has no review gate, or one of the known gates. -/
def GateKnown (policy : Json) : Prop :=
  ∀ fields, policy = .obj fields → ∀ gate, Json.field? (py "review_gate") fields = some gate →
    ∃ name ∈ validGateTypes, gate = .str name

/-- What is known of the policies of an accepted capability. -/
structure PoliciesValid (value : Json) (levels : Fields) : Prop where
  found : ∃ fields, value = .obj fields ∧
    Json.field? (py "action_policies") fields = some (.obj levels)
  present : ∀ lvl ∈ walLevels, ∃ policies, Json.field? lvl levels = some (.obj policies)
  gates : ∀ lvl policies, (lvl, .obj policies) ∈ levels →
    ∀ action policy, (action, policy) ∈ policies → GateKnown policy

theorem policies_of_validated {cap : PyStr} {value : Json}
    (valid : validateFields num cap value = .ok ()) : ∃ levels, PoliciesValid value levels := by
  obtain ⟨fields, is, rest⟩ := Checks.bind_ok.mp valid
  obtain ⟨-, rest⟩ := Checks.check_ok.mp rest
  obtain ⟨-, rest⟩ := Checks.check_ok.mp rest
  obtain ⟨-, rest⟩ := Checks.check_ok.mp rest
  obtain ⟨policies, -⟩ := Checks.check_ok.mp rest
  obtain ⟨v, found, rest⟩ := Checks.bind_ok.mp policies
  obtain ⟨present, rest⟩ := Checks.check_ok.mp rest
  obtain ⟨levels, dict, each⟩ := Checks.bind_ok.mp rest
  rw [asDict_ok] at is dict
  subst is dict
  rw [item_ok] at found
  refine ⟨levels, ⟨fields, rfl, found⟩, ?_, ?_⟩
  · intro lvl mem
    have has := known_of_checked (Checks.forM_ok.mp present lvl mem)
    obtain ⟨policies, at_⟩ := Option.isSome_iff_exists.mp (Except.ok.inj has)
    have checked := Checks.forM_ok.mp each _ (mem_of_field at_)
    cases policies with
    | obj policies => exact ⟨policies, at_⟩
    | _ => cases checked
  · intro lvl policies mem action policy entry fields' is gate gated
    have checked := Checks.forM_ok.mp (Checks.forM_ok.mp each _ mem) _ entry
    subst is
    rw [checkPolicy] at checked
    split at checked
    · cases checked
    · simp only [gated] at checked
      exact inTexts_ok (known_of_checked checked)

end Accepted

end Drnt.Trust
