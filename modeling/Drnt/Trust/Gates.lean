import Drnt.Trust.Registry
import Drnt.Lib.Dict
import Drnt.Lib.Dumps
import Mathlib.Tactic.IntervalCases

/-! The gates of actions: the spec's defaults, the startup check that no configuration relaxes
them, and the permission checker that applies them. -/
namespace Drnt.Trust

open Lib

section Startup

def byLevel (gates : List String) : List (PyStr × PyStr) := walLevels.zip (gates.map py)

/-- By action and WAL level, the minimum strictness. -/
def specDefaultGates : List (PyStr × List (PyStr × PyStr)) := [
  (py "dispatch_local", byLevel ["pre_delivery", "pre_delivery", "post_action"]),
  (py "dispatch_cloud", byLevel ["pre_delivery", "pre_delivery", "post_action"]),
  (py "dispatch_multi", byLevel ["pre_delivery", "pre_delivery", "post_action"]),
  (py "select_model", byLevel ["pre_action", "pre_action", "none"]),
  (py "deliver_result", byLevel ["pre_delivery", "pre_delivery", "post_action"]),
  (py "format_result", byLevel ["blocked", "pre_delivery", "pre_delivery"]),
  (py "auto_retry", byLevel ["blocked", "none", "none"]),
  (py "package_context", byLevel ["none", "none", "none", "none"]),
  (py "read_memory", byLevel ["none", "none", "none", "none"]),
  (py "write_memory", byLevel ["blocked", "on_accept", "none", "none"]),
  (py "send_notification", byLevel ["none", "none", "none", "none"]),
  (py "queue_job", byLevel ["none", "none", "none", "none"])]

def specDefault? (action lvl : PyStr) : Option PyStr :=
  (lookup action specDefaultGates).bind (lookup lvl)

/-- The most strict first. -/
def gateStrictness : List (PyStr × Nat) := [
  (py "blocked", 0), (py "pre_action", 1), (py "cost_approval", 2), (py "pre_delivery", 3),
  (py "on_accept", 4), (py "post_action", 5), (py "none", 6)]

def reviewGate (policy : Fields) : Json :=
  (Json.field? (py "review_gate") policy).getD (.str (py "none"))

/-- The gate of a policy; in an accepted registry it is a text. -/
def configGate? : Json → Option PyStr
  | .str s => if s = py "blocked" then some s else none
  | .obj policy => match reviewGate policy with
    | .str gate => some gate
    | _ => none
  | _ => none

def relaxationError (cap action lvl gate spec : PyStr) (configured demanded : Nat) : PyStr :=
  cap ++ py ": action '" ++ action ++ py "' at WAL-" ++ lvl ++ py " has gate '" ++ gate ++
    py "' (strictness " ++ Dumps.int configured ++ py ") which relaxes spec default '" ++ spec ++
    py "' (strictness " ++ Dumps.int demanded ++ py ")"

def checkRelaxation (cap lvl action : PyStr) (policy : Json) : List PyStr :=
  match specDefault? action lvl, configGate? policy with
  | some spec, some gate =>
    match lookup spec gateStrictness, lookup gate gateStrictness with
    | some demanded, some configured =>
      if demanded < configured then
        [relaxationError cap action lvl gate spec configured demanded]
      else []
    | _, _ => []
  | _, _ => []

def actionPolicies (cap : Json) : Fields :=
  dictOf ((Json.field? (py "action_policies") (dictOf cap)).getD (.obj []))

def validateGateRelaxation (caps : Fields) : List PyStr :=
  caps.flatMap fun cap => (actionPolicies cap.2).flatMap fun lvl =>
    (dictOf lvl.2).flatMap fun e => checkRelaxation cap.1 lvl.1 e.1 e.2

end Startup

section Permissions

structure JobContext where
  jobId : PyStr
  estCost : Option PyFloat := none
  humanApproved : Bool := false
  resultAccepted : Bool := false

inductive Verdict
  | blocked (reason : String)
  | held (holdType : String)
  | allowed (deliveryHold : Bool)
  deriving DecidableEq, Repr

structure PermissionResult where
  verdict : Verdict
  dependencyMode : Option PyStr
  capabilityId : PyStr
  requestedAction : PyStr
  currentLevel : Int := 0
  requiredLevel : Option Int := none
  deriving DecidableEq

inductive PermissionError
  | attributeError
  | typeError
  deriving DecidableEq

def levelPolicies (cap : Json) (level : Int) : Fields :=
  dictOf ((Json.field? (Dumps.int level) (actionPolicies cap)).getD (.obj []))

/-- The policy of an action at a level; null when there is none. -/
def policyAt (cap : Json) (level : Int) (action : PyStr) : Json :=
  (Json.field? action (levelPolicies cap level)).getD .null

def computeRequiredLevel (cap : Json) (action : PyStr) : Option Int :=
  [0, 1, 2, 3].find? fun level =>
    policyAt cap level action ≠ .null ∧ policyAt cap level action ≠ .str (py "blocked")

def isNumber : Json → Bool
  | .int _ | .bool _ | .float _ => true
  | _ => false

variable (num : Numbers)

/-- Whether the cost gate holds the job. -/
def costHeld (policy : Fields) (ctx : JobContext) : Except PermissionError Bool :=
  match (Json.field? (py "cost_gate_usd") policy).getD .null, ctx.estCost with
  | .null, _ | _, none => .ok false
  | gate, some cost => if isNumber gate then .ok (num.exceeds cost gate) else .error .typeError

def gateVerdict (policy : Fields) (ctx : JobContext) : Verdict :=
  let gate := reviewGate policy
  if gate = .str (py "pre_action") then
    if ctx.humanApproved then .allowed false else .held "pre_action"
  else if gate = .str (py "pre_delivery") then .allowed true
  else if gate = .str (py "post_action") then .allowed false
  else if gate = .str (py "on_accept") then
    if ctx.resultAccepted then .allowed false else .held "on_accept"
  else .allowed false

/-- The decision of check_permission; the level is that of the state manager, none for an
unknown capability. -/
def checkPermission (caps : Fields) (effectiveWal : Option Int) (capabilityId action : PyStr)
    (ctx : JobContext) (dependencyMode : Option PyStr) :
    Except PermissionError PermissionResult :=
  let result (verdict : Verdict) : PermissionResult :=
    { verdict, dependencyMode, capabilityId, requestedAction := action }
  match Json.field? capabilityId caps, effectiveWal with
  | none, _ | _, none => .ok (result (.blocked "unknown_capability"))
  | some cap, some level =>
    let result (verdict : Verdict) : PermissionResult := { result verdict with
      currentLevel := level
      requiredLevel := computeRequiredLevel cap action }
    if level = -1 then .ok (result (.blocked "suspended"))
    else if policyAt cap level action = .null ∨
        policyAt cap level action = .str (py "blocked") then
      .ok (result (.blocked "action_not_permitted"))
    else match policyAt cap level action with
      | .obj policy => do
        if ← costHeld num policy ctx then return result (.held "cost_approval")
        else return result (gateVerdict policy ctx)
      | _ => .error .attributeError

end Permissions

section Honors

def demandsReview : List PyStr := ["pre_action", "pre_delivery", "on_accept"].map py

/-- The check comes to a decision, and that is no looser than the spec's default. -/
def Honors (spec : Option PyStr) (outcome : Except PermissionError PermissionResult) : Prop :=
  ∃ r, outcome = .ok r ∧
    (spec = some (py "blocked") → ∃ reason, r.verdict = .blocked reason) ∧
    (∀ gate ∈ demandsReview, spec = some gate → r.verdict ≠ .allowed false)

variable (num : Numbers)

/-- The cost gate is a number that the estimate exceeds. -/
def CostExceeds (policy : Fields) (ctx : JobContext) : Prop :=
  ∃ gate cost, Json.field? (py "cost_gate_usd") policy = some gate ∧ ctx.estCost = some cost ∧
    isNumber gate = true ∧ num.exceeds cost gate = true

/-- A policy is missing, "blocked" or an object; a cost gate is a number where there is an
estimate to compare, and the gate cost_approval stands where review is demanded only if the cost
gate holds the job. -/
def Regular (spec : Option PyStr) (ctx : JobContext) : Json → Prop
  | .null => True
  | .str s => s = py "blocked"
  | .obj policy =>
    (∀ gate, Json.field? (py "cost_gate_usd") policy = some gate →
      gate = .null ∨ isNumber gate = true ∨ ctx.estCost = none) ∧
    (reviewGate policy = .str (py "cost_approval") →
      spec = some (py "pre_delivery") ∨ spec = some (py "on_accept") →
      CostExceeds num policy ctx)
  | _ => False

variable {num} {policy : Fields} {ctx : JobContext}

theorem costHeld_iff : costHeld num policy ctx = .ok true ↔ CostExceeds num policy ctx := by
  unfold costHeld CostExceeds
  cases Json.field? (py "cost_gate_usd") policy with
  | none => simp
  | some gate => cases gate <;> cases ctx.estCost <;> simp [isNumber]

theorem costHeld_total : (∃ held, costHeld num policy ctx = .ok held) ↔
    ∀ gate, Json.field? (py "cost_gate_usd") policy = some gate →
      gate = .null ∨ isNumber gate = true ∨ ctx.estCost = none := by
  unfold costHeld
  cases Json.field? (py "cost_gate_usd") policy with
  | none => simp
  | some gate => cases gate <;> cases ctx.estCost <;> simp [isNumber]

/-- A gate no less strict than one that demands review either reviews, or is cost_approval. -/
theorem strict_gates : ∀ gate ∈ validGateTypes, ∀ spec ∈ py "blocked" :: demandsReview,
    ∀ configured demanded, lookup gate gateStrictness = some configured →
      lookup spec gateStrictness = some demanded → configured ≤ demanded →
      spec ≠ py "blocked" ∧ (gate ∈ demandsReview ∨
        gate = py "cost_approval" ∧ (spec = py "pre_delivery" ∨ spec = py "on_accept")) := by
  have table : (validGateTypes.all fun gate => (py "blocked" :: demandsReview).all fun spec =>
      match lookup gate gateStrictness, lookup spec gateStrictness with
      | some configured, some demanded => !decide (configured ≤ demanded) ||
          decide (spec ≠ py "blocked" ∧ (gate ∈ demandsReview ∨
            gate = py "cost_approval" ∧ (spec = py "pre_delivery" ∨ spec = py "on_accept")))
      | _, _ => true) = true := by decide +kernel
  intro gate known spec mem configured demanded strictness demand le
  have row := List.all_eq_true.mp (List.all_eq_true.mp table gate known) spec mem
  simp only [strictness, demand, le, decide_true, Bool.not_true, Bool.false_or] at row
  exact of_decide_eq_true row

/-- Every known gate, and every default, has its strictness. -/
theorem strictness_known : ∀ gate ∈ validGateTypes ++ (py "blocked" :: demandsReview),
    ∃ n, lookup gate gateStrictness = some n := by
  have table : ((validGateTypes ++ (py "blocked" :: demandsReview)).all fun gate =>
      (lookup gate gateStrictness).isSome) = true := by decide +kernel
  intro gate mem
  exact Option.isSome_iff_exists.mp (List.all_eq_true.mp table gate mem)

/-- The gates that review, unless they have been answered, and those that do not. -/
theorem gateVerdict_review (unapproved : ctx.humanApproved = false)
    (unaccepted : ctx.resultAccepted = false) {gate : PyStr} (is : reviewGate policy = .str gate) :
    gate ∈ demandsReview ↔ gateVerdict policy ctx ≠ .allowed false := by
  have apart : py "post_action" ∉ demandsReview := by decide
  have members : gate ∈ demandsReview ↔
      gate = py "pre_action" ∨ gate = py "pre_delivery" ∨ gate = py "on_accept" := by
    simp [demandsReview]
  simp only [gateVerdict, is, Json.str.injEq, unapproved, unaccepted, Bool.false_eq_true, if_false]
  by_cases preAction : gate = py "pre_action"
  · rw [if_pos preAction]
    exact iff_of_true (members.mpr (.inl preAction)) (by simp)
  by_cases preDelivery : gate = py "pre_delivery"
  · rw [if_neg preAction, if_pos preDelivery]
    exact iff_of_true (members.mpr (.inr (.inl preDelivery))) (by decide)
  by_cases postAction : gate = py "post_action"
  · rw [if_neg preAction, if_neg preDelivery, if_pos postAction, postAction]
    exact iff_of_false apart (not_not.mpr rfl)
  by_cases onAccept : gate = py "on_accept"
  · rw [if_neg preAction, if_neg preDelivery, if_neg postAction, if_pos onAccept]
    exact iff_of_true (members.mpr (.inr (.inr onAccept))) (by simp)
  · rw [if_neg preAction, if_neg preDelivery, if_neg postAction, if_neg onAccept, members]
    exact iff_of_false (by simp only [preAction, preDelivery, onAccept, or_self, not_false_eq_true])
      (not_not.mpr rfl)

variable {data : Json} {caps levels : Fields} {capId action : PyStr} {cap : Json} {level : Int}

theorem actionPolicies_eq (valid : PoliciesValid cap levels) : actionPolicies cap = levels := by
  obtain ⟨fields, rfl, found⟩ := valid.found
  rw [actionPolicies, dictOf, found]
  rfl

/-- Where a policy is an object it stands in the policies of its level. -/
theorem policyAt_mem (is : policyAt cap level action = .obj policy) :
    ∃ policies, (Dumps.int level, .obj policies) ∈ actionPolicies cap ∧
      (action, .obj policy) ∈ policies := by
  unfold policyAt at is
  cases found : Json.field? action (levelPolicies cap level) with
  | none =>
    rw [found] at is
    cases is
  | some p =>
    rw [found] at is
    cases is
    unfold levelPolicies at found
    cases atLevel : Json.field? (Dumps.int level) (actionPolicies cap) with
    | none =>
      rw [atLevel] at found
      cases found
    | some value =>
      rw [atLevel] at found
      cases value with
      | obj policies => exact ⟨policies, mem_of_field atLevel, mem_of_field found⟩
      | _ => cases found

theorem gate_known (valid : PoliciesValid cap levels)
    (is : policyAt cap level action = .obj policy) :
    ∃ gate ∈ validGateTypes, reviewGate policy = .str gate := by
  obtain ⟨policies, atLevel, mem⟩ := policyAt_mem is
  rw [actionPolicies_eq valid] at atLevel
  have known := valid.gates _ _ atLevel _ _ mem policy rfl
  unfold reviewGate
  cases gate : Json.field? (py "review_gate") policy with
  | none => exact ⟨py "none", by simp [validGateTypes], rfl⟩
  | some value => exact known value gate

/-- The configured gate is at least as strict as the default. -/
theorem gate_strict (strict : validateGateRelaxation caps = [])
    (found : Json.field? capId caps = some cap) (is : policyAt cap level action = .obj policy)
    {gate spec : PyStr} (gated : reviewGate policy = .str gate)
    (default : specDefault? action (Dumps.int level) = some spec) {configured demanded : Nat}
    (strictness : lookup gate gateStrictness = some configured)
    (demand : lookup spec gateStrictness = some demanded) : configured ≤ demanded := by
  obtain ⟨policies, atLevel, mem⟩ := policyAt_mem is
  have none := List.flatMap_eq_nil_iff.mp strict _ (mem_of_field found)
  have none := List.flatMap_eq_nil_iff.mp none _ atLevel
  have none := List.flatMap_eq_nil_iff.mp none _ mem
  have configures : configGate? (.obj policy) = some gate := by rw [configGate?, gated]
  simp only [checkRelaxation, default, configures, strictness, demand] at none
  by_contra looser
  rw [if_pos (Nat.lt_of_not_le looser)] at none
  cases none

/-- Where review is demanded, the configured gate reviews or is cost_approval. -/
theorem gate_reviews (strict : validateGateRelaxation caps = [])
    (found : Json.field? capId caps = some cap) (is : policyAt cap level action = .obj policy)
    {gate : PyStr} (known : gate ∈ validGateTypes) (gated : reviewGate policy = .str gate)
    {spec : PyStr} (default : specDefault? action (Dumps.int level) = some spec)
    (mem : spec ∈ py "blocked" :: demandsReview) :
    spec ≠ py "blocked" ∧ (gate ∈ demandsReview ∨
      gate = py "cost_approval" ∧ (spec = py "pre_delivery" ∨ spec = py "on_accept")) := by
  obtain ⟨configured, strictness⟩ := strictness_known gate (List.mem_append_left _ known)
  obtain ⟨demanded, demand⟩ := strictness_known spec (List.mem_append_right _ mem)
  exact strict_gates gate known spec mem configured demanded strictness demand
    (gate_strict strict found is gated default strictness demand)

/-- The decision where the policy is an object. -/
theorem checkPermission_obj (found : Json.field? capId caps = some cap) (here : level ≠ -1)
    (is : policyAt cap level action = .obj policy) (dependencyMode : Option PyStr)
    {verdict : Verdict} :
    (∃ r, checkPermission num caps (some level) capId action ctx dependencyMode = .ok r ∧
      r.verdict = verdict) ↔
    ∃ held, costHeld num policy ctx = .ok held ∧
      verdict = if held then .held "cost_approval" else gateVerdict policy ctx := by
  have some_policy : ¬(Json.obj policy = .null ∨ Json.obj policy = .str (py "blocked")) := nofun
  simp only [checkPermission, found, is]
  rw [if_neg here, if_neg some_policy]
  cases costHeld num policy ctx with
  | error e => exact iff_of_false nofun nofun
  | ok held =>
    cases held with
    | true =>
      constructor
      · rintro ⟨r, made, rfl⟩
        cases made
        exact ⟨true, rfl, rfl⟩
      · rintro ⟨held, eq, rfl⟩
        cases eq
        exact ⟨_, rfl, rfl⟩
    | false =>
      constructor
      · rintro ⟨r, made, rfl⟩
        cases made
        exact ⟨false, rfl, rfl⟩
      · rintro ⟨held, eq, rfl⟩
        cases eq
        exact ⟨_, rfl, rfl⟩

/-- Without a policy, or with "blocked", the result is blocked. -/
theorem honors_missing (found : Json.field? capId caps = some cap) (here : level ≠ -1)
    (is : policyAt cap level action = .null ∨ policyAt cap level action = .str (py "blocked"))
    (dependencyMode : Option PyStr) (spec : Option PyStr) :
    Honors spec (checkPermission num caps (some level) capId action ctx dependencyMode) := by
  simp only [checkPermission, found]
  rw [if_neg here, if_pos is]
  exact ⟨_, rfl, fun _ => ⟨_, rfl⟩, fun _ _ _ => nofun⟩

theorem raises_other (found : Json.field? capId caps = some cap) (here : level ≠ -1)
    (some_policy : policyAt cap level action ≠ .null)
    (unblocked : policyAt cap level action ≠ .str (py "blocked"))
    (other : ∀ policy, policyAt cap level action ≠ .obj policy) (dependencyMode : Option PyStr) :
    checkPermission num caps (some level) capId action ctx dependencyMode =
      .error .attributeError := by
  simp only [checkPermission, found]
  rw [if_neg here, if_neg (by tauto)]

theorem honors_iff (accepted : load num data = .ok caps)
    (strict : validateGateRelaxation caps = []) (found : Json.field? capId caps = some cap)
    (lowest : 0 ≤ level) (unapproved : ctx.humanApproved = false)
    (unaccepted : ctx.resultAccepted = false) (dependencyMode : Option PyStr) :
    Honors (specDefault? action (Dumps.int level))
        (checkPermission num caps (some level) capId action ctx dependencyMode) ↔
      Regular num (specDefault? action (Dumps.int level)) ctx (policyAt cap level action) := by
  have here : level ≠ -1 := by omega
  have raises (some_policy : policyAt cap level action ≠ .null)
      (unblocked : policyAt cap level action ≠ .str (py "blocked"))
      (other : ∀ policy, policyAt cap level action ≠ .obj policy) :
      ¬Honors (specDefault? action (Dumps.int level))
        (checkPermission num caps (some level) capId action ctx dependencyMode) := by
    rw [raises_other found here some_policy unblocked other]
    exact nofun
  cases is : policyAt cap level action with
  | null => exact iff_of_true (honors_missing found here (.inl is) _ _) trivial
  | str s =>
    by_cases blocked : s = py "blocked"
    · exact iff_of_true (honors_missing found here (.inr (by rw [is, blocked])) _ _) blocked
    · refine iff_of_false (raises ?_ ?_ ?_) blocked
      all_goals simp [is, blocked]
  | obj policy =>
    obtain ⟨levels, valid⟩ := policies_of_validated
      ((load_validates accepted).2 _ (mem_of_field found))
    obtain ⟨gate, known, gated⟩ := gate_known valid is
    have decided {verdict : Verdict} := @checkPermission_obj num policy ctx caps capId action cap
      level found here is dependencyMode verdict
    have strictly {spec : PyStr} := @gate_reviews policy caps capId action cap level strict found
      is gate known gated spec
    constructor
    · rintro ⟨r, made, -, reviewed⟩
      obtain ⟨held, cost, verdict⟩ := decided.mp ⟨r, made, rfl⟩
      refine ⟨costHeld_total.mp ⟨held, cost⟩, ?_⟩
      intro approval spec
      cases held with
      | true => exact costHeld_iff.mp cost
      | false =>
        -- the gate cost_approval alone lets the job through
        rw [gated] at approval
        cases approval
        have passes := (not_congr (gateVerdict_review unapproved unaccepted gated)).mp
          (by decide +kernel)
        rw [if_neg Bool.false_ne_true] at verdict
        rw [← verdict] at passes
        cases spec with
        | inl spec => exact absurd (reviewed _ (by decide +kernel) spec) passes
        | inr spec => exact absurd (reviewed _ (by decide +kernel) spec) passes
    · rintro ⟨total, approval⟩
      obtain ⟨held, cost⟩ := costHeld_total.mpr total
      obtain ⟨r, made, verdict⟩ := decided.mpr ⟨held, cost, rfl⟩
      refine ⟨r, made, ?_, ?_⟩
      · intro spec
        exact absurd rfl (strictly spec (List.mem_cons_self ..)).1
      · intro spec review default passes
        rw [verdict] at passes
        cases held with
        | true => cases passes
        | false =>
          cases (strictly default (List.mem_cons_of_mem _ review)).2 with
          | inl reviews =>
            exact (gateVerdict_review unapproved unaccepted gated).mp reviews passes
          | inr both =>
            obtain ⟨isApproval, which⟩ := both
            have exceeds := approval (by rw [gated, isApproval])
              (which.imp (fun eq => by rw [default, eq]) (fun eq => by rw [default, eq]))
            cases (costHeld_iff.mpr exceeds).symm.trans cost
  | bool | int | float | arr =>
    refine iff_of_false (raises ?_ ?_ ?_) id
    all_goals simp [is]

end Honors

section Sample

/-- A registry of one capability that dispatches at level 0 under a gate. -/
def sampleRegistry (gate : String) : Json :=
  .obj [(py "route.local", .obj [
    (py "capability_id", .str (py "route.local")),
    (py "capability_name", .str (py "Local routing")),
    (py "capability_type", .str (py "governing")),
    (py "desired_wal_level", .int 0),
    (py "max_wal", .int 3),
    (py "declared_pipeline", .arr []),
    (py "provider_dependencies", .arr []),
    (py "action_policies", .obj [
      (py "0", .obj [(py "dispatch_local", .obj [(py "review_gate", .str (py gate))])]),
      (py "1", .obj []), (py "2", .obj []), (py "3", .obj [])]),
    (py "promotion_criteria", .obj [])])]

def sampleNumbers : Numbers := ⟨fun _ => none, fun _ _ => false⟩

def sampleCaps (gate : String) : Fields := dictOf (sampleRegistry gate)

def sampleContext : JobContext := { jobId := py "job" }

-- the default of route.local itself is no relaxation
example : validateGateRelaxation (sampleCaps "pre_delivery") = [] := by decide +kernel

/-- The gate cost_approval is accepted in place of pre_delivery, and lets the result out unheld. -/
theorem unheld_allow :
    load sampleNumbers (sampleRegistry "cost_approval") = .ok (sampleCaps "cost_approval") ∧
    validateGateRelaxation (sampleCaps "cost_approval") = [] ∧
    specDefault? (py "dispatch_local") (py "0") = some (py "pre_delivery") ∧
    (checkPermission sampleNumbers (sampleCaps "cost_approval") (some 0) (py "route.local")
      (py "dispatch_local") sampleContext none).map (·.verdict) = .ok (.allowed false) := by
  refine ⟨?_, ?_, ?_, ?_⟩
  all_goals decide +kernel

theorem honors_iff_witness :
    Honors (specDefault? (py "dispatch_local") (py "0"))
      (checkPermission sampleNumbers (sampleCaps "pre_delivery") (some 0) (py "route.local")
        (py "dispatch_local") sampleContext none) := by
  have policy : Regular sampleNumbers (specDefault? (py "dispatch_local") (py "0")) sampleContext
      (.obj [(py "review_gate", .str (py "pre_delivery"))]) := by
    constructor
    · intro gate found
      have none : Json.field? (py "cost_gate_usd") [(py "review_gate", .str (py "pre_delivery"))] =
          none := by decide +kernel
      cases none.symm.trans found
    · intro approval
      have other : reviewGate [(py "review_gate", .str (py "pre_delivery"))] ≠
          .str (py "cost_approval") := by decide +kernel
      exact absurd approval other
  have accepted : load sampleNumbers (sampleRegistry "pre_delivery") =
      .ok (sampleCaps "pre_delivery") := by decide +kernel
  have strict : validateGateRelaxation (sampleCaps "pre_delivery") = [] := by decide +kernel
  have found : Json.field? (py "route.local") (sampleCaps "pre_delivery") = some _ := rfl
  exact (honors_iff accepted strict found (Int.le_refl 0) rfl rfl none).mpr policy

end Sample

end Drnt.Trust
