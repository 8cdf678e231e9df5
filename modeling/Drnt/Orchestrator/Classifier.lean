import Drnt.Orchestrator.Pipeline
import Drnt.Lib.IntText
import Drnt.Lib.Dumps
import Drnt.Lib.PosixPath
import Mathlib.Algebra.Order.Ring.Rat
import Mathlib.Tactic.NormNum

/-! What the local model says of a request, and the classification that is read from it. -/
namespace Drnt.Orchestrator

open Lib

section Floats

inductive FloatValue
  | nan
  | infinite (negative : Bool)
  | finite (q : Rat)
  deriving DecidableEq

/-- `<` of floats, which holds of no nan. -/
def FloatValue.less : FloatValue → FloatValue → Bool
  | .finite p, .finite q => p < q
  | .infinite m, .infinite n => m && !n
  | .infinite m, .finite _ => m
  | .finite _, .infinite n => !n
  | .nan, _ | _, .nan => false

/-- What the interpreter knows of floats: the values of their literals, and the float of a text,
where none stands for ValueError. -/
structure Floats where
  value : PyFloat → FloatValue
  parse : PyStr → Option PyFloat
  zero : value ⟨"0.0"⟩ = .finite 0
  one : value ⟨"1.0"⟩ = .finite 1
  half : value ⟨"0.5"⟩ = .finite (1 / 2)

end Floats

section Classifier

inductive Failure
  | jsonDecode | valueError | typeError | attributeError | overflowError | recursionError
  deriving DecidableEq, Repr

/-- JSONDecodeError, KeyError, ValueError and TypeError. -/
def Failure.caught : Failure → Bool
  | .jsonDecode | .valueError | .typeError => true
  | .attributeError | .overflowError | .recursionError => false

def Failure.ofLoads : Loads.Fault → Failure
  | .decode => .jsonDecode
  | .value => .valueError
  | .recursion => .recursionError

def validCategories : List String :=
  ["quick_lookup", "analysis", "creative", "code", "summarization", "conversation"]

/-- The key of a model in MODEL_MAP. -/
def ModelKey.name : ModelKey → String
  | .localModel => "local"
  | .claude => "claude"
  | .chatgpt => "chatgpt"
  | .gemini => "gemini"

def fallback : Classification := ⟨"analysis", false, "cloud", .claude, ⟨"0.5"⟩⟩

def fence : PyStr := py "```"

/-- The text without the lines of a code fence. -/
def unfenced (raw : PyStr) : PyStr :=
  let text := IntText.strip raw
  if fence.isPrefixOf text then
    let lines := (PosixPath.segments (Loads.ch '\n') text).filter fun l =>
      !fence.isPrefixOf (IntText.strip l)
    IntText.strip ([Loads.ch '\n'].intercalate lines)
  else text

/-- The member of a set that a value names; a list or a dict has no hash. -/
def member {α : Type} (name : α → String) (values : List α) : Option Json → Except Failure α
  | some (.str s) =>
    match values.find? fun v => decide (py (name v) = s) with
    | some v => .ok v
    | none => .error .valueError
  | some (.arr _) | some (.obj _) => .error .typeError
  | some .null | some (.bool _) | some (.int _) | some (.float _) | none => .error .valueError

def routingOf : Option Json → String
  | some (.str s) => if s = py "local" then "local" else "cloud"
  | _ => "cloud"

/-- The least integer that is rounded to more than any float. -/
def floatLimit : Nat := 2 ^ 1024 - 2 ^ 970

variable (python : Python) (floats : Floats)

def truth : Json → Bool
  | .null => false
  | .bool b => b
  | .int n => n ≠ 0
  | .float x => floats.value x ≠ .finite 0
  | .str s => !s.isEmpty
  | .arr xs => !xs.isEmpty
  | .obj fields => !fields.isEmpty

def floatOf : Json → Except Failure PyFloat
  | .bool b => .ok (if b then ⟨"1.0"⟩ else ⟨"0.0"⟩)
  | .int n =>
    if floatLimit ≤ n.natAbs then .error .overflowError else .ok (python.float (Dumps.int n))
  | .float x => .ok x
  | .str s =>
    match floats.parse s with
    | some x => .ok x
    | none => .error .valueError
  | .null | .arr _ | .obj _ => .error .typeError

/-- `max(0.0, min(1.0, x))`: the first of two unless the second is beyond it. -/
def clamp (x : PyFloat) : PyFloat :=
  let low := if (floats.value x).less (floats.value ⟨"1.0"⟩) then x else ⟨"1.0"⟩
  if (floats.value ⟨"0.0"⟩).less (floats.value low) then low else ⟨"0.0"⟩

def readClassification : Json → Except Failure Classification
  | .obj fields => do
    let category ← member id validCategories (Json.field? (py "category") fields)
    let recommended ← member ModelKey.name modelKeys (Json.field? (py "recommended_model") fields)
    let localCapable := truth floats ((Json.field? (py "local_capable") fields).getD (.bool false))
    let routing := routingOf (Json.field? (py "routing") fields)
    let confidence ← floatOf python floats
      ((Json.field? (py "confidence") fields).getD (.float ⟨"0.5"⟩))
    return ⟨category, localCapable, routing, recommended, clamp floats confidence⟩
  | _ => .error .attributeError

/-- The except clause of `_parse_classification`. -/
def recover : Except Failure Classification → Except Failure Classification
  | .ok c => .ok c
  | .error failure => if failure.caught then .ok fallback else .error failure

/-- `_parse_classification`. -/
def parseClassification (raw : PyStr) : Except Failure Classification :=
  recover (((Loads.loads python (unfenced raw)).mapError .ofLoads).bind
    (readClassification python floats))

structure ClassificationResult where
  category : String
  localCapable : Bool
  routing : String
  recommendedModel : ModelKey
  confidence : PyFloat
  capabilityId : String
  candidateModels : List String
  routeId : String
  deriving DecidableEq, Repr

def ClassificationResult.of (parsed : Classification) : ClassificationResult :=
  let mapping := modelMap parsed.recommendedModel
  ⟨parsed.category, parsed.localCapable, parsed.routing, parsed.recommendedModel,
    parsed.confidence, mapping.capabilityId, [mapping.candidateModel], mapping.routeId⟩

/-- Of the answer to the prompt, or of the empty text where the call fails. -/
def classify (response : PyStr) : Except Failure ClassificationResult :=
  (parseClassification python floats response).map .of

end Classifier

section Soundness

structure Classification.Valid (floats : Floats) (c : Classification) : Prop where
  category : c.category ∈ validCategories
  model : c.recommendedModel ∈ modelKeys
  confidence : ∃ q, floats.value c.confidence = .finite q ∧ 0 ≤ q ∧ q ≤ 1

/-- What the pipeline takes from a classification. -/
def ClassificationResult.route (r : ClassificationResult) : Route :=
  ⟨some r.routing, some r.candidateModels, r.capabilityId, r.routeId⟩

structure ClassificationResult.Consistent (r : ClassificationResult) : Prop where
  routing : r.routing = "local" ↔ r.recommendedModel = .localModel
  capability : r.recommendedModel = .localModel ↔ r.capabilityId = "route.local"
  dispatch : dispatchAction r.route = "dispatch_local" ↔ r.capabilityId = "route.local"

variable (python : Python) (floats : Floats)

/-- Valid fields that say the same of where the request goes. -/
def Agreeing (fields : List (PyStr × Json)) : Prop :=
  ∀ category model,
    member id validCategories (Json.field? (py "category") fields) = .ok category →
    member ModelKey.name modelKeys (Json.field? (py "recommended_model") fields) = .ok model →
    match floatOf python floats
      ((Json.field? (py "confidence") fields).getD (.float ⟨"0.5"⟩)) with
    | .ok _ => routingOf (Json.field? (py "routing") fields) = "local" ↔ model = .localModel
    | .error failure => failure.caught = true

/-- What is read is no JSON, or an object whose fields agree or are refused. -/
def Clear (raw : PyStr) : Prop :=
  match Loads.loads python (unfenced raw) with
  | .ok (.obj fields) => Agreeing python floats fields
  | .ok _ => False
  | .error fault => fault ≠ .recursion

variable {python floats} {c : Classification}

theorem member_mem {α : Type} {name : α → String} {values : List α} {field : Option Json} {a : α}
    (h : member name values field = .ok a) : a ∈ values := by
  unfold member at h
  split at h
  case h_1 s =>
    split at h
    case h_1 v found =>
      cases h
      exact List.mem_of_find?_eq_some found
    case h_2 => cases h
  all_goals cases h

theorem member_caught {α : Type} {name : α → String} {values : List α} {field : Option Json}
    {failure : Failure} (h : member name values field = .error failure) :
    failure.caught = true := by
  unfold member at h
  split at h
  case h_1 s =>
    split at h
    case h_1 => cases h
    case h_2 =>
      cases h
      rfl
  all_goals
    cases h
    rfl

theorem clamp_bounded (x : PyFloat) :
    ∃ q, floats.value (clamp floats x) = .finite q ∧ 0 ≤ q ∧ q ≤ 1 := by
  have zero := floats.zero
  have one := floats.one
  cases v : floats.value x with
  | nan => exact ⟨1, by simp [clamp, v, FloatValue.less, zero, one]⟩
  | infinite negative =>
    cases negative with
    | true => exact ⟨0, by simp [clamp, v, FloatValue.less, zero, one]⟩
    | false => exact ⟨1, by simp [clamp, v, FloatValue.less, zero, one]⟩
  | finite q =>
    by_cases below : q < 1
    · by_cases above : 0 < q
      · exact ⟨q, by simp [clamp, v, FloatValue.less, zero, one, below, above], above.le, below.le⟩
      · exact ⟨0, by simp [clamp, v, FloatValue.less, zero, one, below, above]⟩
    · exact ⟨1, by simp [clamp, v, FloatValue.less, zero, one, below]⟩

theorem local_capability (key : ModelKey) :
    key = .localModel ↔ (modelMap key).capabilityId = "route.local" := by
  cases key <;> decide

theorem consistent_iff :
    (ClassificationResult.of c).Consistent ↔
      (c.routing = "local" ↔ c.recommendedModel = .localModel) := by
  have capability := local_capability c.recommendedModel
  constructor
  · exact ClassificationResult.Consistent.routing
  · intro routing
    refine ⟨routing, capability, ?_⟩
    have dispatch : dispatchAction (ClassificationResult.of c).route = "dispatch_local" ↔
        c.routing = "local" := by
      have own : (ClassificationResult.of c).route.routing = some c.routing := rfl
      simp only [dispatchAction, own, Option.some.injEq]
      by_cases local_ : c.routing = "local"
      · rw [if_pos local_]
        exact iff_of_true rfl local_
      · rw [if_neg local_]
        refine iff_of_false ?_ local_
        split
        · decide
        · decide
    exact dispatch.trans (routing.trans capability)

/-- What the caller of the parser and of `classify` relies on. -/
def Sound (floats : Floats) (out : Except Failure Classification) : Prop :=
  ∃ c r, out = .ok c ∧ c.Valid floats ∧ out.map ClassificationResult.of = .ok r ∧ r.Consistent

theorem sound_ok : Sound floats (.ok c) ↔
    c.Valid floats ∧ (c.routing = "local" ↔ c.recommendedModel = .localModel) := by
  rw [← consistent_iff]
  constructor
  · rintro ⟨_, _, ⟨⟩, valid, ⟨⟩, consistent⟩
    exact ⟨valid, consistent⟩
  · rintro ⟨valid, consistent⟩
    exact ⟨c, .of c, rfl, valid, rfl, consistent⟩

theorem fallback_valid : fallback.Valid floats where
  category := by decide
  model := by decide
  confidence := ⟨1 / 2, floats.half, by norm_num, by norm_num⟩

theorem sound_recover_error {failure : Failure} :
    Sound floats (recover (.error failure)) ↔ failure.caught = true := by
  unfold recover
  dsimp only
  split
  case isTrue caught => exact iff_of_true (sound_ok.mpr ⟨fallback_valid, by decide⟩) caught
  case isFalse escapes =>
    refine iff_of_false ?_ escapes
    rintro ⟨_, _, ⟨⟩, -⟩

theorem sound_fields {fields : List (PyStr × Json)} :
    Sound floats (recover (readClassification python floats (.obj fields))) ↔
      Agreeing python floats fields := by
  unfold readClassification Agreeing
  dsimp only
  cases category : member id validCategories (Json.field? (py "category") fields) with
  | error failure =>
    have caught := member_caught category
    exact iff_of_true (sound_recover_error.mpr caught) (by simp)
  | ok category' =>
    cases model : member ModelKey.name modelKeys (Json.field? (py "recommended_model") fields) with
    | error failure =>
      have caught := member_caught model
      exact iff_of_true (sound_recover_error.mpr caught) (by simp)
    | ok key =>
      cases confidence : floatOf python floats
          ((Json.field? (py "confidence") fields).getD (.float ⟨"0.5"⟩)) with
      | error failure =>
        refine sound_recover_error.trans ⟨fun caught _ _ _ _ => caught, fun h => ?_⟩
        exact h category' key rfl rfl
      | ok x =>
        refine sound_ok.trans ⟨?_, fun h => ⟨⟨?_, ?_, ?_⟩, ?_⟩⟩
        · rintro ⟨-, same⟩ _ _ ⟨⟩ ⟨⟩
          exact same
        · exact member_mem category
        · exact member_mem model
        · exact clamp_bounded x
        · exact h category' key rfl rfl

variable (python floats)

/-- The parser returns a valid and consistent classification unless what it reads is JSON but no
object, nests too deep, has a confidence beyond every float, or contradicts itself. -/
theorem classification_sound_iff (raw : PyStr) :
    (∃ c r, parseClassification python floats raw = .ok c ∧ c.Valid floats ∧
      classify python floats raw = .ok r ∧ r.Consistent) ↔ Clear python floats raw := by
  change Sound floats (parseClassification python floats raw) ↔ _
  unfold parseClassification Clear
  cases Loads.loads python (unfenced raw) with
  | error fault =>
    refine sound_recover_error.trans ?_
    cases fault <;> simp [Failure.ofLoads, Failure.caught]
  | ok data =>
    cases data with
    | obj fields => exact sound_fields
    | _ => exact sound_recover_error.trans (by simp [Failure.caught])

end Soundness

section Sample

def plainPython : Python := ⟨1000, fun s => ⟨(decode? s).getD ""⟩, fun _ => []⟩

def plainFloats : Floats where
  value x :=
    if x = ⟨"0.0"⟩ then .finite 0
    else if x = ⟨"1.0"⟩ then .finite 1
    else if x = ⟨"0.5"⟩ then .finite (1 / 2)
    else .nan
  parse _ := none
  zero := by decide
  one := by decide
  half := by simp

def contradictory : PyStr :=
  py ("\x7b\"category\": \"code\", \"recommended_model\": \"claude\", " ++
    "\"routing\": \"local\"\x7d")

/-- A list has no `get`, and a request for the cloud is called local. -/
theorem misread : parseClassification plainPython plainFloats (py "[]") = .error .attributeError ∧
    ∃ r, classify plainPython plainFloats contradictory = .ok r ∧
      r.capabilityId = "route.cloud.claude" ∧ dispatchAction r.route = "dispatch_local" := by
  refine ⟨by decide +kernel, ?_⟩
  exact ⟨⟨"code", false, "local", .claude, ⟨"0.5"⟩, "route.cloud.claude",
    ["claude-sonnet-4-20250514"], "claude-sonnet-default"⟩, by decide +kernel, by decide, by decide⟩

end Sample

end Drnt.Orchestrator
