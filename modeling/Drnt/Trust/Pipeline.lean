import Drnt.Trust.Gates

/-! The pipeline evaluator: the permission checks of the auxiliary capabilities that a governing
capability declares. -/
namespace Drnt.Trust

open Lib

section Evaluation

structure PipelineResult where
  allowed : Bool
  results : List PermissionResult := []
  blockedBy : Option PyStr := none
  blockReason : Option String := none
  deriving DecidableEq

/-- The permission checker, as far as its results may differ from check to check; the number is
that of the checks made before. -/
structure Checker (ε : Type) where
  check : Nat → PyStr → PyStr → PyStr → Except ε PermissionResult
  names : ∀ n cap action mode r, check n cap action mode = .ok r →
    r.capabilityId = cap ∧ r.requestedAction = action ∧ r.dependencyMode = some mode

/-- Malformed entries raise, but a registry with such is not accepted. -/
inductive PipelineError (ε : Type)
  | malformed
  | check (e : ε)
  deriving DecidableEq

variable {ε : Type} (num : Numbers) (caps : Fields) (checker : Checker ε)

abbrev Evaluation (ε : Type) := Except (PipelineError ε)

def wellFormed {α : Type} : Check α → Evaluation ε α
  | .ok a => .ok a
  | .error _ => .error .malformed

/-- `get_actions_for`: the set of the actions of all levels. -/
def getActionsFor (cap : PyStr) : List PyStr :=
  match Json.field? cap caps with
  | none => []
  | some value => (actionsOf (dictOf value)).dedup

def capabilityActions : Json → Check (List PyStr)
  | .str cap => .ok (getActionsFor caps cap)
  | .arr _ | .obj _ => .error .raised
  | _ => .ok []

def Verdict.isAllowed : Verdict → Bool
  | .allowed _ => true
  | .blocked _ | .held _ => false

/-- The block reason, or else the hold type. -/
def Verdict.blockReason? : Verdict → Option String
  | .blocked reason => if reason = "" then none else some reason
  | .held holdType => some holdType
  | .allowed _ => none

/-- A JSON value as text; the loader has made sure that it is. -/
def textOf : Json → Check PyStr
  | .str s => .ok s
  | _ => .error .raised

def evaluateEntries (results : List PermissionResult) :
    List Json → Evaluation ε PipelineResult
  | [] => .ok { allowed := true, results }
  | entry :: rest => do
    let fields ← wellFormed (asDict entry)
    let capabilityId ← wellFormed (item (py "capability_id") fields)
    let mode ← wellFormed (item (py "dependency_mode") fields)
    match ← wellFormed (capabilityActions caps capabilityId) with
    | [action] => do
      let cap ← wellFormed (textOf capabilityId)
      let dependencyMode ← wellFormed (textOf mode)
      let result ← (checker.check results.length cap action dependencyMode).mapError .check
      if result.verdict.isAllowed = false ∧ dependencyMode = py "required" then
        return { allowed := false, results := results ++ [result], blockedBy := some cap,
                 blockReason := result.verdict.blockReason? }
      else evaluateEntries (results ++ [result]) rest
    | _ => evaluateEntries results rest

/-- `evaluate_pipeline`. -/
def evaluatePipeline (governing : PyStr) : Evaluation ε PipelineResult :=
  match Json.field? governing caps with
  | none => .ok { allowed := false, blockedBy := some governing,
                  blockReason := some "unknown_governing_capability" }
  | some cap => do
    let entries ← wellFormed (elements num (Json.field? (py "declared_pipeline") (dictOf cap)))
    evaluateEntries caps checker [] entries

end Evaluation

section Entries

structure PipelineEntry where
  capabilityId : PyStr
  dependencyMode : PyStr
  deriving DecidableEq

/-- The entry that a JSON value is. -/
def entryOf? (v : Json) : Option PipelineEntry :=
  match Json.field? (py "capability_id") (dictOf v), Json.field? (py "dependency_mode") (dictOf v) with
  | some (.str cap), some (.str mode) => some ⟨cap, mode⟩
  | _, _ => none

/-- The declared pipeline of a capability, none if there is no such capability. -/
def declaredPipeline (num : Numbers) (caps : Fields) (governing : PyStr) : List PipelineEntry :=
  match Json.field? governing caps with
  | none => []
  | some cap =>
    match elements num (Json.field? (py "declared_pipeline") (dictOf cap)) with
    | .ok xs => xs.filterMap entryOf?
    | .error _ => []

def PipelineEntry.required (e : PipelineEntry) : Bool := e.dependencyMode = py "required"

variable {ε : Type} (caps : Fields) (checker : Checker ε)

/-- The check of an entry after `n` checks, if one is made. -/
def outcome? (n : Nat) (e : PipelineEntry) : Option (Except ε PermissionResult) :=
  match getActionsFor caps e.capabilityId with
  | [action] => some (checker.check n e.capabilityId action e.dependencyMode)
  | _ => none

/-- The results of the checks of entries, after `n` checks. -/
def checks (n : Nat) : List PipelineEntry → List PermissionResult
  | [] => []
  | e :: rest =>
    match outcome? caps checker n e with
    | some (.ok r) => r :: checks (n + 1) rest
    | some (.error _) | none => checks n rest

/-- The check of the entry that comes after others. -/
def checkAfter (before : List PipelineEntry) (e : PipelineEntry) :
    Option (Except ε PermissionResult) :=
  outcome? caps checker (checks caps checker 0 before).length e

def Blocks (e : PipelineEntry) (outcome : Except ε PermissionResult) : Prop :=
  ∃ r, outcome = .ok r ∧ r.verdict.isAllowed = false ∧ e.required = true

/-- No entry has blocked the pipeline and no check has raised. -/
def Passed (entries : List PipelineEntry) : Prop :=
  ∀ before e after, entries = before ++ e :: after → ∀ outcome,
    checkAfter caps checker before e = some outcome → (∃ r, outcome = .ok r) ∧ ¬ Blocks e outcome

/-- What the evaluation of the typed entries may come to. -/
inductive Evaluated (entries : List PipelineEntry) : Evaluation ε PipelineResult → Prop
  | passed (all : Passed caps checker entries) :
      Evaluated entries (.ok { allowed := true, results := checks caps checker 0 entries })
  | blocked {before after : List PipelineEntry} {e : PipelineEntry} {r : PermissionResult}
      (split : entries = before ++ e :: after) (all : Passed caps checker before)
      (made : checkAfter caps checker before e = some (.ok r)) (no : r.verdict.isAllowed = false)
      (required : e.required = true) :
      Evaluated entries (.ok {
        allowed := false
        results := checks caps checker 0 (before ++ [e])
        blockedBy := some e.capabilityId
        blockReason := r.verdict.blockReason? })
  | raised {before after : List PipelineEntry} {e : PipelineEntry} {error : ε}
      (split : entries = before ++ e :: after) (all : Passed caps checker before)
      (made : checkAfter caps checker before e = some (.error error)) :
      Evaluated entries (.error (.check error))

end Entries

section Loop

variable {ε : Type} {caps : Fields} {checker : Checker ε} {before after : List PipelineEntry}
  {e : PipelineEntry}

theorem checks_append (n : Nat) (xs ys : List PipelineEntry) : checks caps checker n (xs ++ ys) =
    checks caps checker n xs ++ checks caps checker (n + (checks caps checker n xs).length) ys := by
  induction xs generalizing n with
  | nil => rfl
  | cons x xs ih =>
    rw [List.cons_append, checks, checks]
    split
    · rw [ih, List.cons_append, List.length_cons, Nat.add_right_comm, Nat.add_assoc]
    · exact ih n
    · exact ih n

theorem checks_snoc_some {r : PermissionResult} (made : checkAfter caps checker before e = some (.ok r)) :
    checks caps checker 0 (before ++ [e]) = checks caps checker 0 before ++ [r] := by
  rw [checks_append, Nat.zero_add, checks]
  rw [checkAfter] at made
  rw [made]
  rfl

theorem checks_snoc_none (skipped : checkAfter caps checker before e = none) :
    checks caps checker 0 (before ++ [e]) = checks caps checker 0 before := by
  rw [checks_append, Nat.zero_add, checks]
  rw [checkAfter] at skipped
  rw [skipped]
  exact List.append_nil _

theorem passed_snoc (all : Passed caps checker before)
    (last : ∀ outcome, checkAfter caps checker before e = some outcome →
      (∃ r, outcome = .ok r) ∧ ¬ Blocks e outcome) : Passed caps checker (before ++ [e]) := by
  intro b e' a split outcome made
  rcases List.eq_nil_or_concat a with rfl | ⟨a, z, rfl⟩
  · obtain ⟨rfl, eq⟩ := List.append_inj' split rfl
    cases eq
    exact last outcome made
  · refine all b e' a ?_ outcome made
    rw [List.concat_eq_append, ← List.cons_append, ← List.append_assoc] at split
    exact (List.append_inj' split rfl).1

/-- A JSON value that is an entry. -/
structure Decodes (v : Json) (e : PipelineEntry) : Prop where
  fields : ∃ fields, v = .obj fields ∧
    Json.field? (py "capability_id") fields = some (.str e.capabilityId) ∧
    Json.field? (py "dependency_mode") fields = some (.str e.dependencyMode)

theorem Decodes.entryOf {v : Json} (h : Decodes v e) : entryOf? v = some e := by
  obtain ⟨fields, rfl, cap, mode⟩ := h.fields
  rw [entryOf?]
  change (match Json.field? (py "capability_id") fields, Json.field? (py "dependency_mode") fields with
    | some (.str cap), some (.str mode) => some (PipelineEntry.mk cap mode)
    | _, _ => none) = _
  rw [cap, mode]

/-- One entry of the loop. -/
theorem evaluateEntries_cons {v : Json} {rest : List Json} {results : List PermissionResult}
    (h : Decodes v e) : evaluateEntries caps checker results (v :: rest) =
      match outcome? caps checker results.length e with
      | none => evaluateEntries caps checker results rest
      | some (.error error) => .error (.check error)
      | some (.ok r) =>
        if r.verdict.isAllowed = false ∧ e.dependencyMode = py "required" then
          .ok { allowed := false, results := results ++ [r], blockedBy := some e.capabilityId,
                blockReason := r.verdict.blockReason? }
        else evaluateEntries caps checker (results ++ [r]) rest := by
  obtain ⟨fields, rfl, cap, mode⟩ := h.fields
  have capItem : item (py "capability_id") fields = .ok (.str e.capabilityId) := item_ok.mpr cap
  have modeItem : item (py "dependency_mode") fields = .ok (.str e.dependencyMode) := item_ok.mpr mode
  rw [evaluateEntries, outcome?]
  simp only [asDict, wellFormed, capItem, modeItem, capabilityActions, textOf, bind, Except.bind]
  match getActionsFor caps e.capabilityId with
  | [] => rfl
  | [action] =>
    dsimp only
    cases checker.check results.length e.capabilityId action e.dependencyMode with
    | error error => rfl
    | ok r => rfl
  | _ :: _ :: _ => rfl

theorem evaluateEntries_from {xs : List Json} (decoded : ∀ x ∈ xs, ∃ e, Decodes x e)
    (all : Passed caps checker before) :
    Evaluated caps checker (before ++ xs.filterMap entryOf?)
      (evaluateEntries caps checker (checks caps checker 0 before) xs) := by
  induction xs generalizing before with
  | nil =>
    rw [List.filterMap_nil, List.append_nil]
    exact .passed all
  | cons x xs ih =>
    obtain ⟨e, decodes⟩ := decoded x List.mem_cons_self
    rw [List.filterMap_cons_some decodes.entryOf]
    have later {results : List PermissionResult}
        (same : checks caps checker 0 (before ++ [e]) = results)
        (passed : Passed caps checker (before ++ [e])) :
        Evaluated caps checker (before ++ e :: xs.filterMap entryOf?)
          (evaluateEntries caps checker results xs) := by
      have := ih (fun x mem => decoded x (.tail _ mem)) passed
      rwa [List.append_assoc, same] at this
    rw [evaluateEntries_cons decodes]
    split
    · rename_i skipped
      refine later (checks_snoc_none skipped) (passed_snoc all fun outcome made => ?_)
      cases made.symm.trans skipped
    · rename_i error made
      exact .raised rfl all made
    · rename_i r made
      split
      · rename_i stop
        rw [← checks_snoc_some made]
        exact .blocked rfl all made stop.1 (decide_eq_true stop.2)
      · rename_i on
        refine later (checks_snoc_some made) (passed_snoc all fun outcome made' => ?_)
        cases made.symm.trans made'
        refine ⟨⟨r, rfl⟩, ?_⟩
        rintro ⟨_, ⟨⟩, no, required⟩
        exact on ⟨no, of_decide_eq_true required⟩

end Loop

section Accepted

variable {ε : Type} {num : Numbers} {data : Json} {caps : Fields} {governing : PyStr}

theorem references_of_loaded (accepted : load num data = .ok caps) :
    ∀ e ∈ caps, checkReferences num caps e.1 e.2 = .ok () := by
  unfold load at accepted
  split at accepted
  · obtain ⟨-, rest⟩ := Checks.check_ok.mp accepted
    obtain ⟨-, rest⟩ := Checks.check_ok.mp rest
    obtain ⟨references, rest⟩ := Checks.check_ok.mp rest
    cases rest
    exact Checks.forM_ok.mp references
  · cases accepted

/-- The pipelines of an accepted registry are lists of entries. -/
theorem pipeline_of_loaded (accepted : load num data = .ok caps) {cap : Json}
    (known : Json.field? governing caps = some cap) :
    ∃ xs, elements num (Json.field? (py "declared_pipeline") (dictOf cap)) = .ok xs ∧
      ∀ x ∈ xs, ∃ e, Decodes x e := by
  have mem := mem_of_field known
  obtain ⟨fields, is, rest⟩ := Checks.bind_ok.mp ((load_validates accepted).2 _ mem)
  obtain ⟨-, rest⟩ := Checks.check_ok.mp rest
  obtain ⟨-, rest⟩ := Checks.check_ok.mp rest
  obtain ⟨-, rest⟩ := Checks.check_ok.mp rest
  obtain ⟨-, rest⟩ := Checks.check_ok.mp rest
  obtain ⟨xs, found, modes⟩ := Checks.bind_ok.mp rest
  rw [asDict_ok] at is
  subst is
  obtain ⟨xs', found', rest⟩ := Checks.bind_ok.mp (references_of_loaded accepted _ mem)
  cases found.symm.trans found'
  obtain ⟨ids, -⟩ := Checks.check_ok.mp rest
  refine ⟨xs, found, fun x mem => ?_⟩
  obtain ⟨entry, dict, mode⟩ := Checks.bind_ok.mp (Checks.forM_ok.mp modes x mem)
  rw [asDict_ok] at dict
  subst dict
  obtain ⟨ref, id_, known⟩ := Checks.bind_ok.mp (Checks.forM_ok.mp ids _ mem)
  rw [item_ok] at id_
  obtain ⟨capId, -, rfl⟩ := inTexts_ok (known_of_checked known)
  obtain ⟨modeName, -, modeIs⟩ := inTexts_ok (known_of_checked mode)
  refine ⟨⟨capId, modeName⟩, ⟨entry, rfl, id_, ?_⟩⟩
  cases at_ : Json.field? (py "dependency_mode") entry with
  | none =>
    rw [at_] at modeIs
    cases modeIs
  | some v =>
    rw [at_] at modeIs
    exact congrArg some modeIs

theorem evaluatePipeline_evaluated (accepted : load num data = .ok caps) (checker : Checker ε)
    {cap : Json} (known : Json.field? governing caps = some cap) :
    Evaluated caps checker (declaredPipeline num caps governing)
      (evaluatePipeline num caps checker governing) := by
  obtain ⟨xs, found, decoded⟩ := pipeline_of_loaded accepted known
  rw [declaredPipeline, evaluatePipeline, known]
  dsimp only
  rw [found]
  have none : Passed caps checker [] := fun before e after split => by simp at split
  exact evaluateEntries_from decoded none

end Accepted

section Honours

variable {ε : Type} (num : Numbers) (caps : Fields) (checker : Checker ε) (governing : PyStr)

/-- A check of the capability was made and returned allowed. -/
def AllowedIn (results : List PermissionResult) (cap : PyStr) : Prop :=
  ∃ r ∈ results, r.capabilityId = cap ∧ r.verdict.isAllowed = true

/-- The entry is the first required one that is not allowed. -/
structure BlockedAt (before : List PipelineEntry) (e : PipelineEntry) (result : PipelineResult) :
    Prop where
  required : e.required = true
  named : result.blockedBy = some e.capabilityId
  made : result.results = checks caps checker 0 (before ++ [e])
  refused : ∃ r, result.results.getLast? = some r ∧ r.capabilityId = e.capabilityId ∧
    r.verdict.isAllowed = false
  first : ∀ e' ∈ before, e'.required = true → AllowedIn result.results e'.capabilityId

structure Honours (result : PipelineResult) : Prop where
  allowed : result.allowed = true →
    ∀ e ∈ declaredPipeline num caps governing, e.required = true →
      AllowedIn result.results e.capabilityId
  refused : result.allowed = false → Json.field? governing caps = none ∨
    ∃ before e after, declaredPipeline num caps governing = before ++ e :: after ∧
      BlockedAt caps checker before e result

/-- Each required entry that is reached names a capability of one action. -/
def SingleAction : Prop :=
  ∀ before e after, declaredPipeline num caps governing = before ++ e :: after →
    Passed caps checker before → e.required = true → (getActionsFor caps e.capabilityId).length = 1

/-- The check of an entry that is reached raises. -/
def Raises : Prop :=
  ∃ before e after error, declaredPipeline num caps governing = before ++ e :: after ∧
    Passed caps checker before ∧ checkAfter caps checker before e = some (.error error)

variable {num caps checker governing} {data : Json}

/-- Two places in one list: one is before the other, or they are the same. -/
theorem compare_splits {α : Type} {a b c d : List α} {x y : α} (h : a ++ x :: c = b ++ y :: d) :
    (∃ m, b = a ++ x :: m) ∨ (a = b ∧ x = y) ∨ ∃ m, a = b ++ y :: m := by
  rcases List.append_eq_append_iff.mp h with ⟨m, rfl, eq⟩ | ⟨m, rfl, eq⟩
  · cases m with
    | nil =>
      cases eq
      exact .inr (.inl ⟨(List.append_nil a).symm, rfl⟩)
    | cons z m =>
      cases eq
      exact .inl ⟨m, rfl⟩
  · cases m with
    | nil =>
      cases eq
      exact .inr (.inl ⟨List.append_nil b, rfl⟩)
    | cons z m =>
      cases eq
      exact .inr (.inr ⟨m, rfl⟩)

variable {before entries : List PipelineEntry} {e : PipelineEntry} {r : PermissionResult}

theorem outcome_single {n : Nat} {outcome : Except ε PermissionResult}
    (made : outcome? caps checker n e = some outcome) :
    (getActionsFor caps e.capabilityId).length = 1 ∧
      ∀ r, outcome = .ok r → r.capabilityId = e.capabilityId := by
  unfold outcome? at made
  split at made
  · rename_i action single
    cases made
    exact ⟨by rw [single]; rfl, fun r ok => (checker.names _ _ _ _ r ok).1⟩
  · cases made

theorem outcome_of_single {n : Nat} (single : (getActionsFor caps e.capabilityId).length = 1) :
    ∃ outcome, outcome? caps checker n e = some outcome := by
  obtain ⟨action, eq⟩ := List.length_eq_one_iff.mp single
  exact ⟨_, by rw [outcome?, eq]⟩

/-- Only capabilities of one action are checked. -/
theorem single_of_mem_checks {n : Nat} (mem : r ∈ checks caps checker n entries) :
    (getActionsFor caps r.capabilityId).length = 1 := by
  induction entries generalizing n with
  | nil => cases mem
  | cons e rest ih =>
    rw [checks] at mem
    split at mem
    · rename_i r' made
      obtain ⟨single, name⟩ := outcome_single made
      rcases List.mem_cons.mp mem with rfl | mem
      · rwa [name r rfl]
      · exact ih mem
    · exact ih mem
    · exact ih mem

theorem AllowedIn.single {n : Nat} {cap : PyStr} (h : AllowedIn (checks caps checker n entries) cap) :
    (getActionsFor caps cap).length = 1 := by
  obtain ⟨r, mem, rfl, -⟩ := h
  exact single_of_mem_checks mem

theorem Passed.start {after : List PipelineEntry} (all : Passed caps checker (before ++ after)) :
    Passed caps checker before := by
  rintro b x a rfl
  exact all b x (a ++ after) (by simp)

theorem mem_checks_of_made {after : List PipelineEntry} (split : entries = before ++ e :: after)
    (made : checkAfter caps checker before e = some (.ok r)) : r ∈ checks caps checker 0 entries := by
  rw [split, List.append_cons, checks_append, checks_snoc_some made]
  simp

/-- The required entries that have been passed were allowed, if they were checked. -/
theorem Passed.allowed (all : Passed caps checker entries) (mem : e ∈ entries)
    (required : e.required = true) (single : (getActionsFor caps e.capabilityId).length = 1) :
    AllowedIn (checks caps checker 0 entries) e.capabilityId := by
  obtain ⟨before, after, split⟩ := List.append_of_mem mem
  obtain ⟨outcome, made⟩ :
      ∃ outcome, outcome? caps checker (checks caps checker 0 before).length e = some outcome :=
    outcome_of_single single
  obtain ⟨⟨r, rfl⟩, passes⟩ := all before e after split outcome made
  refine ⟨r, mem_checks_of_made split made, (outcome_single made).2 r rfl, ?_⟩
  by_contra refused
  exact passes ⟨r, rfl, Bool.eq_false_iff.mpr refused, required⟩

/-- Where one entry blocks, those reached are it and the ones before it. -/
theorem reached_before {pipeline b a after : List PipelineEntry} {x : PipelineEntry}
    (split : pipeline = b ++ x :: a) (made : checkAfter caps checker b x = some (.ok r))
    (blocks : Blocks x (.ok r : Except ε _)) (here : pipeline = before ++ e :: after)
    (passed : Passed caps checker before) : e ∈ b ∨ (before = b ∧ e = x) := by
  rcases compare_splits (here.symm.trans split) with ⟨m, rfl⟩ | same | ⟨m, rfl⟩
  · exact .inl (by simp)
  · exact .inr same
  · exact absurd blocks (passed b x m rfl _ made).2

theorem single_of_honours (accepted : load num data = .ok caps)
    (h : ∀ result, evaluatePipeline num caps checker governing = .ok result →
      Honours num caps checker governing result)
    (quiet : ¬ Raises num caps checker governing) : SingleAction num caps checker governing := by
  intro before e after here passed required
  have known : Json.field? governing caps ≠ none := by
    intro none_
    rw [declaredPipeline, none_] at here
    simp at here
  obtain ⟨cap, found⟩ := Option.ne_none_iff_exists'.mp known
  have evaluated := evaluatePipeline_evaluated accepted checker found
  generalize evaluatePipeline num caps checker governing = result at evaluated h
  cases evaluated with
  | passed all => exact (((h _ rfl).allowed rfl) e (by rw [here]; simp) required).single
  | @blocked b a x r split all made no blocking =>
    rcases reached_before split made ⟨r, rfl, no, blocking⟩ here passed with mem | ⟨-, rfl⟩
    case inr => exact (outcome_single made).1
    obtain ⟨b', e', a', split', at_⟩ := ((h _ rfl).refused rfl).resolve_left known
    have results : checks caps checker 0 (b ++ [x]) = checks caps checker 0 (b' ++ [e']) := at_.made
    -- the results tell how far the evaluation has come
    have inside : e ∈ b' := by
      rcases compare_splits (split.symm.trans split') with ⟨m, rfl⟩ | ⟨rfl, -⟩ | ⟨m, rfl⟩
      · simp [mem]
      · exact mem
      · rw [checks_snoc_some made, List.append_cons b' e' m, checks_append _ (b' ++ [e'])] at results
        have := congrArg List.length results
        simp only [List.length_append, List.length_singleton] at this
        omega
    exact (at_.first e inside required).single
  | @raised b a x error split all made =>
    exact absurd ⟨b, x, a, error, split, all, made⟩ quiet

/-- No check raises where the evaluation returns. -/
theorem not_raises (accepted : load num data = .ok caps) {result : PipelineResult}
    (run : evaluatePipeline num caps checker governing = .ok result) :
    ¬ Raises num caps checker governing := by
  rintro ⟨before, e, after, error, here, passed, raised⟩
  have known : Json.field? governing caps ≠ none := by
    intro none_
    rw [declaredPipeline, none_] at here
    simp at here
  obtain ⟨cap, found⟩ := Option.ne_none_iff_exists'.mp known
  have evaluated := evaluatePipeline_evaluated accepted checker found
  rw [run] at evaluated
  cases evaluated with
  | passed all =>
    obtain ⟨⟨r, eq⟩, -⟩ := all before e after here _ raised
    cases eq
  | @blocked b a x r split all made no blocking =>
    rcases compare_splits (here.symm.trans split) with ⟨m, rfl⟩ | ⟨rfl, rfl⟩ | ⟨m, rfl⟩
    · obtain ⟨⟨r, eq⟩, -⟩ := all before e m rfl _ raised
      cases eq
    · cases made.symm.trans raised
    · exact (passed b x m rfl _ made).2 ⟨r, rfl, no, blocking⟩

theorem honours_of_single (accepted : load num data = .ok caps) {result : PipelineResult}
    (run : evaluatePipeline num caps checker governing = .ok result)
    (single : SingleAction num caps checker governing) :
    Honours num caps checker governing result := by
  cases found : Json.field? governing caps with
  | none =>
    rw [evaluatePipeline, found] at run
    cases run
    exact ⟨nofun, fun _ => .inl found⟩
  | some cap =>
    have evaluated := evaluatePipeline_evaluated accepted checker found
    rw [run] at evaluated
    cases evaluated with
    | passed all =>
      refine ⟨fun _ e mem required => all.allowed mem required ?_, nofun⟩
      obtain ⟨before, after, split⟩ := List.append_of_mem mem
      exact single before e after split (split ▸ all).start required
    | @blocked b a x r split all made no required =>
      have snoc := checks_snoc_some made
      refine ⟨nofun, fun _ => .inr ⟨b, x, a, split, required, rfl, rfl, ?_, fun e' mem needed => ?_⟩⟩
      · refine ⟨r, ?_, (outcome_single made).2 r rfl, no⟩
        rw [snoc, List.getLast?_concat]
      · obtain ⟨b', a', eq⟩ := List.append_of_mem mem
        have one := single b' e' (a' ++ x :: a) (by rw [split, eq]; simp) (eq ▸ all).start needed
        obtain ⟨r', mem', name, yes⟩ := all.allowed mem needed one
        refine ⟨r', ?_, name, yes⟩
        rw [snoc]
        exact List.mem_append_left _ mem'

theorem honours_iff (accepted : load num data = .ok caps) (checker : Checker ε) (governing : PyStr) :
    (∀ result, evaluatePipeline num caps checker governing = .ok result →
      Honours num caps checker governing result) ↔
    Raises num caps checker governing ∨ SingleAction num caps checker governing := by
  constructor
  · intro h
    by_cases raises : Raises num caps checker governing
    · exact .inl raises
    · exact .inr (single_of_honours accepted h raises)
  · intro h result run
    exact honours_of_single accepted run (h.resolve_left (not_raises accepted run))

end Honours

section Skipped

/-- The permission checker at the given levels. -/
def permissionChecker (num : Numbers) (caps : Fields) (effectiveWal : PyStr → Option Int)
    (ctx : JobContext) : Checker PermissionError where
  check _ cap action mode := checkPermission num caps (effectiveWal cap) cap action ctx (some mode)
  names n cap action mode r made := by
    unfold checkPermission at made
    split at made
    · cases made
      exact ⟨rfl, rfl, rfl⟩
    · cases made
      exact ⟨rfl, rfl, rfl⟩
    split at made
    · cases made
      exact ⟨rfl, rfl, rfl⟩
    split at made
    · cases made
      exact ⟨rfl, rfl, rfl⟩
    split at made
    · obtain ⟨held, -, rest⟩ := Checks.bind_ok.mp made
      cases held with
      | true | false =>
        cases rest
        exact ⟨rfl, rfl, rfl⟩
    · cases made

def auxiliary (cap : String) (policies : Fields) : PyStr × Json :=
  (py cap, .obj [
    (py "capability_id", .str (py cap)),
    (py "capability_name", .str (py cap)),
    (py "capability_type", .str (py "auxiliary")),
    (py "desired_wal_level", .int 0),
    (py "max_wal", .int 3),
    (py "declared_pipeline", .arr []),
    (py "provider_dependencies", .arr []),
    (py "action_policies", .obj [(py "0", .obj policies), (py "1", .obj []), (py "2", .obj []),
      (py "3", .obj [])]),
    (py "promotion_criteria", .obj [])])

/-- A governing capability that requires the auxiliary capability "memory". -/
def requiringRegistry (policies : Fields) : Fields :=
  [auxiliary "memory" policies,
    (py "route", .obj [
      (py "capability_id", .str (py "route")),
      (py "capability_name", .str (py "route")),
      (py "capability_type", .str (py "governing")),
      (py "desired_wal_level", .int 0),
      (py "max_wal", .int 3),
      (py "declared_pipeline", .arr [.obj [(py "capability_id", .str (py "memory")),
        (py "dependency_mode", .str (py "required"))]]),
      (py "provider_dependencies", .arr []),
      (py "action_policies", .obj [(py "0", .obj []), (py "1", .obj []), (py "2", .obj []),
        (py "3", .obj [])]),
      (py "promotion_criteria", .obj [])])]

/-- Both actions of memory are blocked at level 0. -/
def twoActions : Fields :=
  [(py "read_memory", .str (py "blocked")), (py "write_memory", .str (py "blocked"))]

def floorChecker (caps : Fields) : Checker PermissionError :=
  permissionChecker sampleNumbers caps (fun _ => some 0) sampleContext

/-- A required capability of two blocked actions is not checked, and the pipeline is allowed. -/
theorem required_skipped :
    load sampleNumbers (.obj (requiringRegistry twoActions)) = .ok (requiringRegistry twoActions) ∧
    ¬ ∀ result, evaluatePipeline sampleNumbers (requiringRegistry twoActions)
        (floorChecker (requiringRegistry twoActions)) (py "route") = .ok result →
      Honours sampleNumbers (requiringRegistry twoActions)
        (floorChecker (requiringRegistry twoActions)) (py "route") result := by
  refine ⟨by decide +kernel, fun h => ?_⟩
  have run : evaluatePipeline sampleNumbers (requiringRegistry twoActions)
      (floorChecker (requiringRegistry twoActions)) (py "route") = .ok { allowed := true } := by
    decide +kernel
  obtain ⟨r, mem, -⟩ := (h _ run).allowed rfl ⟨py "memory", py "required"⟩ (by decide +kernel) rfl
  cases mem

def oneAction : Fields := [(py "read_memory", .str (py "blocked"))]

theorem honours_iff_witness :
    let caps := requiringRegistry oneAction
    SingleAction sampleNumbers caps (floorChecker caps) (py "route") ∧
      ((∀ result, evaluatePipeline sampleNumbers caps (floorChecker caps) (py "route") = .ok result →
        Honours sampleNumbers caps (floorChecker caps) (py "route") result) ↔
      Raises sampleNumbers caps (floorChecker caps) (py "route") ∨
        SingleAction sampleNumbers caps (floorChecker caps) (py "route")) := by
  have loaded : load sampleNumbers (.obj (requiringRegistry oneAction)) =
      .ok (requiringRegistry oneAction) := by decide +kernel
  refine ⟨fun before e after here _ _ => ?_, honours_iff loaded _ _⟩
  have declared : declaredPipeline sampleNumbers (requiringRegistry oneAction) (py "route") =
      [⟨py "memory", py "required"⟩] := by decide +kernel
  have mem : e ∈ declaredPipeline sampleNumbers (requiringRegistry oneAction) (py "route") := by
    rw [here]
    simp
  rw [declared] at mem
  cases List.mem_singleton.mp mem
  decide +kernel

end Skipped

end Drnt.Trust
