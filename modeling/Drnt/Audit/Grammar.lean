import Drnt.Audit.Validator

/-! The grammar of envelopes, and where validation accepts just that. -/
namespace Drnt.Audit

open Lib

section Grammar

/-- Exactly the characters of a version-7 UUID, of which there are 36. -/
def IsUuid7 (s : PyStr) : Prop := List.Forall₂ (fun p c => p c = true) uuidV7Pattern s

structure Grammar (host : Host) (data : String → Json) : Prop where
  schemaVersion : data "schema_version" = .text schemaVersion
  sourceEventId : ∃ s, data "source_event_id" = .str s ∧ IsUuid7 s
  timestamp : ∃ s, data "timestamp" = .str s ∧ host.fromisoformat s = true
  eventType : ∃ s, data "event_type" = .str s ∧ s ≠ []
  source : ∃ name ∈ validSources, data "source" = .text name
  durability : ∃ name ∈ validDurability, data "durability" = .text name
  payload : ∃ fields, data "payload" = .obj fields
  jobId : data "job_id" = .null ∨ ∃ s, data "job_id" = .str s ∧ IsUuid7 s
  parentJobId : data "parent_job_id" = .null ∨ ∃ s, data "parent_job_id" = .str s ∧ IsUuid7 s
  capabilityId : data "capability_id" = .null ∨ ∃ s, data "capability_id" = .str s
  walLevel : data "wal_level" = .null ∨ ∃ n, data "wal_level" = .int n ∧ -1 ≤ n ∧ n ≤ 3

/-- All fields that an envelope must have. -/
def Complete (fields : List (PyStr × Json)) : Prop :=
  ∀ name ∈ requiredFields ++ nullableFields, Json.field? (Lib.py name) fields ≠ none

def value (fields : List (PyStr × Json)) (name : String) : Json :=
  (Json.field? (Lib.py name) fields).getD .null

def Envelope (host : Host) (v : Json) : Prop :=
  ∃ fields, v = .obj fields ∧ Complete fields ∧ Grammar host (value fields)

/-- The validation returns, and accepts just the envelopes. -/
def Decides (host : Host) (v : Json) : Prop :=
  (∃ r, validateEvent host v = .ok r) ∧ (validateEvent host v = .ok none ↔ Envelope host v)

end Grammar

section Condition

/-- A text without one line feed at its end. -/
def trimmed (v : Json) : Json :=
  match v with
  | .str s => .str (if s.getLast? = some TextMode.lineFeed then s.dropLast else s)
  | v => v

def idFields : List String := ["source_event_id", "job_id", "parent_job_id"]

def trimIds (data : String → Json) (name : String) : Json :=
  if name ∈ idFields then trimmed (data name) else data name

/-- The fields whose checks come before that of the source are as they should be. -/
@[mk_iff] structure Early (host : Host) (data : String → Json) : Prop where
  schemaVersion : data "schema_version" = .text schemaVersion
  sourceEventId : isUuid (data "source_event_id") = true
  timestamp : ∃ s, data "timestamp" = .str s ∧ host.fromisoformat s = true
  eventType : isStr (data "event_type") = true ∧ data "event_type" ≠ .str []

/-- What is looked up in a set can be, and a line feed at the end of an id is not all that keeps
an event from being an envelope. -/
structure Regular (host : Host) (data : String → Json) : Prop where
  source : Early host data → hashable (data "source") = true
  durability : Early host data → data "source" ∈ validSources.map .text →
    hashable (data "durability") = true
  ids : Grammar host (trimIds data) → ∀ name ∈ idFields, trimmed (data name) = data name

end Condition

section Matching

variable {ps : List (CodePoint → Bool)} {s : PyStr}

theorem matches_iff (ps : List (CodePoint → Bool)) (s : PyStr) : matches_ ps s = true ↔
    List.Forall₂ (fun p c => p c = true) ps s ∨
      ∃ s', s = s' ++ [TextMode.lineFeed] ∧ List.Forall₂ (fun p c => p c = true) ps s' := by
  induction ps generalizing s with
  | nil => simp [matches_]
  | cons p ps ih =>
    cases s with
    | nil => simp [matches_]
    | cons c s =>
      rw [matches_, Bool.and_eq_true, ih]
      constructor
      · rintro ⟨first, rest | ⟨s', rfl, rest⟩⟩
        · exact .inl (.cons first rest)
        · exact .inr ⟨c :: s', rfl, .cons first rest⟩
      · rintro (whole | ⟨s', eq, whole⟩)
        · cases whole with
          | cons first rest => exact ⟨first, .inl rest⟩
        · cases whole with
          | cons first rest =>
            rename_i c' s''
            obtain ⟨rfl, rfl⟩ := List.cons.inj eq
            exact ⟨first, .inr ⟨s'', rfl, rest⟩⟩

/-- A UUID ends with a hexadecimal digit. -/
theorem IsUuid7.last (s' : PyStr) : ¬ IsUuid7 (s' ++ [TextMode.lineFeed]) := by
  intro h
  have length := List.Forall₂.length_eq h
  rw [List.length_append, List.length_singleton] at length
  have before : s'.length = 35 := by
    have : uuidV7Pattern.length = 36 := rfl
    omega
  have end_ := List.forall₂_drop_append uuidV7Pattern s' [TextMode.lineFeed] h
  rw [before, show uuidV7Pattern.drop 35 = [isHex] from rfl] at end_
  cases end_ with
  | cons digit rest => exact absurd digit (by decide)

theorem trimmed_append (s : PyStr) : trimmed (.str (s ++ [TextMode.lineFeed])) = .str s := by
  simp [trimmed]

theorem trimmed_uuid (h : IsUuid7 s) : trimmed (.str s) = .str s := by
  rw [trimmed, if_neg]
  intro last
  obtain ⟨s', rfl⟩ := List.getLast?_eq_some_iff.mp last
  exact IsUuid7.last s' h

theorem isUuid_iff (v : Json) : isUuid v = true ↔ ∃ s, trimmed v = .str s ∧ IsUuid7 s := by
  cases v with
  | str s =>
    rw [isUuid, matches_iff]
    constructor
    · rintro (whole | ⟨s', rfl, whole⟩)
      · exact ⟨s, trimmed_uuid whole, whole⟩
      · exact ⟨s', trimmed_append s', whole⟩
    · rintro ⟨s', eq, whole⟩
      by_cases last : s.getLast? = some TextMode.lineFeed
      · obtain ⟨s₀, rfl⟩ := List.getLast?_eq_some_iff.mp last
        cases (trimmed_append s₀).symm.trans eq
        exact .inr ⟨_, rfl, whole⟩
      · rw [trimmed, if_neg last] at eq
        cases eq
        exact .inl whole
  | _ => simp [isUuid, trimmed]

end Matching

section Raising

variable {host : Host} {data : String → Json} {m : PyStr} {x : Except Raised (Option PyStr)}
  {fault : Raised}

theorem check_error {c : Prop} [Decidable c] :
    (if c then pure (some m) else x) = .error fault ↔ ¬ c ∧ x = .error fault := by
  by_cases h : c
  · simp [h, pure, Except.pure]
  · simp [h]

theorem among_error {r : Except Raised Bool} :
    (r >>= fun found => if (!found) = true then pure (some m) else x) = .error fault ↔
      r = .error fault ∨ (r = .ok true ∧ x = .error fault) := by
  match r with
  | .error fault => simp [bind, Except.bind]
  | .ok true => simp [bind, Except.bind]
  | .ok false => simp [bind, Except.bind, pure, Except.pure]

theorem isIn_error (v : Json) (texts : List String) :
    (∃ fault, isIn v texts = .error fault) ↔ hashable v = false := by
  unfold isIn
  split
  · rename_i can
    simp [can]
  · rename_i cannot
    simp [cannot]

theorem isIn_true {v : Json} {texts : List String} :
    isIn v texts = .ok true ↔ ∃ name ∈ texts, v = .text name := by
  unfold isIn
  split
  · simp [eq_comm]
  · rename_i cannot
    refine ⟨nofun, ?_⟩
    rintro ⟨name, -, rfl⟩
    exact absurd rfl cannot

/-- The checks that may raise are those of the source and of the durability. -/
theorem validateFields_raises : (∃ fault, validateFields host data = .error fault) ↔
    Early host data ∧ (hashable (data "source") = false ∨
      (data "source" ∈ validSources.map .text ∧ hashable (data "durability") = false)) := by
  have returns {r : Option PyStr} {fault : Raised} :
      (pure r : Except Raised (Option PyStr)) = .error fault ↔ False := ⟨nofun, False.elim⟩
  have found : isIn (data "source") validSources = .ok true ↔
      data "source" ∈ validSources.map .text := by
    rw [isIn_true, List.mem_map]
    simp only [eq_comm]
  rw [early_iff, ← found, ← isIn_error _ validSources, ← isIn_error _ validDurability]
  unfold validateFields
  cases data "timestamp" with
  | str s =>
    simp only [check_error, among_error]
    cases data "wal_level" with
    | int n =>
      simp only [check_error, returns, and_false, or_false]
      simp [exists_or, and_assoc]
    | _ =>
      simp only [returns, and_false, or_false]
      simp [exists_or, and_assoc]
  | _ =>
    simp only [check_error]
    simp [returns]

end Raising

section Deciding

variable {host : Host} {data : String → Json}

/-- What is accepted is an envelope up to a line feed after its ids. -/
theorem accepted_grammar : Accepted host data ↔ Grammar host (trimIds data) := by
  have id_ (v : Json) : (v = .null ∨ isUuid v = true) ↔
      (trimmed v = .null ∨ ∃ s, trimmed v = .str s ∧ IsUuid7 s) := by
    rw [isUuid_iff]
    refine or_congr ?_ Iff.rfl
    cases v <;> simp [trimmed]
  have text (v : Json) : isStr v = true ↔ ∃ s, v = .str s := by
    cases v <;> simp [isStr]
  have dict (v : Json) : isDict v = true ↔ ∃ fields, v = .obj fields := by
    cases v <;> simp [isDict]
  have filled (v : Json) : isStr v = true ∧ v ≠ .str [] ↔ ∃ s, v = .str s ∧ s ≠ [] := by
    cases v <;> simp [isStr]
  constructor
  · intro h
    exact {
      schemaVersion := h.schemaVersion
      sourceEventId := (isUuid_iff _).mp h.sourceEventId
      timestamp := h.timestamp
      eventType := (filled _).mp h.eventType
      source := isIn_true.mp h.source
      durability := isIn_true.mp h.durability
      payload := (dict _).mp h.payload
      jobId := (id_ _).mp h.jobId
      parentJobId := (id_ _).mp h.parentJobId
      capabilityId := h.capabilityId.imp_right (text _).mp
      walLevel := h.walLevel }
  · intro h
    exact {
      schemaVersion := h.schemaVersion
      sourceEventId := (isUuid_iff _).mpr h.sourceEventId
      timestamp := h.timestamp
      eventType := (filled _).mpr h.eventType
      source := isIn_true.mpr h.source
      durability := isIn_true.mpr h.durability
      payload := (dict _).mpr h.payload
      jobId := (id_ _).mpr h.jobId
      parentJobId := (id_ _).mpr h.parentJobId
      capabilityId := h.capabilityId.imp_right (text _).mpr
      walLevel := h.walLevel }

theorem trimmed_id {v : Json} (h : v = .null ∨ ∃ s, v = .str s ∧ IsUuid7 s) : trimmed v = v := by
  rcases h with rfl | ⟨s, rfl, uuid⟩
  · rfl
  · exact trimmed_uuid uuid

/-- The ids of an envelope end without a line feed. -/
theorem Grammar.ids (h : Grammar host data) : ∀ name ∈ idFields, trimmed (data name) = data name := by
  intro name mem
  simp only [idFields, List.mem_cons, List.not_mem_nil, or_false] at mem
  rcases mem with rfl | rfl | rfl
  · exact trimmed_id (.inr h.sourceEventId)
  · exact trimmed_id h.jobId
  · exact trimmed_id h.parentJobId

theorem trimIds_same (h : ∀ name ∈ idFields, trimmed (data name) = data name) :
    trimIds data = data := by
  funext name
  unfold trimIds
  split
  · rename_i mem
    exact h name mem
  · rfl

theorem accepts_iff : (Accepted host data ↔ Grammar host data) ↔
    (Grammar host (trimIds data) → ∀ name ∈ idFields, trimmed (data name) = data name) := by
  rw [accepted_grammar]
  constructor
  · intro same trim
    exact (same.mp trim).ids
  · intro plain
    constructor
    · intro trim
      rwa [trimIds_same (plain trim)] at trim
    · intro h
      rwa [trimIds_same h.ids]

/-- Where validation decides the grammar. -/
theorem decides_iff (host : Host) (v : Json) : Decides host v ↔
    ∀ fields, v = .obj fields → Complete fields → Regular host (value fields) := by
  have returned {data : String → Json} : (∃ r, validateFields host data = .ok r) ↔
      ¬ ∃ fault, validateFields host data = .error fault := by
    cases validateFields host data <;> simp
  cases v with
  | obj fields =>
    by_cases complete : Complete fields
    · have run : validateEvent host (.obj fields) = validateFields host (value fields) := by
        have all : (requiredFields ++ nullableFields).find? (fun name =>
            (Json.field? (Lib.py name) fields).isNone) = none :=
          List.find?_eq_none.mpr fun name mem => by simpa using complete name mem
        rw [validateEvent, all]
        rfl
      have envelope : Envelope host (.obj fields) ↔ Grammar host (value fields) := by
        refine ⟨?_, fun h => ⟨fields, rfl, complete, h⟩⟩
        rintro ⟨fields', eq, -, h⟩
        cases eq
        exact h
      rw [Decides, run, envelope, validateFields_none, accepts_iff, returned, validateFields_raises]
      constructor
      · rintro ⟨total, ids⟩ fields' eq -
        cases eq
        refine ⟨fun early => ?_, fun early known => ?_, ids⟩
        · by_contra not_
          exact total ⟨early, .inl (by simpa using not_)⟩
        · by_contra not_
          exact total ⟨early, .inr ⟨known, by simpa using not_⟩⟩
      · intro regular
        have h := regular fields rfl complete
        refine ⟨?_, h.ids⟩
        rintro ⟨early, source | ⟨known, durability⟩⟩
        · rw [h.source early] at source
          cases source
        · rw [h.durability early known] at durability
          cases durability
    · have missing : ∃ m, validateEvent host (.obj fields) = .ok (some m) := by
        rw [validateEvent]
        split
        · exact ⟨_, rfl⟩
        · rename_i all
          exact absurd (fun name mem => by simpa using List.find?_eq_none.mp all name mem) complete
      obtain ⟨m, eq⟩ := missing
      refine ⟨fun _ fields' same => ?_, fun _ => ⟨⟨_, eq⟩, ?_⟩⟩
      · cases same
        exact fun h => absurd h complete
      · rw [eq]
        refine ⟨(by simp), ?_⟩
        rintro ⟨fields', same, all, -⟩
        cases same
        exact absurd all complete
  | _ =>
    refine ⟨fun _ _ => (by simp), fun _ => ⟨⟨_, rfl⟩, fun eq => ?_, ?_⟩⟩
    · cases eq
    · rintro ⟨fields, eq, -⟩
      cases eq

def bareHost : Host where
  maxDepth := 1000
  float s := ⟨(Lib.decode? s).getD ""⟩
  sha256 _ := []
  str _ := []
  fromisoformat _ := true

/-- An envelope with the given source and the given text after its id. -/
def bareFields (source : Json) (tail : PyStr) : List (PyStr × Json) :=
  [("schema_version", .text "2.0"),
    ("source_event_id", .str (Lib.py "01890a5d-ac96-774b-bcce-b302099a8057" ++ tail)),
    ("timestamp", .text "2024-01-01"), ("event_type", .text "job.submitted"), ("source", source),
    ("durability", .text "durable"), ("payload", .obj []), ("job_id", .null),
    ("parent_job_id", .null), ("capability_id", .null), ("wal_level", .null)].map
      fun f => (Lib.py f.1, f.2)

def bareEvent (source : Json) (tail : PyStr) : Json := .obj (bareFields source tail)

theorem bare_id (source : Json) (tail : PyStr) : value (bareFields source tail) "source_event_id" =
    .str (Lib.py "01890a5d-ac96-774b-bcce-b302099a8057" ++ tail) := by
  rw [value, bareFields]
  simp only [List.map_cons, Json.field?]
  rw [if_neg (by decide +kernel), if_pos trivial]
  rfl

/-- An id with a line feed is accepted, and a source that is a list raises. -/
theorem undecided :
    ¬ Decides bareHost (bareEvent (.text "human") [TextMode.lineFeed]) ∧
      ¬ Decides bareHost (bareEvent (.arr []) []) := by
  constructor
  case left =>
    rintro ⟨-, same⟩
    have accepted : validateEvent bareHost (bareEvent (.text "human") [TextMode.lineFeed]) = .ok none := by
      decide +kernel
    obtain ⟨fields, eq, -, grammar⟩ := same.mp accepted
    cases eq
    obtain ⟨s, id_, uuid⟩ := grammar.sourceEventId
    have length := List.Forall₂.length_eq uuid
    cases id_.symm.trans (bare_id ..)
    exact absurd length (by decide +kernel)
  case right =>
    rintro ⟨⟨r, returned⟩, -⟩
    have raised : validateEvent bareHost (bareEvent (.arr []) []) = .error .type := by
      decide +kernel
    cases returned.symm.trans raised

end Deciding

end Drnt.Audit
