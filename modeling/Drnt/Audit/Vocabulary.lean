import Drnt.Events
import Drnt.Audit.Delivery
import Drnt.Audit.Grammar

/-! The events that the orchestrator builds, and what the log writer makes of them. -/
namespace Drnt.Audit

open Lib Lib.Framing

section Builders

/-- What the builders of events.py make of any arguments. -/
inductive Built : Draft → Prop
  | systemStartup {a b c d e f} : Built (eventSystemStartup a b c d e f)
  | walPromoted {a b c d e f} : Built (eventWalPromoted a b c d e f)
  | systemConfigChange {a b c} : Built (eventSystemConfigChange a b c)
  | systemModelChange {a b c} : Built (eventSystemModelChange a b c)
  | jobSubmitted {a b c d e f g h} : Built (eventJobSubmitted a b c d e f g h)
  | sourceEventConflict {a b c d e} : Built (eventSourceEventConflict a b c d e)
  | sourceEventDivergence {a b c} : Built (eventSourceEventDivergence a b c)
  | jobClassified {a b c d e f g} : Built (eventJobClassified a b c d e f g)
  | walPermissionCheck {a b c d e f g h i j k} :
    Built (eventWalPermissionCheck a b c d e f g h i j k)
  | walDemoted {a b c d e f} : Built (eventWalDemoted a b c d e f)
  | jobDispatched {a b c d e f g} : Built (eventJobDispatched a b c d e f g)
  | modelResponse {a b c d e f g h i j} : Built (eventModelResponse a b c d e f g h i j)
  | jobResponseReceived {a b c d e f g h} : Built (eventJobResponseReceived a b c d e f g h)
  | jobDelivered {a} : Built (eventJobDelivered a)
  | systemNotify {a b c} : Built (eventSystemNotify a b c)
  | egressValidationFailure {a b c d} : Built (eventEgressValidationFailure a b c d)
  | egressFallbackToLocal {a b c d} : Built (eventEgressFallbackToLocal a b c d)
  | modelError {a b c d e f} : Built (eventModelError a b c d e f)
  | jobFailed {a b c d} : Built (eventJobFailed a b c d)
  | contextPackaged {a b c d e f g} : Built (eventContextPackaged a b c d e f g)
  | humanOverride {a b c d e} : Built (eventHumanOverride a b c d e)
  | jobRevoked {a b c d e} : Built (eventJobRevoked a b c d e)
  | jobProposalReady {a b c d e f g h i} : Built (eventJobProposalReady a b c d e f g h i)
  | jobClosedNoAction {a b c d e f g} : Built (eventJobClosedNoAction a b c d e f g)
  | humanReviewed {a b c d e f g h} : Built (eventHumanReviewed a b c d e f g h)
  | manifestValidated {a b c d e f g} : Built (eventManifestValidated a b c d e f g)
  | manifestRejected {a b c d} : Built (eventManifestRejected a b c d)
  | hubStartupValidated {a b c d e} : Built (eventHubStartupValidated a b c d e)
  | hubStartupBlocked {a b} : Built (eventHubStartupBlocked a b)
  | contextStripDetail {a b c d e f g h i} : Built (eventContextStripDetail a b c d e f g h i)
  | blueprintCreated {a b c d e f g} : Built (eventBlueprintCreated a b c d e f g)
  | workerPrepared {a b c d e} : Built (eventWorkerPrepared a b c d e)
  | workerTeardown {a b c d e} : Built (eventWorkerTeardown a b c d e)
  | workerPreparationFailed {a b c} : Built (eventWorkerPreparationFailed a b c)
  | workerExecutionStarted {a b c d e f} : Built (eventWorkerExecutionStarted a b c d e f)
  | workerExecutionCompleted {a b c d e f g h i j} :
    Built (eventWorkerExecutionCompleted a b c d e f g h i j)
  | systemConnectivityHubCloud {a b c} : Built (eventSystemConnectivityHubCloud a b c)
  | systemConnectivityDevice {a b c d e f g} : Built (eventSystemConnectivityDevice a b c d e f g)
  | systemHubSwitch {a b c d e} : Built (eventSystemHubSwitch a b c d e)
  | walDemotedTemporalDecay {a b c d e f} : Built (eventWalDemotedTemporalDecay a b c d e f)
  | jobQueued {a b c d} : Built (eventJobQueued a b c d)
  | hubStateChange {a b c d} : Built (eventHubStateChange a b c d)

/-- What the builders of egress_events.py make of any arguments. -/
inductive BuiltEgress : Draft → Prop
  | authorized {a b c d e f} : BuiltEgress (eventEgressAuthorized a b c d e f)
  | denied {a b c d e f} : BuiltEgress (eventEgressDenied a b c d e f)

/-- A WAL level that the validator admits. -/
def Leveled (d : Draft) : Prop := ∀ n, d.walLevel = some n → -1 ≤ n ∧ n ≤ 3

end Builders

section Ids

theorem hex_digit (n : Nat) : isHex (CodePoint.ofChar (Uuid7.hexDigit n)) = true := by
  have table : ∀ d : Fin 16, isHex (CodePoint.ofChar (Uuid7.hexDigit d.val)) = true := by
    decide
  have same : Uuid7.hexDigit (n % 16) = Uuid7.hexDigit n := by
    rw [Uuid7.hexDigit, Nat.mod_mod, Uuid7.hexDigit]
  exact same ▸ table ⟨n % 16, Nat.mod_lt n (by decide)⟩

theorem hex_digits (width n : Nat) :
    List.Forall₂ (fun p c => p c = true) (List.replicate width isHex)
      ((Uuid7.hexDigits width n).map CodePoint.ofChar) := by
  induction width with
  | zero => exact .nil
  | succ width ih => exact .cons (hex_digit _) ih

theorem then_ {p : CodePoint → Bool} {c : CodePoint} {ps : List (CodePoint → Bool)} {s : PyStr}
    (first : p c = true) (rest : List.Forall₂ (fun p c => p c = true) ps s) :
    List.Forall₂ (fun p c => p c = true) (p :: ps) (c :: s) := .cons first rest

/-- The first digit of the variant has the bits 10 in front. -/
theorem variant_digit {n : Nat} (low : 8 ≤ n) (high : n < 12) :
    isVariant (CodePoint.ofChar (Uuid7.hexDigit n)) = true := by
  obtain rfl | rfl | rfl | rfl : n = 8 ∨ n = 9 ∨ n = 10 ∨ n = 11 := by omega
  all_goals decide

theorem uuid_grammar (u : Uuid7) : IsUuid7 (Lib.py u.text) := by
  have variant : List.Forall₂ (fun p c => p c = true) (isVariant :: List.replicate 3 isHex)
      ((Uuid7.hexDigits 4 (2 ^ 15 + u.randB / 2 ^ 48)).map CodePoint.ofChar) := by
    have bound := u.randB.isLt
    have first : 8 ≤ (2 ^ 15 + u.randB / 2 ^ 48 : Nat) / 16 ^ 3 ∧
        (2 ^ 15 + u.randB / 2 ^ 48 : Nat) / 16 ^ 3 < 12 := by
      norm_num only
      omega
    exact then_ (variant_digit first.1 first.2) (hex_digits 3 _)
  have dash : isDash (CodePoint.ofChar '-') = true := by decide
  have version : isVersion (CodePoint.ofChar '7') = true := by decide
  have second := then_ dash (hex_digits 4 u.millis)
  have third := then_ dash (then_ version (hex_digits 3 u.randA))
  have fifth := then_ dash (hex_digits 12 u.randB)
  have all := List.rel_append (List.rel_append (List.rel_append (List.rel_append
    (hex_digits 8 (u.millis / 2 ^ 16)) second) third) (then_ dash variant)) fifth
  rw [IsUuid7, Lib.py, Uuid7.text, String.toList_ofList, Uuid7.chars]
  simp only [List.map_append, List.map_cons]
  exact all

theorem uuid_accepted (u : Uuid7) : isUuid (.text u.text) = true :=
  (isUuid_iff _).mpr ⟨_, trimmed_uuid (uuid_grammar u), uuid_grammar u⟩

theorem uuidOrNull_accepted (u : Option Uuid7) :
    uuidOrNull u = .null ∨ isUuid (uuidOrNull u) = true := by
  cases u with
  | none => exact .inl rfl
  | some u => exact .inr (uuid_accepted u)

end Ids

section Verdicts

variable {host : Host} {describe : Bytes → PyStr} {draft : Draft}

/-- fromisoformat reads the timestamps that _now_iso writes. -/
def ReadsIso (host : Host) : Prop := ∀ t : UtcTime, host.fromisoformat (Lib.py t.isoformat) = true

theorem Built.eventType (h : Built draft) : draft.eventType ≠ "" := by
  have other : (draft.eventType == "") = false := by cases h <;> rfl
  simpa using other

theorem Built.source (h : Built draft) : draft.source ∈ validSources := by
  have known : draft.source = "orchestrator" ∨ draft.source = "human" ∨
      draft.source = "context_packager" ∨ draft.source = "system" ∨
      draft.source = "phone_app" := by
    cases h <;> first
      | exact .inl rfl
      | exact .inr (.inl rfl)
      | exact .inr (.inr (.inl rfl))
      | exact .inr (.inr (.inr (.inl rfl)))
      | exact .inr (.inr (.inr (.inr rfl)))
  rcases known with same | same | same | same | same
  all_goals simp [same, validSources]

theorem Built.durability (h : Built draft) : draft.durability ∈ validDurability := by
  have known : draft.durability = "durable" ∨ draft.durability = "best_effort" := by
    cases h <;> first | exact .inl rfl | exact .inr rfl
  simpa [validDurability] using known

theorem textOrNull_accepted (s : Option String) :
    Json.textOrNull s = .null ∨ isStr (Json.textOrNull s) = true := by
  cases s with
  | none => exact .inl rfl
  | some s => exact .inr rfl

theorem py_injective : Function.Injective Lib.py := by
  intro a b same
  have decoded := congrArg decode? same
  rw [decode?_py, decode?_py] at decoded
  exact Option.some.inj decoded

theorem event_field (e : Event) :
    ∀ name ∈ copied, e.toJson.get? (Lib.py name) = some (field e.toJson name) := by
  have there : ∀ name ∈ copied, e.toJson.get? (Lib.py name) ≠ none := by
    simp only [copied, List.forall_mem_cons, Event.toJson, Json.get?, Json.field?,
      py_injective.eq_iff]
    simp
  intro name mem
  obtain ⟨v, found⟩ := Option.ne_none_iff_exists'.mp (there name mem)
  rw [field, found]
  rfl

theorem leveled_iff : (Json.intOrNull draft.walLevel = .null ∨
    ∃ n, Json.intOrNull draft.walLevel = .int n ∧ -1 ≤ n ∧ n ≤ 3) ↔ Leveled draft := by
  unfold Leveled
  cases draft.walLevel <;> simp [Json.intOrNull]

theorem named_copied : ∀ name ∈ requiredFields ++ nullableFields, name ∈ copied := by
  simp [requiredFields, nullableFields, copied]

/-- No field of an envelope is missing. -/
theorem validateEvent_obj {fields : List (PyStr × Json)} (present : ∀ name ∈ requiredFields ++
    nullableFields, ((Json.obj fields).get? (Lib.py name)).isSome) :
    validateEvent host (.obj fields) = validateFields host (field (.obj fields)) := by
  have missing : (requiredFields ++ nullableFields).find? (fun name =>
      (Json.field? (Lib.py name) fields).isNone) = none := by
    apply List.find?_eq_none.mpr
    intro name mem
    have found : (Json.field? (Lib.py name) fields).isSome := present name mem
    simpa using Option.isSome_iff_ne_none.mp found
  rw [validateEvent, missing]
  rfl

theorem validateEvent_event (e : Event) :
    validateEvent host e.toJson = validateFields host (field e.toJson) := by
  apply validateEvent_obj
  intro name mem
  show (e.toJson.get? (Lib.py name)).isSome = true
  rw [event_field e name (named_copied name mem)]
  rfl

/-- What a builder makes is accepted when its WAL level is one. -/
theorem built_valid (iso : ReadsIso host) (built : Built draft) (id : Uuid7) (time : UtcTime) :
    validateEvent host (buildEvent draft id time).toJson = .ok none ↔ Leveled draft := by
  rw [validateEvent_event, validateFields_none]
  constructor
  · intro accepted
    exact leveled_iff.mp accepted.walLevel
  · intro leveled
    constructor
    case schemaVersion => rfl
    case sourceEventId => exact uuid_accepted id
    case timestamp => exact ⟨_, rfl, iso time⟩
    case eventType =>
      refine ⟨rfl, fun empty => built.eventType ?_⟩
      have none_ : Lib.py draft.eventType = [] := Json.str.inj empty
      simpa [Lib.py] using none_
    case source => exact isIn_true.mpr ⟨_, built.source, rfl⟩
    case durability => exact isIn_true.mpr ⟨_, built.durability, rfl⟩
    case payload => rfl
    case jobId => exact uuidOrNull_accepted draft.jobId
    case parentJobId => exact uuidOrNull_accepted draft.parentJobId
    case capabilityId => exact textOrNull_accepted draft.capabilityId
    case walLevel => exact leveled_iff.mpr leveled

/-- What the proxy logs of its decisions has a source that the writer does not know. -/
theorem egress_invalid (docs : Documented host describe) (iso : ReadsIso host)
    (built : BuiltEgress draft) (id : Uuid7) (time : UtcTime) :
    validateEvent host (buildEvent draft id time).toJson =
      .ok (some (Lib.py "Invalid source: '" ++ Lib.py "egress_proxy" ++
        Lib.py ("'. Must be one of: context_packager, egress_gateway, human, log_writer, " ++
          "orchestrator, phone_app, system, watch_app"))) := by
  have source : draft.source = "egress_proxy" := by cases built <;> rfl
  have named : draft.eventType ≠ "" := by
    have other : (draft.eventType == "") = false := by cases built <;> rfl
    simpa using other
  have stranger : isIn (.text "egress_proxy") validSources = .ok false := rfl
  have values : field (buildEvent draft id time).toJson "source" = .text "egress_proxy" := by
    rw [← source]
    rfl
  have stamped : field (buildEvent draft id time).toJson "timestamp" =
      .str (Lib.py time.isoformat) := rfl
  have typed : field (buildEvent draft id time).toJson "event_type" =
      .str (Lib.py draft.eventType) := rfl
  have filled : Lib.py draft.eventType ≠ [] := by simpa [Lib.py] using named
  have version : field (buildEvent draft id time).toJson "schema_version" =
      .text schemaVersion := rfl
  have identified : isUuid (field (buildEvent draft id time).toJson "source_event_id") = true :=
    uuid_accepted id
  have told : host.str (.text "egress_proxy") = Lib.py "egress_proxy" := docs.str_text _
  rw [validateEvent_event, validateFields]
  simp only [version, identified, stamped, iso time, typed, values, stranger, told]
  rw [if_neg (by simp), if_neg (by simp), if_neg (by simp), if_neg (by simp [isStr, filled])]
  rfl

end Verdicts

section Recording

variable {host : Host} {describe : Bytes → PyStr} {draft : Draft} {e : Event} {s : System}
  {w : Writer} {now : UtcTime} {eventId : Uuid7} {prevHash : PyStr} {chunks rest : Chunks}
  {body : Bytes}

/-- A line that holds an event as it was built, beside what the writer adds. -/
structure Keeps (e : Event) (prevHash : PyStr) (now : UtcTime) (eventId : Uuid7)
    (fields : List (PyStr × Json)) : Prop where
  envelope : ∀ name ∈ copied, Json.field? (Lib.py name) fields = e.toJson.get? (Lib.py name)
  eventId : Json.field? (Lib.py "event_id") fields = some (.text eventId.text)
  committedAt : Json.field? (Lib.py "committed_at") fields = some (.text now.isoformat)
  prevHash : Json.field? (Lib.py "prev_hash") fields = some (.str prevHash)

/-- The event is in the log of the service, or in its buffer, as it was built. -/
structure Recorded (host : Host) (e : Event) (before after : Service) (now : UtcTime)
    (eventId : Uuid7) (line : PyStr) : Prop where
  holds : ∃ fields, Loads.loads host.toPython line = .ok (.obj fields) ∧
    Keeps e before.writer.prevHash now eventId fields
  chained : after.writer.prevHash = computeHash host.toPython line
  durable : e.durability = "durable" → line ∈ after.disk.lines now.date
  bestEffort : e.durability = "best_effort" → (now.date.text, line) ∈ after.writer.beBuffer

theorem line_read {data : Json} (inbound : Inbound host data)
    (valid : validateEvent host data = .ok none) (digest : Utf8.encodable prevHash = true)
    {committedAt : String} : Loads.loads host.toPython (lineOf data eventId committedAt prevHash) =
      .ok (.obj (committedEvent (field data) eventId committedAt prevHash).toDict) := by
  obtain ⟨n, depth, values⟩ := inbound.fields (valid_facts valid).1
  have fits := @committed_fits host data prevHash eventId committedAt n
    (fun name _ => values name) digest
  rw [← depth] at fits
  exact Loads.loads_dumps false fits

theorem committed_field {data : String → Json} {committedAt : String} : ∀ name ∈ copied,
    Json.field? (Lib.py name) (committedEvent data eventId committedAt prevHash).toDict =
      some (data name) := by
  simp only [copied, List.forall_mem_cons, CommittedEvent.toDict, committedEvent, Json.field?,
    py_injective.eq_iff]
  simp

theorem keeps_dict (e : Event) : Keeps e prevHash now eventId
    (committedEvent (field e.toJson) eventId now.isoformat prevHash).toDict := by
  constructor
  case envelope =>
    intro name mem
    rw [committed_field name mem, event_field e name mem]
  case eventId => rfl
  case committedAt => rfl
  case prevHash => rfl

/-- Every event of a builder, once it arrives whole, is acknowledged and recorded as it was
built. -/
theorem built_recorded (docs : Documented host describe) (iso : ReadsIso host)
    (run : Reached host s) (up : s.writer = some w) (order : s.clock ≤ now.date)
    (built : Built draft) (leveled : Leveled draft) (id : Uuid7) (time : UtcTime)
    (readable : Inbound host (buildEvent draft id time).toJson)
    (fresh : .text id.text ∉ w.seenSourceIds)
    (sent : request (buildEvent draft id time).toJson = some body)
    (read : inbound chunks = some (body, rest)) (eventId : Uuid7) :
    ∃ served after line, handleConnection host describe chunks now eventId ⟨s.disk, w⟩ =
        (served, after) ∧
      served.response = some (.ack eventId now.isoformat w.prevHash (w.sequence + 1)) ∧
      Recorded host (buildEvent draft id time) ⟨s.disk, w⟩ after now eventId line := by
  have valid := (built_valid iso built id time).mpr leveled
  obtain ⟨pages, log⟩ := logged_reached docs.digests run
  obtain ⟨current, texts, earlier, tracks, -⟩ := log.tracks w up
  have digest := tracks.digest docs.digests
  have handled : handleEvent host (buildEvent draft id time).toJson now eventId ⟨s.disk, w⟩ =
      .ok (.ack eventId now.isoformat w.prevHash (w.sequence + 1))
        (accepted host ⟨s.disk, w⟩ (buildEvent draft id time).toJson now eventId) := by
    rcases handleEvent_cases tracks.clean digest readable now eventId with
      ⟨-, -, eq⟩ | ⟨-, seen, -⟩ | ⟨message, refused, -⟩ | ⟨fault, raised, -⟩
    · exact eq
    · exact absurd seen fresh
    · rw [valid] at refused
      cases refused
    · rw [valid] at raised
      cases raised
  cases serves : handleConnection host describe chunks now eventId ⟨s.disk, w⟩ with
  | mk served after =>
    rcases connection_read readable sent read serves with
      ⟨response, answered, -, said, -⟩ | ⟨fault, raised, -⟩
    · rw [handled] at answered
      cases answered
      obtain ⟨sound, -, -⟩ := @committed_line host _ w.prevHash eventId now.isoformat readable
        valid digest
      have stored := (accepted_grows tracks (Nat.le_trans earlier order) sound).2
      refine ⟨served, _, lineOf (buildEvent draft id time).toJson eventId now.isoformat w.prevHash,
        rfl, said, ?_⟩
      constructor
      case holds => exact ⟨_, line_read readable valid digest, keeps_dict _⟩
      case chained => rfl
      case durable => exact fun durable => stored (congrArg Json.text durable)
      case bestEffort =>
        intro lazy
        have lazy : field (buildEvent draft id time).toJson "durability" = .text "best_effort" :=
          congrArg Json.text lazy
        have other : ¬ field (buildEvent draft id time).toJson "durability" = .text "durable" := by
          rw [lazy]
          decide
        unfold accepted recorded
        rw [decide_eq_false other]
        exact List.mem_append_right _ (List.mem_singleton_self _)
    · rw [handled] at raised
      cases raised

end Recording

section Egress

variable {host : Host} {describe : Bytes → PyStr} {draft : Draft} {s : System} {w : Writer}
  {pages : List Page} {chunks rest : Chunks} {body : Bytes}

/-- Every acknowledged event is one that validation accepts, and its line is the one committed. -/
theorem acked_valid (digests : HexDigests host.toPython) (run : Reached host s) :
    ∀ a ∈ s.acked, Inbound host a.data ∧ validateEvent host a.data = .ok none ∧
      Utf8.encodable a.prevHash = true := by
  induction run with
  | first clock => simp
  | @next s s' before step ih =>
    cases step with
    | @answer w data now eventId response after up inbound order handled =>
      obtain ⟨pages, log⟩ := logged_reached digests before
      obtain ⟨current, texts, -, tracks, -⟩ := log.tracks w up
      have digest := tracks.digest digests
      intro a inside
      have new : a ∈ s.acked ++ acknowledged data response := inside
      clear inside
      rcases List.mem_append.mp new with earlier | new
      · exact ih a earlier
      · rcases handleEvent_cases tracks.clean digest inbound now eventId with
          ⟨valid, -, eq⟩ | ⟨-, -, eq⟩ | ⟨message, -, eq⟩ | ⟨fault, -, eq⟩
        all_goals
          rw [eq] at handled
          cases handled
        · rw [List.mem_singleton.mp new]
          exact ⟨inbound, valid, digest⟩
        · cases new
        · cases new
    | raise => exact ih
    | flush => exact ih
    | stop => exact ih
    | crash => exact fun a mem => ih a (List.mem_of_mem_take mem)
    | start => exact ih

/-- A record passes the validation that the event has passed. -/
theorem committed_valid {data : Json} {eventId : Uuid7} {committedAt : String} {prevHash : PyStr}
    (valid : validateEvent host data = .ok none) : validateEvent host
      (.obj (committedEvent (field data) eventId committedAt prevHash).toDict) = .ok none := by
  obtain ⟨fields, rfl, -, accepted⟩ := validateEvent_none.mp valid
  rw [validateEvent_none]
  refine ⟨_, rfl, ?_, ?_⟩
  · intro name mem
    rw [committed_field name (named_copied name mem)]
    simp
  · exact ⟨accepted.schemaVersion, accepted.sourceEventId, accepted.timestamp, accepted.eventType,
      accepted.source, accepted.durability, accepted.payload, accepted.jobId,
      accepted.parentJobId, accepted.capabilityId, accepted.walLevel⟩

/-- Every line on disk is an envelope that validation itself accepts. -/
theorem stored_valid (digests : HexDigests host.toPython) (run : Reached host s) :
    ∀ day, ∀ line ∈ s.disk.lines day, ∃ fields, Loads.loads host.toPython line = .ok (.obj fields) ∧
      validateEvent host (.obj fields) = .ok none := by
  intro day line mem
  obtain ⟨pages, log⟩ := logged_reached digests run
  rw [lines_pages log.holds log.kept] at mem
  have inside : line ∈ allTexts pages := by
    unfold textsOf at mem
    cases found : pages.find? (·.day = day) with
    | none => simp [found] at mem
    | some p =>
      rw [found] at mem
      exact List.mem_flatMap.mpr ⟨p, List.mem_of_find?_eq_some found, mem⟩
  obtain ⟨a, acked, rfl⟩ := List.mem_map.mp (log.prefix_.subset inside)
  obtain ⟨inbound, valid, digest⟩ := acked_valid digests run a acked
  exact ⟨_, line_read inbound valid digest, committed_valid valid⟩

/-- A decision of the egress proxy that is sent to the writer is refused, and no record of any run
has its source. -/
theorem egress_unrecorded (docs : Documented host describe) (iso : ReadsIso host)
    (run : Reached host s) :
    (∀ w draft id time body chunks rest now eventId, s.writer = some w → BuiltEgress draft →
      Inbound host (buildEvent draft id time).toJson →
      request (buildEvent draft id time).toJson = some body → inbound chunks = some (body, rest) →
      ∃ served message, handleConnection host describe chunks now eventId ⟨s.disk, w⟩ =
          (served, ⟨s.disk, w⟩) ∧ served.response = some (.error message)) ∧
    ∀ day, ∀ line ∈ s.disk.lines day, ∃ fields,
      Loads.loads host.toPython line = .ok (.obj fields) ∧
      Json.field? (Lib.py "source") fields ≠ some (.text "egress_proxy") := by
  constructor
  · intro w draft id time body chunks rest now eventId up built readable sent read
    have refused := egress_invalid docs iso built id time
    cases serves : handleConnection host describe chunks now eventId ⟨s.disk, w⟩ with
    | mk served after =>
      rcases connection_read readable sent read serves with
        ⟨response, answered, -, said, -⟩ | ⟨fault, raised, -⟩
      · unfold handleEvent at answered
        rw [refused] at answered
        cases answered
        exact ⟨served, _, rfl, said⟩
      · unfold handleEvent at raised
        rw [refused] at raised
        cases raised
  · intro day line mem
    obtain ⟨fields, read, valid⟩ := stored_valid docs.digests run day line mem
    refine ⟨fields, read, fun foreign => ?_⟩
    obtain ⟨fields', eq, -, accepted⟩ := validateEvent_none.mp valid
    cases eq
    have known := accepted.source
    rw [foreign] at known
    cases known

end Egress

section Sample

def sampleSubmitted : Event :=
  buildEvent (eventJobSubmitted (sampleId 5) "hello" "text" "phone" none none none none)
    (sampleId 5) (sampleTime 0)

def sampleDenied : Event :=
  buildEvent (eventEgressDenied "blueprint" "route.cloud" "example.com" 443 "egress_check"
    "default_deny") (sampleId 6) (sampleTime 0)

theorem wire_iso : ReadsIso wireHost := by
  intro t
  have width (n k : Nat) : (UtcTime.digits n k).length = n := by
    induction n with
    | zero => rfl
    | succ n ih => rw [UtcTime.digits, List.length_cons, ih]
  have length : (Lib.py t.isoformat).length = 27 := by
    rw [Lib.py, List.length_map, UtcTime.isoformat, String.toList_ofList, UtcTime.chars]
    simp only [List.length_append, List.length_cons, List.length_nil, width]
  have reads : wireHost.fromisoformat = fun s => decide (s.length = 27) := rfl
  rw [reads]
  exact decide_eq_true length

theorem sent_whole (event : Json) (small : (request event).all (·.length ≤ 2000) = true) :
    ∃ body data rest, request event = some body ∧ inbound [data] = some (body, rest) := by
  obtain ⟨body, encoded⟩ := encode_of_encodable (ascii_dumps event)
  have sent : request event = some body := encoded
  rw [sent] at small
  have most : body.length ≤ 2000 := by simpa using small
  have small : body.length ≤ maxMessageSize := Nat.le_trans most (by decide)
  have fits : maxMessageSize < 2 ^ 32 := by decide
  obtain ⟨head, packed, length, -⟩ := pack_spec (Nat.lt_of_le_of_lt small fits)
  have framed : frame body = some (head ++ body) := by
    rw [frame, packed]
    rfl
  have filled : head ++ body ≠ [] := by
    intro empty
    have none_ := congrArg List.length empty
    rw [List.length_append, length] at none_
    simp at none_
  have arriving : Arriving [head ++ body] := by simpa [Arriving] using filled
  have whole : [head ++ body].flatten = head ++ body ++ [] := by simp
  obtain ⟨rest, read, -⟩ := inbound_whole small framed arriving whole
  exact ⟨body, head ++ body, rest, sent, read⟩

theorem fits_fields {py : Python} {n : Nat} {entries : List (String × Json)}
    (distinct : (entries.map fun f => Lib.py f.1).Nodup)
    (values : ∀ f ∈ entries, Loads.Fits py n f.2) :
    Loads.Fits py (n + 1) (.fields entries) := by
  refine .obj ?_ ?_ ?_
  · rwa [List.map_map]
  · intro f mem
    obtain ⟨g, -, rfl⟩ := List.mem_map.mp mem
    exact encodable_py
  · intro f mem
    obtain ⟨g, inside, rfl⟩ := List.mem_map.mp mem
    exact values g inside

/-- A writer on its first day. -/
theorem sample_started : ∃ w, Reached wireHost ⟨emptyDisk, some w, (sampleTime 0).date, []⟩ ∧
    w.seenSourceIds = [] := by
  obtain ⟨pages, holds, run⟩ :=
    (@Reached.first wireHost (sampleTime 0).date).start wire_documented.digests rfl (day_le_refl _)
  have none_ : pages.map Page.file = [] := holds.symm
  obtain rfl : pages = [] := by simpa using none_
  exact ⟨_, run, rfl⟩

theorem built_recorded_sample : ∃ before after line,
    Recorded wireHost sampleSubmitted before after (sampleTime 0) (sampleId 2) line ∧
      line ∈ after.disk.lines (sampleTime 0).date := by
  obtain ⟨w, run, fresh⟩ := sample_started
  obtain ⟨body, data, rest, sent, read⟩ := sent_whole sampleSubmitted.toJson (by decide +kernel)
  have readable : Inbound wireHost sampleSubmitted.toJson := by
    refine .obj (n := 999) (by decide) (by simp [encodable_py]) ?_
    simp only [List.forall_mem_cons]
    refine ⟨fits_text _, fits_text _, fits_text _, fits_text _, fits_text _, .null, .null, .null,
      fits_text _, fits_text _, ?_, by simp⟩
    refine fits_fields (n := 998) (by decide) ?_
    simp only [sampleSubmitted, buildEvent, eventJobSubmitted, List.forall_mem_cons]
    exact ⟨fits_text _, fits_text _, fits_text _, .null, .null, .null, .null, .null, by simp⟩
  have leveled : Leveled sampleSubmitted.toDraft := by
    intro n level
    cases level
  obtain ⟨served, after, line, -, -, recorded⟩ := built_recorded wire_documented wire_iso run rfl
    (day_le_refl _) .jobSubmitted leveled (sampleId 5) (sampleTime 0) readable (by simp [fresh])
    sent read (sampleId 2)
  exact ⟨_, after, line, recorded, recorded.durable rfl⟩

theorem egress_unrecorded_sample : ∃ before served message, ∃ data : Bytes,
    handleConnection wireHost wireMessage [data] (sampleTime 0) (sampleId 2) before =
      (served, before) ∧ served.response = some (.error message) := by
  obtain ⟨w, run, -⟩ := sample_started
  obtain ⟨body, data, rest, sent, read⟩ := sent_whole sampleDenied.toJson (by decide +kernel)
  have readable : Inbound wireHost sampleDenied.toJson := by
    refine .obj (n := 999) (by decide) (by simp [encodable_py]) ?_
    simp only [List.forall_mem_cons]
    refine ⟨fits_text _, fits_text _, fits_text _, fits_text _, .null, .null, .null, .null,
      fits_text _, fits_text _, ?_, by simp⟩
    refine fits_fields (n := 998) (by decide) ?_
    simp only [sampleDenied, buildEvent, eventEgressDenied, List.forall_mem_cons]
    exact ⟨fits_text _, fits_text _, fits_text _, .int (by decide), fits_text _, fits_text _,
      by simp⟩
  obtain ⟨served, message, serves, said⟩ := (egress_unrecorded wire_documented wire_iso run).1 w _
    (sampleId 6) (sampleTime 0) body [data] rest (sampleTime 0) (sampleId 2) rfl .denied readable
    sent read
  exact ⟨_, served, message, data, serves, said⟩

end Sample

end Drnt.Audit
