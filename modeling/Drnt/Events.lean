import Drnt.Envelope

/-! The event builders of the orchestrator. Arguments that can come straight out of a
reply of another service are JSON values, whatever their annotation says. -/
namespace Drnt

open Lib

def eventSystemStartup (configHash stateHash ollamaModel ollamaModelVersion : Option String)
    (componentsLoaded : List String) (recoverySummary : Option Json) : Draft where
  eventType := "system.startup"
  jobId := none
  payload := [("component", .text "orchestrator"), ("version", .text "0.4.0"),
    ("config_hash", .textOrNull configHash), ("state_hash", .textOrNull stateHash),
    ("ollama_model", .textOrNull ollamaModel),
    ("ollama_model_version", .textOrNull ollamaModelVersion),
    ("components_loaded", .texts componentsLoaded)] ++
    (recoverySummary.map fun summary => ("recovery_summary", summary)).toList

def eventWalPromoted (capabilityId capabilityName : String) (fromLevel toLevel : Int)
    (criteriaMet : List (String × Json)) (approvedBy : String) : Draft where
  eventType := "wal.promoted"
  jobId := none
  capabilityId := capabilityId
  walLevel := toLevel
  payload := [("capability_id", .text capabilityId), ("capability_name", .text capabilityName),
    ("from_level", .int fromLevel), ("to_level", .int toLevel),
    ("criteria_met", .fields criteriaMet), ("approved_by", .text approvedBy)]

def eventSystemConfigChange (previousHash : Option String) (newHash : String)
    (changedCapabilities : List String) : Draft where
  eventType := "system.config_change"
  jobId := none
  payload := [("previous_hash", .textOrNull previousHash), ("new_hash", .text newHash),
    ("changed_capabilities", .texts changedCapabilities)]

def eventSystemModelChange (previousModel : Option String) (newModel : String)
    (affectedCapabilities : List String) : Draft where
  eventType := "system.model_change"
  jobId := none
  payload := [("previous_model", .textOrNull previousModel), ("new_model", .text newModel),
    ("affected_capabilities", .texts affectedCapabilities)]

def eventJobSubmitted (jobId : JobId) (rawInput inputModality device : String)
    (clientSource clientSourceEventId clientTimestamp intentEquivalenceHash : Option String) :
    Draft where
  eventType := "job.submitted"
  jobId := jobId
  payload := [("raw_input", .text rawInput), ("input_modality", .text inputModality),
    ("device", .text device), ("request_category", .null),
    ("client_source", .textOrNull clientSource),
    ("client_source_event_id", .textOrNull clientSourceEventId),
    ("client_timestamp", .textOrNull clientTimestamp),
    ("intent_equivalence_hash", .textOrNull intentEquivalenceHash)]

def eventSourceEventConflict (originalJobId : JobId) (clientSource clientSourceEventId
    originalIntentHash newIntentHash : String) : Draft where
  eventType := "source_event.conflict"
  jobId := originalJobId
  payload := [("source_event_replay", .bool true), ("source_event_conflict", .bool true),
    ("conflict_type", .text "intent_mismatch"), ("original_job_id", .text originalJobId.text),
    ("client_source", .text clientSource),
    ("client_source_event_id", .text clientSourceEventId),
    ("original_intent_equivalence_hash", .text originalIntentHash),
    ("new_intent_equivalence_hash", .text newIntentHash),
    ("action_required", .text "reconfirmation_required"),
    ("adr_compliance", .text "partial_until_reconfirmation_path_exists")]

def eventSourceEventDivergence (originalJobId : JobId)
    (clientSource clientSourceEventId : String) : Draft where
  eventType := "source_event.consistency_pending"
  jobId := originalJobId
  durability := "best_effort"
  payload := [("source_event_replay", .bool true), ("source_event_conflict", .bool false),
    ("consistency_pending", .bool true), ("original_job_id", .text originalJobId.text),
    ("client_source", .text clientSource),
    ("client_source_event_id", .text clientSourceEventId),
    ("reason", .text "original_job_not_yet_loadable")]

def eventJobClassified (jobId : JobId) (requestCategory : String) (confidence : PyFloat)
    (localCapable : Bool) (routingRecommendation : String) (candidateModels : List String)
    (governingCapabilityId : String) : Draft where
  eventType := "job.classified"
  jobId := jobId
  capabilityId := governingCapabilityId
  payload := [("request_category", .text requestCategory), ("confidence", .float confidence),
    ("local_capable", .bool localCapable),
    ("routing_recommendation", .text routingRecommendation),
    ("candidate_models", .texts candidateModels),
    ("governing_capability_id", .text governingCapabilityId),
    ("declared_pipeline", .arr [.fields [("capability_id", .text governingCapabilityId),
      ("dependency_mode", .text "required")]])]

def eventWalPermissionCheck (jobId : JobId) (capabilityId requestedAction : String)
    (currentLevel : Int) (requiredLevel : Option Int) (result : String) (deliveryHold : Bool)
    (holdType blockReason dependencyMode : Option String) (walLevel : Option Int) : Draft where
  eventType := "wal.permission_check"
  jobId := jobId
  capabilityId := capabilityId
  walLevel := walLevel.getD currentLevel
  payload := [("capability_id", .text capabilityId), ("job_id", .text jobId.text),
    ("requested_action", .text requestedAction), ("current_level", .int currentLevel),
    ("required_level", .intOrNull requiredLevel), ("result", .text result),
    ("delivery_hold", .bool deliveryHold), ("hold_type", .textOrNull holdType),
    ("block_reason", .textOrNull blockReason), ("dependency_mode", .textOrNull dependencyMode)]

def eventWalDemoted (capabilityId capabilityName : String) (fromLevel toLevel : Int)
    (trigger : String) (incidentRef : Option String) : Draft where
  eventType := "wal.demoted"
  jobId := none
  capabilityId := capabilityId
  walLevel := toLevel
  payload := [("capability_id", .text capabilityId), ("capability_name", .text capabilityName),
    ("from_level", .int fromLevel), ("to_level", .int toLevel), ("trigger", .text trigger),
    ("incident_ref", .textOrNull incidentRef)]

def eventJobDispatched (jobId : JobId) (targetModel routeId : String)
    (walPermissionCheckRef : Uuid7) (assembledPayloadHash : String)
    (egressConfigHash : Option String) (contextPackageId : Option Uuid7) : Draft where
  eventType := "job.dispatched"
  jobId := jobId
  payload := [("target_model", .text targetModel), ("route_id", .text routeId),
    ("context_package_id", uuidOrNull contextPackageId),
    ("wal_permission_check_ref", .text walPermissionCheckRef.text), ("retry_sequence", .int 0),
    ("same_capability_retry", .bool true),
    ("assembled_payload_hash", .text assembledPayloadHash),
    ("egress_config_hash", .textOrNull egressConfigHash)]

def eventModelResponse (jobId : JobId) (model routeId : String) (latencyMs tokenCountIn
    tokenCountOut costEstimateUsd resultId responseHash finishReason : Json) : Draft where
  eventType := "model.response"
  jobId := jobId
  payload := [("model", .text model), ("route_id", .text routeId), ("latency_ms", latencyMs),
    ("token_count_in", tokenCountIn), ("token_count_out", tokenCountOut),
    ("cost_estimate_usd", costEstimateUsd), ("result_id", resultId),
    ("response_hash", responseHash), ("finish_reason", finishReason)]

def eventJobResponseReceived (jobId : JobId) (model : String) (latencyMs tokenCountIn
    tokenCountOut costEstimateUsd resultId responseHash : Json) : Draft where
  eventType := "job.response_received"
  jobId := jobId
  payload := [("model", .text model), ("latency_ms", latencyMs),
    ("token_count_in", tokenCountIn), ("token_count_out", tokenCountOut),
    ("cost_estimate_usd", costEstimateUsd), ("result_id", resultId),
    ("response_hash", responseHash)]

def eventJobDelivered (jobId : JobId) : Draft where
  eventType := "job.delivered"
  jobId := jobId
  payload := [("delivery_target", .text "api_response"), ("delivery_method", .text "poll")]

def eventSystemNotify (notificationType title : String) (detail : List (String × Json)) :
    Draft where
  eventType := "system.notify"
  jobId := none
  source := "system"
  payload := [("notification_type", .text notificationType), ("title", .text title),
    ("detail", .fields detail)]

def eventEgressValidationFailure (jobId : JobId) (failureType detail routeId : String) :
    Draft where
  eventType := "egress.validation_failure"
  jobId := jobId
  payload := [("context_package_id", .null), ("job_id", .text jobId.text),
    ("failure_type", .text failureType), ("detail", .text detail), ("route_id", .text routeId),
    ("failing_component", .text "egress_gateway"), ("blocked", .bool true)]

def eventEgressFallbackToLocal (jobId : JobId) (blockedRouteIds : List String)
    (classifierRouting capabilityId : String) : Draft where
  eventType := "egress.fallback_to_local"
  jobId := jobId
  capabilityId := capabilityId
  payload := [("blocked_route_ids", .texts blockedRouteIds),
    ("classifier_routing", .text classifierRouting), ("capability_id", .text capabilityId),
    ("detail", .text ("Classifier routed locally; cloud route(s) disabled in egress config. " ++
      "Local dispatch proceeded. Logged for audit trail."))]

def eventModelError (jobId : JobId) (model routeId errorType errorDetail : String)
    (latencyMs : Int) : Draft where
  eventType := "model.error"
  jobId := jobId
  payload := [("model", .text model), ("route_id", .text routeId),
    ("error_type", .text errorType), ("error_detail", .text errorDetail),
    ("latency_ms", .int latencyMs), ("retry_sequence", .int 0)]

def eventJobFailed (jobId : JobId) (errorClass detail failingCapabilityId : Json) : Draft where
  eventType := "job.failed"
  jobId := jobId
  payload := [("error_class", errorClass), ("detail", detail),
    ("failing_capability_id", failingCapabilityId)]

def eventContextPackaged (contextPackageId : Uuid7) (jobId : JobId)
    (fieldsIncluded fieldsStripped : List String) (outboundTokenEstimate : Nat)
    (assembledPayloadHash contextObjectHash : String) : Draft where
  eventType := "context.packaged"
  jobId := jobId
  source := "context_packager"
  payload := [("context_package_id", .text contextPackageId.text), ("job_id", .text jobId.text),
    ("fields_included", .texts fieldsIncluded), ("fields_stripped", .texts fieldsStripped),
    ("fields_blocked", .arr []), ("memory_objects_attached", .int 0),
    ("memory_retrieval_ms", .int 0), ("outbound_token_estimate", .nat outboundTokenEstimate),
    ("assembled_payload_hash", .text assembledPayloadHash),
    ("context_object_hash", .text contextObjectHash),
    ("exclusion_summary", .fields [("local_only", .int 0), ("below_confidence", .int 0),
      ("over_budget", .int 0)])]

def eventHumanOverride (jobId : JobId) (overrideType target detail device : String) : Draft where
  eventType := "human.override"
  jobId := jobId
  source := "human"
  payload := [("job_id", .text jobId.text), ("override_type", .text overrideType),
    ("target", .text target), ("detail", .text detail), ("device", .text device)]

def eventJobRevoked (jobId : JobId) (reason : String) (overrideSourceEventId : Uuid7)
    (successorJobId : Option JobId) (memoryObjectsSuperseded : List String) : Draft where
  eventType := "job.revoked"
  jobId := jobId
  payload := [("reason", .text reason),
    ("override_source_event_id", .text overrideSourceEventId.text),
    ("successor_job_id", uuidOrNull successorJobId),
    ("memory_objects_superseded", .texts memoryObjectsSuperseded)]

def eventJobProposalReady (jobId : JobId) (proposalId : Uuid7) (resultId responseHash : Json)
    (proposedBy governingCapabilityId : String) (confidence : Option PyFloat)
    (autoAcceptAt : Option String) (holdReason : String) : Draft where
  eventType := "job.proposal_ready"
  jobId := jobId
  capabilityId := governingCapabilityId
  payload := [("proposal_id", .text proposalId.text), ("result_id", resultId),
    ("response_hash", responseHash), ("proposed_by", .text proposedBy),
    ("governing_capability_id", .text governingCapabilityId),
    ("confidence", .floatOrNull confidence), ("auto_accept_at", .textOrNull autoAcceptAt),
    ("hold_reason", .text holdReason)]

def eventJobClosedNoAction (jobId : JobId) (resultId responseHash : Json)
    (reviewDecision decisionIdempotencyKey : String) (governingCapabilityId : Option String)
    (reason : String) : Draft where
  eventType := "job.closed_no_action"
  jobId := jobId
  capabilityId := governingCapabilityId
  payload := [("result_id", resultId), ("response_hash", responseHash),
    ("review_decision", .text reviewDecision),
    ("decision_idempotency_key", .text decisionIdempotencyKey),
    ("governing_capability_id", .textOrNull governingCapabilityId), ("reason", .text reason)]

def eventHumanReviewed (jobId : JobId) (decision device : String) (reviewLatencyMs : Nat)
    (modificationSummary : Option String) (modifiedResultId : Option Uuid7)
    (modifiedResultHash : Option String) (derivedFromResultId : Json) : Draft where
  eventType := "human.reviewed"
  jobId := jobId
  source := "human"
  payload := [("job_id", .text jobId.text), ("decision", .text decision),
    ("device", .text device), ("review_latency_ms", .nat reviewLatencyMs),
    ("modification_summary", .textOrNull modificationSummary),
    ("modified_result_id", uuidOrNull modifiedResultId),
    ("modified_result_hash", .textOrNull modifiedResultHash),
    ("derived_from_result_id", derivedFromResultId)]

def eventManifestValidated (manifestId capabilityId workerType : String) (valid : Bool)
    (errorCount warningCount : Nat) (errors : List String) : Draft where
  eventType := "manifest.validated"
  jobId := none
  payload := [("manifest_id", .text manifestId), ("capability_id", .text capabilityId),
    ("worker_type", .text workerType), ("valid", .bool valid), ("error_count", .nat errorCount),
    ("warning_count", .nat warningCount)] ++
    (if !valid && !errors.isEmpty then [("errors", .texts errors)] else [])

def eventManifestRejected (manifestId capabilityId rejectionReason : String)
    (allErrors : List String) : Draft where
  eventType := "manifest.rejected"
  jobId := none
  payload := [("manifest_id", .text manifestId), ("capability_id", .text capabilityId),
    ("rejection_reason", .text rejectionReason), ("all_errors", .texts allErrors)]

def eventHubStartupValidated (hubStartPermitted : Bool) (checksPassed checksFailed : Nat)
    (criticalFailures warnings : List String) : Draft where
  eventType := "hub.startup_validated"
  jobId := none
  payload := [("hub_start_permitted", .bool hubStartPermitted),
    ("checks_passed", .nat checksPassed), ("checks_failed", .nat checksFailed),
    ("critical_failures", .texts criticalFailures), ("warnings", .texts warnings)]

def eventHubStartupBlocked (blockingChecks : List String) (message : String) : Draft where
  eventType := "hub.startup_blocked"
  jobId := none
  payload := [("blocking_checks", .texts blockingChecks), ("message", .text message)]

def eventContextStripDetail (contextPackageId : Uuid7) (jobId : JobId)
    (fieldId fieldName : String) (spanStart spanEnd : Nat)
    (originalClass action reason : String) : Draft where
  eventType := "context.strip_detail"
  jobId := jobId
  source := "context_packager"
  payload := [("context_package_id", .text contextPackageId.text), ("field_id", .text fieldId),
    ("field_name", .text fieldName),
    ("span", .fields [("start_char", .nat spanStart), ("end_char", .nat spanEnd)]),
    ("original_class", .text originalClass), ("classification_status", .text "matched"),
    ("action", .text action),
    ("method", .text (if action = "stripped" then "redact" else "generalize")),
    ("detected_by", .text "packager"), ("failing_capability_id", .null),
    ("reason", .text reason)]

def eventBlueprintCreated (blueprintId manifestId capabilityId networkMode : String)
    (mountCount capDropCount : Nat) (memoryLimit : String) : Draft where
  eventType := "sandbox.blueprint_created"
  jobId := none
  payload := [("blueprint_id", .text blueprintId), ("manifest_id", .text manifestId),
    ("capability_id", .text capabilityId), ("network_mode", .text networkMode),
    ("mount_count", .nat mountCount), ("cap_drop_count", .nat capDropCount),
    ("memory_limit", .text memoryLimit)]

def eventWorkerPrepared (workerId : String) (jobId : JobId)
    (capabilityId blueprintId manifestId : String) : Draft where
  eventType := "worker.prepared"
  jobId := jobId
  capabilityId := capabilityId
  payload := [("worker_id", .text workerId), ("job_id", .text jobId.text),
    ("capability_id", .text capabilityId), ("blueprint_id", .text blueprintId),
    ("manifest_id", .text manifestId)]

def eventWorkerTeardown (workerId : String) (jobId : JobId)
    (totalEgressRequests deniedEgressRequests : Nat) (durationSeconds : PyFloat) : Draft where
  eventType := "worker.teardown"
  jobId := jobId
  payload := [("worker_id", .text workerId), ("job_id", .text jobId.text),
    ("total_egress_requests", .nat totalEgressRequests),
    ("denied_egress_requests", .nat deniedEgressRequests),
    ("duration_seconds", .float durationSeconds)]

def eventWorkerPreparationFailed (jobId : JobId) (capabilityId error : String) : Draft where
  eventType := "job.failed"
  jobId := jobId
  capabilityId := capabilityId
  payload := [("error_class", .text "worker_preparation_failed"), ("detail", .text error),
    ("failing_capability_id", .text capabilityId)]

def eventWorkerExecutionStarted (workerId : String) (jobId : JobId)
    (capabilityId containerId image taskType : String) : Draft where
  eventType := "worker.execution_started"
  jobId := jobId
  capabilityId := capabilityId
  payload := [("worker_id", .text workerId), ("job_id", .text jobId.text),
    ("capability_id", .text capabilityId), ("container_id", .text containerId),
    ("image", .text image), ("task_type", .text taskType)]

def eventWorkerExecutionCompleted (workerId : String) (jobId : JobId)
    (capabilityId containerId : String) (exitCode : Int) (success : Bool)
    (latencyMs tokenCountIn tokenCountOut : Json) (error : Option String) : Draft where
  eventType := "worker.execution_completed"
  jobId := jobId
  capabilityId := capabilityId
  payload := [("worker_id", .text workerId), ("job_id", .text jobId.text),
    ("capability_id", .text capabilityId), ("container_id", .text containerId),
    ("exit_code", .int exitCode), ("success", .bool success), ("latency_ms", latencyMs),
    ("token_count_in", tokenCountIn), ("token_count_out", tokenCountOut)] ++
    (error.map fun e => ("error", Json.text e)).toList

def eventSystemConnectivityHubCloud (state : String) (affectedRoutes : List String)
    (queuedJobs : Nat) : Draft where
  eventType := "system.connectivity"
  jobId := none
  payload := [("link", .text "hub_cloud"), ("state", .text state),
    ("affected_routes", .texts affectedRoutes), ("queued_jobs", .nat queuedJobs)]

def eventSystemConnectivityDevice (link state : String) (queuedRequests : Nat)
    (durationMs : Option Int) (replayedRequests droppedRequests replayConflicts : Nat) :
    Draft where
  eventType := "system.connectivity"
  jobId := none
  source := "phone_app"
  payload := [("link", .text link), ("state", .text state),
    ("duration_ms", .intOrNull durationMs), ("queued_requests", .nat queuedRequests),
    ("replayed_requests", .nat replayedRequests), ("dropped_requests", .nat droppedRequests),
    ("replay_conflicts", .nat replayConflicts)]

def eventSystemHubSwitch (fromHub toHub reason : String) (pendingJobsOnOldHub : Nat)
    (suspendCommandDelivered : Bool) : Draft where
  eventType := "system.hub_switch"
  jobId := none
  source := "phone_app"
  payload := [("from_hub", .text fromHub), ("to_hub", .text toHub), ("reason", .text reason),
    ("pending_jobs_on_old_hub", .nat pendingJobsOnOldHub),
    ("suspend_command_delivered", .bool suspendCommandDelivered)]

def eventWalDemotedTemporalDecay (capabilityId : String) (fromLevel : Int)
    (windowDays outcomesInWindow minRequired : Nat) (lastOutcomeTimestamp : Option String) :
    Draft where
  eventType := "wal.demoted"
  jobId := none
  capabilityId := capabilityId
  walLevel := some (fromLevel - 1)
  payload := [("trigger", .text "temporal_decay"), ("capability_id", .text capabilityId),
    ("from_level", .int fromLevel), ("to_level", .int (fromLevel - 1)),
    ("window_days", .nat windowDays), ("outcomes_in_window", .nat outcomesInWindow),
    ("min_required", .nat minRequired),
    ("last_outcome_timestamp", .textOrNull lastOutcomeTimestamp)]

def eventJobQueued (jobId : JobId) (reason : String) (position : Nat)
    (estimatedWaitMs : Option Int) : Draft where
  eventType := "job.queued"
  jobId := jobId
  durability := "best_effort"
  payload := [("reason", .text reason), ("position", .nat position),
    ("estimated_wait_ms", .intOrNull estimatedWaitMs)]

def eventHubStateChange (fromState toState reason hostname : String) : Draft where
  eventType := "system.hub_state_change"
  jobId := none
  payload := [("from_state", .text fromState), ("to_state", .text toState),
    ("reason", .text reason), ("hostname", .text hostname)]

def eventEgressAuthorized (blueprintId capabilityId targetHost : String) (targetPort : Int)
    (method matchedRule : String) : Draft where
  eventType := "egress.authorized"
  jobId := none
  source := "egress_proxy"
  payload := [("blueprint_id", .text blueprintId), ("capability_id", .text capabilityId),
    ("target_host", .text targetHost), ("target_port", .int targetPort),
    ("method", .text method), ("matched_rule", .text matchedRule)]

def eventEgressDenied (blueprintId capabilityId targetHost : String) (targetPort : Int)
    (method denialReason : String) : Draft where
  eventType := "egress.denied"
  jobId := none
  source := "egress_proxy"
  payload := [("blueprint_id", .text blueprintId), ("capability_id", .text capabilityId),
    ("target_host", .text targetHost), ("target_port", .int targetPort),
    ("method", .text method), ("denial_reason", .text denialReason)]

end Drnt
