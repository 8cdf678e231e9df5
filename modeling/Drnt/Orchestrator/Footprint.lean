import Drnt.Orchestrator.Trial

/-! Which parts of the process each coroutine writes. -/
namespace Drnt.Orchestrator

open Lib Lib.Coop

section Parts

/-- The parts of the state that some results are about: the jobs with their rows, the results
they hold, the worker contexts, the result files. -/
inductive Part
  | jobs | results | contexts | files
  deriving DecidableEq

/-- The rows of the jobs table, if there is a database. -/
def World.rows (w : World) : Option (Dict JobId Job) := w.db.map (·.jobs)

/-- The job in memory or in its row. -/
def World.Has (w : World) (j : JobId) (job : Job) : Prop :=
  w.job? j = some job ∨ w.row? j = some job

/-- The store of submit keys in memory is that of the database. -/
def World.Synced (w : World) : Prop := ∀ db, w.db = some db → db.records = w.records

def Job.SameResult (job job' : Job) : Prop :=
  job'.result = job.result ∧ job'.resultId = job.resultId ∧ job'.responseHash = job.responseHash

/-- The write changes at most these parts. -/
structure Alters (ps : List Part) (w w' : World) : Prop where
  jobs : .jobs ∉ ps → w'.jobs = w.jobs ∧ w'.rows = w.rows
  results : .results ∉ ps → ∀ j job', w'.Has j job' →
    job'.result = .null ∨ ∃ job, w.Has j job ∧ job.SameResult job'
  contexts : .contexts ∉ ps →
    w'.workerContexts = w.workerContexts ∧ w'.activeContexts = w.activeContexts
  files : .files ∉ ps → w'.artifacts = w.artifacts
  synced : w.Synced → w'.Synced

variable {ps qs : List Part} {w w' : World}

theorem Alters.mono (h : Alters ps w w') (more : ∀ p ∈ ps, p ∈ qs) : Alters qs w w' where
  jobs out := h.jobs fun mem => out (more _ mem)
  results out := h.results fun mem => out (more _ mem)
  contexts out := h.contexts fun mem => out (more _ mem)
  files out := h.files fun mem => out (more _ mem)
  synced := h.synced

/-- A write that leaves the jobs and the database alone. -/
theorem alters_aside (jobs : w'.jobs = w.jobs) (db : w'.db = w.db) (records : w'.records = w.records)
    (contexts : .contexts ∉ ps →
      w'.workerContexts = w.workerContexts ∧ w'.activeContexts = w.activeContexts)
    (files : .files ∉ ps → w'.artifacts = w.artifacts) : Alters ps w w' where
  jobs _ := ⟨jobs, by simp only [World.rows, db]⟩
  results _ j job' has := by
    refine .inr ⟨job', ?_, rfl, rfl, rfl⟩
    simpa only [World.Has, World.job?, World.row?, jobs, db] using has
  contexts := contexts
  files := files
  synced sync := by simpa only [World.Synced, db, records] using sync

/-- A write to tables of the database that the parts are not about. -/
theorem alters_tables (jobs : w'.jobs = w.jobs) (rows : w'.rows = w.rows)
    (contexts : w'.workerContexts = w.workerContexts ∧ w'.activeContexts = w.activeContexts)
    (files : w'.artifacts = w.artifacts) (synced : w.Synced → w'.Synced) : Alters ps w w' where
  jobs _ := ⟨jobs, rows⟩
  results _ j job' has := by
    refine .inr ⟨job', ?_, rfl, rfl, rfl⟩
    have row (w : World) : w.row? j = w.rows.bind (·.get? j) := by
      simp only [World.row?, World.rows, Option.bind_map]
      rfl
    simpa only [World.Has, World.job?, row, jobs, rows] using has
  contexts _ := contexts
  files _ := files
  synced := synced

variable {j : JobId} {job : Job}

theorem row_eq (w : World) (j : JobId) : w.row? j = w.rows.bind (·.get? j) := by
  simp only [World.row?, World.rows, Option.bind_map]
  rfl

theorem rows_persistJob (w : World) (j : JobId) : (w.persistJob j).rows =
    match w.rows, w.job? j with
    | some rows, some job => some ((rows.filter fun i row => !decide (i = j ∨
        (row.idempotencyKey = job.idempotencyKey ∧ job.idempotencyKey ≠ none))).set j job)
    | rows, _ => rows := by
  simp only [World.rows, World.persistJob, World.persistedDb, World.job?]
  cases w.db <;> cases w.jobs.get? j <;> rfl

/-- Writing out a job changes no row but those that make way. -/
theorem row_of_persistJob {i : JobId} {row : Job} (h : (w.persistJob j).row? i = some row) :
    w.row? i = some row ∨ i = j ∧ w.job? j = some row := by
  rw [row_eq, rows_persistJob] at h
  rw [row_eq]
  cases hr : w.rows with
  | none => simp [hr] at h
  | some rows =>
    cases hj : w.job? j with
    | none =>
      rw [hr, hj] at h
      exact .inl h
    | some job =>
      simp only [hr, hj, Option.bind_some, Dict.get?_set, Dict.get?_filter] at h
      by_cases same : i = j
      · rw [if_pos same] at h
        exact .inr ⟨same, h⟩
      · rw [if_neg same] at h
        exact .inl (Option.filter_eq_some_iff.mp h).1

theorem synced_persistJob (sync : w.Synced) : (w.persistJob j).Synced := by
  intro db hdb
  simp only [World.persistJob, World.persistedDb] at hdb
  split at hdb
  · rename_i db₀ _ h₀ _
    cases hdb
    exact sync db₀ h₀
  · exact sync db hdb

theorem alters_addJob (new : job.result = .null) : Alters [.jobs] w (w.addJob j job) where
  jobs out := absurd (List.mem_singleton_self _) out
  results _ i job' has := by
    rcases has with here | row
    · simp only [World.job?, World.addJob, Dict.get?_set] at here
      split at here
      · cases here
        exact .inl new
      · exact .inr ⟨job', .inl here, rfl, rfl, rfl⟩
    · exact .inr ⟨job', .inr row, rfl, rfl, rfl⟩
  contexts _ := ⟨rfl, rfl⟩
  files _ := rfl
  synced sync := sync

theorem alters_updateJob (f : Job → Job) : Alters [.jobs, .results] w (w.updateJob j f) where
  jobs out := absurd (by simp) out
  results out := absurd (by simp) out
  contexts _ := ⟨rfl, rfl⟩
  files _ := rfl
  synced sync := sync

theorem alters_updateJob_same {f : Job → Job} (same : ∀ job : Job, job.SameResult (f job)) :
    Alters [.jobs] w (w.updateJob j f) where
  jobs out := absurd (List.mem_singleton_self _) out
  results _ i job' has := by
    rcases has with here | row
    · simp only [World.job?, World.updateJob, Dict.get?_modify] at here
      split at here
      · subst i
        obtain ⟨job, found, rfl⟩ := Option.map_eq_some_iff.mp here
        exact .inr ⟨job, .inl found, same job⟩
      · exact .inr ⟨job', .inl here, rfl, rfl, rfl⟩
    · exact .inr ⟨job', .inr row, rfl, rfl, rfl⟩
  contexts _ := ⟨rfl, rfl⟩
  files _ := rfl
  synced sync := sync

theorem alters_persistJob : Alters [.jobs] w (w.persistJob j) where
  jobs out := absurd (List.mem_singleton_self _) out
  results _ i job' has := by
    refine .inr ⟨job', ?_, rfl, rfl, rfl⟩
    rcases has with here | row
    · exact .inl here
    · rcases row_of_persistJob row with old | ⟨rfl, here⟩
      · exact .inr old
      · exact .inl here
  contexts _ := ⟨rfl, rfl⟩
  files _ := rfl
  synced := synced_persistJob

end Parts

section Touches

/-- Every write is bounded by the parts; nothing else is asked of the coroutine. -/
def footing (ps : List Part) : Discipline sig where
  Tok := Unit
  move _ w _ w' := Alters ps w w'
  parks _ := True
  grows _ _ := True
  admits _ _ _ := True
  grows_refl _ := trivial
  grows_trans _ _ := trivial
  move_grows _ := trivial

/-- The coroutine writes at most these parts. -/
def Touches {α : Type} (ps : List Part) (x : Task α) : Prop :=
  Keeps (footing ps) (fun _ => True) () x

variable {α β : Type} {ps qs : List Part}

theorem touches_ret (a : α) : Touches ps (Co.ret a : Task α) := keeps_ret a

theorem touches_raise (e : Exc) : Touches ps (Co.raise e : Task α) := keeps_raise fun _ => trivial

theorem touches_world : Touches ps world := keeps_read

theorem touches_perform (q : Req) : Touches ps (perform q) := keeps_perform fun _ => trivial

theorem touches_update {f : World → World} (h : ∀ w, Alters ps w (f w)) : Touches ps (update f) :=
  keeps_modify h

theorem touches_bind {x : Task α} {f : α → Task β} (hx : Touches ps x)
    (hf : ∀ a, Touches ps (f a)) : Touches ps (x.bind f) := keeps_bind hx hf

theorem touches_tryCatch {x : Task α} {h : Exc → Task α} (hx : Touches ps x)
    (hh : ∀ e, Touches ps (h e)) : Touches ps (x.tryCatch h) := keeps_tryCatch hx hh

theorem touches_each {bs : List β} {f : β → Task Unit} (hf : ∀ b, Touches ps (f b)) :
    Touches ps (Co.each bs f) := keeps_each hf

/-- Where the parts are not minded, a coroutine keeps its token in any other discipline. -/
theorem Touches.keeps {D : Discipline sig} {x : Task α} (h : Touches ps x) {τ : D.Tok}
    (move : ∀ {w w'}, Alters ps w w' → D.move τ w τ w') (parks : D.parks τ) :
    Keeps D (fun _ => True) τ x := by
  intro s
  have follows := h s
  clear h
  induction x generalizing s with
  | ret a => exact ⟨rfl, fun _ _ => trivial⟩
  | raise e => exact ⟨rfl, fun _ _ => trivial⟩
  | get k ih => exact ih s s follows
  | set s' k ih =>
    obtain ⟨_, alters, rest⟩ := follows
    exact ⟨τ, move alters, ih s' rest⟩
  | call q k ih =>
    refine ⟨fun _ => parks, fun s' still a _ => ih a s' (follows.2 s' ?_ a trivial)⟩
    split
    · trivial
    · rename_i quick
      rw [if_neg quick] at still
      exact still

section Writes

variable {j : JobId}

theorem touches_addJob (on : .jobs ∈ ps) {job : Job} (new : job.result = .null) :
    Touches ps (update (·.addJob j job)) :=
  touches_update fun _ => (alters_addJob new).mono (by simp [on])

/-- An update that keeps the result. -/
theorem touches_updateJob (on : .jobs ∈ ps) {f : Job → Job} (same : ∀ job : Job, job.SameResult (f job)) :
    Touches ps (updateJob j f) :=
  touches_update fun _ => (alters_updateJob_same same).mono (by simp [on])

theorem touches_updateResult (on : .jobs ∈ ps) (too : .results ∈ ps) (f : Job → Job) :
    Touches ps (updateJob j f) :=
  touches_update fun _ => (alters_updateJob f).mono (by simp [on, too])

theorem touches_persistJob (on : .jobs ∈ ps) : Touches ps (persistJob j) :=
  touches_update fun _ => alters_persistJob.mono (by simp [on])

/-- A write that leaves the jobs, the database, the contexts and the files alone. -/
theorem touches_aside {f : World → World} (h : ∀ w, (f w).jobs = w.jobs ∧ (f w).db = w.db ∧
    (f w).records = w.records ∧ (f w).workerContexts = w.workerContexts ∧
    (f w).activeContexts = w.activeContexts ∧ (f w).artifacts = w.artifacts) :
    Touches ps (update f) := touches_update fun w => by
  obtain ⟨jobs, db, records, contexts, active, files⟩ := h w
  exact alters_aside jobs db records (fun _ => ⟨contexts, active⟩) fun _ => files

theorem touches_record (o : Obs) : Touches ps (update (·.record o)) :=
  touches_aside fun _ => ⟨rfl, rfl, rfl, rfl, rfl, rfl⟩

end Writes

section Tasks

variable {j : JobId}

theorem touches_orRaise (r : Except Exc α) : Touches ps (orRaise r) := by
  cases r with
  | ok a => exact touches_ret a
  | error e => exact touches_raise e

theorem touches_now : Touches ps now := touches_perform _

theorem touches_uuid7 : Touches ps uuid7 := by
  refine touches_bind (touches_perform .uuid7) fun u => ?_
  exact touches_bind (touches_aside fun _ => ⟨rfl, rfl, rfl, rfl, rfl, rfl⟩) fun _ => touches_ret u

theorem touches_build (draft : Draft) : Touches ps (build draft) := by
  refine touches_bind touches_uuid7 fun u => ?_
  exact touches_bind touches_now fun t => touches_ret _

theorem touches_emitDurable (e : Event) : Touches ps (emitDurable e) := by
  refine touches_bind (touches_record _) fun _ => ?_
  refine touches_bind (touches_perform (.emitDurable e)) fun a => ?_
  rcases a with x | (_ | _)
  · exact touches_bind (touches_record _) fun _ => touches_raise x
  · exact touches_bind (touches_record _) fun _ => touches_ret false
  · exact touches_bind (touches_record _) fun _ => touches_ret true

theorem touches_emitBestEffort (e : Event) : Touches ps (emitBestEffort e) := by
  refine touches_bind (touches_record _) fun _ => ?_
  exact touches_bind (touches_perform _) fun a => touches_orRaise a

theorem touches_emit (draft : Draft) : Touches ps (emit draft) := by
  refine touches_bind (touches_build draft) fun e => ?_
  exact touches_bind (touches_emitDurable e) fun _ => touches_ret e

theorem touches_deref : Touches ps (deref j) := by
  refine touches_bind touches_world fun w => ?_
  split
  · exact touches_ret _
  · exact touches_raise _

theorem touches_putNowait : Touches ps (putNowait j) := by
  refine touches_bind touches_world fun w => ?_
  split
  · exact touches_bind (touches_aside fun _ => ⟨rfl, rfl, rfl, rfl, rfl, rfl⟩) fun _ =>
      touches_ret true
  · exact touches_ret false

theorem touches_writeResult (on : .files ∈ ps) (resultId content : Json) :
    Touches ps (writeResult resultId content) := by
  unfold writeResult
  split
  · split
    · refine touches_bind (touches_perform _) fun a => ?_
      cases a with
      | ok =>
        exact touches_update fun w =>
          alters_aside rfl rfl rfl (fun _ => ⟨rfl, rfl⟩) fun out => absurd on out
      | error e => exact touches_bind (touches_record _) fun _ => touches_raise e
    · exact touches_raise _
  · exact touches_raise _

theorem touches_failJob (on : .jobs ∈ ps) (error : List Json) : Touches ps (failJob j error) :=
  touches_bind (touches_updateJob on fun _ => ⟨rfl, rfl, rfl⟩) fun _ => touches_persistJob on

end Tasks

section Pipeline

variable {j : JobId} {cfg : Settings}

theorem touches_failPreparation (capabilityId error : String) :
    Touches ps (failPreparation j capabilityId error : Task α) :=
  touches_bind (touches_emit _) fun _ => touches_raise _

theorem touches_prepareWorker (on : .contexts ∈ ps) : Touches ps (prepareWorker j) := by
  refine touches_bind touches_deref fun job => ?_
  refine touches_bind touches_world fun w => ?_
  split
  · exact touches_failPreparation _ _
  refine touches_bind (touches_perform _) fun manifest => ?_
  refine touches_bind (touches_emit _) fun _ => ?_
  split
  · exact touches_failPreparation _ _
  refine touches_bind (touches_perform _) fun blueprint => ?_
  split
  · exact touches_failPreparation _ _
  refine touches_bind (touches_emit _) fun _ => ?_
  refine touches_bind (touches_perform _) fun workerId => ?_
  refine touches_bind (touches_update fun w => ?_) fun _ => ?_
  · exact alters_aside rfl rfl rfl (fun out => absurd on out) fun _ => rfl
  · exact touches_bind (touches_emit _) fun _ => touches_ret _

theorem touches_teardownWorker (on : .contexts ∈ ps) (ctx : WorkerContext) :
    Touches ps (teardownWorker ctx) := by
  refine touches_bind (touches_perform _) fun report => ?_
  refine touches_bind (touches_emit _) fun _ => ?_
  exact touches_update fun w =>
    alters_aside rfl rfl rfl (fun out => absurd on out) fun _ => rfl

theorem touches_executeInWorker (ctx : WorkerContext) (d : Event) (prompt model : String) :
    Touches ps (executeInWorker ctx d prompt model) := by
  refine touches_bind (touches_emit _) fun _ => ?_
  refine touches_tryCatch ?_ fun e => ?_
  · refine touches_bind (touches_record _) fun _ => ?_
    refine touches_bind (touches_perform _) fun a => ?_
    refine touches_bind (touches_orRaise a) fun result => ?_
    refine touches_bind (touches_emit _) fun _ => ?_
    split
    · exact touches_ret _
    · exact touches_raise _
  · split
    · exact touches_raise _
    · exact touches_raise _
    · exact touches_bind (touches_emit _) fun _ => touches_raise _

theorem touches_package (transform : String → String × List Span) (rawInput : String) :
    Touches ps (package cfg transform j rawInput) := by
  refine touches_bind touches_uuid7 fun _ => ?_
  refine touches_bind touches_uuid7 fun _ => ?_
  refine touches_bind (touches_perform _) fun a => ?_
  refine touches_bind (touches_orRaise a) fun _ => ?_
  refine touches_bind (touches_emit _) fun _ => ?_
  refine touches_bind (touches_each fun span => ?_) fun _ => touches_ret _
  exact touches_bind (touches_emit _) fun _ => touches_ret ()

theorem touches_checkPermission (capabilityId action : String) (ctx : JobContext)
    (mode : Option String) : Touches ps (checkPermission capabilityId action ctx mode) := by
  refine touches_bind touches_world fun w => ?_
  refine touches_bind (touches_orRaise _) fun result => ?_
  exact touches_bind (touches_emit _) fun e => touches_ret _

theorem touches_classifyJob (on : .jobs ∈ ps) (rawInput : String) :
    Touches ps (classifyJob j rawInput) := by
  refine touches_bind (touches_perform _) fun a => ?_
  refine touches_bind (touches_orRaise a) fun c => ?_
  refine touches_bind (touches_emit _) fun _ => ?_
  refine touches_bind touches_now fun _ => ?_
  exact touches_bind (touches_updateJob on fun _ => ⟨rfl, rfl, rfl⟩) fun _ => touches_ret _

theorem touches_classifyStage (on : .jobs ∈ ps) (job : Job) : Touches ps (classifyStage j job) := by
  have settled (route : Route) : Touches ps (do
      updateJob j fun job => { job with walLevel := some 0 }
      persistJob j
      return route) :=
    touches_bind (touches_updateJob on fun _ => ⟨rfl, rfl, rfl⟩) fun _ =>
      touches_bind (touches_persistJob on) fun _ => touches_ret route
  unfold classifyStage
  split
  · exact settled _
  · exact touches_bind (touches_classifyJob on _) settled

theorem touches_circuitStage (on : .jobs ∈ ps) (route : Route) :
    Touches ps (circuitStage cfg j route) := by
  refine touches_bind touches_world fun w => ?_
  split
  · refine touches_bind (touches_emit _) fun _ => ?_
    refine touches_bind (touches_emit _) fun _ => ?_
    exact touches_bind (touches_failJob on _) fun _ => touches_ret none
  · exact touches_ret _

theorem touches_permissionStage (on : .jobs ∈ ps) (route : Route) :
    Touches ps (permissionStage cfg j route) := by
  unfold permissionStage
  split
  · refine touches_bind (touches_checkPermission _ _ _ _) fun result => ?_
    split
    · refine touches_bind (touches_emit _) fun _ => ?_
      exact touches_bind (touches_failJob on _) fun _ => touches_ret none
    · exact touches_ret _
  · exact touches_bind (touches_emit _) fun e => touches_ret _

theorem touches_prepareStage (on : .jobs ∈ ps) (too : .contexts ∈ ps) :
    Touches ps (prepareStage cfg j) := by
  unfold prepareStage
  split
  · exact touches_ret _
  · refine touches_tryCatch ?_ fun _ => ?_
    · refine touches_bind (touches_prepareWorker too) fun ctx => ?_
      refine touches_bind (touches_update fun w => ?_) fun _ => touches_ret _
      exact alters_aside rfl rfl rfl (fun out => absurd too out) fun _ => rfl
    · exact touches_bind (touches_failJob on _) fun _ => touches_ret none

theorem touches_fallbackStage (route : Route) : Touches ps (fallbackStage cfg j route) := by
  unfold fallbackStage
  split
  · dsimp only
    split
    · exact touches_bind (touches_emit _) fun _ => touches_ret ()
    · exact touches_ret ()
  · exact touches_ret ()

theorem touches_packageStage (route : Route) : Touches ps (packageStage cfg j route) := by
  refine touches_bind touches_deref fun job => ?_
  split
  · split
    · refine touches_bind (touches_orRaise _) fun _ => ?_
      exact touches_bind (touches_package _ _) fun p => touches_ret _
    · exact touches_raise _
  · exact touches_ret _

theorem touches_dispatchStage (on : .jobs ∈ ps) (route : Route) (permit : Permit)
    (prompt : Prompt) : Touches ps (dispatchStage j route permit prompt) := by
  refine touches_bind (touches_orRaise _) fun model => ?_
  refine touches_bind (touches_build _) fun e => ?_
  refine touches_bind (touches_record _) fun _ => ?_
  refine touches_bind (touches_emitDurable e) fun _ => ?_
  refine touches_bind touches_now fun _ => ?_
  refine touches_bind (touches_updateJob on fun _ => ⟨rfl, rfl, rfl⟩) fun _ => ?_
  exact touches_bind (touches_persistJob on) fun _ => touches_ret _

theorem touches_localResponse (text latencyMs tokenIn tokenOut : Json) :
    Touches ps (localResponse cfg text latencyMs tokenIn tokenOut) := by
  refine touches_bind touches_uuid7 fun u => ?_
  exact touches_bind (touches_orRaise _) fun _ => touches_ret _

theorem touches_teardownFailed (on : .contexts ∈ ps) (ctx : Option WorkerContext) :
    Touches ps (teardownFailed j ctx) := by
  cases ctx with
  | none => exact touches_ret ()
  | some ctx =>
    refine touches_bind (touches_teardownWorker on ctx) fun _ => touches_update fun w => ?_
    exact alters_aside rfl rfl rfl (fun out => absurd on out) fun _ => rfl

theorem touches_responseStage (on : .jobs ∈ ps) (too : .contexts ∈ ps) (route : Route)
    (permit : Permit) (prompt : Prompt) (d : Dispatch) (ctx : Option WorkerContext) :
    Touches ps (responseStage cfg j route permit prompt d ctx) := by
  have generated : Touches ps (generateResponse cfg d prompt.text) := by
    refine touches_bind (touches_record _) fun _ => ?_
    refine touches_bind (touches_perform _) fun a => ?_
    refine touches_bind (touches_orRaise a) fun r => ?_
    exact touches_bind (touches_localResponse _ _ _ _) fun _ => touches_ret _
  have worked (ctx : WorkerContext) : Touches ps (workerResponse cfg j d ctx prompt.text) := by
    refine touches_tryCatch ?_ fun e => ?_
    · refine touches_bind (touches_executeInWorker _ _ _ _) fun r => ?_
      exact touches_bind (touches_localResponse _ _ _ _) fun _ => touches_ret _
    · refine touches_bind (touches_emit _) fun _ => ?_
      refine touches_bind (touches_failJob on _) fun _ => ?_
      exact touches_bind (touches_teardownFailed too _) fun _ => touches_ret none
  unfold responseStage
  split
  · split
    · exact worked _
    · exact generated
  · refine touches_bind (touches_record _) fun _ => ?_
    refine touches_bind (touches_perform _) fun a => ?_
    refine touches_bind (touches_orRaise a) fun reply => ?_
    refine touches_bind (touches_orRaise _) fun fields => ?_
    dsimp only
    split
    · refine touches_bind (touches_emit _) fun _ => ?_
      refine touches_bind (touches_updateJob on fun _ => ⟨rfl, rfl, rfl⟩) fun _ => ?_
      refine touches_bind (touches_persistJob on) fun _ => ?_
      exact touches_bind (touches_teardownFailed too _) fun _ => touches_ret none
    · exact touches_bind touches_uuid7 fun _ => touches_ret _

theorem touches_recordStage (on : .jobs ∈ ps) (too : .results ∈ ps) (files : .files ∈ ps)
    (route : Route) (model : String) (r : Response) : Touches ps (recordStage j route model r) := by
  refine touches_bind (touches_emit _) fun _ => ?_
  refine touches_bind (touches_emit _) fun _ => ?_
  refine touches_bind touches_now fun _ => ?_
  refine touches_bind (touches_updateResult on too _) fun _ => ?_
  exact touches_bind (touches_persistJob on) fun _ => touches_writeResult files _ _

theorem touches_proposeStage (on : .jobs ∈ ps) (route : Route) (model : String) (r : Response)
    (reason : String) : Touches ps (proposeStage j route model r reason) := by
  have settled (proposalId : Uuid7) : Touches ps (do
      updateJob j fun job => { job with proposalId := some proposalId, status := .proposalReady }
      persistJob j
      let confidence := (← deref j).confidence
      let _ ← emit (eventJobProposalReady j proposalId r.resultId r.responseHash model
        route.capabilityId confidence none reason)) := by
    refine touches_bind (touches_updateJob on fun _ => ⟨rfl, rfl, rfl⟩) fun _ => ?_
    refine touches_bind (touches_persistJob on) fun _ => ?_
    refine touches_bind touches_deref fun _ => ?_
    exact touches_bind (touches_emit _) fun _ => touches_ret ()
  refine touches_bind touches_deref fun job => ?_
  split
  · exact settled _
  · exact touches_bind touches_uuid7 settled

theorem touches_deliverStage (on : .jobs ∈ ps) : Touches ps (deliverStage j) := by
  refine touches_bind (touches_emit _) fun _ => ?_
  refine touches_bind touches_now fun _ => ?_
  refine touches_bind (touches_updateJob on fun _ => ⟨rfl, rfl, rfl⟩) fun _ => ?_
  exact touches_persistJob on

theorem touches_teardownStage (on : .contexts ∈ ps) (ctx : Option WorkerContext) :
    Touches ps (teardownStage cfg j ctx) := by
  unfold teardownStage
  split
  · exact touches_teardownFailed on _
  · exact touches_ret ()

theorem touches_closeStage (on : .jobs ∈ ps) (too : .contexts ∈ ps) (route : Route)
    (permit : Permit) (model : String) (r : Response) (ctx : Option WorkerContext) :
    Touches ps (closeStage cfg j route permit model r ctx) := by
  unfold closeStage
  split
  · exact touches_bind (touches_proposeStage on _ _ _ _) fun _ => touches_teardownStage too ctx
  · exact touches_bind (touches_deliverStage on) fun _ => touches_teardownStage too ctx

/-- The teardown after a run that has failed. -/
theorem touches_abandon (on : .contexts ∈ ps) : Touches ps (do
    let context := (← world).workerContexts.get? j
    update (·.popWorkerContext j)
    match context, cfg.workerLifecycle with
    | some ctx, some _ => (teardownWorker ctx).tryCatch fun _ => pure ()
    | _, _ => pure ()) := by
  refine touches_bind touches_world fun w => ?_
  refine touches_bind (touches_update fun w => ?_) fun _ => ?_
  · exact alters_aside rfl rfl rfl (fun out => absurd on out) fun _ => rfl
  split
  · exact touches_tryCatch (touches_teardownWorker on _) fun _ => touches_ret ()
  · exact touches_ret ()

theorem touches_worker (all : ∀ p, p ∈ ps) : Touches ps (workerIteration cfg j) := by
  have pipeline : Touches ps (runPipeline cfg j) := by
    refine touches_bind touches_world fun w => ?_
    split
    · exact touches_ret ()
    refine touches_bind (touches_classifyStage (all _) _) fun route => ?_
    refine touches_bind (touches_circuitStage (all _) _) fun passed => ?_
    split
    · exact touches_ret ()
    refine touches_bind (touches_permissionStage (all _) _) fun permit => ?_
    split
    · exact touches_ret ()
    refine touches_bind (touches_prepareStage (all _) (all _)) fun prepared => ?_
    split
    · exact touches_ret ()
    refine touches_bind (touches_fallbackStage _) fun _ => ?_
    refine touches_bind (touches_packageStage _) fun prompt => ?_
    refine touches_bind (touches_dispatchStage (all _) _ _ _) fun d => ?_
    refine touches_bind (touches_responseStage (all _) (all _) _ _ _ _ _) fun response => ?_
    split
    · exact touches_ret ()
    refine touches_bind (touches_recordStage (all _) (all _) (all _) _ _ _) fun _ => ?_
    exact touches_closeStage (all _) (all _) _ _ _ _ _
  have failed : Touches ps (pipelineFailed cfg j) := by
    refine touches_bind touches_world fun w => ?_
    split
    · split
      · exact touches_bind (touches_failJob (all _) _) fun _ => touches_abandon (all _)
      · exact touches_abandon (all _)
    · exact touches_abandon (all _)
  refine touches_bind (touches_aside fun _ => ⟨rfl, rfl, rfl, rfl, rfl, rfl⟩) fun _ => ?_
  refine touches_bind (touches_tryCatch ?_ fun _ => failed) fun _ => ?_
  · refine touches_bind touches_world fun w => ?_
    split
    · exact touches_bind (touches_perform _) fun _ => pipeline
    · exact pipeline
  · exact touches_aside fun _ => ⟨rfl, rfl, rfl, rfl, rfl, rfl⟩

end Pipeline

section Decisions

variable {j : JobId} {cfg : Settings}

theorem touches_reserveOverride (on : .jobs ∈ ps) (type : String) :
    Touches ps (reserveOverride j type) :=
  touches_bind (touches_updateJob on fun _ => ⟨rfl, rfl, rfl⟩) fun _ => touches_persistJob on

theorem touches_spawnSuccessor (on : .jobs ∈ ps) (target : String) :
    Touches ps (spawnSuccessor j target) := by
  refine touches_bind touches_uuid7 fun i => ?_
  refine touches_bind touches_now fun _ => ?_
  split
  · exact touches_raise _
  refine touches_bind touches_deref fun job => ?_
  refine touches_bind (touches_addJob on rfl) fun _ => ?_
  refine touches_bind (touches_persistJob on) fun _ => ?_
  refine touches_bind (touches_emit _) fun _ => ?_
  refine touches_bind touches_putNowait fun room => ?_
  split
  · refine touches_bind (touches_updateJob on fun _ => ⟨rfl, rfl, rfl⟩) fun _ => ?_
    exact touches_bind (touches_persistJob on) fun _ => touches_ret i
  · exact touches_ret i

theorem touches_failOverridden (on : .jobs ∈ ps) (type errorClass detail : String) :
    Touches ps (failOverridden j type errorClass detail) := by
  refine touches_bind touches_deref fun job => ?_
  refine touches_bind (touches_emit _) fun _ => ?_
  exact touches_updateJob on fun _ => ⟨rfl, rfl, rfl⟩

theorem touches_revokeOverridden (on : .jobs ∈ ps) (type reason : String) (id : Uuid7)
    (successor : Option JobId) : Touches ps (revokeOverridden j type reason id successor) := by
  refine touches_bind (touches_emit _) fun _ => ?_
  refine touches_bind touches_now fun _ => ?_
  exact touches_updateJob on fun _ => ⟨rfl, rfl, rfl⟩

theorem touches_modifyResult (on : .jobs ∈ ps) (too : .results ∈ ps) (files : .files ∈ ps)
    (r : OverrideRequest) (modified : String) (delivered : Bool) :
    Touches ps (modifyResult cfg j r modified delivered) := by
  refine touches_bind (touches_reserveOverride on _) fun _ => ?_
  refine touches_bind (touches_emit _) fun _ => ?_
  refine touches_bind touches_uuid7 fun _ => ?_
  refine touches_bind (touches_writeResult files _ _) fun _ => ?_
  refine touches_bind touches_deref fun _ => ?_
  refine touches_bind (touches_emit _) fun _ => ?_
  refine touches_bind (touches_updateResult on too _) fun _ => ?_
  split
  · refine touches_bind (touches_emit _) fun _ => ?_
    refine touches_bind touches_now fun _ => ?_
    exact touches_bind (touches_updateJob on fun _ => ⟨rfl, rfl, rfl⟩) fun _ => touches_ret _
  · exact touches_ret _

theorem touches_overrideCancel (on : .jobs ∈ ps) (r : OverrideRequest) (pre : Bool) :
    Touches ps (overrideCancel j r pre) := by
  refine touches_bind (touches_emit _) fun e => ?_
  split
  · exact touches_bind (touches_failOverridden on _ _ _) fun _ => touches_ret _
  · exact touches_bind (touches_revokeOverridden on _ _ _ _) fun _ => touches_ret _

theorem touches_overrideRedirect (on : .jobs ∈ ps) (r : OverrideRequest) (pre : Bool) :
    Touches ps (overrideRedirect j r pre) := by
  refine touches_bind (touches_emit _) fun e => ?_
  split
  · refine touches_bind (touches_failOverridden on _ _ _) fun _ => ?_
    exact touches_bind (touches_spawnSuccessor on _) fun _ => touches_ret _
  · refine touches_bind (touches_spawnSuccessor on _) fun _ => ?_
    exact touches_bind (touches_revokeOverridden on _ _ _ _) fun _ => touches_ret _

theorem touches_overrideEscalate (on : .jobs ∈ ps) (r : OverrideRequest) :
    Touches ps (overrideEscalate j r) := by
  refine touches_bind (touches_emit _) fun e => ?_
  refine touches_bind (touches_spawnSuccessor on _) fun _ => ?_
  exact touches_bind (touches_revokeOverridden on _ _ _ _) fun _ => touches_ret _

theorem touches_overrideBranch (on : .jobs ∈ ps) (too : .results ∈ ps) (files : .files ∈ ps)
    (r : OverrideRequest) (status : JobStatus) : Touches ps (overrideBranch cfg j r status) := by
  unfold overrideBranch
  split
  · exact touches_overrideCancel on r _
  split
  · exact touches_overrideRedirect on r _
  split
  · unfold overrideModify
    split
    · exact touches_ret _
    · exact touches_ret _
    · split
      · exact touches_modifyResult on too files _ _ _
      · exact touches_ret _
  split
  · exact touches_overrideEscalate on r
  · exact touches_ret _

theorem touches_demotion (type : String) : Touches ps (do
    if type ∈ conditionalDemotionTypes then
      let job ← deref j
      let sentinel ← orRaise (isSentinelFailure job.lastFailingCapabilityId)
      if !sentinel then
        demoteForOverride cfg job.governingCapabilityId j type) := by
  split
  · refine touches_bind touches_deref fun job => ?_
    refine touches_bind (touches_orRaise _) fun sentinel => ?_
    split
    · unfold demoteForOverride
      split
      · exact touches_bind (touches_emit _) fun _ => touches_ret ()
      · exact touches_ret ()
    · exact touches_ret ()
  · exact touches_ret ()

/-- What follows once an override has been written out. -/
theorem touches_release (too : .contexts ∈ ps) (type : String) : Touches ps (do
    let context := (← world).workerContexts.get? j
    update (·.popWorkerContext j)
    match context, cfg.workerLifecycle with
    | some ctx, some _ => teardownWorker ctx
    | _, _ => pure ()
    if type ∈ conditionalDemotionTypes then
      let job ← deref j
      let sentinel ← orRaise (isSentinelFailure job.lastFailingCapabilityId)
      if !sentinel then
        demoteForOverride cfg job.governingCapabilityId j type) := by
  refine touches_bind touches_world fun w => ?_
  refine touches_bind (touches_update fun w => ?_) fun _ => ?_
  · exact alters_aside rfl rfl rfl (fun out => absurd too out) fun _ => rfl
  cases w.workerContexts.get? j with
  | none => exact touches_demotion type
  | some ctx =>
    cases cfg.workerLifecycle with
    | none => exact touches_demotion type
    | some => exact touches_bind (touches_teardownWorker too ctx) fun _ => touches_demotion type

theorem touches_finishOverride (on : .jobs ∈ ps) (too : .contexts ∈ ps) (type : String) :
    Touches ps (finishOverride cfg j type) :=
  touches_bind (touches_persistJob on) fun _ => touches_release too type

theorem touches_override (all : ∀ p, p ∈ ps) (r : OverrideRequest) :
    Touches ps (overrideJob cfg j r) := by
  have finished (status : JobStatus) : Touches ps (do
      let reply ← overrideBranch cfg j r status
      if !reply.isError then
        finishOverride cfg j r.overrideType
      return reply) := by
    refine touches_bind (touches_overrideBranch (all _) (all _) (all _) r status) fun reply => ?_
    split
    · exact touches_bind (touches_finishOverride (all _) (all _) _) fun _ => touches_ret reply
    · exact touches_ret reply
  have held (status : JobStatus) : Touches ps (do
      if status = .proposalReady then
        reserveOverride j r.overrideType
      let reply ← overrideBranch cfg j r status
      if !reply.isError then
        finishOverride cfg j r.overrideType
      return reply) := by
    by_cases ready : status = .proposalReady
    · rw [if_pos ready]
      exact touches_bind (touches_reserveOverride (all _) _) fun _ => finished status
    · rw [if_neg ready]
      exact finished status
  refine touches_bind touches_world fun w => ?_
  split
  · exact touches_ret _
  rename_i job _
  split
  · exact touches_ret _
  unfold runOverride
  by_cases reserves : r.overrideType ∈ ["cancel", "redirect", "escalate"]
  · rw [if_pos reserves]
    exact touches_bind (touches_reserveOverride (all _) _) fun _ => held job.status
  · rw [if_neg reserves]
    exact held job.status

section Reviews

variable {r : ReviewRequest} {device : String}

theorem touches_emitDecision (draft : Draft) : Touches ps (emitDecision r draft) := by
  refine touches_bind (touches_build _) fun e => ?_
  refine touches_bind (touches_record _) fun _ => ?_
  exact touches_bind (touches_emitDurable e) fun _ => touches_ret ()

theorem synced_tables {w w' : World} (records : w'.records = w.records)
    (db : ∀ db', w'.db = some db' → ∃ db, w.db = some db ∧ db'.records = db.records)
    (sync : w.Synced) : w'.Synced := by
  intro db' hdb'
  obtain ⟨db₀, h₀, same⟩ := db db' hdb'
  rw [same, records]
  exact sync db₀ h₀

theorem touches_storeOutcome (reply : Reply) : Touches ps (storeOutcome j r reply) := by
  refine touches_bind (touches_update fun w => ?_) fun _ => touches_ret reply
  refine alters_tables rfl ?_ ⟨rfl, rfl⟩ rfl (synced_tables rfl fun db' hdb' => ?_)
  · simp only [World.rows, World.storeReview, Option.map_map]
    rfl
  · obtain ⟨db₀, h₀, rfl⟩ := Option.map_eq_some_iff.mp hdb'
    exact ⟨db₀, h₀, rfl⟩

theorem touches_reserveReview (on : .jobs ∈ ps) (decision : String) :
    Touches ps (reserveReview j decision) :=
  touches_bind (touches_updateJob on fun _ => ⟨rfl, rfl, rfl⟩) fun _ => touches_persistJob on

theorem touches_reviewApprove (on : .jobs ∈ ps) : Touches ps (reviewApprove j r device) := by
  refine touches_bind (touches_reserveReview on _) fun _ => ?_
  refine touches_bind (touches_emitDecision _) fun _ => ?_
  refine touches_bind (touches_emit _) fun _ => ?_
  refine touches_bind touches_now fun _ => ?_
  refine touches_bind (touches_updateJob on fun _ => ⟨rfl, rfl, rfl⟩) fun _ => ?_
  refine touches_bind (touches_persistJob on) fun _ => ?_
  exact touches_bind touches_deref fun _ => touches_storeOutcome _

theorem touches_reviewEdit (on : .jobs ∈ ps) (too : .results ∈ ps) (files : .files ∈ ps)
    (modified : String) : Touches ps (reviewEdit j r device cfg modified) := by
  refine touches_bind (touches_reserveReview on _) fun _ => ?_
  refine touches_bind touches_uuid7 fun _ => ?_
  refine touches_bind (touches_writeResult files _ _) fun _ => ?_
  refine touches_bind touches_deref fun _ => ?_
  refine touches_bind (touches_emitDecision _) fun _ => ?_
  refine touches_bind (touches_emit _) fun _ => ?_
  refine touches_bind touches_now fun _ => ?_
  refine touches_bind (touches_updateResult on too _) fun _ => ?_
  exact touches_bind (touches_persistJob on) fun _ => touches_storeOutcome _

theorem touches_reviewReject (on : .jobs ∈ ps) : Touches ps (reviewReject j r device) := by
  refine touches_bind (touches_reserveReview on _) fun _ => ?_
  refine touches_bind (touches_emitDecision _) fun _ => ?_
  refine touches_bind touches_deref fun _ => ?_
  refine touches_bind (touches_emit _) fun _ => ?_
  refine touches_bind (touches_updateJob on fun _ => ⟨rfl, rfl, rfl⟩) fun _ => ?_
  refine touches_bind (touches_persistJob on) fun _ => ?_
  exact touches_bind touches_deref fun _ => touches_storeOutcome _

theorem touches_reviewDefer : Touches ps (reviewDefer j r device) := by
  refine touches_bind (touches_emitDecision _) fun _ => ?_
  exact touches_bind touches_deref fun _ => touches_storeOutcome _

theorem touches_reviewDeclineToAct (on : .jobs ∈ ps) :
    Touches ps (reviewDeclineToAct j r device) := by
  refine touches_bind (touches_updateJob on fun _ => ⟨rfl, rfl, rfl⟩) fun _ => ?_
  refine touches_bind (touches_persistJob on) fun _ => ?_
  refine touches_bind (touches_emitDecision _) fun _ => ?_
  refine touches_bind touches_deref fun _ => ?_
  refine touches_bind (touches_emit _) fun _ => ?_
  exact touches_bind touches_deref fun _ => touches_storeOutcome _

theorem touches_review (on : .jobs ∈ ps) (too : .results ∈ ps) (files : .files ∈ ps) :
    Touches ps (reviewJob j r device cfg) := by
  refine touches_bind touches_world fun w => ?_
  split
  · exact touches_ret _
  split
  · exact touches_ret _
  split
  · exact touches_ret _
  unfold reviewBranch
  split
  · exact touches_reviewApprove on
  split
  · exact touches_reviewEdit on too files _
  split
  · exact touches_reviewReject on
  split
  · exact touches_reviewDefer
  split
  · exact touches_reviewDeclineToAct on
  · exact touches_ret _

end Reviews

end Decisions

section Submissions

variable {j : JobId} {cfg : Settings}

theorem touches_checkAndStore (key : String) : Touches ps (checkAndStore key j) := by
  refine touches_bind touches_world fun w => ?_
  split
  · exact touches_ret _
  refine touches_bind (touches_update fun w => ?_) fun _ => touches_ret none
  refine alters_tables rfl ?_ ⟨rfl, rfl⟩ rfl fun sync db' hdb' => ?_
  · simp only [World.rows, World.storeKey, Option.map_map]
    rfl
  · obtain ⟨db₀, h₀, rfl⟩ := Option.map_eq_some_iff.mp hdb'
    simp only [World.storeKey, sync db₀ h₀]

theorem touches_checkAndStoreSourceEvent (record : SourceEventRecord) :
    Touches ps (checkAndStoreSourceEvent record) := by
  refine touches_bind touches_world fun w => ?_
  split
  · refine touches_bind (touches_update fun w => ?_) fun _ => touches_ret _
    refine alters_tables rfl ?_ ⟨rfl, rfl⟩ rfl (synced_tables rfl fun db' hdb' => ?_)
    · simp only [World.rows, World.reserveSource, Option.map_map]
      rfl
    · obtain ⟨db₀, h₀, rfl⟩ := Option.map_eq_some_iff.mp hdb'
      exact ⟨db₀, h₀, rfl⟩
  split
  · refine touches_bind (touches_aside fun _ => ⟨rfl, rfl, rfl, rfl, rfl, rfl⟩) fun _ => ?_
    split
    · exact touches_ret _
    · exact touches_ret _
  · exact touches_bind (touches_aside fun _ => ⟨rfl, rfl, rfl, rfl, rfl, rfl⟩) fun _ =>
      touches_ret _

theorem touches_releaseSourceEvent (clientSource clientSourceEventId : String) :
    Touches ps (releaseSourceEvent clientSource clientSourceEventId j) := by
  refine touches_update fun w => ?_
  refine alters_tables rfl ?_ ⟨rfl, rfl⟩ rfl (synced_tables rfl fun db' hdb' => ?_)
  · simp only [World.rows, World.releaseSource, Option.map_map]
    rfl
  · obtain ⟨db₀, h₀, rfl⟩ := Option.map_eq_some_iff.mp hdb'
    exact ⟨db₀, h₀, rfl⟩

theorem touches_materialize (on : .jobs ∈ ps) (s : Submission) (l : Lineage) (key : String) :
    Touches ps (materialize s l j key) := by
  refine touches_bind touches_now fun _ => ?_
  refine touches_bind (touches_emit _) fun _ => ?_
  refine touches_bind (touches_addJob on rfl) fun _ => ?_
  refine touches_bind (touches_persistJob on) fun _ => ?_
  refine touches_bind touches_putNowait fun room => ?_
  split
  · exact touches_ret j
  · refine touches_bind (touches_updateJob on fun _ => ⟨rfl, rfl, rfl⟩) fun _ => ?_
    exact touches_bind (touches_persistJob on) fun _ => touches_raise _

theorem touches_createJob (on : .jobs ∈ ps) (s : Submission) (l : Lineage) (key : String) :
    Touches ps (createJob s l j key) := by
  refine touches_bind (touches_checkAndStore key) fun existing => ?_
  split
  · refine touches_bind touches_world fun w => ?_
    split
    · exact touches_ret _
    · exact touches_materialize on s l key
  · exact touches_materialize on s l key

theorem touches_awaitJobLoadable (attempts : Nat) : Touches ps (awaitJobLoadable j attempts) := by
  induction attempts with
  | zero => exact touches_ret false
  | succ attempts ih =>
    refine touches_bind (touches_perform .sleep) fun a => ?_
    refine touches_bind (touches_orRaise a) fun _ => ?_
    refine touches_bind touches_world fun w => ?_
    split
    · exact touches_ret true
    · exact ih

/-- What follows when the source event has a job already. -/
theorem touches_equivalent (record : SourceEventRecord) (clientSource clientSourceEventId : String) :
    Touches ps (do
      let loaded ← do
        if (← world).loadable record.jobId then
          pure true
        else
          awaitJobLoadable record.jobId 5
      if loaded then
        return record.jobId
      else
        let event ← build (eventSourceEventDivergence record.jobId clientSource clientSourceEventId)
        emitBestEffort event
        throw (.sourceEventPending record.jobId) : Task JobId) := by
  have answered (loaded : Bool) : Touches ps (do
      if loaded then
        return record.jobId
      else
        let event ← build (eventSourceEventDivergence record.jobId clientSource clientSourceEventId)
        emitBestEffort event
        throw (.sourceEventPending record.jobId)) := by
    split
    · exact touches_ret _
    · refine touches_bind (touches_build _) fun e => ?_
      exact touches_bind (touches_emitBestEffort e) fun _ => touches_raise _
  refine touches_bind touches_world fun w => ?_
  by_cases loadable : w.loadable record.jobId
  · rw [if_pos loadable]
    exact answered true
  · rw [if_neg loadable]
    exact touches_bind (touches_awaitJobLoadable 5) answered

theorem touches_submitLocked (on : .jobs ∈ ps) (s : Submission)
    (clientSource clientSourceEventId : String) :
    Touches ps (submitLocked cfg s clientSource clientSourceEventId) := by
  refine touches_bind touches_uuid7 fun candidate => ?_
  refine touches_bind (touches_checkAndStoreSourceEvent _) fun found => ?_
  obtain ⟨verdict, record⟩ := found
  cases verdict with
  | equivalent => exact touches_equivalent record clientSource clientSourceEventId
  | conflict => exact touches_bind (touches_emit _) fun _ => touches_raise _
  | new =>
    refine touches_bind touches_uuid7 fun key => ?_
    refine touches_tryCatch (touches_createJob on s _ _) fun e => ?_
    split
    · refine touches_bind touches_world fun w => ?_
      split
      · exact touches_bind (touches_releaseSourceEvent _ _) fun _ => touches_raise e
      · exact touches_raise e
    · exact touches_raise e

theorem touches_submit (on : .jobs ∈ ps) (s : Submission) : Touches ps (submitJob cfg s) := by
  unfold submitJob
  split
  · have locked (key clientSource clientSourceEventId : String) : Touches ps (do
        update (·.lockSource key)
        let job ← (submitLocked cfg s clientSource clientSourceEventId).tryCatch fun e => do
          update (·.unlockSource key)
          throw e
        update (·.unlockSource key)
        return job) := by
      refine touches_bind (touches_aside fun _ => ⟨rfl, rfl, rfl, rfl, rfl, rfl⟩) fun _ => ?_
      refine touches_bind (touches_tryCatch (touches_submitLocked on s _ _) fun e => ?_)
        fun job => ?_
      · exact touches_bind (touches_aside fun _ => ⟨rfl, rfl, rfl, rfl, rfl, rfl⟩) fun _ =>
          touches_raise e
      · exact touches_bind (touches_aside fun _ => ⟨rfl, rfl, rfl, rfl, rfl, rfl⟩) fun _ =>
          touches_ret job
    refine touches_bind touches_world fun w => ?_
    split
    · refine touches_bind (touches_perform _) fun a => ?_
      exact touches_bind (touches_orRaise a) fun _ => locked _ _ _
    · exact locked _ _ _
  · have made (key : String) : Touches ps (do
        let jobId ← uuid7
        createJob s {} jobId key) :=
      touches_bind touches_uuid7 fun jobId => touches_createJob on s {} key
    unfold submitPlain
    split
    · exact made _
    · exact touches_bind touches_uuid7 fun u => made _

end Submissions

section Startup

variable {j : JobId} {cfg : Settings}

theorem touches_checkDispatchCap (on : .jobs ∈ ps) : Touches ps (checkDispatchCap j) := by
  refine touches_bind touches_deref fun job => ?_
  split
  · refine touches_bind (touches_emit _) fun _ => ?_
    exact touches_bind (touches_updateJob on fun _ => ⟨rfl, rfl, rfl⟩) fun _ => touches_ret false
  · exact touches_ret true

theorem touches_enqueueForRecovery (on : .jobs ∈ ps) : Touches ps (enqueueForRecovery j) := by
  refine touches_bind (touches_updateJob on fun _ => ⟨rfl, rfl, rfl⟩) fun _ => ?_
  refine touches_bind (touches_emit _) fun _ => ?_
  refine touches_bind touches_putNowait fun room => ?_
  split
  · exact touches_record _
  · exact touches_ret ()

theorem touches_recoverJob (on : .jobs ∈ ps) (now : UtcTime) : Touches ps (recoverJob cfg j now) := by
  have queued (action : RecoveryAction) : Touches ps (recoverQueued j action) := by
    refine touches_bind (touches_checkDispatchCap on) fun below => ?_
    split
    · exact touches_bind (touches_enqueueForRecovery on) fun _ => touches_ret _
    · exact touches_ret _
  have dispatched : Touches ps (recoverDispatched cfg j now) := by
    refine touches_bind touches_deref fun job => ?_
    split
    · exact touches_ret _
    refine touches_bind (touches_checkDispatchCap on) fun below => ?_
    split
    · refine touches_bind (touches_updateJob on fun _ => ⟨rfl, rfl, rfl⟩) fun _ => ?_
      exact touches_bind (touches_enqueueForRecovery on) fun _ => touches_ret _
    · exact touches_ret _
  have received : Touches ps (recoverResponseReceived j) := by
    refine touches_bind (touches_emit _) fun _ => ?_
    refine touches_bind touches_now fun _ => ?_
    exact touches_bind (touches_updateJob on fun _ => ⟨rfl, rfl, rfl⟩) fun _ => touches_ret _
  refine touches_bind touches_deref fun job => ?_
  split
  · exact touches_ret _
  · exact touches_ret _
  · exact touches_ret _
  · exact touches_bind (queued _) fun _ => touches_ret _
  · exact touches_bind (queued _) fun _ => touches_ret _
  · exact touches_bind dispatched fun _ => touches_ret _
  · exact touches_bind received fun _ => touches_ret _
  · exact touches_ret _
  · exact touches_ret _

theorem touches_recoverAll (on : .jobs ∈ ps) (now : UtcTime) (js : List JobId)
    (report : RecoveryReport) : Touches ps (recoverAll cfg now js report) := by
  induction js generalizing report with
  | nil => exact touches_ret report
  | cons j js ih =>
    refine touches_bind (touches_recoverJob on now) fun action => ?_
    exact touches_bind (touches_record _) fun _ => ih _

theorem touches_setHub (target : HubState) : Touches ps (update (·.setHub target)) := by
  refine touches_update fun w => ?_
  refine alters_tables rfl ?_ ⟨rfl, rfl⟩ rfl (synced_tables rfl fun db' hdb' => ?_)
  · simp only [World.rows, World.setHub, Option.map_map]
    rfl
  · obtain ⟨db₀, h₀, rfl⟩ := Option.map_eq_some_iff.mp hdb'
    exact ⟨db₀, h₀, rfl⟩

theorem touches_setPhase (p : Phase) : Touches ps (update (·.setPhase p)) :=
  touches_aside fun _ => ⟨rfl, rfl, rfl, rfl, rfl, rfl⟩

theorem touches_startup (on : .jobs ∈ ps) : Touches ps (startup cfg) := by
  refine touches_bind (touches_setPhase _) fun _ => ?_
  refine touches_bind touches_now fun _ => ?_
  refine touches_bind touches_world fun w => ?_
  refine touches_bind (touches_recoverAll on _ _ _) fun report => ?_
  refine touches_bind touches_world fun w => ?_
  refine touches_bind (touches_each fun j => touches_persistJob on) fun _ => ?_
  refine touches_bind (touches_emit _) fun _ => ?_
  refine touches_bind (touches_perform .recentHeartbeat) fun recent => ?_
  split
  · exact touches_bind (touches_setHub _) fun _ => touches_setPhase _
  · exact touches_setPhase _

theorem touches_autoAcceptPoll (on : .jobs ∈ ps) : Touches ps (autoAcceptPoll cfg) := by
  have accepted (j : JobId) : Touches ps (checkAutoAccept cfg j) := by
    refine touches_bind touches_deref fun job => ?_
    split
    · exact touches_ret ()
    refine touches_bind touches_now fun _ => ?_
    split
    · refine touches_bind (touches_emit _) fun _ => ?_
      refine touches_bind (touches_updateJob on fun _ => ⟨rfl, rfl, rfl⟩) fun _ => ?_
      exact touches_persistJob on
    · exact touches_ret ()
  refine touches_bind (touches_aside fun _ => ⟨rfl, rfl, rfl, rfl, rfl, rfl⟩) fun _ => ?_
  refine touches_bind touches_world fun w => ?_
  refine touches_bind (touches_each fun j => touches_tryCatch (accepted j) fun _ => touches_ret ())
    fun _ => ?_
  exact touches_aside fun _ => ⟨rfl, rfl, rfl, rfl, rfl, rfl⟩

theorem touches_changeHub (hostname : String) (target : HubState) (reason : String) :
    Touches ps (changeHub hostname target reason) := by
  refine touches_bind touches_world fun w => ?_
  dsimp only
  split
  · refine touches_bind (touches_setHub _) fun _ => ?_
    refine touches_tryCatch ?_ fun _ => touches_ret ()
    exact touches_bind (touches_emit _) fun _ => touches_ret ()
  · exact touches_ret ()

end Startup

section System

variable {cfg : Settings}

/-- Every part may be written. -/
def Part.all : List Part := [.jobs, .results, .contexts, .files]

theorem Part.mem_all (p : Part) : p ∈ Part.all := by cases p <;> decide

theorem touches_body (t : Call) : Touches Part.all (body cfg t) := by
  cases t with
  | startup => exact touches_startup (Part.mem_all _)
  | worker j => exact touches_worker Part.mem_all
  | autoAccept => exact touches_autoAcceptPoll (Part.mem_all _)
  | submit s => exact touches_submit (Part.mem_all _) s
  | override j r => exact touches_override Part.mem_all r
  | review j r device =>
    exact touches_review (Part.mem_all _) (Part.mem_all _) (Part.mem_all _)
  | checkPermission capabilityId action ctx mode => exact touches_checkPermission _ _ _ _
  | setHub target reason => exact touches_changeHub _ _ _
  | configure capabilities states routes =>
    exact touches_aside fun _ => ⟨rfl, rfl, rfl, rfl, rfl, rfl⟩

/-- The footing as a plan for the whole system, with nothing to remember. -/
def footPlan (cfg : Settings) : Plan (orchestrator cfg) where
  toDiscipline := footing Part.all
  first _ _ := ()
  ends _ _ _ _ := True
  retire _ := ()
  retire_parks _ := trivial

theorem footPlan_sound (cfg : Settings) : (footPlan cfg).Sound where
  follows {w t} _ := (touches_body t w).mono fun _ _ _ _ => trivial
  answers _ := trivial

variable {c : Run cfg}

/-- What every write and every restart keep holds in every state that is reached. -/
theorem kept_reach {P : World → Prop} (write : ∀ {w w'}, Alters Part.all w w' → P w → P w')
    (restart : ∀ {w}, P w → P w.restart) {c₀ : Run cfg} (boots : c₀.threads = [])
    (init : P c₀.state) (run : Reach (orchestrator cfg) (Anyhow cfg) c₀ c) : P c.state := by
  have preserves : (footPlan cfg).Preserves (Anyhow cfg) fun w _ => P w :=
    { start := fun _ _ inv _ _ _ _ => inv
      move := fun _ inv _ _ _ _ hm => write hm inv
      finish := fun _ inv _ _ _ _ _ => inv
      crash := fun _ _ inv _ again => by
        cases again
        exact restart inv }
  have tracks : (footPlan cfg).Tracks c₀ [] := by
    refine ⟨by simp [boots], ?_, ?_, ?_⟩ <;> exact fun at_ => by simp [boots] at at_
  obtain ⟨_, -, holds⟩ := Plan.reach (footPlan_sound cfg).under preserves tracks init run
  exact holds

theorem synced_restart {w : World} : w.restart.Synced := by
  intro db hdb
  simp only [World.restart] at hdb ⊢
  obtain ⟨db₀, h₀, rfl⟩ := Option.map_eq_some_iff.mp hdb
  rw [h₀]
  rfl

theorem synced_initial (persistent : Bool) : (World.initial persistent).Synced := by
  intro db hdb
  cases persistent with
  | true => cases hdb; rfl
  | false => cases hdb

/-- The store of submit keys is the same in memory and in the database. -/
theorem synced {persistent : Bool}
    (run : Reach (orchestrator cfg) (Anyhow cfg) (.boot _ (World.initial persistent)) c) :
    c.state.Synced :=
  kept_reach (fun h => h.synced) (fun _ => synced_restart) rfl (synced_initial persistent) run

end System

end Touches

end Drnt.Orchestrator
