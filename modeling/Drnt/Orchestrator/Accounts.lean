import Drnt.Orchestrator.Footprint

/-! Jobs in memory and their rows. Each coroutine keeps account of the jobs that it has changed
and not yet written out. -/
namespace Drnt.Orchestrator

open Lib Lib.Coop Trial

section Accounts

/-- The jobs that a coroutine has changed since it wrote them out, and whether it has ended. -/
structure Account where
  behind : List JobId := []
  ended : Bool := false
  deriving DecidableEq

namespace Account

def owe (j : JobId) (τ : Account) : Account := { τ with behind := j :: τ.behind }

def settle (j : JobId) (τ : Account) : Account := { τ with behind := τ.behind.filter (· ≠ j) }

def close (τ : Account) : Account := { τ with ended := true }

/-- The coroutine is behind with these jobs at most. -/
def Within (js : List JobId) (τ : Account) : Prop := τ.ended = false ∧ ∀ j ∈ τ.behind, j ∈ js

end Account

/-- A write that concerns no job, one that adds or changes a job, and one that writes it out. -/
inductive Posts : Account → World → Account → World → Prop
  | aside {τ w w'} (jobs : ∀ j, w'.job? j = w.job? j) (rows : w'.rows = w.rows) : Posts τ w τ w'
  | add {τ w} (j : JobId) (job : Job) : Posts τ w (τ.owe j) (w.addJob j job)
  | update {τ w} (j : JobId) (f : Job → Job) : Posts τ w (τ.owe j) (w.updateJob j f)
  | persist {τ w} (j : JobId) : Posts τ w (τ.settle j) (w.persistJob j)

theorem Posts.grows {τ τ' : Account} {w w' : World} (h : Posts τ w τ' w') (j : JobId)
    (here : (w.job? j).isSome) : (w'.job? j).isSome := by
  cases h with
  | aside jobs => exact jobs j ▸ here
  | add i job =>
    simp only [World.job?, World.addJob, Dict.get?_set]
    split
    · rfl
    · exact here
  | update i f =>
    simp only [World.job?, World.updateJob, Dict.get?_modify]
    split
    · subst j
      have here : (w.jobs.get? i).isSome := here
      simpa using here
    · exact here
  | persist i => exact here

def accounting : Discipline sig where
  Tok := Account
  move τ w τ' w' := τ.ended = false ∧ Posts τ w τ' w'
  parks _ := True
  grows w w' := ∀ j, (w.job? j).isSome → (w'.job? j).isSome
  admits _ _ _ := True
  grows_refl _ _ here := here
  grows_trans h h' j here := h' j (h j here)
  move_grows h := h.2.grows

variable {α β : Type} {js ks es : List JobId}

/-- From being behind with some jobs at most, the coroutine comes to be behind with those that
its result tells, or with others if it raises. -/
def Books (js : List JobId) (x : Task α) (ks : α → List JobId) (es : List JobId) : Prop :=
  ∀ (τ : Account) (w : World), τ.Within js → Follows accounting τ w x fun r τ' _ => match r with
    | .ok a => τ'.Within (ks a)
    | .error _ => τ'.Within es

/-- The coroutine is behind with no job that it was not behind with before. -/
abbrev Balances (x : Task α) : Prop := ∀ js, Books js x (fun _ => js) js

section Rules

variable {x : Task α} {f : α → Task β} {cs : β → List JobId}

theorem Account.Within.mono {τ : Account} (h : τ.Within js) (more : js ⊆ ks) : τ.Within ks :=
  ⟨h.1, fun j mem => more (h.2 j mem)⟩

theorem books_ret (a : α) : Books js (Co.ret a : Task α) (fun _ => js) es := fun _ _ within => within

theorem books_raise (e : Exc) (more : js ⊆ es) {ks : α → List JobId} :
    Books js (Co.raise e : Task α) ks es := fun _ _ within => within.mono more

theorem books_bind {ks : α → List JobId} (hx : Books js x ks es)
    (hf : ∀ a, Books (ks a) (f a) cs es) : Books js (x.bind f) cs es := by
  intro τ w within
  refine follows_bind ((hx τ w within).mono ?_)
  rintro (e | a) τ' w' h
  · exact h
  · exact hf a τ' w' h

theorem books_mono {ks ks' : α → List JobId} {es' : List JobId} (h : Books js x ks es)
    (more : ∀ a, ks a ⊆ ks' a) (raised : es ⊆ es') : Books js x ks' es' := by
  intro τ w within
  refine (h τ w within).mono ?_
  rintro (e | a) τ' w' h
  · exact h.mono raised
  · exact h.mono (more a)

theorem books_tryCatch {ks : α → List JobId} {es' : List JobId} {h : Exc → Task α}
    (hx : Books js x ks es') (hh : ∀ e, Books es' (h e) ks es) : Books js (x.tryCatch h) ks es := by
  intro τ w within
  refine follows_tryCatch ((hx τ w within).mono ?_)
  rintro (e | a) τ' w' hr
  · exact hh e τ' w' hr
  · exact hr

theorem books_world {f : World → Task β} (h : ∀ w, Books js (f w) cs es) :
    Books js (world.bind f) cs es := fun τ w within => h w τ w within

theorem balances_ret (a : α) : Balances (Co.ret a : Task α) := fun _ => books_ret a

theorem balances_raise (e : Exc) : Balances (Co.raise e : Task α) :=
  fun js => books_raise e (List.Subset.refl js)

theorem balances_bind (hx : Balances x) (hf : ∀ a, Balances (f a)) : Balances (x.bind f) :=
  fun js => books_bind (hx js) fun a => hf a js

theorem balances_tryCatch {h : Exc → Task α} (hx : Balances x) (hh : ∀ e, Balances (h e)) :
    Balances (x.tryCatch h) := fun js => books_tryCatch (hx js) fun e => hh e js

theorem balances_each {bs : List β} {f : β → Task Unit} (h : ∀ b, Balances (f b)) :
    Balances (Co.each bs f) := by
  induction bs with
  | nil => exact balances_ret ()
  | cons b bs ih => exact balances_bind (h b) fun _ => ih

/-- A coroutine that writes no job. -/
theorem balances_aside {ps : List Part} (h : Touches ps x) (out : .jobs ∉ ps) : Balances x := by
  intro js τ w within
  have keeps : Keeps accounting (fun _ => True) τ x :=
    h.keeps (fun alters => ⟨within.1, .aside (fun j => congrArg (·.get? j) (alters.jobs out).1)
      (alters.jobs out).2⟩) trivial
  refine (keeps w).mono ?_
  rintro (e | a) τ' w' ⟨rfl, -⟩
  · exact within
  · exact within

theorem balances_contexts (h : Touches [.contexts] x) : Balances x := balances_aside h (by decide)

theorem balances_touches (h : Touches [] x) : Balances x := balances_aside h (by simp)

section Jobs

variable {j : JobId}

theorem books_updateJob (f : Job → Job) : Books js (updateJob j f) (fun _ => j :: js) es := by
  intro τ w within
  refine ⟨τ.owe j, ⟨within.1, .update j f⟩, within.1, fun i mem => ?_⟩
  rcases List.mem_cons.mp mem with rfl | mem
  · exact List.mem_cons_self ..
  · exact List.mem_cons_of_mem _ (within.2 i mem)

/-- A second change to a job that the coroutine is behind with already. -/
theorem books_updateJob_again (f : Job → Job) :
    Books (j :: js) (updateJob j f) (fun _ => j :: js) es :=
  books_mono (books_updateJob f) (fun _ i mem => by simpa using mem) (List.Subset.refl es)

theorem books_addJob (job : Job) : Books js (update (·.addJob j job)) (fun _ => j :: js) es := by
  intro τ w within
  refine ⟨τ.owe j, ⟨within.1, .add j job⟩, within.1, fun i mem => ?_⟩
  rcases List.mem_cons.mp mem with rfl | mem
  · exact List.mem_cons_self ..
  · exact List.mem_cons_of_mem _ (within.2 i mem)

theorem books_persistJob : Books (j :: js) (persistJob j) (fun _ => js) es := by
  intro τ w within
  refine ⟨τ.settle j, ⟨within.1, .persist j⟩, within.1, fun i mem => ?_⟩
  obtain ⟨mem, other⟩ := List.mem_filter.mp mem
  have other : i ≠ j := of_decide_eq_true other
  exact (List.mem_cons.mp (within.2 i mem)).resolve_left other

/-- A change to a job that is written out at once. -/
theorem balances_post (f : Job → Job) {rest : Unit → Task α} (h : Balances (rest ())) :
    Balances ((updateJob j f).bind fun _ => (persistJob j).bind rest) := fun js =>
  books_bind (books_updateJob f) fun _ => books_bind books_persistJob fun _ => h js

theorem balances_write (f : Job → Job) :
    Balances ((updateJob j f).bind fun _ => persistJob j) := fun _ =>
  books_bind (books_updateJob f) fun _ => books_persistJob

end Jobs

end Rules

section Pipeline

variable {j : JobId} {cfg : Settings}

theorem balances_failJob (error : List Json) : Balances (failJob j error) := balances_write _

theorem balances_emit (draft : Draft) : Balances (emit draft) := balances_touches (touches_emit _)

/-- The classification itself is written out by the stage around it. -/
theorem balances_classifyStage (job : Job) : Balances (classifyStage j job) := by
  have settled (route : Route) : Balances (do
      updateJob j fun job => { job with walLevel := some 0 }
      persistJob j
      return route) := balances_post _ (balances_ret route)
  have classified (rawInput : String) (js : List JobId) :
      Books js (classifyJob j rawInput) (fun _ => j :: js) js := by
    refine books_bind (balances_touches (touches_perform (.classify rawInput)) js) fun a => ?_
    refine books_bind (balances_touches (touches_orRaise a) js) fun c => ?_
    refine books_bind (balances_emit _ js) fun _ => ?_
    refine books_bind (balances_touches touches_now js) fun _ => ?_
    exact books_bind (books_updateJob _) fun _ => books_ret _
  unfold classifyStage
  split
  · exact settled _
  · intro js
    refine books_bind (classified _ js) fun route => ?_
    refine books_bind (books_updateJob_again _) fun _ => ?_
    exact books_bind books_persistJob fun _ => books_ret route

theorem balances_circuitStage (route : Route) : Balances (circuitStage cfg j route) := by
  refine balances_bind (balances_touches touches_world) fun w => ?_
  split
  · refine balances_bind (balances_emit _) fun _ => ?_
    refine balances_bind (balances_emit _) fun _ => ?_
    exact balances_bind (balances_failJob _) fun _ => balances_ret none
  · exact balances_ret _

theorem balances_permissionStage (route : Route) : Balances (permissionStage cfg j route) := by
  unfold permissionStage
  split
  · refine balances_bind (balances_touches (touches_checkPermission _ _ _ _)) fun result => ?_
    split
    · refine balances_bind (balances_emit _) fun _ => ?_
      exact balances_bind (balances_failJob _) fun _ => balances_ret none
    · exact balances_ret _
  · exact balances_bind (balances_emit _) fun e => balances_ret _

theorem balances_prepareStage : Balances (prepareStage cfg j) := by
  unfold prepareStage
  split
  · exact balances_ret _
  · refine balances_tryCatch ?_ fun _ => ?_
    · refine balances_bind (balances_contexts (touches_prepareWorker (by simp))) fun ctx => ?_
      refine balances_bind (balances_contexts (touches_update fun w => ?_)) fun _ => balances_ret _
      exact alters_aside rfl rfl rfl (fun out => absurd (by simp) out) fun _ => rfl
    · exact balances_bind (balances_failJob _) fun _ => balances_ret none

theorem balances_dispatchStage (route : Route) (permit : Permit) (prompt : Prompt) :
    Balances (dispatchStage j route permit prompt) := by
  refine balances_bind (balances_touches (touches_orRaise _)) fun model => ?_
  refine balances_bind (balances_touches (touches_build _)) fun e => ?_
  refine balances_bind (balances_touches (touches_record _)) fun _ => ?_
  refine balances_bind (balances_touches (touches_emitDurable e)) fun _ => ?_
  refine balances_bind (balances_touches touches_now) fun _ => ?_
  exact balances_post _ (balances_ret _)

theorem balances_teardownFailed (ctx : Option WorkerContext) : Balances (teardownFailed j ctx) :=
  balances_contexts (touches_teardownFailed (by simp) ctx)

theorem balances_responseStage (route : Route) (permit : Permit) (prompt : Prompt) (d : Dispatch)
    (ctx : Option WorkerContext) : Balances (responseStage cfg j route permit prompt d ctx) := by
  have generated : Balances (generateResponse cfg d prompt.text) := by
    refine balances_bind (balances_touches (touches_record _)) fun _ => ?_
    refine balances_bind (balances_touches (touches_perform _)) fun a => ?_
    refine balances_bind (balances_touches (touches_orRaise a)) fun r => ?_
    exact balances_bind (balances_touches (touches_localResponse _ _ _ _)) fun _ => balances_ret _
  have worked (ctx : WorkerContext) : Balances (workerResponse cfg j d ctx prompt.text) := by
    refine balances_tryCatch ?_ fun e => ?_
    · refine balances_bind (balances_touches (touches_executeInWorker _ _ _ _)) fun r => ?_
      exact balances_bind (balances_touches (touches_localResponse _ _ _ _)) fun _ =>
        balances_ret _
    · refine balances_bind (balances_emit _) fun _ => ?_
      refine balances_bind (balances_failJob _) fun _ => ?_
      exact balances_bind (balances_teardownFailed _) fun _ => balances_ret none
  unfold responseStage
  split
  · split
    · exact worked _
    · exact generated
  · refine balances_bind (balances_touches (touches_record _)) fun _ => ?_
    refine balances_bind (balances_touches (touches_perform _)) fun a => ?_
    refine balances_bind (balances_touches (touches_orRaise a)) fun reply => ?_
    refine balances_bind (balances_touches (touches_orRaise _)) fun fields => ?_
    dsimp only
    split
    · refine balances_bind (balances_emit _) fun _ => ?_
      refine balances_post _ ?_
      exact balances_bind (balances_teardownFailed _) fun _ => balances_ret none
    · exact balances_bind (balances_touches touches_uuid7) fun _ => balances_ret _

theorem balances_writeResult (resultId content : Json) :
    Balances (writeResult resultId content) := by
  have written : Touches [.files] (writeResult resultId content) :=
    touches_writeResult (by simp) resultId content
  exact balances_aside written (by decide)

theorem balances_recordStage (route : Route) (model : String) (r : Response) :
    Balances (recordStage j route model r) := by
  refine balances_bind (balances_emit _) fun _ => ?_
  refine balances_bind (balances_emit _) fun _ => ?_
  refine balances_bind (balances_touches touches_now) fun _ => ?_
  exact balances_post _ (balances_writeResult _ _)

theorem balances_proposeStage (route : Route) (model : String) (r : Response) (reason : String) :
    Balances (proposeStage j route model r reason) := by
  have settled (proposalId : Uuid7) : Balances (do
      updateJob j fun job => { job with proposalId := some proposalId, status := .proposalReady }
      persistJob j
      let confidence := (← deref j).confidence
      let _ ← emit (eventJobProposalReady j proposalId r.resultId r.responseHash model
        route.capabilityId confidence none reason)) := by
    refine balances_post _ ?_
    refine balances_bind (balances_touches touches_deref) fun _ => ?_
    exact balances_bind (balances_emit _) fun _ => balances_ret ()
  refine balances_bind (balances_touches touches_deref) fun job => ?_
  split
  · exact settled _
  · exact balances_bind (balances_touches touches_uuid7) settled

theorem balances_closeStage (route : Route) (permit : Permit) (model : String) (r : Response)
    (ctx : Option WorkerContext) : Balances (closeStage cfg j route permit model r ctx) := by
  have torn : Balances (teardownStage cfg j ctx) :=
    balances_contexts (touches_teardownStage (by simp) ctx)
  have delivered : Balances (deliverStage j) := by
    refine balances_bind (balances_emit _) fun _ => ?_
    refine balances_bind (balances_touches touches_now) fun _ => ?_
    exact balances_write _
  unfold closeStage
  split
  · exact balances_bind (balances_proposeStage _ _ _ _) fun _ => torn
  · exact balances_bind delivered fun _ => torn

theorem balances_runPipeline : Balances (runPipeline cfg j) := by
  refine balances_bind (balances_touches touches_world) fun w => ?_
  split
  · exact balances_ret ()
  refine balances_bind (balances_classifyStage _) fun route => ?_
  refine balances_bind (balances_circuitStage _) fun passed => ?_
  split
  · exact balances_ret ()
  refine balances_bind (balances_permissionStage _) fun permit => ?_
  split
  · exact balances_ret ()
  refine balances_bind balances_prepareStage fun prepared => ?_
  split
  · exact balances_ret ()
  refine balances_bind (balances_touches (touches_fallbackStage _)) fun _ => ?_
  refine balances_bind (balances_touches (touches_packageStage _)) fun prompt => ?_
  refine balances_bind (balances_dispatchStage _ _ _) fun d => ?_
  refine balances_bind (balances_responseStage _ _ _ _ _) fun response => ?_
  split
  · exact balances_ret ()
  refine balances_bind (balances_recordStage _ _ _) fun _ => ?_
  exact balances_closeStage _ _ _ _ _

theorem balances_pipelineFailed : Balances (pipelineFailed cfg j) := by
  refine balances_bind (balances_touches touches_world) fun w => ?_
  split
  · split
    · exact balances_bind (balances_failJob _) fun _ =>
        balances_contexts (touches_abandon (by simp))
    · exact balances_contexts (touches_abandon (by simp))
  · exact balances_contexts (touches_abandon (by simp))

theorem balances_worker : Balances (workerIteration cfg j) := by
  have dequeued : Touches [] (update (·.dequeue j)) :=
    touches_aside fun _ => ⟨rfl, rfl, rfl, rfl, rfl, rfl⟩
  have done : Touches [] (update (·.taskDone)) :=
    touches_aside fun _ => ⟨rfl, rfl, rfl, rfl, rfl, rfl⟩
  refine balances_bind (balances_touches dequeued) fun _ => ?_
  refine balances_bind (balances_tryCatch ?_ fun _ => balances_pipelineFailed) fun _ =>
    balances_touches done
  refine balances_bind (balances_touches touches_world) fun w => ?_
  split
  · exact balances_bind (balances_touches (touches_perform _)) fun _ => balances_runPipeline
  · exact balances_runPipeline

end Pipeline

section Decisions

variable {j : JobId} {cfg : Settings}

theorem balances_reserveOverride (type : String) : Balances (reserveOverride j type) :=
  balances_write _

theorem balances_spawnSuccessor (target : String) : Balances (spawnSuccessor j target) := by
  refine balances_bind (balances_touches touches_uuid7) fun i => ?_
  refine balances_bind (balances_touches touches_now) fun _ => ?_
  split
  · exact balances_raise _
  refine balances_bind (balances_touches touches_deref) fun job => ?_
  have queued : Balances (do
      if !(← putNowait i) then
        updateJob i fun job =>
          { job with status := .failed, error := some [.text "pipeline_queue_full"] }
        persistJob i
      return i) := by
    refine balances_bind (balances_touches touches_putNowait) fun room => ?_
    split
    · exact balances_post _ (balances_ret i)
    · exact balances_ret i
  intro js
  refine books_bind (books_addJob _) fun _ => ?_
  refine books_bind books_persistJob fun _ => ?_
  exact books_bind (balances_emit _ js) fun _ => queued js

/-- What an override does before it is written out: a coroutine that balances goes first. -/
theorem books_first {α β : Type} {x : Task α} {f : α → Task β} {js : List JobId}
    {ks : β → List JobId} (hx : Balances x) (hf : ∀ a, Books js (f a) ks (j :: js)) :
    Books js (x.bind f) ks (j :: js) :=
  books_bind (books_mono (hx js) (fun _ => List.Subset.refl js) (List.subset_cons_self j js)) hf

theorem books_failOverridden (js : List JobId) (type errorClass detail : String) :
    Books js (failOverridden j type errorClass detail) (fun _ => j :: js) (j :: js) := by
  refine books_first (balances_touches touches_deref) fun job => ?_
  exact books_first (balances_emit _) fun _ => books_updateJob _

theorem books_revokeOverridden (js : List JobId) (type reason : String) (id : Uuid7)
    (successor : Option JobId) :
    Books js (revokeOverridden j type reason id successor) (fun _ => j :: js) (j :: js) := by
  refine books_first (balances_emit _) fun _ => ?_
  exact books_first (balances_touches touches_now) fun _ => books_updateJob _

/-- What an override has changed and not written out when it comes to a reply. -/
def owed (j : JobId) (js : List JobId) (reply : OverrideReply) : List JobId :=
  if reply.isError then js else j :: js

theorem books_overrideCancel (js : List JobId) (r : OverrideRequest) (pre : Bool) :
    Books js (overrideCancel j r pre) (owed j js) (j :: js) := by
  refine books_first (balances_emit _) fun e => ?_
  split
  · exact books_bind (books_failOverridden js _ _ _) fun _ _ _ within => within
  · exact books_bind (books_revokeOverridden js _ _ _ _) fun _ _ _ within => within

/-- Before delivery the job is failed first, and the successor is made while that is not yet
written out. -/
theorem books_overrideRedirect (js : List JobId) (r : OverrideRequest) (pre : Bool) :
    Books js (overrideRedirect j r pre) (owed j js) (j :: js) := by
  refine books_first (balances_emit _) fun e => ?_
  split
  · refine books_bind (books_failOverridden js _ _ _) fun _ => ?_
    exact books_bind (balances_spawnSuccessor _ (j :: js)) fun _ _ _ within => within
  · refine books_first (balances_spawnSuccessor _) fun i => ?_
    exact books_bind (books_revokeOverridden js _ _ _ _) fun _ _ _ within => within

theorem books_overrideEscalate (js : List JobId) (r : OverrideRequest) :
    Books js (overrideEscalate j r) (owed j js) (j :: js) := by
  refine books_first (balances_emit _) fun e => ?_
  refine books_first (balances_spawnSuccessor _) fun i => ?_
  exact books_bind (books_revokeOverridden js _ _ _ _) fun _ _ _ within => within

theorem books_modifyResult (js : List JobId) (r : OverrideRequest) (modified : String)
    (delivered : Bool) :
    Books js (modifyResult cfg j r modified delivered) (owed j js) (j :: js) := by
  refine books_first (balances_reserveOverride _) fun _ => ?_
  refine books_first (balances_emit _) fun _ => ?_
  refine books_first (balances_touches touches_uuid7) fun _ => ?_
  refine books_first (balances_writeResult _ _) fun _ => ?_
  refine books_first (balances_touches touches_deref) fun _ => ?_
  refine books_first (balances_emit _) fun _ => ?_
  refine books_bind (books_updateJob _) fun _ => ?_
  split
  · refine books_bind (balances_emit _ (j :: js)) fun _ => ?_
    refine books_bind (balances_touches touches_now (j :: js)) fun _ => ?_
    exact books_bind (books_updateJob_again _) fun _ _ _ within => within
  · exact fun _ _ within => within

theorem books_overrideBranch (js : List JobId) (r : OverrideRequest) (status : JobStatus) :
    Books js (overrideBranch cfg j r status) (owed j js) (j :: js) := by
  unfold overrideBranch
  split
  · exact books_overrideCancel js r _
  split
  · exact books_overrideRedirect js r _
  split
  · unfold overrideModify
    split
    · exact fun _ _ within => within
    · exact fun _ _ within => within
    · split
      · exact books_modifyResult js _ _ _
      · exact fun _ _ within => within
  split
  · exact books_overrideEscalate js r
  · exact fun _ _ within => within

theorem books_finishOverride (js : List JobId) (type : String) :
    Books (j :: js) (finishOverride cfg j type) (fun _ => js) (j :: js) := by
  refine books_bind books_persistJob fun _ => ?_
  exact books_mono (balances_contexts (touches_release (by simp) type) js)
    (fun _ => List.Subset.refl js) (List.subset_cons_self j js)

/-- A job that an override has changed is written out before the reply; if the override raises
it may stay behind. -/
theorem books_override (js : List JobId) (r : OverrideRequest) :
    Books js (overrideJob cfg j r) (fun _ => js) (j :: js) := by
  have finished (status : JobStatus) : Books js (do
      let reply ← overrideBranch cfg j r status
      if !reply.isError then
        finishOverride cfg j r.overrideType
      return reply) (fun _ => js) (j :: js) := by
    refine books_bind (books_overrideBranch js r status) fun reply => ?_
    cases ends : reply.isError with
    | true =>
      simp only [owed, ends, if_true]
      exact books_ret reply
    | false =>
      simp only [owed, ends]
      exact books_bind (books_finishOverride js _) fun _ => books_ret reply
  have held (status : JobStatus) : Books js (do
      if status = .proposalReady then
        reserveOverride j r.overrideType
      let reply ← overrideBranch cfg j r status
      if !reply.isError then
        finishOverride cfg j r.overrideType
      return reply) (fun _ => js) (j :: js) := by
    by_cases ready : status = .proposalReady
    · rw [if_pos ready]
      exact books_first (balances_reserveOverride _) fun _ => finished status
    · rw [if_neg ready]
      exact finished status
  refine books_world fun w => ?_
  split
  · exact books_ret _
  rename_i job _
  split
  · exact books_ret _
  unfold runOverride
  by_cases reserves : r.overrideType ∈ ["cancel", "redirect", "escalate"]
  · rw [if_pos reserves]
    exact books_first (balances_reserveOverride _) fun _ => held job.status
  · rw [if_neg reserves]
    exact held job.status

section Reviews

variable {r : ReviewRequest} {device : String}

theorem balances_reserveReview (decision : String) : Balances (reserveReview j decision) :=
  balances_write _

theorem balances_storeOutcome (reply : Reply) : Balances (storeOutcome j r reply) :=
  balances_touches (touches_storeOutcome reply)

theorem balances_reviewApprove : Balances (reviewApprove j r device) := by
  refine balances_bind (balances_reserveReview _) fun _ => ?_
  refine balances_bind (balances_touches (touches_emitDecision _)) fun _ => ?_
  refine balances_bind (balances_emit _) fun _ => ?_
  refine balances_bind (balances_touches touches_now) fun _ => ?_
  refine balances_post _ ?_
  exact balances_bind (balances_touches touches_deref) fun _ => balances_storeOutcome _

theorem balances_reviewEdit (modified : String) :
    Balances (reviewEdit j r device cfg modified) := by
  refine balances_bind (balances_reserveReview _) fun _ => ?_
  refine balances_bind (balances_touches touches_uuid7) fun _ => ?_
  refine balances_bind (balances_writeResult _ _) fun _ => ?_
  refine balances_bind (balances_touches touches_deref) fun _ => ?_
  refine balances_bind (balances_touches (touches_emitDecision _)) fun _ => ?_
  refine balances_bind (balances_emit _) fun _ => ?_
  refine balances_bind (balances_touches touches_now) fun _ => ?_
  exact balances_post _ (balances_storeOutcome _)

theorem balances_reviewReject : Balances (reviewReject j r device) := by
  refine balances_bind (balances_reserveReview _) fun _ => ?_
  refine balances_bind (balances_touches (touches_emitDecision _)) fun _ => ?_
  refine balances_bind (balances_touches touches_deref) fun _ => ?_
  refine balances_bind (balances_emit _) fun _ => ?_
  refine balances_post _ ?_
  exact balances_bind (balances_touches touches_deref) fun _ => balances_storeOutcome _

theorem balances_reviewDeclineToAct : Balances (reviewDeclineToAct j r device) := by
  refine balances_post _ ?_
  refine balances_bind (balances_touches (touches_emitDecision _)) fun _ => ?_
  refine balances_bind (balances_touches touches_deref) fun _ => ?_
  refine balances_bind (balances_emit _) fun _ => ?_
  exact balances_bind (balances_touches touches_deref) fun _ => balances_storeOutcome _

theorem balances_review : Balances (reviewJob j r device cfg) := by
  refine balances_bind (balances_touches touches_world) fun w => ?_
  split
  · exact balances_ret _
  split
  · exact balances_ret _
  split
  · exact balances_ret _
  unfold reviewBranch
  split
  · exact balances_reviewApprove
  split
  · exact balances_reviewEdit _
  split
  · exact balances_reviewReject
  split
  · exact balances_touches touches_reviewDefer
  split
  · exact balances_reviewDeclineToAct
  · exact balances_ret _

end Reviews

end Decisions

section Submissions

variable {j : JobId} {cfg : Settings}

theorem balances_materialize (s : Submission) (l : Lineage) (key : String) :
    Balances (materialize s l j key) := by
  have queued : Balances (do
      if ← putNowait j then
        return j
      else
        updateJob j fun job =>
          { job with status := .failed, error := some [.text "pipeline_queue_full"] }
        persistJob j
        throw .queueFull) := by
    refine balances_bind (balances_touches touches_putNowait) fun room => ?_
    split
    · exact balances_ret j
    · exact balances_post _ (balances_raise _)
  refine balances_bind (balances_touches touches_now) fun _ => ?_
  refine balances_bind (balances_emit _) fun _ => ?_
  exact fun js => books_bind (books_addJob _) fun _ => books_bind books_persistJob fun _ => queued js

theorem balances_createJob (s : Submission) (l : Lineage) (key : String) :
    Balances (createJob s l j key) := by
  refine balances_bind (balances_touches (touches_checkAndStore key)) fun existing => ?_
  split
  · refine balances_bind (balances_touches touches_world) fun w => ?_
    split
    · exact balances_ret _
    · exact balances_materialize s l key
  · exact balances_materialize s l key

theorem balances_submitLocked (s : Submission) (clientSource clientSourceEventId : String) :
    Balances (submitLocked cfg s clientSource clientSourceEventId) := by
  refine balances_bind (balances_touches touches_uuid7) fun candidate => ?_
  refine balances_bind (balances_touches (touches_checkAndStoreSourceEvent _)) fun found => ?_
  obtain ⟨verdict, record⟩ := found
  cases verdict with
  | equivalent => exact balances_touches (touches_equivalent record clientSource clientSourceEventId)
  | conflict => exact balances_bind (balances_emit _) fun _ => balances_raise _
  | new =>
    refine balances_bind (balances_touches touches_uuid7) fun key => ?_
    refine balances_tryCatch (balances_createJob s _ _) fun e => ?_
    split
    · refine balances_bind (balances_touches touches_world) fun w => ?_
      split
      · exact balances_bind (balances_touches (touches_releaseSourceEvent _ _)) fun _ =>
          balances_raise e
      · exact balances_raise e
    · exact balances_raise e

theorem balances_submit (s : Submission) : Balances (submitJob cfg s) := by
  unfold submitJob
  split
  · have locked (key : String) : Touches [] (update (·.lockSource key)) :=
      touches_aside fun _ => ⟨rfl, rfl, rfl, rfl, rfl, rfl⟩
    have unlocked (key : String) : Touches [] (update (·.unlockSource key)) :=
      touches_aside fun _ => ⟨rfl, rfl, rfl, rfl, rfl, rfl⟩
    have whole (key clientSource clientSourceEventId : String) : Balances (do
        update (·.lockSource key)
        let job ← (submitLocked cfg s clientSource clientSourceEventId).tryCatch fun e => do
          update (·.unlockSource key)
          throw e
        update (·.unlockSource key)
        return job) := by
      refine balances_bind (balances_touches (locked key)) fun _ => ?_
      refine balances_bind (balances_tryCatch (balances_submitLocked s _ _) fun e => ?_)
        fun job => ?_
      · exact balances_bind (balances_touches (unlocked key)) fun _ => balances_raise e
      · exact balances_bind (balances_touches (unlocked key)) fun _ => balances_ret job
    refine balances_bind (balances_touches touches_world) fun w => ?_
    split
    · refine balances_bind (balances_touches (touches_perform _)) fun a => ?_
      exact balances_bind (balances_touches (touches_orRaise a)) fun _ => whole _ _ _
    · exact whole _ _ _
  · have made (key : String) : Balances (do
        let jobId ← uuid7
        createJob s {} jobId key) :=
      balances_bind (balances_touches touches_uuid7) fun jobId => balances_createJob s {} key
    unfold submitPlain
    split
    · exact made _
    · exact balances_bind (balances_touches touches_uuid7) fun u => made _

end Submissions

section Startup

variable {α β : Type} {j : JobId} {cfg : Settings}

/-- A coroutine that is still under way is behind only with jobs in memory. -/
def Account.Present (τ : Account) (w : World) : Prop :=
  τ.ended = false ∧ ∀ j ∈ τ.behind, (w.job? j).isSome

/-- The coroutine comes to be behind only with jobs in memory. -/
def Recovers (x : Task α) : Prop :=
  ∀ τ w, τ.Present w → Follows accounting τ w x fun _ τ' w' => τ'.Present w'

theorem recovers_bind {x : Task α} {f : α → Task β} (hx : Recovers x) (hf : ∀ a, Recovers (f a)) :
    Recovers (x.bind f) := by
  intro τ w present
  refine follows_bind ((hx τ w present).mono ?_)
  rintro (e | a) τ' w' h
  · exact h
  · exact hf a τ' w' h

theorem recovers_ret (a : α) : Recovers (Co.ret a : Task α) := fun _ _ present => present

theorem recovers_touches {x : Task α} (h : Touches [] x) : Recovers x := by
  intro τ w present
  have keeps : Keeps accounting (fun _ => True) τ x :=
    h.keeps (fun alters => ⟨present.1, .aside (fun j => congrArg (·.get? j)
      (alters.jobs (by simp)).1) (alters.jobs (by simp)).2⟩) trivial
  have stays {w' : World} (grows : accounting.grows w w') : τ.Present w' :=
    ⟨present.1, fun j mem => grows j (present.2 j mem)⟩
  exact keeps.follows (fun _ _ grows => stays grows) fun _ _ grows _ => stays grows

theorem recovers_updateJob (f : Job → Job) : Recovers (updateJob j f) := by
  intro τ w present
  by_cases here : (w.job? j).isSome
  · have posts : Posts τ w (τ.owe j) (w.updateJob j f) := .update j f
    refine ⟨τ.owe j, ⟨present.1, posts⟩, present.1, fun i mem => ?_⟩
    rcases List.mem_cons.mp mem with rfl | mem
    · exact posts.grows i here
    · exact posts.grows i (present.2 i mem)
  · have same (i : JobId) : (w.updateJob j f).job? i = w.job? i := by
      simp only [World.job?, World.updateJob, Dict.get?_modify]
      split
      · subst i
        have gone : w.jobs.get? j = none := by simpa [World.job?] using here
        rw [gone]
        rfl
      · rfl
    exact ⟨τ, ⟨present.1, .aside same rfl⟩, present.1, fun i mem => (same i).symm ▸ present.2 i mem⟩

theorem recovers_emit (draft : Draft) : Recovers (emit draft) := recovers_touches (touches_emit _)

theorem recovers_checkDispatchCap : Recovers (checkDispatchCap j) := by
  refine recovers_bind (recovers_touches touches_deref) fun job => ?_
  split
  · refine recovers_bind (recovers_emit _) fun _ => ?_
    exact recovers_bind (recovers_updateJob _) fun _ => recovers_ret false
  · exact recovers_ret true

theorem recovers_enqueueForRecovery : Recovers (enqueueForRecovery j) := by
  refine recovers_bind (recovers_updateJob _) fun _ => ?_
  refine recovers_bind (recovers_emit _) fun _ => ?_
  refine recovers_bind (recovers_touches touches_putNowait) fun room => ?_
  split
  · exact recovers_touches (touches_record _)
  · exact recovers_ret ()

theorem recovers_recoverJob (now : UtcTime) : Recovers (recoverJob cfg j now) := by
  have queued (action : RecoveryAction) : Recovers (recoverQueued j action) := by
    refine recovers_bind recovers_checkDispatchCap fun below => ?_
    split
    · exact recovers_bind recovers_enqueueForRecovery fun _ => recovers_ret _
    · exact recovers_ret _
  have dispatched : Recovers (recoverDispatched cfg j now) := by
    refine recovers_bind (recovers_touches touches_deref) fun job => ?_
    split
    · exact recovers_ret _
    refine recovers_bind recovers_checkDispatchCap fun below => ?_
    split
    · refine recovers_bind (recovers_updateJob _) fun _ => ?_
      exact recovers_bind recovers_enqueueForRecovery fun _ => recovers_ret _
    · exact recovers_ret _
  have received : Recovers (recoverResponseReceived j) := by
    refine recovers_bind (recovers_emit _) fun _ => ?_
    refine recovers_bind (recovers_touches touches_now) fun _ => ?_
    exact recovers_bind (recovers_updateJob _) fun _ => recovers_ret _
  refine recovers_bind (recovers_touches touches_deref) fun job => ?_
  split
  · exact recovers_ret _
  · exact recovers_ret _
  · exact recovers_ret _
  · exact recovers_bind (queued _) fun _ => recovers_ret _
  · exact recovers_bind (queued _) fun _ => recovers_ret _
  · exact recovers_bind dispatched fun _ => recovers_ret _
  · exact recovers_bind received fun _ => recovers_ret _
  · exact recovers_ret _
  · exact recovers_ret _

theorem recovers_recoverAll (now : UtcTime) (js : List JobId) (report : RecoveryReport) :
    Recovers (recoverAll cfg now js report) := by
  induction js generalizing report with
  | nil => exact recovers_ret report
  | cons j js ih =>
    refine recovers_bind (recovers_recoverJob now) fun action => ?_
    exact recovers_bind (recovers_touches (touches_record _)) fun _ => ih _

/-- Writing out a list of jobs settles every job in it. -/
theorem books_persistAll (js : List JobId) : Books js (Co.each js persistJob) (fun _ => []) [] := by
  induction js with
  | nil => exact books_ret ()
  | cons j js ih => exact books_bind (books_mono books_persistJob (fun _ => List.Subset.refl js)
      (List.Subset.refl [])) fun _ => ih

theorem recovers_then {x : Task α} {f : α → Task β} {τ : Account} {w : World}
    {Φ : Except Exc β → Account → World → Prop} (hx : Recovers x) (present : τ.Present w)
    (raised : ∀ e τ' w', τ'.Present w' → Φ (.error e) τ' w')
    (rest : ∀ a τ' w', τ'.Present w' → Follows accounting τ' w' (f a) Φ) :
    Follows accounting τ w (x.bind f) Φ := by
  refine follows_bind ((hx τ w present).mono ?_)
  rintro (e | a) τ' w' h
  · exact raised e τ' w' h
  · exact rest a τ' w' h

/-- The end of the startup, once the recovery pass is over. -/
theorem books_startup (js : List JobId) (report : RecoveryReport) : Books js (do
    Co.each js persistJob
    let _ ← emit (eventSystemStartup none none none none [] (some report.summary))
    if !(← perform .recentHeartbeat : Bool) then
      update (·.setHub .awaitingAuthority)
    update (·.setPhase .serving)) (fun _ => []) [] := by
  refine books_bind (books_persistAll js) fun _ => ?_
  refine books_bind (balances_emit _ []) fun _ => ?_
  refine books_bind (balances_touches (touches_perform .recentHeartbeat) []) fun recent => ?_
  split
  · exact books_bind (balances_touches (touches_setHub _) []) fun _ =>
      balances_touches (touches_setPhase _) []
  · exact balances_touches (touches_setPhase _) []

/-- The startup writes out whatever the recovery pass has changed. -/
theorem startup_settles (τ : Account) (w : World) (fresh : τ.Within []) :
    Follows accounting τ w (startup cfg) fun r τ' _ =>
      τ'.ended = false ∧ ∀ u, r = .ok u → τ'.behind = [] := by
  have present : τ.Present w := ⟨fresh.1, fun j mem => by cases fresh.2 j mem⟩
  have raised (e : Exc) (τ' : Account) (w' : World) (h : τ'.Present w') :
      τ'.ended = false ∧ ∀ u : Unit, Except.error e = .ok u → τ'.behind = [] := ⟨h.1, nofun⟩
  refine recovers_then (recovers_touches (touches_setPhase _)) present raised fun _ _ _ present => ?_
  refine recovers_then (recovers_touches touches_now) present raised fun _ _ _ present => ?_
  refine recovers_then (recovers_touches touches_world) present raised fun w₀ _ _ present => ?_
  refine recovers_then (recovers_recoverAll _ _ _) present raised fun report τ₁ w₁ present => ?_
  have within : τ₁.Within w₁.jobs.keys := by
    refine ⟨present.1, fun j mem => ?_⟩
    by_contra absent
    have gone : w₁.job? j = none := Dict.get?_eq_none_iff.mpr absent
    have here := present.2 j mem
    rw [gone] at here
    cases here
  refine (books_startup w₁.jobs.keys report τ₁ w₁ within).mono ?_
  rintro (e | u) τ' w' h
  · exact ⟨h.1, nofun⟩
  · exact ⟨h.1, fun _ _ => List.eq_nil_iff_forall_not_mem.mpr fun j mem => by cases h.2 j mem⟩

theorem balances_autoAcceptPoll : Balances (autoAcceptPoll cfg) := by
  have accepted (j : JobId) : Balances (checkAutoAccept cfg j) := by
    refine balances_bind (balances_touches touches_deref) fun job => ?_
    split
    · exact balances_ret ()
    refine balances_bind (balances_touches touches_now) fun _ => ?_
    split
    · exact balances_bind (balances_emit _) fun _ => balances_write _
    · exact balances_ret ()
  have polling (b : Bool) : Touches [] (update (·.setPolling b)) :=
    touches_aside fun _ => ⟨rfl, rfl, rfl, rfl, rfl, rfl⟩
  refine balances_bind (balances_touches (polling true)) fun _ => ?_
  refine balances_bind (balances_touches touches_world) fun w => ?_
  refine balances_bind (balances_each fun j => ?_) fun _ => balances_touches (polling false)
  exact balances_tryCatch (accepted j) fun _ => balances_ret ()

end Startup

section System

variable {cfg : Settings}

/-- A call that returns is behind with no job; of the calls that raise, an override may be
behind with its own job and the startup with any. -/
def Settled (t : Call) {α : Type} (r : Except Exc α) (τ : Account) : Prop :=
  τ.ended = false ∧ (τ.behind = [] ∨ ∃ e, r = .error e ∧
    (t = .startup ∨ ∃ j q, t = .override j q ∧ ∀ i ∈ τ.behind, i = j))

theorem settled_of_within {t : Call} {α : Type} {r : Except Exc α} {τ : Account}
    (within : τ.Within []) : Settled t r τ :=
  ⟨within.1, .inl (List.eq_nil_iff_forall_not_mem.mpr fun j mem => by cases within.2 j mem)⟩

theorem settled_of_balances (t : Call) {x : Task t.Res} (h : Balances x) (w : World) :
    Follows accounting {} w x fun r τ' _ => Settled t r τ' := by
  refine (h [] {} w ⟨rfl, (by simp)⟩).mono ?_
  rintro (e | a) τ' w' within
  · exact settled_of_within within
  · exact settled_of_within within

/-- The bookkeeping as a plan for the whole system. -/
def accounts (cfg : Settings) : Plan (orchestrator cfg) where
  toDiscipline := accounting
  first _ _ := {}
  ends t r τ _ := Settled t r τ
  retire τ := τ.close
  retire_parks _ := trivial

theorem accounts_sound (cfg : Settings) : (accounts cfg).Sound where
  follows {w t} _ := by
    cases t with
    | startup =>
      refine (startup_settles {} w ⟨rfl, (by simp)⟩).mono ?_
      rintro (e | u) τ' w' ⟨running, settled⟩
      · exact ⟨running, .inr ⟨e, rfl, .inl rfl⟩⟩
      · exact ⟨running, .inl (settled u rfl)⟩
    | override j q =>
      refine (books_override [] q {} w ⟨rfl, (by simp)⟩).mono ?_
      rintro (e | reply) τ' w' within
      · exact ⟨within.1, .inr ⟨e, rfl, .inr ⟨j, q, rfl, fun i mem => by
          simpa using within.2 i mem⟩⟩⟩
      · exact settled_of_within within
    | worker j => exact settled_of_balances (.worker j) balances_worker w
    | autoAccept => exact settled_of_balances .autoAccept balances_autoAcceptPoll w
    | submit s => exact settled_of_balances (.submit s) (balances_submit s) w
    | review j r device => exact settled_of_balances (.review j r device) balances_review w
    | checkPermission capabilityId action ctx mode =>
      exact settled_of_balances (.checkPermission capabilityId action ctx mode)
        (balances_touches (touches_checkPermission _ _ _ _)) w
    | setHub target reason =>
      exact settled_of_balances (.setHub target reason)
        (balances_touches (touches_changeHub _ _ _)) w
    | configure capabilities states routes =>
      have configured : Touches [] (update (·.configured capabilities states routes)) :=
        touches_aside fun _ => ⟨rfl, rfl, rfl, rfl, rfl, rfl⟩
      exact settled_of_balances (.configure capabilities states routes)
        (balances_touches configured) w
  answers _ := trivial

end System

end Accounts

end Drnt.Orchestrator
