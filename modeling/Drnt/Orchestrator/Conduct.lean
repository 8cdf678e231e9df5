import Drnt.Orchestrator.Protocol

/-! The discipline of the orchestrator's coroutines: every write is a write of the protocol.
Which token a call starts with depends on the checks that it makes before its first write. -/
namespace Drnt.Orchestrator

open Lib Lib.Coop

section Views

variable {w : World} {j : JobId}

@[simp] theorem view_core (w : World) (j : JobId) :
    w.view.core j = (w.job? j).map Job.core := rfl

theorem view_row (w : World) (j : JobId) : w.view.row j = (w.row? j).map Job.core := rfl

@[simp] theorem view_records (w : World) (k : String) : w.view.records k = w.records.get? k := rfl

@[simp] theorem view_trace (w : World) : w.view.trace = w.trace := rfl

theorem view_addJob (w : World) (j : JobId) (job : Job) :
    (w.addJob j job).view = (Act.add j job.core).apply w.view := by
  ext i <;> simp only [World.view, Act.apply, World.job?, World.addJob, Dict.get?_set]
  split <;> simp

theorem view_updateJob {f : Job → Job} {g : Core → Core} (h : ActsAs f g) (w : World)
    (j : JobId) : (w.updateJob j f).view = (Act.revise j g).apply w.view := by
  have comp : Job.core ∘ f = g ∘ Job.core := funext h
  ext i <;> simp only [World.view, Act.apply, World.job?, World.updateJob, Dict.get?_modify]
  split <;> simp [comp]

/-- An update that leaves the core alone. -/
theorem view_updateJob_quiet {f : Job → Job} (h : ActsAs f id) (w : World) (j : JobId) :
    (w.updateJob j f).view = w.view := by
  rw [view_updateJob h]
  ext i <;> simp only [Act.apply, Option.map_id_fun, id_eq]
  split <;> simp_all

theorem view_persistJob (w : World) (j : JobId) :
    (w.persistJob j).view = (Act.persist j).apply w.view := by
  refine View.ext rfl rfl ?_ ?_ rfl rfl rfl rfl ?_ rfl ?_ rfl rfl
  · simp only [World.view, Act.apply, World.persistJob, World.persistedDb]
    cases w.db <;> cases w.jobs.get? j <;> rfl
  · funext i
    simp only [World.view, Act.apply, World.persistJob, World.persistedDb, World.job?,
      View.persisted]
    cases w.db with
    | none => cases w.jobs.get? j <;> rfl
    | some db =>
      cases w.jobs.get? j with
      | none => rfl
      | some job =>
        simp only [Database.replaceJob, Option.isSome_some, Option.map_some, Option.bind_some,
          Dict.get?_set, Dict.get?_filter]
        split
        · rfl
        · rename_i hi
          rw [Option.filter_map]
          simp only [hi, false_or]
          rfl
  all_goals
    simp only [World.view, Act.apply, World.persistJob, World.persistedDb]
    cases w.db <;> cases w.jobs.get? j <;> rfl

/-- The row of a job that has just been written out. -/
theorem row_persistJob {c : Core} (here : w.view.core j = some c) :
    (w.persistJob j).view.row j = if w.view.attached then some c else none := by
  rw [view_persistJob]
  simp only [Act.apply, View.persisted, here]
  cases hd : w.db with
  | none => simp [World.view, hd]
  | some db => simp [World.view, hd]

theorem view_storeKey (w : World) (k : String) (j : JobId) :
    (w.storeKey k j).view = (Act.bind k j).apply w.view := by
  ext i <;> simp only [World.view, Act.apply, World.storeKey, World.job?, Dict.get?_set] <;>
    cases w.db <;> rfl

theorem view_storeReview (w : World) (k : String) (r : ReviewIdempotencyRecord) :
    (w.storeReview k r).view = (Act.conclude k r).apply w.view := by
  ext i <;> simp only [World.view, Act.apply, World.storeReview, World.job?, Dict.get?_set]
  case kept =>
    rcases Option.eq_none_or_eq_some w.db with hd | ⟨db, hd⟩ <;> simp [hd, Dict.get?_set]
  all_goals cases w.db <;> rfl

theorem view_setHub (w : World) (h : HubState) : (w.setHub h).view = w.view := by
  ext i <;> simp only [World.view, World.setHub, World.job?] <;> cases w.db <;> rfl

theorem view_reserveSource (w : World) (k : String) (r : SourceEventRecord) :
    (w.reserveSource k r).view = (Act.map k r).apply w.view := by
  ext i <;> simp only [World.view, Act.apply, World.reserveSource, World.job?, Dict.get?_set]
  case mapped =>
    rcases Option.eq_none_or_eq_some w.db with hd | ⟨db, hd⟩ <;> simp [hd, Dict.get?_set]
  all_goals cases w.db <;> rfl

theorem view_cacheSource (w : World) (k : String) (r : SourceEventRecord) :
    (w.cacheSource k r).view = (Act.cache k r).apply w.view := by
  ext i <;> simp only [World.view, Act.apply, World.cacheSource, World.job?, Dict.get?_set]

theorem view_releaseSource (w : World) (k : String) (j : JobId) :
    (w.releaseSource k j).view = (Act.unmap k j).apply w.view := by
  ext i <;> simp only [World.view, Act.apply, World.releaseSource, World.job?, Dict.get?_filter]
  case mapped => cases w.db <;> simp [Dict.get?_filter]
  all_goals cases w.db <;> rfl

theorem view_loadable (w : World) (j : JobId) : w.view.Loadable j ↔ w.loadable j = true := by
  simp only [View.Loadable, World.view, World.loadable, Bool.or_eq_true, Option.isSome_iff_exists,
    Option.map_eq_some_iff]
  constructor
  · rintro (⟨_, job, h, -⟩ | ⟨_, row, h, -⟩)
    · exact .inl ⟨job, h⟩
    · exact .inr ⟨row, h⟩
  · rintro (⟨job, h⟩ | ⟨row, h⟩)
    · exact .inl ⟨_, job, h, rfl⟩
    · exact .inr ⟨_, row, h, rfl⟩

theorem view_source? (w : World) (k : String) : w.view.source? k = w.sourceRecord? k := by
  simp only [View.source?, World.view, World.sourceRecord?]
  cases w.db.bind fun db => db.sourceEventRecords.get? k <;> rfl

end Views

section Calls

/-- The key of a submission that has no source identity and brings a key of its own. -/
def Submission.plainKey? (s : Submission) : Option String :=
  match s.clientSource, s.clientSourceEventId with
  | some _, some _ => none
  | _, _ => s.idempotencyKey

/-- The key of the source event that a submission carries. -/
def Submission.sourceKey? (s : Submission) : Option String :=
  match s.clientSource, s.clientSourceEventId with
  | some clientSource, some clientSourceEventId =>
    some (sourceEventKey clientSource clientSourceEventId)
  | _, _ => none

def Submission.intent (s : Submission) (cfg : Settings) : String :=
  cfg.intentHash s.rawInput s.inputModality

/-- The key is stored for a job that is not in memory. -/
def Submission.stranded (s : Submission) (w : World) : Bool :=
  ((s.plainKey?.bind w.records.get?).map fun j => (w.job? j).isNone).getD false

/-- The request modifies a result that is there. -/
def OverrideRequest.modifies (r : OverrideRequest) (status : JobStatus) : Bool :=
  r.overrideType = "modify" ∧ r.modifiedResult ≠ none ∧ r.modifiedResult ≠ some "" ∧
    (status = .responseReceived ∨ status = .delivered)

/-- The override passes the guards and sets its own. -/
def OverrideRequest.reserves (r : OverrideRequest) (job : Job) : Bool :=
  overrideRefusal job = none ∧ (r.overrideType ∈ ["cancel", "redirect", "escalate"] ∨
    job.status = .proposalReady ∨ r.modifies job.status)

/-- The override is one of the three that can take effect in every open status. -/
def OverrideRequest.sound (r : OverrideRequest) : Bool :=
  r.overrideType = "cancel" ∨
    r.overrideType ∈ ["redirect", "escalate"] ∧ (modelOf? r.detail).isSome

/-- The reply of an override that took effect. -/
def OverrideReply.effective : OverrideReply → Bool
  | notFound | noOp _ | error _ => false
  | cancelled | revoked | redirected _ | revokedAndRedirected _ | modified _ | escalated _ => true

/-- The review is a terminal decision that the guards let through. -/
def ReviewRequest.reserves (r : ReviewRequest) (job : Job) : Bool :=
  reviewRefusal job r = none ∧ r.decision ∈ terminalReviewDecisions

/-- A terminal decision with a modified result if and only if it is an edit. -/
def ReviewRequest.wellFormed (r : ReviewRequest) : Bool :=
  if r.decision = "edit" then r.modifiedResult ≠ none ∧ r.modifiedResult ≠ some ""
  else r.decision ∈ terminalReviewDecisions ∧ r.modifiedResult = none

def first : Call → World → Tok
  | .startup, w => .boots w.jobs.keys .rising
  | .worker j, _ => .fetches j
  | .autoAccept, _ => .polls none
  | .submit s, w => .submits (s.stranded w) .none .start
  | .override j r, w =>
    match w.job? j with
    | none => .idle
    | some job =>
      if r.reserves job then .decides j (.override r.overrideType job.status) .accepted .none
      else if (overrideRefusal job).isSome then .refused
      else .idle
  | .review j r _, w =>
    match w.reviewRecords.get? r.decisionIdempotencyKey with
    | some record =>
      if record.payloadIdentity = r.payload j then .repeats record else .refused
    | none =>
      match w.job? j with
      | none => .idle
      | some job =>
        if r.reserves job then .decides j (.review (r.payload j)) .accepted .none
        else if (reviewRefusal job r).isSome then .refused
        else if r.decision = "defer" then .defers (r.payload j) .accepted
        else .idle
  | .checkPermission _ _ _ _, _ | .setHub _ _, _ | .configure _ _ _, _ => .idle

def Tok.again : Tok → Bool
  | submits again _ _ => again
  | _ => false

/-- The override of the job ends in a type error: its last failing capability cannot be
hashed. -/
def View.Unhashable (v : View) (j : JobId) : Prop :=
  ∃ c, v.core j = some c ∧ ∃ e, isSentinelFailure c.lastFailingCapabilityId = .error e

/-- How a submission for a source event ends: it has made the mapping, and the job unless it
is cancelled before; it has found the mapping, and answers with its job or with the conflict;
it has taken its mapping back; or it was cancelled before it had one. -/
def Sourced (key intent : String) (r : Except Exc JobId) (l : Lease) (p : SubmitPhase) (v : View) :
    Prop :=
  match l with
  | .none => r = .error .cancelled
  | .reserved k record => k = key ∧ record.intentEquivalenceHash = intent ∧
      (∀ i, r = .ok i → i = record.jobId ∧ p = .ended) ∧
      (p ≠ .ended → r = .error .cancelled ∨ v.Loadable record.jobId)
  | .found k record => k = key ∧
      if record.intentEquivalenceHash = intent then
        ∀ i, r = .ok i → i = record.jobId ∧ v.Loadable i
      else r = .error (.sourceEventConflict record.jobId) ∨ (∃ x, r = .error x) ∧ v.Lost
  | .released k => k = key ∧ ∃ x, r = .error x

structure SubmitEnds (cfg : Settings) (s : Submission) (r : Except Exc JobId) (τ : Tok) (v : View) :
    Prop where
  plain : ∀ k j, s.plainKey? = some k → r = .ok j →
    τ.again ∨ v.records k = some j ∧ ∃ c, v.core j = some c
  stored : ∀ again l j, τ ≠ .submits again l (.stored j)
  sourced : ∀ key, s.sourceKey? = some key →
    ∃ again l p, τ = .submits again l p ∧ Sourced key (s.intent cfg) r l p v

structure OverrideEnds (j : JobId) (q : OverrideRequest) (r : Except Exc OverrideReply) (τ : Tok)
    (v : View) : Prop where
  refused : τ = .refused → ∃ reason, r = .ok (.noOp reason)
  idle : τ = .idle → ∀ reply, r = .ok reply → reply.effective = false
  decided : ∀ d p succ, τ = .decides j d p succ → p ≠ .accepted ∧ (q.sound →
    (p = .settled ∧ (succ = .none ∨ succ = .made) ∧
      ((∃ reply, r = .ok reply ∧ reply.effective) ∨ v.Lost ∨ v.Unhashable j)) ∨
    p = .aborted ∧ v.Lost)
  effective : ∀ d p succ reply, τ = .decides j d p succ → r = .ok reply → reply.effective → p.told
  live : ∀ d o, τ ≠ .decided j d o

/-- The answer of a review that comes to nothing. -/
def Reply.refuses (reply : Reply) : Prop := reply.statusCode ∈ [404, 409, 422]

structure ReviewEnds (j : JobId) (q : ReviewRequest) (r : Except Exc Reply) (τ : Tok)
    (v : View) : Prop where
  refused : τ = .refused →
    ∃ reply, r = .ok reply ∧ reply.refuses ∧ (q.wellFormed → reply.statusCode = 409)
  idle : τ = .idle → ∃ reply, r = .ok reply ∧ reply.refuses
  decided : ∀ d p succ, τ = .decides j d p succ → p ≠ .accepted ∧
    ((∃ record, p = .concluded record ∧ r = .ok record.outcome) ∨ p = .aborted ∧ v.Lost ∨
      p = .reserved ∧ v.Unwritten ∧ q.decision = "edit")
  deferred : ∀ p phase, τ = .defers p phase →
    (∃ record, phase = .concluded record ∧ r = .ok record.outcome) ∨ phase = .announced ∧ v.Lost
  live : ∀ d o, τ ≠ .decided j d o
  repeats : ∀ record, τ = .repeats record → r = .ok record.outcome

/-- What holds when a call ends, by the token it then has. -/
def Ends (cfg : Settings) : (t : Call) → Except Exc t.Res → Tok → World → Prop
  | .submit s, r, τ, w => SubmitEnds cfg s r τ w.view
  | .override j q, r, τ, w => OverrideEnds j q r τ w.view
  | .review j q _, r, τ, w => ReviewEnds j q r τ w.view
  | .checkPermission _ _ ctx _, r, _, w =>
      ∀ result, r = .ok result → ∃ e,
        e.toDraft = permissionEvent result.toPermissionDecision ctx ∧
          e.sourceEventId = result.sourceEventId ∧
          w.view.Answered "wal.permission_check" ctx.jobId e
  | .startup, _, _, _ | .worker _, _, _, _ | .autoAccept, _, _, _ | .setHub _ _, _, _, _
  | .configure _ _ _, _, _, _ => True

end Calls

section Discipline

theorem View.Grows.refl (v : View) : v.Grows v := ⟨List.prefix_refl _, id, fun h => ⟨_, h⟩, id⟩

theorem View.Grows.trans {v₁ v₂ v₃ : View} (h : v₁.Grows v₂) (h' : v₂.Grows v₃) :
    v₁.Grows v₃ where
  trace := h.trace.trans h'.trace
  records hk := h'.records (h.records hk)
  core hc := by
    obtain ⟨c, hc⟩ := h.core hc
    exact h'.core hc
  issued hu := h'.issued (h.issued hu)

theorem Allowed.grows {τ τ' : Tok} {v : View} {a : Act} (h : Allowed τ v a τ') :
    v.Grows (a.apply v) := by
  have hcore (j : JobId) (g : Core → Core) : v.Grows ((Act.revise j g).apply v) := by
    refine ⟨List.prefix_refl _, id, fun {i c} hc => ?_, id⟩
    by_cases hi : i = j
    · subst hi; exact ⟨g c, by simp [Act.apply, hc]⟩
    · exact ⟨c, by simp [Act.apply, hi, hc]⟩
  have hadd (j : JobId) (c₀ : Core) : v.Grows ((Act.add j c₀).apply v) := by
    refine ⟨List.prefix_refl _, id, fun {i c} hc => ?_, id⟩
    by_cases hi : i = j
    · exact ⟨c₀, by simp [Act.apply, hi]⟩
    · exact ⟨c, by simp [Act.apply, hi, hc]⟩
  have htrace (os : List Obs) : v.trace <+: v.trace ++ os := List.prefix_append _ _
  have hmint (u : Uuid7) : v.Grows ((Act.mint u).apply v) :=
    ⟨List.prefix_refl _, id, fun h => ⟨_, h⟩, fun h => List.mem_cons_of_mem _ h⟩
  have hobs (o : Obs) : v.Grows ((Act.observe o).apply v) := ⟨htrace _, id, fun h => ⟨_, h⟩, id⟩
  have henq (j : JobId) : v.Grows ((Act.enqueue j).apply v) := ⟨htrace _, id, fun h => ⟨_, h⟩, id⟩
  cases a with
  | quiet => exact .refl v
  | mint u => exact hmint u
  | revise j g => exact hcore j g
  | add j c => exact hadd j c
  | observe o => exact hobs o
  | enqueue j => exact henq j
  | persist | dequeue | taskDone | conclude | map | cache | unmap | enter =>
    exact ⟨List.prefix_refl _, id, fun h => ⟨_, h⟩, id⟩
  | bind k j =>
    cases h with
    | bind free =>
      refine ⟨List.prefix_refl _, fun {k' j'} hk => ?_, fun h => ⟨_, h⟩, id⟩
      have : k' ≠ k := by rintro rfl; rw [free] at hk; cases hk
      simp [Act.apply, this, hk]

def Move (τ : Tok) (w : World) (τ' : Tok) (w' : World) : Prop :=
  ∃ a, Allowed τ w.view a τ' ∧ w'.view = a.apply w.view

/-- A generated id is fresh, and waiting for a lock ends only with the lock or a cancellation;
any other answer is possible. -/
def admits (w : World) : (q : Req) → Ans q → Prop
  | .uuid7, (u : Uuid7) => u ∉ w.issued ∧ w.records.get? u.text = none
  | .sourceLock _, (a : Except Exc Unit) => a = .ok () ∨ a = .error .cancelled
  | _, _ => True

abbrev discipline : Discipline sig where
  Tok := Tok
  move := Move
  parks := Tok.parks
  grows w w' := w.view.Grows w'.view
  admits := admits
  grows_refl w := .refl w.view
  grows_trans := .trans
  move_grows := fun ⟨_, allowed, eq⟩ => eq ▸ allowed.grows

abbrev plan (cfg : Settings) : Plan (orchestrator cfg) where
  toDiscipline := discipline
  first := first
  ends := Ends cfg
  retire := Tok.retire
  retire_parks := Tok.retire_parks

end Discipline

end Drnt.Orchestrator
