import Drnt.Orchestrator.Trial
import Drnt.Lib.Rerun

/-! A review that is sent again after an emit of the first call has raised. -/
namespace Drnt.Orchestrator

open Lib Lib.Coop

section Retries

/-- An emit that raised. -/
def lostEmit : sig.Call → Prop
  | ⟨.emitDurable _, (a : Except Exc Bool)⟩ => ∃ e, a = .error e
  | _ => False

/-- An answer while the audit writer takes every event; files can be written too. -/
def granted : sig.Call → Prop
  | ⟨.emitDurable _, (a : Except Exc Bool)⟩ => a = .ok true
  | ⟨.writeFile _, (a : Except Exc Unit)⟩ => a = .ok ()
  | _ => True

/-- The review comes to the handler of its decision. -/
def Admitted (w : World) (j : JobId) (r : ReviewRequest) : Prop :=
  w.reviewRecords.get? r.decisionIdempotencyKey = none ∧
    ∃ job, w.job? j = some job ∧ reviewRefusal job r = none

/-- Some review or override can act on the job. -/
def Actionable (w : World) (j : JobId) : Prop :=
  (∃ r, Admitted w j r) ∨ ∃ job, w.job? j = some job ∧ overrideRefusal job = none

/-- The event that ends the job's life under a decision. -/
def lifecycleType (decision : String) : Option String :=
  if decision = "approve" ∨ decision = "edit" then some "job.delivered"
  else if decision = "reject" then some "job.failed"
  else if decision = "decline_to_act" then some "job.closed_no_action"
  else none

/-- The audit writer has acknowledged an event of the job. -/
def Logged (w : World) (j : JobId) (type : String) : Prop :=
  ∃ e, Obs.answered e .acknowledged ∈ w.trace ∧ e.eventType = type ∧ e.jobId = some j

/-- What a review call reads and leaves of the state. -/
structure Same (j : JobId) (key : String) (w w' : World) : Prop where
  job : w'.job? j = w.job? j
  record : w'.reviewRecords.get? key = w.reviewRecords.get? key

/-- After a call in which an emit raised, a review or an override can act or the decision's event
is in the log; and the same request, sent again while emits succeed, does what a first call would
do. -/
def Retryable (cfg : Settings) (w : World) (j : JobId) (r : ReviewRequest) (device : String) :
    Prop :=
  ∀ calls res w₁, (reviewJob j r device cfg).Trace w calls res w₁ → (∃ c ∈ calls, lostEmit c) →
    (Actionable w₁ j ∨ ∃ type, lifecycleType r.decision = some type ∧ Logged w₁ j type) ∧
    ∀ calls' res' w₂, (reviewJob j r device cfg).Trace w₁ calls' res' w₂ →
      (∀ c ∈ calls', granted c) → ∃ reply, res' = .ok reply ∧ reply.statusCode = 200 ∧
        (∃ w₃, (reviewJob j r device cfg).Trace w calls' (.ok reply) w₃ ∧
          Same j r.decisionIdempotencyKey w₃ w₂) ∧
        ∀ type, lifecycleType r.decision = some type → Logged w₂ j type

end Retries

section Steps

variable {j : JobId} {key : String} {w w' : World}

theorem Same.refl (w : World) : Same j key w w := ⟨rfl, rfl⟩

theorem Same.trans (w₁ w₂ w₃ : World) (h : Same j key w₁ w₂) (h' : Same j key w₂ w₃) :
    Same j key w₁ w₃ := ⟨h'.job.trans h.job, h'.record.trans h.record⟩

/-- Steps that keep the job and the record. -/
theorem same_build (draft : Draft) : (build draft).Ensures (Same j key) :=
  Co.ensures_bind Same.trans
    (Co.ensures_bind Same.trans (Co.ensures_perform .refl _) fun _ =>
      Co.ensures_bind Same.trans (Co.ensures_modify fun _ => ⟨rfl, rfl⟩) fun _ =>
        Co.ensures_ret .refl _)
    fun _ => Co.ensures_bind Same.trans (Co.ensures_perform .refl _) fun _ => Co.ensures_ret .refl _

theorem same_record (o : Obs) : (update (·.record o)).Ensures (Same j key) :=
  Co.ensures_modify fun _ => ⟨rfl, rfl⟩

theorem same_emitDurable (e : Event) : (emitDurable e).Ensures (Same j key) := by
  refine Co.ensures_bind Same.trans (same_record _) fun _ =>
    Co.ensures_bind Same.trans (Co.ensures_perform .refl _) fun a => ?_
  match (a : Except Exc Bool) with
  | .ok true => exact Co.ensures_bind Same.trans (same_record _) fun _ => Co.ensures_ret .refl _
  | .ok false => exact Co.ensures_bind Same.trans (same_record _) fun _ => Co.ensures_ret .refl _
  | .error _ => exact Co.ensures_bind Same.trans (same_record _) fun _ => Co.ensures_raise .refl _

theorem same_emit (draft : Draft) : (emit draft).Ensures (Same j key) :=
  Co.ensures_bind Same.trans (same_build _) fun _ =>
    Co.ensures_bind Same.trans (same_emitDurable _) fun _ => Co.ensures_ret .refl _

theorem same_emitDecision (r : ReviewRequest) (draft : Draft) :
    (emitDecision r draft).Ensures (Same j key) :=
  Co.ensures_bind Same.trans (same_build _) fun _ =>
    Co.ensures_bind Same.trans (same_record _) fun _ =>
      Co.ensures_bind Same.trans (same_emitDurable _) fun _ => Co.ensures_ret .refl _

theorem honest_build (draft : Draft) : Co.Harmless lostEmit (build draft) :=
  .bind (.bind (Co.harmless_perform fun _ => id) fun _ =>
    .bind (Co.harmless_modify _) fun _ => Co.harmless_ret _)
    fun _ => .bind (Co.harmless_perform fun _ => id) fun _ => Co.harmless_ret _

/-- An emit that returns has not been lost. -/
theorem honest_emitDurable (e : Event) : Co.Honest lostEmit (emitDurable e) := by
  intro w calls b w' run
  obtain ⟨a, rest, rfl, run⟩ := run
  match (a : Except Exc Bool) with
  | .ok true =>
    obtain ⟨rfl, -, -⟩ := run
    intro c mem lost
    cases List.mem_singleton.mp mem
    obtain ⟨x, eq⟩ := lost
    cases eq
  | .ok false =>
    obtain ⟨rfl, -, -⟩ := run
    intro c mem lost
    cases List.mem_singleton.mp mem
    obtain ⟨x, eq⟩ := lost
    cases eq
  | .error x =>
    obtain ⟨-, eq, -⟩ := run
    cases eq

theorem honest_emit (draft : Draft) : Co.Honest lostEmit (emit draft) :=
  (honest_build draft).honest.bind fun e =>
    (honest_emitDurable e).bind fun _ => (Co.harmless_ret _).honest

theorem honest_emitDecision (r : ReviewRequest) (draft : Draft) :
    Co.Honest lostEmit (emitDecision r draft) :=
  (honest_build draft).honest.bind fun e => (Co.harmless_modify _).honest.bind fun _ =>
    (honest_emitDurable e).bind fun _ => (Co.harmless_ret _).honest

theorem harmless_deref (j : JobId) : Co.Harmless lostEmit (deref j) :=
  Co.harmless_read fun w => by
    cases w.job? j with
    | none => exact Co.harmless_raise _
    | some job => exact Co.harmless_ret _

theorem harmless_writeResult (resultId content : Json) :
    Co.Harmless lostEmit (writeResult resultId content) := by
  unfold writeResult
  split
  · split
    · refine .bind (Co.harmless_perform fun _ => id) fun a => ?_
      match (a : Except Exc Unit) with
      | .ok () => exact Co.harmless_modify _
      | .error _ => exact .bind (Co.harmless_modify _) fun _ => Co.harmless_raise _
    · exact Co.harmless_raise _
  · exact Co.harmless_raise _

theorem harmless_storeOutcome (j : JobId) (r : ReviewRequest) (reply : Reply) :
    Co.Harmless lostEmit (storeOutcome j r reply) :=
  .bind (Co.harmless_modify _) fun _ => Co.harmless_ret _

end Steps

section Failures

variable {j : JobId} {key : String} {r : ReviewRequest} {device : String}

/-- The same state, but for a decision that the job has been reserved for. -/
structure Near (j : JobId) (key : String) (w w' : World) : Prop where
  job : ∀ job, w.job? j = some job → ∃ d, w'.job? j = some { job with reviewDecision := d }
  record : w'.reviewRecords.get? key = w.reviewRecords.get? key

theorem Same.near {w w' : World} (h : Same j key w w') : Near j key w w' :=
  ⟨fun job found => ⟨job.reviewDecision, h.job.trans found⟩, h.record⟩

theorem Near.trans (w₁ w₂ w₃ : World) (h : Near j key w₁ w₂) (h' : Near j key w₂ w₃) :
    Near j key w₁ w₃ := by
  refine ⟨fun job found => ?_, h'.record.trans h.record⟩
  obtain ⟨d, there⟩ := h.job job found
  obtain ⟨d', there'⟩ := h'.job _ there
  exact ⟨d', there'⟩

theorem job?_updateJob (w : World) (j : JobId) (f : Job → Job) :
    (w.updateJob j f).job? j = (w.job? j).map f := Dict.get?_modify_self ..

theorem near_reserve (decision : String) : (reserveReview j decision).Ensures (Near j key) := by
  refine Co.ensures_bind Near.trans (Co.ensures_modify fun w => ⟨fun job found => ?_, rfl⟩) fun _ =>
    Co.ensures_modify fun w => Same.near ⟨rfl, rfl⟩
  exact ⟨some decision, by rw [job?_updateJob, found]; rfl⟩

theorem harmless_reserve (decision : String) : Co.Harmless lostEmit (reserveReview j decision) :=
  .bind (Co.harmless_modify _) fun _ => Co.harmless_modify _

/-- A decision with a guard: what comes after the reservation goes on to the last emit. -/
theorem withstands_reserved {α : Type} {decision : String} {x : Task α}
    (rest : Co.Withstands lostEmit (Near j key) x) :
    Co.Withstands lostEmit (Near j key) ((reserveReview j decision).bind fun _ => x) :=
  .bind Near.trans (near_reserve _) (harmless_reserve _).honest fun _ => rest

theorem near_emit {α : Type} {draft : Draft} {f : Event → Task α}
    (rest : ∀ e, Co.Harmless lostEmit (f e)) :
    Co.Withstands lostEmit (Near j key) ((emit draft).bind f) :=
  .bind Near.trans ((same_emit draft).mono fun _ _ => Same.near) (honest_emit draft) fun e =>
    (rest e).withstands

theorem near_emitDecision {α : Type} {draft : Draft} {f : Unit → Task α}
    (rest : ∀ u, Co.Withstands lostEmit (Near j key) (f u)) :
    Co.Withstands lostEmit (Near j key) ((emitDecision r draft).bind f) :=
  .bind Near.trans ((same_emitDecision r draft).mono fun _ _ => Same.near)
    (honest_emitDecision r draft) rest

theorem near_deref {α : Type} {f : Job → Task α}
    (rest : ∀ job, Co.Withstands lostEmit (Near j key) (f job)) :
    Co.Withstands lostEmit (Near j key) ((deref j).bind f) := by
  refine .bind Near.trans (Co.ensures_read fun w => ?_) (harmless_deref j).honest rest
  cases w.job? j with
  | none => exact Co.ensures_raise (fun _ => (Same.refl _).near) _
  | some job => exact Co.ensures_ret (fun _ => (Same.refl _).near) _

theorem same_writeResult (resultId content : Json) :
    (writeResult resultId content).Ensures (Same j key) := by
  unfold writeResult
  split
  · split
    · refine Co.ensures_bind Same.trans (Co.ensures_perform .refl _) fun a => ?_
      match (a : Except Exc Unit) with
      | .ok () => exact Co.ensures_modify fun _ => ⟨rfl, rfl⟩
      | .error _ =>
        exact Co.ensures_bind Same.trans (same_record _) fun _ => Co.ensures_raise .refl _
    · exact Co.ensures_raise .refl _
  · exact Co.ensures_raise .refl _

theorem harmless_now_update {α : Type} {f : UtcTime → Job → Job} {x : Task α}
    (rest : Co.Harmless lostEmit x) : Co.Harmless lostEmit (now.bind fun t =>
      (updateJob j (f t)).bind fun _ => (persistJob j).bind fun _ => x) :=
  .bind (Co.harmless_perform fun _ => id) fun _ => .bind (Co.harmless_modify _) fun _ =>
    .bind (Co.harmless_modify _) fun _ => rest

theorem withstands_approve :
    Co.Withstands lostEmit (Near j key) (reviewApprove j r device) :=
  withstands_reserved <| near_emitDecision fun _ => near_emit fun _ =>
    harmless_now_update <| .bind (harmless_deref j) fun _ => harmless_storeOutcome _ _ _

theorem withstands_edit (cfg : Settings) (modifiedResult : String) :
    Co.Withstands lostEmit (Near j key) (reviewEdit j r device cfg modifiedResult) := by
  have refl (w : World) : Near j key w w := (Same.refl w).near
  refine withstands_reserved <| .bind Near.trans ?_ ?_ fun modified => ?_
  · exact Co.ensures_bind Near.trans (Co.ensures_perform refl _) fun _ =>
      Co.ensures_bind Near.trans (Co.ensures_modify fun _ => Same.near ⟨rfl, rfl⟩) fun _ =>
        Co.ensures_ret refl _
  · exact (Co.Harmless.bind (Co.harmless_perform fun _ => id) fun _ =>
      .bind (Co.harmless_modify _) fun _ => Co.harmless_ret _).honest
  refine .bind Near.trans ((same_writeResult _ _).mono fun _ _ => Same.near)
    (harmless_writeResult _ _).honest fun _ => ?_
  exact near_deref fun _ => near_emitDecision fun _ => near_emit fun _ =>
    harmless_now_update <| harmless_storeOutcome _ _ _

theorem withstands_reject :
    Co.Withstands lostEmit (Near j key) (reviewReject j r device) :=
  withstands_reserved <| near_emitDecision fun _ => near_deref fun _ => near_emit fun _ =>
    .bind (Co.harmless_modify _) fun _ => .bind (Co.harmless_modify _) fun _ =>
      .bind (harmless_deref j) fun _ => harmless_storeOutcome _ _ _

/-- A deferral leaves all as it was. -/
theorem withstands_defer : Co.Withstands lostEmit (Same j key) (reviewDefer j r device) :=
  .bind Same.trans (same_emitDecision r _) (honest_emitDecision r _) fun _ =>
    (Co.Harmless.bind (harmless_deref j) fun _ => harmless_storeOutcome _ _ _).withstands

end Failures

section Successes

variable {j : JobId} {r : ReviewRequest} {device : String} {w : World}

/-- The job is still there, and the history has only grown. -/
structure Grows (j : JobId) (w w' : World) : Prop where
  present : (w.job? j).isSome = true → (w'.job? j).isSome = true
  trace : w.trace ⊆ w'.trace

theorem Grows.refl (w : World) : Grows j w w := ⟨id, fun _ => id⟩

theorem Grows.trans {w₁ w₂ w₃ : World} (h : Grows j w₁ w₂) (h' : Grows j w₂ w₃) : Grows j w₁ w₃ :=
  ⟨h'.present ∘ h.present, List.Subset.trans h.trace h'.trace⟩

theorem grows_record (w : World) (o : Obs) : Grows j w (w.record o) :=
  ⟨id, List.subset_append_left ..⟩

theorem grows_updateJob (w : World) (f : Job → Job) : Grows j w (w.updateJob j f) :=
  ⟨fun h => by rwa [job?_updateJob, Option.isSome_map], fun _ => id⟩

/-- A durable event made from the draft is in the log. -/
def Noted (draft : Draft) (w : World) : Prop :=
  ∃ id t, Obs.answered (buildEvent draft id t) .acknowledged ∈ w.trace

theorem Noted.grows {draft : Draft} {w' : World} (h : Noted draft w) (more : Grows j w w') :
    Noted draft w' := by
  obtain ⟨id, t, mem⟩ := h
  exact ⟨id, t, more.trace mem⟩

variable (j) in
theorem succeeds_uuid7 (w : World) : Co.Succeeds granted uuid7 w fun _ w' => Grows j w w' := by
  refine Co.Succeeds.bind (Q := fun _ w' => w' = w) (Co.succeeds_perform fun _ _ => rfl)
    fun u w' eq => ?_
  subst eq
  exact Co.Succeeds.bind (Q := fun _ w₁ => Grows j w' w₁) (Co.succeeds_modify ⟨id, fun _ => id⟩)
    fun _ _ more => Co.succeeds_ret more

variable (j) in
theorem succeeds_build (draft : Draft) (w : World) : Co.Succeeds granted (build draft) w
    fun e w' => Grows j w w' ∧ ∃ id t, e = buildEvent draft id t :=
  (succeeds_uuid7 j w).bind fun u w₁ more =>
    Co.Succeeds.bind (Q := fun _ w' => w' = w₁) (Co.succeeds_perform fun _ _ => rfl) fun t w' eq =>
      Co.succeeds_ret ⟨by rw [eq]; exact more, u, t, rfl⟩

variable (j) in
theorem succeeds_emitDurable (e : Event) (w : World) : Co.Succeeds granted (emitDurable e) w
    fun _ w' => Grows j w w' ∧ Obs.answered e .acknowledged ∈ w'.trace := by
  refine Co.Succeeds.bind (Q := fun _ w' => w' = w.record (.attempted e)) (Co.succeeds_modify rfl)
    fun _ w₁ eq => ?_
  refine Co.Succeeds.bind (Q := fun a w' => (a : Except Exc Bool) = .ok true ∧ w' = w₁)
    (Co.succeeds_perform fun _ well => ⟨well, rfl⟩) fun a w₂ post => ?_
  obtain ⟨well, rfl⟩ := post
  subst eq
  rw [well]
  refine Co.Succeeds.bind (Q := fun _ w' => w' = _) (Co.succeeds_modify rfl) fun _ w' eq => ?_
  subst eq
  exact Co.succeeds_ret ⟨(grows_record ..).trans (grows_record ..), by simp [World.record]⟩

variable (j) in
theorem succeeds_emit (draft : Draft) (w : World) : Co.Succeeds granted (emit draft) w
    fun _ w' => Grows j w w' ∧ Noted draft w' := by
  refine (succeeds_build j draft w).bind fun e w₁ post => ?_
  obtain ⟨more, u, t, rfl⟩ := post
  exact (succeeds_emitDurable j _ w₁).bind fun _ w₂ post =>
    Co.succeeds_ret ⟨more.trans post.1, u, t, post.2⟩

variable (j) in
theorem succeeds_emitDecision (draft : Draft) (w : World) :
    Co.Succeeds granted (emitDecision r draft) w fun _ w' => Grows j w w' := by
  refine (succeeds_build j draft w).bind fun e w₁ post => ?_
  refine Co.Succeeds.bind (Q := fun _ w' => Grows j w₁ w') (Co.succeeds_modify (grows_record ..))
    fun _ w₂ more => ?_
  exact (succeeds_emitDurable j e w₂).bind fun _ w₃ last =>
    Co.succeeds_ret ((post.1.trans more).trans last.1)

theorem succeeds_deref (present : (w.job? j).isSome = true) :
    Co.Succeeds granted (deref j) w fun _ w' => w' = w := by
  refine Co.succeeds_read ?_
  cases found : w.job? j with
  | none =>
    rw [found] at present
    cases present
  | some job => exact Co.succeeds_ret rfl

variable (j) in
theorem succeeds_reserve (decision : String) (w : World) :
    Co.Succeeds granted (reserveReview j decision) w fun _ w' => Grows j w w' :=
  Co.Succeeds.bind (Q := fun _ w' => Grows j w w') (Co.succeeds_modify (grows_updateJob ..))
    fun _ _ more => Co.succeeds_modify (more.trans ⟨id, fun _ => id⟩)

theorem succeeds_storeOutcome (reply : Reply) (w : World) :
    Co.Succeeds granted (storeOutcome j r reply) w fun a w' => a = reply ∧ Grows j w w' :=
  Co.Succeeds.bind (Q := fun _ w' => Grows j w w') (Co.succeeds_modify ⟨id, fun _ => id⟩)
    fun _ _ more => Co.succeeds_ret ⟨rfl, more⟩

variable (j) in
theorem succeeds_writeResult (resultId : Json) (s : String) (w : World) :
    Co.Succeeds granted (writeResult resultId (.text s)) w fun _ w' => Grows j w w' := by
  have decoded : decode? (py s) = some s := decode?_py s
  unfold writeResult
  dsimp only [Json.text]
  rw [decoded]
  refine Co.Succeeds.bind (Q := fun a w' => (a : Except Exc Unit) = .ok () ∧ w' = w)
    (Co.succeeds_perform fun _ well => ⟨well, rfl⟩) fun a w₁ post => ?_
  obtain ⟨well, rfl⟩ := post
  rw [well]
  exact Co.succeeds_modify ⟨id, fun _ => id⟩

/-- The end of a decision after its last emit. -/
theorem succeeds_end {draft : Draft} {reply : Job → Reply} (present : (w.job? j).isSome = true)
    (noted : Noted draft w) (ok : ∀ job, (reply job).statusCode = 200) :
    Co.Succeeds granted ((deref j).bind fun job => storeOutcome j r (reply job)) w
      fun a w' => a.statusCode = 200 ∧ Noted draft w' :=
  (succeeds_deref present).bind fun job w₁ eq => by
    subst eq
    exact (succeeds_storeOutcome _ _).mono fun a w' post => ⟨post.1 ▸ ok job, noted.grows post.2⟩

theorem succeeds_now {α : Type} {f : UtcTime → Task α} {Q : α → World → Prop}
    (rest : ∀ t, Co.Succeeds granted (f t) w Q) : Co.Succeeds granted (now.bind f) w Q :=
  Co.Succeeds.bind (Q := fun _ w' => w' = w) (Co.succeeds_perform fun _ _ => rfl) fun t w' eq => by
    subst eq
    exact rest t

theorem succeeds_settle {α : Type} {f : Job → Job} {x : Task α} {Q : α → World → Prop}
    (rest : ∀ w', Grows j w w' → Co.Succeeds granted x w' Q) :
    Co.Succeeds granted ((updateJob j f).bind fun _ => (persistJob j).bind fun _ => x) w Q := by
  refine Co.Succeeds.bind (Q := fun _ w' => Grows j w w') (Co.succeeds_modify (grows_updateJob ..))
    fun _ w₁ more => ?_
  exact Co.Succeeds.bind (Q := fun _ w' => Grows j w₁ w') (Co.succeeds_modify ⟨id, fun _ => id⟩)
    fun _ w₂ more' => rest w₂ (more.trans more')

/-- The reservation of a decision and its human.reviewed event. -/
theorem succeeds_begin {α : Type} {decision : String} {draft : Draft} {x : Task α}
    {Q : α → World → Prop} (present : (w.job? j).isSome = true)
    (rest : ∀ w', (w'.job? j).isSome = true → Co.Succeeds granted x w' Q) :
    Co.Succeeds granted ((reserveReview j decision).bind fun _ =>
      (emitDecision r draft).bind fun _ => x) w Q :=
  (succeeds_reserve j _ w).bind fun _ w₁ more => (succeeds_emitDecision j _ w₁).bind
    fun _ w₂ more' => rest w₂ ((more.trans more').present present)

theorem succeeds_approve (present : (w.job? j).isSome = true) :
    Co.Succeeds granted (reviewApprove j r device) w
      fun a w' => a.statusCode = 200 ∧ Noted (eventJobDelivered j) w' := by
  refine succeeds_begin present fun w₁ present => ?_
  refine (succeeds_emit j _ w₁).bind fun _ w₂ post => ?_
  refine succeeds_now fun t => succeeds_settle fun w₃ more => ?_
  exact succeeds_end ((post.1.trans more).present present) (post.2.grows more) fun _ => rfl

theorem succeeds_reject (present : (w.job? j).isSome = true) :
    Co.Succeeds granted (reviewReject j r device) w fun a w' => a.statusCode = 200 ∧
      ∃ failing, Noted (eventJobFailed j (.text "review_reject") (.text "Rejected via review")
        failing) w' := by
  refine succeeds_begin present fun w₁ present => ?_
  refine (succeeds_deref present).bind fun job w₂ eq => ?_
  subst eq
  refine (succeeds_emit j _ w₂).bind fun _ w₃ post => ?_
  refine succeeds_settle fun w₄ more => ?_
  exact (succeeds_end ((post.1.trans more).present present) (post.2.grows more) fun _ => rfl).mono
    fun _ _ done => ⟨done.1, _, done.2⟩

theorem succeeds_edit (cfg : Settings) (modifiedResult : String)
    (present : (w.job? j).isSome = true) :
    Co.Succeeds granted (reviewEdit j r device cfg modifiedResult) w
      fun a w' => a.statusCode = 200 ∧ Noted (eventJobDelivered j) w' := by
  refine (succeeds_reserve j _ w).bind fun _ w₁ more₁ => ?_
  refine (succeeds_uuid7 j w₁).bind fun u w₂ more₂ => ?_
  refine (succeeds_writeResult j _ _ w₂).bind fun _ w₃ more₃ => ?_
  have there := ((more₁.trans more₂).trans more₃).present present
  refine (succeeds_deref there).bind fun job w₄ eq => ?_
  subst eq
  refine (succeeds_emitDecision j _ w₄).bind fun _ w₅ more₅ => ?_
  refine (succeeds_emit j _ w₅).bind fun _ w₆ post => ?_
  refine succeeds_now fun t => succeeds_settle fun w₇ more₇ => ?_
  exact (succeeds_storeOutcome _ _).mono fun a w' last =>
    ⟨last.1 ▸ rfl, (post.2.grows more₇).grows last.2⟩

theorem succeeds_defer (present : (w.job? j).isSome = true) :
    Co.Succeeds granted (reviewDefer j r device) w fun a _ => a.statusCode = 200 := by
  refine (succeeds_emitDecision j _ w).bind fun _ w₁ more => ?_
  refine (succeeds_deref (more.present present)).bind fun job w₂ eq => ?_
  exact (succeeds_storeOutcome (j := j) _ _).mono fun a w' last => last.1 ▸ rfl

end Successes

section Repeats

variable {j : JobId} {key : String} {r : ReviewRequest} {device : String} {s t : World}

theorem Same.symm (h : Same j key s t) : Same j key t s := ⟨h.job.symm, h.record.symm⟩

/-- A step that leaves the job and the record alone. -/
theorem mirrors_update {f : World → World} (h : Same j key s t) (job : ∀ w, (f w).job? j = w.job? j)
    (record : ∀ w, (f w).reviewRecords = w.reviewRecords) :
    Co.Mirrors (Same j key) (update f) s (update f) t :=
  Co.mirrors_modify ⟨by rw [job, job, h.job], by rw [record, record, h.record]⟩

theorem mirrors_record (h : Same j key s t) (o : Obs) :
    Co.Mirrors (Same j key) (update (·.record o)) s (update (·.record o)) t :=
  mirrors_update h (fun _ => rfl) fun _ => rfl

theorem mirrors_uuid7 (h : Same j key s t) : Co.Mirrors (Same j key) uuid7 s uuid7 t :=
  .bind (Co.mirrors_perform h _) fun u _ _ h =>
    .bind (mirrors_update h (fun _ => rfl) fun _ => rfl) fun _ _ _ h => Co.mirrors_ret h u

theorem mirrors_build (h : Same j key s t) (draft : Draft) :
    Co.Mirrors (Same j key) (build draft) s (build draft) t :=
  .bind (mirrors_uuid7 h) fun _ _ _ h => .bind (Co.mirrors_perform h _) fun _ _ _ h =>
    Co.mirrors_ret h _

theorem mirrors_emitDurable (h : Same j key s t) (e : Event) :
    Co.Mirrors (Same j key) (emitDurable e) s (emitDurable e) t := by
  refine .bind (mirrors_record h _) fun _ _ _ h => .bind (Co.mirrors_perform h _) fun a _ _ h => ?_
  match (a : Except Exc Bool) with
  | .ok true => exact .bind (mirrors_record h _) fun _ _ _ h => Co.mirrors_ret h _
  | .ok false => exact .bind (mirrors_record h _) fun _ _ _ h => Co.mirrors_ret h _
  | .error x => exact .bind (mirrors_record h _) fun _ _ _ h => Co.mirrors_raise h x

theorem mirrors_emit (h : Same j key s t) (draft : Draft) :
    Co.Mirrors (Same j key) (emit draft) s (emit draft) t :=
  .bind (mirrors_build h _) fun e _ _ h => .bind (mirrors_emitDurable h e) fun _ _ _ h =>
    Co.mirrors_ret h _

theorem mirrors_emitDecision (h : Same j key s t) (draft : Draft) :
    Co.Mirrors (Same j key) (emitDecision r draft) s (emitDecision r draft) t :=
  .bind (mirrors_build h _) fun e _ _ h => .bind (mirrors_record h _) fun _ _ _ h =>
    .bind (mirrors_emitDurable h e) fun _ _ _ h => Co.mirrors_ret h _

theorem mirrors_deref (h : Same j key s t) : Co.Mirrors (Same j key) (deref j) s (deref j) t := by
  refine Co.mirrors_read ?_
  rw [h.job]
  cases s.job? j with
  | none => exact Co.mirrors_raise h _
  | some job => exact Co.mirrors_ret h _

theorem mirrors_writeResult (h : Same j key s t) (resultId content : Json) :
    Co.Mirrors (Same j key) (writeResult resultId content) s (writeResult resultId content) t := by
  unfold writeResult
  split
  · split
    · refine .bind (Co.mirrors_perform h _) fun a _ _ h => ?_
      match (a : Except Exc Unit) with
      | .ok () => exact mirrors_update h (fun _ => rfl) fun _ => rfl
      | .error x => exact .bind (mirrors_record h _) fun _ _ _ h => Co.mirrors_raise h x
    · exact Co.mirrors_raise h _
  · exact Co.mirrors_raise h _

/-- A change of the job, with its row. -/
theorem mirrors_settle {α : Type} {f : Job → Job} {x y : Task α} (h : Same j key s t)
    (rest : ∀ s t, Same j key s t → Co.Mirrors (Same j key) x s y t) :
    Co.Mirrors (Same j key) ((updateJob j f).bind fun _ => (persistJob j).bind fun _ => x) s
      ((updateJob j f).bind fun _ => (persistJob j).bind fun _ => y) t := by
  have changed : Same j key (s.updateJob j f) (t.updateJob j f) :=
    ⟨by rw [job?_updateJob, job?_updateJob, h.job], h.record⟩
  exact .bind (Co.mirrors_modify changed) fun _ _ _ h =>
    .bind (mirrors_update h (fun _ => rfl) fun _ => rfl) fun _ s₁ t₁ h => rest s₁ t₁ h

theorem mirrors_storeOutcome (h : Same j r.decisionIdempotencyKey s t) (reply : Reply) :
    Co.Mirrors (Same j r.decisionIdempotencyKey) (storeOutcome j r reply) s
      (storeOutcome j r reply) t := by
  refine .bind (Co.mirrors_modify ⟨h.job, ?_⟩) fun _ _ _ h => Co.mirrors_ret h _
  exact (Dict.get?_set_self ..).trans (Dict.get?_set_self ..).symm

/-- The reservation hides the one that an earlier call has made. -/
theorem mirrors_reserve {job : Job} (near : Near j key t s) (there : t.job? j = some job)
    (decision : String) :
    Co.Mirrors (Same j key) (reserveReview j decision) s (reserveReview j decision) t := by
  obtain ⟨d, found⟩ := near.job job there
  have reserved : Same j key (s.updateJob j fun job => { job with reviewDecision := some decision })
      (t.updateJob j fun job => { job with reviewDecision := some decision }) :=
    ⟨by rw [job?_updateJob, job?_updateJob, there, found]; rfl, near.record.symm⟩
  exact .bind (Co.mirrors_modify reserved) fun _ _ _ h =>
    mirrors_update h (fun _ => rfl) fun _ => rfl

variable {job : Job}

theorem mirrors_approve (near : Near j r.decisionIdempotencyKey t s) (there : t.job? j = some job) :
    Co.Mirrors (Same j r.decisionIdempotencyKey) (reviewApprove j r device) s
      (reviewApprove j r device) t :=
  .bind (mirrors_reserve near there _) fun _ _ _ h =>
    .bind (mirrors_emitDecision h _) fun _ _ _ h =>
    .bind (mirrors_emit h _) fun _ _ _ h => .bind (Co.mirrors_perform h _) fun _ _ _ h =>
      mirrors_settle h fun _ _ h => .bind (mirrors_deref h) fun _ _ _ h => mirrors_storeOutcome h _

theorem mirrors_edit (cfg : Settings) (modifiedResult : String)
    (near : Near j r.decisionIdempotencyKey t s) (there : t.job? j = some job) :
    Co.Mirrors (Same j r.decisionIdempotencyKey) (reviewEdit j r device cfg modifiedResult) s
      (reviewEdit j r device cfg modifiedResult) t :=
  .bind (mirrors_reserve near there _) fun _ _ _ h => .bind (mirrors_uuid7 h) fun _ _ _ h =>
    .bind (mirrors_writeResult h _ _) fun _ _ _ h => .bind (mirrors_deref h) fun _ _ _ h =>
      .bind (mirrors_emitDecision h _) fun _ _ _ h => .bind (mirrors_emit h _) fun _ _ _ h =>
        .bind (Co.mirrors_perform h _) fun _ _ _ h => mirrors_settle h fun _ _ h =>
          mirrors_storeOutcome h _

theorem mirrors_reject (near : Near j r.decisionIdempotencyKey t s) (there : t.job? j = some job) :
    Co.Mirrors (Same j r.decisionIdempotencyKey) (reviewReject j r device) s
      (reviewReject j r device) t :=
  .bind (mirrors_reserve near there _) fun _ _ _ h =>
    .bind (mirrors_emitDecision h _) fun _ _ _ h =>
    .bind (mirrors_deref h) fun _ _ _ h => .bind (mirrors_emit h _) fun _ _ _ h =>
      mirrors_settle h fun _ _ h => .bind (mirrors_deref h) fun _ _ _ h => mirrors_storeOutcome h _

theorem mirrors_defer (h : Same j r.decisionIdempotencyKey s t) :
    Co.Mirrors (Same j r.decisionIdempotencyKey) (reviewDefer j r device) s
      (reviewDefer j r device) t :=
  .bind (mirrors_emitDecision h _) fun _ _ _ h => .bind (mirrors_deref h) fun _ _ _ h =>
    mirrors_storeOutcome h _

end Repeats

section Reviews

variable {cfg : Settings} {w w' : World} {j : JobId} {r : ReviewRequest} {device : String}
  {calls : List sig.Call} {res : Except Exc Reply}

theorem reviewJob_admitted (admitted : Admitted w j r) :
    (reviewJob j r device cfg).Trace w calls res w' ↔
      (reviewBranch j r device cfg).Trace w calls res w' := by
  obtain ⟨fresh, job, found, admits⟩ := admitted
  refine Co.trace_read_bind.trans ?_
  rw [fresh]
  dsimp only
  rw [found]
  dsimp only
  rw [admits]

/-- A review that is not admitted is answered at once. -/
theorem reviewJob_refused (not : ¬ Admitted w j r)
    (run : (reviewJob j r device cfg).Trace w calls res w') : calls = [] := by
  replace run := Co.trace_read_bind.mp run
  cases known : w.reviewRecords.get? r.decisionIdempotencyKey with
  | some record =>
    rw [known] at run
    exact run.1
  | none =>
    rw [known] at run
    dsimp only at run
    cases found : w.job? j with
    | none =>
      rw [found] at run
      exact run.1
    | some job =>
      rw [found] at run
      dsimp only at run
      cases refused : reviewRefusal job r with
      | some reply =>
        rw [refused] at run
        exact run.1
      | none => exact absurd ⟨known, job, found, refused⟩ not

/-- The guard of an earlier call does not keep the same request out. -/
theorem Near.admitted (near : Near j r.decisionIdempotencyKey w w') (admitted : Admitted w j r) :
    Admitted w' j r := by
  obtain ⟨fresh, job, found, admits⟩ := admitted
  obtain ⟨d, found'⟩ := near.job job found
  exact ⟨near.record.trans fresh, _, found', admits⟩

theorem Noted.logged {draft : Draft} (h : Noted draft w) (job : draft.jobId = some j) :
    Logged w j draft.eventType := by
  obtain ⟨id, t, mem⟩ := h
  exact ⟨_, mem, rfl, job⟩

theorem Admitted.present (admitted : Admitted w j r) : (w.job? j).isSome = true := by
  obtain ⟨-, job, found, -⟩ := admitted
  rw [found]
  rfl

def handled : List String := ["approve", "edit", "reject", "defer"]

theorem succeeds_branch (present : (w.job? j).isSome = true) (known : r.decision ∈ handled) :
    Co.Succeeds granted (reviewBranch j r device cfg) w fun a w' => a.statusCode = 200 ∧
      ∀ type, lifecycleType r.decision = some type → Logged w' j type := by
  have ends {draft : Draft} {w' : World} (job : draft.jobId = some j)
      (life : lifecycleType r.decision = some draft.eventType) (noted : Noted draft w') :
      ∀ type, lifecycleType r.decision = some type → Logged w' j type := by
    intro type eq
    cases life.symm.trans eq
    exact noted.logged job
  simp only [handled, List.mem_cons, List.not_mem_nil, or_false] at known
  unfold reviewBranch
  rcases known with eq | eq | eq | eq
  · rw [if_pos eq]
    exact (succeeds_approve present).mono fun a w' done =>
      ⟨done.1, ends rfl (by rw [eq]; rfl) done.2⟩
  · rw [if_neg (by rw [eq]; decide), if_pos eq]
    exact (succeeds_edit cfg _ present).mono fun a w' done =>
      ⟨done.1, ends rfl (by rw [eq]; rfl) done.2⟩
  · rw [if_neg (by rw [eq]; decide), if_neg (by rw [eq]; decide), if_pos eq]
    refine (succeeds_reject present).mono fun a w' done => ?_
    obtain ⟨ok, failing, noted⟩ := done
    exact ⟨ok, ends rfl (by rw [eq]; rfl) noted⟩
  · rw [if_neg (by rw [eq]; decide), if_neg (by rw [eq]; decide), if_neg (by rw [eq]; decide),
      if_pos eq]
    refine (succeeds_defer present).mono fun a w' ok => ⟨ok, fun type life => ?_⟩
    have none : lifecycleType "defer" = none := rfl
    rw [eq, none] at life
    cases life

/-- A call of another decision than these reaches no emit, unless it declines to act. -/
theorem branch_other (other : r.decision ≠ "decline_to_act") (unknown : r.decision ∉ handled)
    (run : (reviewBranch j r device cfg).Trace w calls res w') : calls = [] := by
  simp only [handled, List.mem_cons, List.not_mem_nil, or_false, not_or] at unknown
  obtain ⟨approve, edit, reject, defer⟩ := unknown
  unfold reviewBranch at run
  rw [if_neg approve, if_neg edit, if_neg reject, if_neg defer, if_neg other] at run
  exact run.1

/-- What a call leaves in which an emit has raised, and what the next one does from there. -/
theorem resumes (known : r.decision ∈ handled) (admitted : Admitted w j r)
    (run : (reviewBranch j r device cfg).Trace w calls res w') (lost : ∃ c ∈ calls, lostEmit c) :
    Near j r.decisionIdempotencyKey w w' ∧
      Co.Mirrors (Same j r.decisionIdempotencyKey) (reviewBranch j r device cfg) w'
        (reviewBranch j r device cfg) w := by
  obtain ⟨-, job, found, -⟩ := admitted
  simp only [handled, List.mem_cons, List.not_mem_nil, or_false] at known
  unfold reviewBranch at run ⊢
  rcases known with eq | eq | eq | eq
  · rw [if_pos eq] at run ⊢
    have near : Near j r.decisionIdempotencyKey w w' := withstands_approve _ _ _ _ run lost
    exact ⟨near, mirrors_approve near found⟩
  · rw [if_neg (by rw [eq]; decide), if_pos eq] at run ⊢
    have near : Near j r.decisionIdempotencyKey w w' := withstands_edit cfg _ _ _ _ _ run lost
    exact ⟨near, mirrors_edit cfg _ near found⟩
  · rw [if_neg (by rw [eq]; decide), if_neg (by rw [eq]; decide), if_pos eq] at run ⊢
    have near : Near j r.decisionIdempotencyKey w w' := withstands_reject _ _ _ _ run lost
    exact ⟨near, mirrors_reject near found⟩
  · rw [if_neg (by rw [eq]; decide), if_neg (by rw [eq]; decide), if_neg (by rw [eq]; decide),
      if_pos eq] at run ⊢
    have same : Same j r.decisionIdempotencyKey w w' := withstands_defer _ _ _ _ run lost
    exact ⟨same.near, mirrors_defer same.symm⟩

/-- The same request, sent again, does what a first one would do. -/
theorem retryable_of_handled (other : Admitted w j r → r.decision ≠ "decline_to_act") :
    Retryable cfg w j r device := by
  intro calls res w₁ run lost
  by_cases admitted : Admitted w j r
  · rw [reviewJob_admitted admitted] at run
    by_cases known : r.decision ∈ handled
    · obtain ⟨near, mirrors⟩ := resumes known admitted run lost
      have again := near.admitted admitted
      refine ⟨.inl (.inl ⟨r, again⟩), fun calls' res' w₂ rerun well => ?_⟩
      rw [reviewJob_admitted again] at rerun
      obtain ⟨reply, rfl, ok, logged⟩ := succeeds_branch again.present known _ _ _ rerun well
      obtain ⟨w₃, first, same⟩ := mirrors _ _ _ rerun
      exact ⟨reply, rfl, ok, ⟨w₃, (reviewJob_admitted admitted).mpr first, same.symm⟩, logged⟩
    · obtain ⟨c, mem, -⟩ := lost
      rw [branch_other (other admitted) known run] at mem
      cases mem
  · obtain ⟨c, mem, -⟩ := lost
    rw [reviewJob_refused admitted run] at mem
    cases mem

theorem build_trace (draft : Draft) (w : World) : (build draft).Trace w
    [⟨.uuid7, Trial.uuid 0⟩, ⟨.now, Trial.noon⟩]
    (.ok (buildEvent draft (Trial.uuid 0) Trial.noon)) (w.issue (Trial.uuid 0)) :=
  ⟨Trial.uuid 0, _, rfl, Trial.noon, _, rfl, rfl, rfl, rfl⟩

theorem emitDurable_lost (e : Event) (w : World) : (emitDurable e).Trace w
    [⟨.emitDurable e, (.error .timeout : Except Exc Bool)⟩] (.error .timeout)
    ((w.record (.attempted e)).record (.answered e .lost)) :=
  ⟨(.error .timeout : Except Exc Bool), _, rfl, rfl, rfl, rfl⟩

variable (r) in
theorem emitDecision_lost (draft : Draft) (w : World) :
    ∃ calls w', (emitDecision r draft).Trace w calls (.error .timeout) w' ∧
      (∃ c ∈ calls, lostEmit c) ∧ w'.jobs = w.jobs ∧ w'.reviewRecords = w.reviewRecords := by
  let e := buildEvent draft (Trial.uuid 0) Trial.noon
  have sent := emitDurable_lost e ((w.issue (Trial.uuid 0)).record
    (.reviewed r.decisionIdempotencyKey e))
  refine ⟨_, _, Co.trace_bind.mpr (.inl ⟨e, _, _, _, rfl, build_trace draft w,
    Co.trace_modify_bind.mpr (Co.trace_bind.mpr (.inr ⟨.timeout, sent, rfl⟩))⟩), ?_, rfl, rfl⟩
  exact ⟨_, List.mem_append_right _ (List.mem_cons_self ..), .timeout, rfl⟩

/-- Declining to act closes the job before the first emit, which may raise. -/
theorem decline_lost (decline : r.decision = "decline_to_act") (admitted : Admitted w j r) :
    ∃ calls res w₁ job, (reviewJob j r device cfg).Trace w calls res w₁ ∧
      (∃ c ∈ calls, lostEmit c) ∧ w₁.job? j = some job ∧ job.status = .closedNoAction ∧
      w₁.reviewRecords.get? r.decisionIdempotencyKey = none := by
  have admitted' := admitted
  obtain ⟨fresh, job, found, -⟩ := admitted
  let close := fun job : Job =>
    { job with reviewDecision := some "decline_to_act", status := JobStatus.closedNoAction }
  let closed := (w.updateJob j close).persistJob j
  obtain ⟨calls, w₁, run, lost, jobs, records⟩ := emitDecision_lost r
    (eventHumanReviewed j "decline_to_act" device 0 none none none .null) closed
  have there : w₁.job? j = some (close job) := by
    have same : w₁.job? j = (w.updateJob j close).job? j := congrArg (Dict.get? · j) jobs
    rw [same, job?_updateJob, found]
    rfl
  refine ⟨calls, .error .timeout, w₁, _, (reviewJob_admitted admitted').mpr ?_, lost, there, rfl,
    (congrArg (Dict.get? · _) records).trans fresh⟩
  rw [reviewBranch, if_neg (by rw [decline]; decide), if_neg (by rw [decline]; decide),
    if_neg (by rw [decline]; decide), if_neg (by rw [decline]; decide), if_pos decline]
  exact Co.trace_modify_bind.mpr (Co.trace_modify_bind.mpr
    (Co.trace_bind.mpr (.inr ⟨.timeout, run, rfl⟩)))

/-- A job that has been closed admits no review. -/
theorem closed_refuses {job : Job} (found : w.job? j = some job)
    (closed : job.status = .closedNoAction)
    (fresh : w.reviewRecords.get? r.decisionIdempotencyKey = none) :
    (reviewJob j r device cfg).Trace w [] (.ok (wrongStatusReply job)) w := by
  have refused : reviewRefusal job r = some (wrongStatusReply job) := by
    rw [reviewRefusal, if_pos (by rw [closed]; decide)]
  refine Co.trace_read_bind.mpr ?_
  rw [fresh]
  dsimp only
  rw [found]
  dsimp only
  rw [refused]
  exact ⟨rfl, rfl, rfl⟩

theorem declined_stuck (decline : r.decision = "decline_to_act") (admitted : Admitted w j r) :
    ¬ Retryable cfg w j r device := by
  intro h
  obtain ⟨calls, res, w₁, job, run, lost, found, closed, fresh⟩ :=
    @decline_lost cfg w j r device decline admitted
  have refused : (reviewJob j r device cfg).Trace w₁ [] (.ok (wrongStatusReply job)) w₁ :=
    closed_refuses found closed fresh
  have calm : ∀ c ∈ ([] : List sig.Call), granted c := fun c mem => absurd mem List.not_mem_nil
  have again := (h calls res w₁ run lost).2 [] (.ok (wrongStatusReply job)) w₁ refused calm
  obtain ⟨reply, eq, ok, -⟩ := again
  cases eq
  cases ok

/-- A review can be retried after an outage, unless it is an admitted one that declines to act. -/
theorem retryable_iff (cfg : Settings) (w : World) (j : JobId) (r : ReviewRequest)
    (device : String) :
    Retryable cfg w j r device ↔ (Admitted w j r → r.decision ≠ "decline_to_act") :=
  ⟨fun retries admitted decline => declined_stuck decline admitted retries, retryable_of_handled⟩

end Reviews

section Outage

open Trial

/-- A proposal under review: the client declines to act, and the audit writer is gone. -/
theorem decline_poisoned : ∃ c : Run checked, ∃ r : ReviewRequest,
    Reach (orchestrator checked) (NoCrash checked) (.boot _ (World.initial false)) c ∧
      (∃ job, c.state.job? (uuid 2) = some job ∧ job.status = .proposalReady) ∧
      Admitted c.state (uuid 2) r ∧ ¬ Retryable checked c.state (uuid 2) r "phone" := by
  let r : ReviewRequest :=
    ⟨"decline_to_act", "00000000-0007-7000-8000-000000000000", "answer", "key", none⟩
  obtain ⟨c, run, seen⟩ := reached (guards fun _ _ => true) (fresh checked false)
    [.start .startup, .finish 0, .start (grant "pre_delivery"), .start (.submit (request none)),
      .finish 2, .start (.worker (uuid 2)), .finish 3]
    (fun c => (c.state.reviewRecords.get? r.decisionIdempotencyKey).isNone &&
      (c.state.job? (uuid 2)).any fun job =>
        job.status = .proposalReady && (reviewRefusal job r).isNone) (by decide +kernel)
  rw [Bool.and_eq_true, Option.isNone_iff_eq_none] at seen
  obtain ⟨fresh, seen⟩ := seen
  obtain ⟨job, found, held⟩ := (Option.any_eq_true _ _).mp seen
  simp only [Bool.and_eq_true, decide_eq_true_eq, Option.isNone_iff_eq_none] at held
  obtain ⟨ready, admits⟩ := held
  have admitted : Admitted c.state (uuid 2) r := ⟨fresh, job, found, admits⟩
  exact ⟨c, r, run, ⟨job, found, ready⟩, admitted, declined_stuck rfl admitted⟩

end Outage

end Drnt.Orchestrator
