import Drnt.Orchestrator.Refinement.Steps

/-! The submit paths under the discipline. -/
namespace Drnt.Orchestrator

open Lib Lib.Coop

section Creating

variable {s : Submission} {origin : Lineage} {j : JobId} {key : String} {again : Bool} {l : Lease}
  {w : World}

/-- How the making of a job ends: a job that is returned is stored and queued. -/
def Created (again : Bool) (l : Lease) (key : String) (j : JobId) (r : Except Exc JobId) (τ : Tok)
    (w : World) : Prop :=
  ∃ p, τ = .submits again l p ∧ (∀ i, p ≠ .stored i) ∧ ∀ i, r = .ok i →
    i = j ∧ p = .ended ∧ (again ∨ w.view.records key = some j) ∧ ∃ c, w.view.core j = some c

theorem created_error {x : Exc} {p : SubmitPhase} (hp : ∀ i, p ≠ .stored i) :
    Created again l key j (.error x) (.submits again l p) w :=
  ⟨p, rfl, hp, fun _ h => by cases h⟩

theorem addJob_core (w : World) (j : JobId) (job : Job) :
    (w.addJob j job).view.core j = some job.core := by
  rw [view_addJob]; simp [Act.apply]

/-- The key under which the job can be deduplicated, as its lineage and its lease have it. -/
def Traced (origin : Lineage) (l : Lease) : Prop :=
  ∀ s key t, (submittedJob s origin key t).sourceKey? = l.key?

theorem materialize_follows {p : SubmitPhase} (traced : Traced origin l)
    (ready : p = .claimed key j ∨ again = true ∧ p = .minted j)
    (bound : again ∨ w.view.records key = some j) :
    Follows discipline (.submits again l p) w (materialize s origin j key)
      (Created again l key j) := by
  have parks : (Tok.submits again l p).parks := by
    rcases ready with rfl | ⟨-, rfl⟩ <;> trivial
  have unstored : ∀ i, p ≠ .stored i := by
    rcases ready with rfl | ⟨-, rfl⟩ <;> exact fun _ => by simp
  simp only [materialize, Co.bind_eq, Co.pure_eq]
  refine now_then fun t => emit_then (σ := .submits again l p) (fun e u he => .note ?_) parks
    (fun w₁ e he hw sent => ?_) fun w₁ x _ _ => created_error unstored
  · simp [Obs.Harmless, he, eventJobSubmitted, lifecycleTypes]
  have answered : w₁.view.Answered "job.submitted" j e := ⟨by simp [he, eventJobSubmitted],
    by simp [he, eventJobSubmitted], sent⟩
  have core : (submittedJob s origin key t).core = .submitted key l.key? := by
    have source := traced s key t
    simp only [Job.core, source, Core.submitted]
    rfl
  have here := addJob_core w₁ j (submittedJob s origin key t)
  refine update_then (.add j (.submitted key l.key?)) (.store ready answered)
    (by rw [view_addJob, core]) ?_
  refine update_then (.persist j) (.persist j) (view_persistJob _ j) ?_
  have kept (attached : ((w₁.addJob j (submittedJob s origin key t)).persistJob j).view.attached) :
      ∃ c, ((w₁.addJob j (submittedJob s origin key t)).persistJob j).view.row j = some c := by
    rw [view_persistJob] at attached
    exact ⟨_, (row_persistJob here).trans (if_pos attached)⟩
  refine putNowait_then (.enqueueNew kept) ⟨_, rfl, by simp, fun i hi => ?_⟩ ?_
  · cases hi
    exact ⟨rfl, rfl, bound.imp id fun bound => hw.records bound, _, here⟩
  · refine update_then (.revise j (.fails queueFullError)) (.failNew kept)
      (view_updateJob (fun _ => rfl) _ j) ?_
    exact update_then (.persist j) (.persist j) (view_persistJob _ j) (created_error (by simp))

/-- Under a key that is not stored yet the job is always a new one. -/
theorem createJob_new (traced : Traced origin l) (free : w.records.get? key = none) :
    Follows discipline (.submits false l (.minted j)) w (createJob s origin j key)
      (Created false l key j) := by
  simp only [createJob, checkAndStore, Co.bind_eq, Co.bind_assoc, Co.pure_eq]
  refine world_then ?_
  simp only [free, Co.bind_assoc, Co.bind]
  refine update_then (.bind key j) (.bind free) (view_storeKey w key j) ?_
  refine materialize_follows traced (.inl rfl) (.inr ?_)
  rw [view_storeKey]; simp [Act.apply]

/-- The job of a plain submission is new, or the one that has the key. -/
theorem createJob_follows (traced : Traced origin l)
    (start : again = ((w.records.get? key).map fun i => (w.job? i).isNone).getD false) :
    Follows discipline (.submits again l (.minted j)) w (createJob s origin j key) fun r τ w' =>
      ∃ p, τ = .submits again l p ∧ (∀ i, p ≠ .stored i) ∧ ∀ i, r = .ok i →
        again ∨ w'.view.records key = some i ∧ ∃ c, w'.view.core i = some c := by
  have created (r : Except Exc JobId) (τ : Tok) (w' : World) (h : Created again l key j r τ w') :
      ∃ p, τ = .submits again l p ∧ (∀ i, p ≠ .stored i) ∧ ∀ i, r = .ok i →
        again ∨ w'.view.records key = some i ∧ ∃ c, w'.view.core i = some c := by
    obtain ⟨p, rfl, unstored, made⟩ := h
    refine ⟨p, rfl, unstored, fun i hi => ?_⟩
    obtain ⟨rfl, -, bound, here⟩ := made i hi
    exact bound.imp id fun bound => ⟨bound, here⟩
  cases hk : w.records.get? key with
  | none =>
    have fresh : again = false := by simpa [hk] using start
    subst fresh
    exact (createJob_new traced hk).mono created
  | some i =>
    simp only [createJob, checkAndStore, Co.bind_eq, Co.bind_assoc, Co.pure_eq]
    refine world_then ?_
    simp only [hk]
    refine world_then ?_
    cases hi : w.job? i with
    | none =>
      have stale : again = true := by simpa [hk, hi] using start
      exact (materialize_follows traced (.inr ⟨stale, rfl⟩) (.inl stale)).mono created
    | some job =>
      refine ⟨_, rfl, by simp, fun i' h => .inr ?_⟩
      cases h
      exact ⟨hk, job.core, by simp [hi]⟩

end Creating

section Sources

variable {cfg : Settings} {s : Submission} {source eventId : String} {w : World}

theorem awaitJobLoadable_follows {τ : Tok} (parks : τ.parks) (j : JobId) (n : Nat) :
    Follows discipline τ w (awaitJobLoadable j n) fun r τ' w' =>
      τ' = τ ∧ (r = .ok true → w'.view.Loadable j) := by
  induction n generalizing w with
  | zero => exact ⟨rfl, nofun⟩
  | succ n ih =>
    refine perform_then (fun _ => parks) fun w₁ r _ => orRaise_then (fun _ _ => world_then ?_)
      fun _ _ => ⟨rfl, nofun⟩
    split
    · rename_i loadable
      exact ⟨rfl, fun _ => (view_loadable w₁ j).mpr loadable⟩
    · exact ih

/-- The mapping of a source event is made, or found. -/
theorem checkAndStoreSourceEvent_follows {record : SourceEventRecord} :
    Follows discipline (.submits false .none (.minted record.jobId)) w
      (checkAndStoreSourceEvent record) fun r τ _ =>
        r = .ok (.new, record) ∧ τ = .submits false
          (.reserved (sourceEventKey record.clientSource record.clientSourceEventId) record)
          (.minted record.jobId) ∨
        ∃ existing, r = .ok (if existing.intentEquivalenceHash = record.intentEquivalenceHash then
            .equivalent else .conflict, existing) ∧ τ = .submits false
          (.found (sourceEventKey record.clientSource record.clientSourceEventId) existing)
          (.minted record.jobId) := by
  generalize hkey : sourceEventKey record.clientSource record.clientSourceEventId = key
  simp only [checkAndStoreSourceEvent, hkey, Co.bind_eq, Co.pure_eq]
  refine world_then ?_
  by_cases inserts : w.insertsSource key = true
  · rw [if_pos inserts]
    refine update_then (.map key record) (.map ?_ rfl) (view_reserveSource w key record)
      (.inl ⟨rfl, rfl⟩)
    unfold World.insertsSource at inserts
    cases hd : w.db with
    | none => simp [hd] at inserts
    | some db =>
      simp only [hd, Option.isNone_iff_eq_none] at inserts
      exact ⟨by simp [World.view, hd, inserts], .inl (by simp [World.view, hd])⟩
  · rw [if_neg inserts]
    cases hr : w.sourceRecord? key with
    | some existing =>
      refine update_then (.cache key existing) (.find (by rw [view_source?, hr]))
        (view_cacheSource w key existing) ?_
      by_cases same : existing.intentEquivalenceHash = record.intentEquivalenceHash
      · rw [if_pos same]
        exact .inr ⟨existing, by rw [if_pos same], rfl⟩
      · rw [if_neg same]
        exact .inr ⟨existing, by rw [if_neg same], rfl⟩
    | none =>
      have detached : w.db = none := by
        cases hd : w.db with
        | none => rfl
        | some db =>
          simp only [World.insertsSource, hd, Option.isNone_iff_eq_none] at inserts
          simp only [World.sourceRecord?, hd, Option.bind_some] at hr
          obtain ⟨record', found⟩ := Option.ne_none_iff_exists'.mp inserts
          simp [found] at hr
      have free : w.sourceEventRecords.get? key = none := by
        simpa [World.sourceRecord?, detached] using hr
      refine update_then (.map key record) (.map ⟨?_, .inr free⟩ rfl) ?_ (.inl ⟨rfl, rfl⟩)
      · simp [World.view, detached]
      · rw [view_cacheSource]
        simp [Act.apply, World.view, detached]

/-- How a submission of a source event ends. -/
def SourceEnds (cfg : Settings) (s : Submission) (key : String) (r : Except Exc JobId) (τ : Tok)
    (w : World) : Prop :=
  ∃ l p, τ = .submits false l p ∧ (∀ j, p ≠ .stored j) ∧
    Sourced key (s.intent cfg) r l p w.view

theorem submitNew_follows {candidate : JobId} {keyText : String} {record : SourceEventRecord}
    (mine : record.jobId = candidate) (hash : record.intentEquivalenceHash = s.intent cfg)
    (free : w.records.get? keyText = none) :
    Follows discipline (.submits false (.reserved (sourceEventKey source eventId) record)
        (.minted candidate)) w
      ((createJob s ⟨some source, some eventId, some (s.intent cfg)⟩ candidate keyText).tryCatch
        fun e => do
          if e ≠ .cancelled then
            if !(← world).loadable candidate then
              releaseSourceEvent source eventId candidate
          throw e) (SourceEnds cfg s (sourceEventKey source eventId)) := by
  refine follows_tryCatch ((createJob_new (fun _ _ _ => rfl) free).mono ?_)
  rintro (x | j) τ w₁ ⟨p, rfl, unstored, made⟩
  · simp only [Co.bind_eq]
    split
    · refine world_then ?_
      by_cases loadable : w₁.loadable candidate = true
      · have found : w₁.view.Loadable record.jobId := mine ▸ (view_loadable w₁ _).mpr loadable
        simp only [loadable, Bool.not_true, Bool.false_eq_true, if_false]
        exact ⟨_, p, rfl, unstored, rfl, hash, (by simp), fun _ => .inr found⟩
      · have gone : ¬ w₁.view.Loadable record.jobId := by rwa [view_loadable, mine]
        simp only [loadable, Bool.not_false, if_true]
        refine update_then (.unmap (sourceEventKey source eventId) record.jobId) (.unmap gone)
          ?_ ⟨_, p, rfl, unstored, rfl, x, rfl⟩
        rw [mine]
        exact view_releaseSource _ _ _
    · rename_i cancelled
      rw [not_not] at cancelled
      subst cancelled
      exact ⟨_, p, rfl, unstored, rfl, hash, (by simp), fun _ => .inl rfl⟩
  · obtain ⟨rfl, ended, -, -⟩ := made j rfl
    refine ⟨_, p, rfl, unstored, rfl, hash, fun i hi => ?_, fun h => absurd ended h⟩
    cases hi
    exact ⟨mine.symm, ended⟩

theorem submitFound_follows {candidate : JobId} {record : SourceEventRecord}
    (same : record.intentEquivalenceHash = s.intent cfg) :
    Follows discipline (.submits false (.found (sourceEventKey source eventId) record)
        (.minted candidate)) w
      (do
        let loaded ← do
          if (← world).loadable record.jobId then
            pure true
          else
            awaitJobLoadable record.jobId 5
        if loaded then
          return record.jobId
        else
          let event ← build (eventSourceEventDivergence record.jobId source eventId)
          emitBestEffort event
          throw (.sourceEventPending record.jobId))
      (SourceEnds cfg s (sourceEventKey source eventId)) := by
  have ends (r : Except Exc JobId) (w : World)
      (given : ∀ i, r = .ok i → i = record.jobId ∧ w.view.Loadable i) :
      SourceEnds cfg s (sourceEventKey source eventId) r
        (.submits false (.found (sourceEventKey source eventId) record) (.minted candidate)) w :=
    ⟨_, _, rfl, by simp, rfl, by rw [if_pos same]; exact given⟩
  have answer (loaded : Bool) (w : World) (given : loaded = true → w.view.Loadable record.jobId) :
      Follows discipline (.submits false (.found (sourceEventKey source eventId) record)
          (.minted candidate)) w
        (if loaded then Co.ret record.jobId else
          (build (eventSourceEventDivergence record.jobId source eventId)).bind fun event =>
            (emitBestEffort event).bind fun _ => Co.raise (.sourceEventPending record.jobId))
        (SourceEnds cfg s (sourceEventKey source eventId)) := by
    split
    · rename_i loaded
      exact ends _ _ fun i hi => by cases hi; exact ⟨rfl, given loaded⟩
    · refine keeps_then (E := fun _ => True) (keeps_build _) (fun _ _ _ => ?_)
        fun _ _ _ _ => ends _ _ (by simp)
      exact keeps_then (E := fun _ => True) (keeps_emitBestEffort trivial fun _ => trivial)
        (fun _ _ _ => ends _ _ (by simp)) fun _ _ _ _ => ends _ _ (by simp)
  simp only [Co.bind_eq, Co.pure_eq]
  refine world_then ?_
  split
  · rename_i loadable
    exact answer true w fun _ => (view_loadable w _).mpr loadable
  · refine run_then (awaitJobLoadable_follows (by trivial) _ _) ?_ ?_
    · rintro w₁ τ loaded _ ⟨rfl, given⟩
      exact answer loaded w₁ fun h => given (by rw [h])
    · rintro w₁ τ x _ ⟨rfl, -⟩
      exact ends _ _ (by simp)

theorem submitLocked_follows :
    Follows discipline (.submits false .none .start) w (submitLocked cfg s source eventId)
      (SourceEnds cfg s (sourceEventKey source eventId)) := by
  simp only [submitLocked, Co.bind_eq]
  refine uuid7_then (fun u fresh => .mintJob fresh) fun candidate _ _ => ?_
  let record : SourceEventRecord := ⟨candidate, s.intent cfg, source, eventId⟩
  refine run_then (@checkAndStoreSourceEvent_follows _ record) ?_ ?_
  · rintro w₁ τ ⟨verdict, found⟩ _ (⟨h, rfl⟩ | ⟨existing, h, rfl⟩)
    · cases h
      exact uuid7_then (fun u _ => .mint u) fun u _ free => submitNew_follows rfl rfl free
    · obtain ⟨hv, rfl⟩ := Prod.mk.inj (Except.ok.inj h)
      by_cases same : found.intentEquivalenceHash = s.intent cfg
      · rw [if_pos same] at hv
        subst hv
        exact submitFound_follows same
      · rw [if_neg same] at hv
        subst hv
        refine keeps_then (E := fun w => w.view.Lost) (keeps_emit (by trivial)
          (by simp [eventSourceEventConflict, lifecycleTypes]) fun _ h => h) (fun w₂ _ _ => ?_)
          fun w₂ x _ lost => ⟨_, _, rfl, by simp, rfl, ?_⟩
        · refine ⟨_, _, rfl, by simp, rfl, ?_⟩
          rw [if_neg same]
          exact .inl rfl
        · rw [if_neg same]
          exact .inr ⟨⟨x, rfl⟩, lost⟩
  · rintro w₁ τ x _ (⟨h, -⟩ | ⟨_, h, -⟩) <;> cases h

theorem submitSourceEvent_follows :
    Follows discipline (.submits false .none .start) w (submitSourceEvent cfg s source eventId)
      (SourceEnds cfg s (sourceEventKey source eventId)) := by
  simp only [submitSourceEvent, Co.bind_eq, Co.pure_eq]
  refine world_then ?_
  have locked (w : World) : Follows discipline (.submits false .none .start) w
      ((update (·.lockSource (sourceEventKey source eventId))).bind fun _ =>
        ((submitLocked cfg s source eventId).tryCatch fun e =>
          (update (·.unlockSource (sourceEventKey source eventId))).bind fun _ => Co.raise e).bind
        fun job => (update (·.unlockSource (sourceEventKey source eventId))).bind fun _ =>
          Co.ret job) (SourceEnds cfg s (sourceEventKey source eventId)) := by
    refine quiet_then rfl (follows_bind (follows_tryCatch (submitLocked_follows.mono ?_)))
    rintro (x | j) τ w₁ ends
    · exact quiet_then rfl ends
    · exact quiet_then rfl ends
  split
  · refine ⟨fun _ => trivial, fun w₁ _ a granted => ?_⟩
    rcases granted with rfl | rfl
    · exact locked w₁
    · exact ⟨_, _, rfl, by simp, rfl⟩
  · exact locked w

end Sources

section Handler

variable {cfg : Settings} {s : Submission} {w : World}

theorem submitPlain_follows (key : s.plainKey? = s.idempotencyKey) :
    Follows discipline (.submits (s.stranded w) .none .start) w (submitPlain s) fun r τ w' =>
      ∃ p, τ = .submits (s.stranded w) .none p ∧ (∀ i, p ≠ .stored i) ∧
        ∀ k j, s.plainKey? = some k → r = .ok j →
          s.stranded w ∨ w'.view.records k = some j ∧ ∃ c, w'.view.core j = some c := by
  have untraced : Traced {} .none := fun _ _ _ => rfl
  simp only [submitPlain, Co.bind_eq, Co.pure_eq]
  rw [Submission.stranded, key]
  cases hk : s.idempotencyKey with
  | none =>
    simp only [Co.bind]
    refine uuid7_then (fun u _ => .mint u) fun u _ free => ?_
    refine uuid7_then (fun u fresh => .mintJob fresh) fun j _ _ => ?_
    refine (createJob_new (w := (w.issue u).issue j) untraced free).mono ?_
    rintro r τ w₁ ⟨p, rfl, unstored, -⟩
    exact ⟨p, rfl, unstored, (by simp)⟩
  | some k =>
    refine uuid7_then (fun u fresh => .mintJob fresh) fun j _ _ => ?_
    refine (createJob_follows (w := w.issue j) untraced rfl).mono ?_
    rintro r τ w₁ ⟨p, rfl, unstored, created⟩
    refine ⟨p, rfl, unstored, fun k' i hk' hi => ?_⟩
    cases hk'
    exact created i hi

theorem submitJob_follows :
    Follows discipline (first (.submit s) w) w (submitJob cfg s) (Ends cfg (.submit s)) := by
  simp only [first, submitJob]
  split
  · rename_i source eventId hs he
    have key : s.plainKey? = none := by simp [Submission.plainKey?, hs, he]
    have start : s.stranded w = false := by simp [Submission.stranded, key]
    rw [start]
    refine submitSourceEvent_follows.mono ?_
    rintro r τ w' ⟨l, p, rfl, unstored, sourced⟩
    refine ⟨fun k j hk => ?_, fun again l' j h => ?_, fun k hk => ?_⟩
    · rw [key] at hk
      cases hk
    · cases h
      exact unstored j rfl
    · simp only [Submission.sourceKey?, hs, he, Option.some.injEq] at hk
      subst hk
      exact ⟨_, l, p, rfl, sourced⟩
  · rename_i none
    have key : s.plainKey? = s.idempotencyKey := by simp only [Submission.plainKey?]
    refine (submitPlain_follows key).mono ?_
    rintro r τ w' ⟨p, rfl, unstored, ends⟩
    refine ⟨fun k j hk hj => ends k j hk hj, fun again l' j h => ?_, fun k hk => ?_⟩
    · cases h
      exact unstored j rfl
    · unfold Submission.sourceKey? at hk
      split at hk
      · exact absurd ‹_› (none _ _ ‹_›)
      · cases hk

end Handler

end Drnt.Orchestrator
