import Drnt.Orchestrator.Conduct

/-! What the steps that all coroutines share do under the discipline. -/
namespace Drnt.Orchestrator

open Lib Lib.Coop

variable {α β : Type} {τ σ : Tok} {w : World} {Φ : Except Exc β → Tok → World → Prop}

section Steps

theorem world_then {k : World → Task β} (next : Follows discipline τ w (k w) Φ) :
    Follows discipline τ w (world.bind k) Φ := next

theorem update_then {f : World → World} {k : Unit → Task β} (a : Act)
    (allowed : Allowed τ w.view a σ) (eq : (f w).view = a.apply w.view)
    (next : Follows discipline σ (f w) (k ()) Φ) :
    Follows discipline τ w ((update f).bind k) Φ := ⟨σ, ⟨a, allowed, eq⟩, next⟩

/-- An update that the protocol does not look at. -/
theorem quiet_then {f : World → World} {k : Unit → Task β} (eq : (f w).view = w.view)
    (next : Follows discipline τ (f w) (k ()) Φ) :
    Follows discipline τ w ((update f).bind k) Φ := update_then .quiet .quiet eq next

theorem perform_then {q : Req} {k : Ans q → Task β} (parks : suspends q = true → τ.parks)
    (next : ∀ w' a, w.view.Grows w'.view → Follows discipline τ w' (k a) Φ) :
    Follows discipline τ w ((perform q).bind k) Φ := by
  refine ⟨parks, fun w' hw a _ => next w' a ?_⟩
  split at hw
  · exact hw
  · exact hw ▸ .refl _

/-- A request that does not suspend leaves everything as it is. -/
theorem ask_then {q : Req} {k : Ans q → Task β} (quick : suspends q = false)
    (next : ∀ a, Follows discipline τ w (k a) Φ) :
    Follows discipline τ w ((perform q).bind k) Φ := by
  refine ⟨fun slow => by simp [quick] at slow, fun w' hw a _ => ?_⟩
  simp only [sig, quick, Bool.false_eq_true, if_false] at hw
  exact hw ▸ next a

theorem now_then {k : UtcTime → Task β} (next : ∀ t, Follows discipline τ w (k t) Φ) :
    Follows discipline τ w (now.bind k) Φ := ask_then rfl next

theorem uuid7_then {k : Uuid7 → Task β} {next : Uuid7 → Tok}
    (mint : ∀ u, u ∉ w.issued → Allowed τ w.view (.mint u) (next u))
    (then_ : ∀ u, u ∉ w.issued → w.records.get? u.text = none →
      Follows discipline (next u) (w.issue u) (k u) Φ) :
    Follows discipline τ w (uuid7.bind k) Φ := by
  refine ⟨fun slow => by simp [suspends] at slow, fun w' hw u fresh => ?_⟩
  simp only [sig, suspends, Bool.false_eq_true, if_false] at hw
  subst hw
  exact ⟨next u, ⟨_, mint u fresh.1, rfl⟩, then_ u fresh.1 fresh.2⟩

theorem build_then {draft : Draft} {k : Event → Task β}
    (next : ∀ u t, Follows discipline τ (w.issue u) (k (buildEvent draft u t)) Φ) :
    Follows discipline τ w ((build draft).bind k) Φ :=
  uuid7_then (fun u _ => .mint u) fun u _ _ => now_then (next u)

/-- What the world knows after a durable event has been accepted for delivery. -/
def Sent (w : World) (e : Event) : Prop :=
  ∃ verdict, verdict ≠ .lost ∧ .answered e verdict ∈ w.trace

theorem Sent.grown {w w' : World} {e : Event} (h : Sent w e) (grows : w.view.Grows w'.view) :
    Sent w' e := by
  obtain ⟨v, hv, mem⟩ := h
  exact ⟨v, hv, grows.trace.subset mem⟩

theorem lost_grown {v v' : View} (h : v.Lost) (grows : v.Grows v') : v'.Lost := by
  obtain ⟨e, mem⟩ := h
  exact ⟨e, grows.trace.subset mem⟩

theorem told_grown {v v' : View} {type : String} {j : JobId} (h : v.Told type j)
    (grows : v.Grows v') : v'.Told type j := by
  obtain ⟨e, type, job, verdict, answered, mem⟩ := h
  exact ⟨e, type, job, verdict, answered, grows.trace.subset mem⟩

theorem in_memory_grown {w w' : World} (grows : w.view.Grows w'.view)
    (h : ∃ job, w.job? j = some job) : ∃ job, w'.job? j = some job := by
  obtain ⟨job, hj⟩ := h
  obtain ⟨c, hc⟩ := grows.core (j := j) (c := job.core) (by simp [hj])
  rw [view_core, Option.map_eq_some_iff] at hc
  exact ⟨_, hc.choose_spec.1⟩

theorem harmless_answered (e : Event) (v : Verdict) : (Obs.answered e v).Harmless := trivial

/-- A durable event: the client answers about it, or it is lost and the token moves on. -/
theorem emitDurable_else {e : Event} {σ' : Tok} {k : Bool → Task β}
    (attempt : Allowed τ w.view (.observe (.attempted e)) σ) (parks : σ.parks)
    (drop : ∀ v, Allowed σ v (.observe (.answered e .lost)) σ')
    (next : ∀ w' b, w.view.Grows w'.view → Sent w' e → Follows discipline σ w' (k b) Φ)
    (lost : ∀ w' x, w.view.Grows w'.view → w'.view.Lost → Φ (.error x) σ' w') :
    Follows discipline τ w ((emitDurable e).bind k) Φ := by
  refine ⟨σ, ⟨_, attempt, rfl⟩, fun _ => parks, fun w₁ hw r _ => ?_⟩
  simp only [sig, suspends, if_true] at hw
  have noted (v : Verdict) : Allowed σ w₁.view (.observe (.answered e v)) σ :=
    .note (harmless_answered e v)
  have grows (v : Verdict) : w.view.Grows (w₁.record (.answered e v)).view :=
    (attempt.grows.trans hw).trans (noted v).grows
  have mem (v : Verdict) : .answered e v ∈ (w₁.record (.answered e v)).trace :=
    List.mem_append_right _ (List.mem_singleton_self _)
  cases r with
  | ok b =>
    cases b with
    | true =>
      exact ⟨σ, ⟨_, noted _, rfl⟩, next _ true (grows _) ⟨_, by simp, mem .acknowledged⟩⟩
    | false =>
      exact ⟨σ, ⟨_, noted _, rfl⟩, next _ false (grows _) ⟨_, by simp, mem .rejected⟩⟩
  | error x => exact ⟨σ', ⟨_, drop _, rfl⟩, lost _ x (grows _) ⟨e, mem .lost⟩⟩

theorem emitDurable_then {e : Event} {k : Bool → Task β}
    (attempt : Allowed τ w.view (.observe (.attempted e)) σ) (parks : σ.parks)
    (next : ∀ w' b, w.view.Grows w'.view → Sent w' e → Follows discipline σ w' (k b) Φ)
    (lost : ∀ w' x, w.view.Grows w'.view → w'.view.Lost → Φ (.error x) σ w') :
    Follows discipline τ w ((emitDurable e).bind k) Φ :=
  emitDurable_else attempt parks (fun _ => .note (harmless_answered e _)) next lost

/-- An emitted event: it was built from the draft when nothing but its id had been issued,
and it has been sent. -/
theorem emit_else {draft : Draft} {σ' : Tok} {k : Event → Task β}
    (attempt : ∀ e u, e.toDraft = draft →
      Allowed τ (w.issue u).view (.observe (.attempted e)) σ) (parks : σ.parks)
    (drop : ∀ e v, Allowed σ v (.observe (.answered e .lost)) σ')
    (next : ∀ w' e, e.toDraft = draft → w.view.Grows w'.view → Sent w' e →
      Follows discipline σ w' (k e) Φ)
    (lost : ∀ w' x, w.view.Grows w'.view → w'.view.Lost → Φ (.error x) σ' w') :
    Follows discipline τ w ((emit draft).bind k) Φ := by
  simp only [emit, Co.bind_eq, Co.bind_assoc, Co.pure_eq, Co.bind]
  refine build_then fun u t => ?_
  have grows : w.view.Grows (w.issue u).view := (Allowed.mint (τ := τ) u).grows
  refine emitDurable_else (attempt (buildEvent draft u t) u rfl) parks (drop _)
    (fun w' _ hw sent => ?_) fun w' x hw => ?_
  · exact next w' (buildEvent draft u t) rfl (grows.trans hw) sent
  · exact lost w' x (grows.trans hw)

theorem emit_then {draft : Draft} {k : Event → Task β}
    (attempt : ∀ e u, e.toDraft = draft →
      Allowed τ (w.issue u).view (.observe (.attempted e)) σ) (parks : σ.parks)
    (next : ∀ w' e, e.toDraft = draft → w.view.Grows w'.view → Sent w' e →
      Follows discipline σ w' (k e) Φ)
    (lost : ∀ w' x, w.view.Grows w'.view → w'.view.Lost → Φ (.error x) σ w') :
    Follows discipline τ w ((emit draft).bind k) Φ :=
  emit_else attempt parks (fun e _ => .note (harmless_answered e _)) next lost

/-- The lifecycle event of a decision, after which its status can be set. -/
theorem endEvent_then {j : JobId} {d : Decision} {succ : Successor} {draft : Draft} {k : Event → Task β}
    {Φ : Except Exc β → Tok → World → Prop} (type : draft.eventType = d.endType)
    (job : draft.jobId = some j)
    (next : ∀ w' e, w.view.Grows w'.view → w'.view.Told d.endType j →
      Follows discipline (.decides j d .ending succ) w' (k e) Φ)
    (lost : ∀ w' x, w'.view.Lost → Φ (.error x) (.decides j d .aborted succ) w') :
    Follows discipline (.decides j d .announced succ) w ((emit draft).bind k) Φ := by
  refine emit_else (σ := .decides j d .ending succ)
    (fun e u he => .endEvent ⟨by rw [he, type], by rw [he, job]⟩) trivial
    (fun e v => .abort (by simp)) (fun w₁ e he hw sent => ?_) fun w' x _ hl => lost w' x hl
  exact next w₁ e hw ⟨e, by rw [he, type], by rw [he, job], sent⟩

theorem deref_then {j : JobId} {k : Job → Task β}
    (next : ∀ job, w.job? j = some job → Follows discipline τ w (k job) Φ)
    (dangling : w.job? j = none → Φ (.error .dangling) τ w) :
    Follows discipline τ w ((deref j).bind k) Φ := by
  rw [deref, Co.bind_eq, Co.bind_assoc]
  refine world_then ?_
  cases hj : w.job? j with
  | none => exact dangling hj
  | some job => exact next job hj

theorem derefHere_then {j : JobId} {k : Job → Task β} (here : ∃ job, w.job? j = some job)
    (next : ∀ job, w.job? j = some job → Follows discipline τ w (k job) Φ) :
    Follows discipline τ w ((deref j).bind k) Φ := by
  refine deref_then next fun missing => ?_
  obtain ⟨job, hj⟩ := here
  cases missing.symm.trans hj

theorem orRaise_then {r : Except Exc α} {k : α → Task β}
    (next : ∀ a, r = .ok a → Follows discipline τ w (k a) Φ)
    (error : ∀ x, r = .error x → Φ (.error x) τ w) :
    Follows discipline τ w ((orRaise r).bind k) Φ := by
  cases r with
  | ok a => exact next a rfl
  | error x => exact error x rfl

theorem putNowait_then {j : JobId} {k : Bool → Task β} (allowed : Allowed τ w.view (.enqueue j) σ)
    (room : Follows discipline σ (w.enqueue j) (k true) Φ)
    (full : Follows discipline τ w (k false) Φ) :
    Follows discipline τ w ((putNowait j).bind k) Φ := by
  simp only [putNowait, Co.bind_eq, Co.bind_assoc]
  refine world_then ?_
  split
  · simp only [Co.bind_assoc]
    exact update_then _ allowed rfl room
  · exact full

/-- A coroutine with a known end runs before another. -/
theorem run_then {x : Task α} {k : α → Task β} {Ψ : Except Exc α → Tok → World → Prop}
    (run : Follows discipline τ w x Ψ)
    (next : ∀ w' τ' a, w.view.Grows w'.view → Ψ (.ok a) τ' w' →
      Follows discipline τ' w' (k a) Φ)
    (error : ∀ w' τ' e, w.view.Grows w'.view → Ψ (.error e) τ' w' → Φ (.error e) τ' w') :
    Follows discipline τ w (x.bind k) Φ := by
  refine follows_bind (run.growing.mono ?_)
  rintro (e | a) τ' w' ⟨h, grows⟩
  · exact error w' τ' e grows h
  · exact next w' τ' a grows h

/-- A coroutine that keeps its token runs before another. -/
theorem keeps_then {E : World → Prop} {x : Task α} {k : α → Task β}
    (keeps : Keeps discipline E τ x)
    (next : ∀ w' a, w.view.Grows w'.view → Follows discipline τ w' (k a) Φ)
    (error : ∀ w' e, w.view.Grows w'.view → E w' → Φ (.error e) τ w') :
    Follows discipline τ w (x.bind k) Φ :=
  follows_bind (keeps.follows (fun a w' => next w' a) (fun e w' => error w' e))

end Steps

section Keeping

variable {E : World → Prop}

theorem keeps_update {f : World → World} (a : World → Act)
    (allowed : ∀ w, Allowed τ w.view (a w) τ) (eq : ∀ w, (f w).view = (a w).apply w.view) :
    Keeps discipline E τ (update f) :=
  keeps_modify fun w => ⟨a w, allowed w, eq w⟩

theorem keeps_quiet {f : World → World} (eq : ∀ w, (f w).view = w.view) :
    Keeps discipline E τ (update f) := keeps_update (fun _ => .quiet) (fun _ => .quiet) eq

theorem keeps_persistJob (j : JobId) : Keeps discipline E τ (persistJob j) :=
  keeps_update (fun _ => .persist j) (fun _ => .persist j) fun w => view_persistJob w j

theorem keeps_record {o : Obs} (h : o.Harmless) : Keeps discipline E τ (update (·.record o)) :=
  keeps_update (fun _ => .observe o) (fun _ => .note h) fun _ => rfl

theorem keeps_uuid7 : Keeps discipline E τ uuid7 := fun _ =>
  ⟨fun slow => by simp [suspends] at slow, fun _ _ u _ =>
    ⟨τ, ⟨_, .mint u, rfl⟩, rfl, fun _ h => by cases h⟩⟩

theorem keeps_now : Keeps discipline E τ now :=
  keeps_perform fun slow => by simp [suspends] at slow

theorem keeps_ask {q : Req} (quick : suspends q = false) : Keeps discipline E τ (perform q) :=
  keeps_perform fun slow => by simp [quick] at slow

theorem keeps_await {q : Req} (parks : τ.parks) : Keeps discipline E τ (perform q) :=
  keeps_perform fun _ => parks

theorem keeps_build (draft : Draft) : Keeps discipline E τ (build draft) :=
  keeps_bind keeps_uuid7 fun _ => keeps_bind keeps_now fun _ => keeps_ret _

theorem keeps_emitAs {draft : Draft} (parks : τ.parks)
    (attempt : ∀ v e, e.toDraft = draft → Allowed τ v (.observe (.attempted e)) τ)
    (lost : ∀ w, w.view.Lost → E w) : Keeps discipline E τ (emit draft) := by
  intro w
  refine build_then fun u t => emitDurable_then (attempt _ _ rfl) parks (fun w' _ _ _ => ?_)
    fun w' x _ hl => ?_
  · exact ⟨rfl, fun _ h => by cases h⟩
  · exact ⟨rfl, fun _ _ => lost w' hl⟩

/-- Emitting an event that moves no job on. -/
theorem keeps_emit {draft : Draft} (parks : τ.parks)
    (harmless : draft.eventType ∉ "human.override" :: lifecycleTypes)
    (lost : ∀ w, w.view.Lost → E w) : Keeps discipline E τ (emit draft) :=
  keeps_emitAs parks (fun _ e he => .note (by rw [Obs.Harmless, he]; exact harmless)) lost

theorem keeps_detail {j : JobId} {f : Job → Job} (h : ActsAs f id) :
    Keeps discipline E τ (updateJob j f) := keeps_quiet fun w => view_updateJob_quiet h w j

theorem keeps_orRaise {r : Except Exc α} (h : ∀ w, E w) : Keeps discipline E τ (orRaise r) := by
  cases r with
  | ok a => exact keeps_ret a
  | error x => exact keeps_raise h

theorem keeps_emitBestEffort {e : Event} (parks : τ.parks) (h : ∀ w, E w) :
    Keeps discipline E τ (emitBestEffort e) :=
  keeps_bind (keeps_record trivial) fun _ =>
    keeps_bind (keeps_await parks) fun _ => keeps_orRaise h

theorem keeps_deref {j : JobId} (h : ∀ w, E w) : Keeps discipline E τ (deref j) := by
  refine keeps_bind keeps_read fun w => ?_
  cases w.job? j with
  | some job => exact keeps_ret job
  | none => exact keeps_raise h

/-- Writing a text fails only with the file. -/
theorem keeps_writeResult (parks : τ.parks) (resultId : Json) (content : String)
    (unwritten : ∀ w, w.view.Unwritten → E w) :
    Keeps discipline E τ (writeResult resultId (.text content)) := by
  simp only [writeResult, Json.text, decode?_py, Co.bind_eq]
  refine keeps_bind (keeps_await parks) fun r => ?_
  cases r with
  | ok => exact keeps_quiet fun _ => rfl
  | error e =>
    intro w
    refine update_then (.observe (.unwritten resultId)) (.note trivial) rfl ⟨rfl, fun _ _ => ?_⟩
    exact unwritten _ ⟨resultId, by simp⟩

theorem keeps_teardownWorker (parks : τ.parks)
    (lost : ∀ w, w.view.Lost → E w) (ctx : WorkerContext) :
    Keeps discipline E τ (teardownWorker ctx) := by
  refine keeps_bind (keeps_ask rfl) fun report => ?_
  refine keeps_bind (keeps_emit parks (by simp [eventWorkerTeardown, lifecycleTypes]) lost)
    fun _ => ?_
  exact keeps_quiet fun _ => rfl

end Keeping

end Drnt.Orchestrator
