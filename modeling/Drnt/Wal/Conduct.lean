import Drnt.Wal.Protocol

/-! All calls keep to the order of the protocol. -/
namespace Drnt.Wal

open Lib Lib.Coop

variable {acked : Prop} {α : Type} {s : World}

section Rules

abbrev Keeps (acked : Prop) (τ : Tok) (s : World) (x : Prog α)
    (Φ : Except Error α → Tok → World → Prop) : Prop :=
  Follows (conduct acked).toDiscipline τ s x Φ

variable {β : Type} {τ τ' : Tok} {Φ : Except Error β → Tok → World → Prop} {cap : PyStr}
  {e : Entry}

theorem world_then {k : World → Prog β} (h : Keeps acked τ s (k s) Φ) :
    Keeps acked τ s (world.bind k) Φ := h

theorem update_then {f : World → World} {k : Unit → Prog β} (move : Move acked τ s τ' (f s))
    (h : Keeps acked τ' (f s) (k ()) Φ) : Keeps acked τ s ((update f).bind k) Φ := ⟨τ', move, h⟩

theorem entry_then {k : Entry → Prog β}
    (here : ∀ e, s.entryAt? cap = some e → Keeps acked τ s (k e) Φ)
    (missing : s.entryAt? cap = none → ∀ x, Φ (.error x) τ s) : Keeps acked τ s ((entry cap).bind k) Φ := by
  change Keeps acked τ s ((orRaise _ (s.entryAt? cap)).bind k) Φ
  cases at_ : s.entryAt? cap with
  | none => exact missing at_ _
  | some e => exact here e at_

theorem wal_then {k : Int → Prog β}
    (here : ∀ e, s.entryAt? cap = some e → Keeps acked τ s (k e.effective) Φ)
    (missing : s.entryAt? cap = none → ∀ x, Φ (.error x) τ s) : Keeps acked τ s ((getEffectiveWal cap).bind k) Φ := by
  change Keeps acked τ s (((entry cap).bind fun e => .ret e.effective).bind k) Φ
  rw [Co.bind_assoc]
  exact entry_then here missing

/-- An entry that is known to be there. -/
theorem known_then {k : Entry → Prog β} (at_ : s.entryAt? cap = some e)
    (h : Keeps acked τ s (k e) Φ) : Keeps acked τ s ((entry cap).bind k) Φ := by
  change Keeps acked τ s ((orRaise _ (s.entryAt? cap)).bind k) Φ
  rw [at_]
  exact h

theorem level_then {k : Int → Prog β} (at_ : s.entryAt? cap = some e)
    (h : Keeps acked τ s (k e.effective) Φ) : Keeps acked τ s ((getEffectiveWal cap).bind k) Φ := by
  change Keeps acked τ s (((entry cap).bind fun e => .ret e.effective).bind k) Φ
  rw [Co.bind_assoc]
  exact known_then at_ h

theorem edit_then {f : Entry → Entry} {k : Unit → Prog β} (at_ : s.entryAt? cap = some e)
    (move : Move acked τ s τ' (s.edit cap f)) (h : Keeps acked τ' (s.edit cap f) (k ()) Φ) :
    Keeps acked τ s ((edit cap f).bind k) Φ := by
  change Keeps acked τ s (((entry cap).bind fun _ => update (·.edit cap f)).bind k) Φ
  rw [Co.bind_assoc]
  exact known_then at_ (update_then move h)

/-- An edit of an entry that may be missing. -/
theorem try_edit_then {f : Entry → Entry} {k : Unit → Prog β}
    (here : ∀ e, s.entryAt? cap = some e → ∃ τ', Move acked τ s τ' (s.edit cap f) ∧
      Keeps acked τ' (s.edit cap f) (k ()) Φ)
    (missing : s.entryAt? cap = none → ∀ x, Φ (.error x) τ s) :
    Keeps acked τ s ((edit cap f).bind k) Φ := by
  change Keeps acked τ s (((entry cap).bind fun _ => update (·.edit cap f)).bind k) Φ
  rw [Co.bind_assoc]
  refine entry_then (fun e at_ => ?_) missing
  obtain ⟨τ', move, h⟩ := here e at_
  exact update_then move h

theorem orRaise_then {x : Option α} {error : Error} {k : α → Prog β}
    (some_ : ∀ a, x = some a → Keeps acked τ s (k a) Φ) (none_ : Φ (.error error) τ s) :
    Keeps acked τ s ((orRaise error x).bind k) Φ := by
  cases x with
  | none => exact none_
  | some a => exact some_ a rfl

theorem Serving.loaded {b : Base} (h : Serving b s) : b.isLoading = false := by
  cases b with
  | loading => exact h.elim
  | _ => rfl

/-- An emit from the event's being sent to what is owed then. -/
theorem emit_then {b : Base} {σ : Stage} {body : Body} {k : PyStr → Prog β}
    (serving : Serving b s) (may : Sends b σ s body)
    (ok : ∀ id s', Grows s s' → Keeps acked ⟨b, landed body⟩ s' (k id) Φ)
    (error : ¬ acked → ∀ x s', Grows s s' → Φ (.error x) ⟨b, landed body⟩ s') :
    Keeps acked ⟨b, σ⟩ s ((emit body).bind k) Φ := by
  refine ⟨(nofun), fun s₀ same id _ => ?_⟩
  cases same
  let e : Event := ⟨id, body⟩
  have sent : Move acked ⟨b, σ⟩ s ⟨b, .flying e false⟩ (s.send e) := .send serving may
  refine ⟨_, sent, fun _ => ⟨serving.loaded, .inl ⟨e, false, rfl⟩⟩, fun s₁ grown a answer => ?_⟩
  have grown := sent.grows.trans grown
  match a with
  | .accepted =>
    have logged : Move acked ⟨b, .flying e false⟩ s₁ ⟨b, .flying e true⟩ (s₁.record e) := .record
    refine ⟨_, logged, fun _ => ⟨serving.loaded, .inl ⟨e, true, rfl⟩⟩, fun s₂ more a answer => ?_⟩
    have over_ : Move acked ⟨b, .flying e true⟩ s₂ ⟨b, landed body⟩ (s₂.arrive e true) :=
      .arrive fun _ => rfl
    have grown := ((grown.trans logged.grows).trans more).trans over_.grows
    refine ⟨_, over_, ?_⟩
    match a with
    | true => exact ok id _ grown
    | false => exact error (fun yes => Bool.noConfusion (answer yes)) _ _ grown
  | .rejected =>
    have over_ (known : ¬ acked) : Move acked ⟨b, .flying e false⟩ s₁ ⟨b, landed body⟩
        (s₁.arrive e false) := .arrive fun yes => absurd yes known
    by_cases yes : acked
    · cases answer yes
    · exact ⟨_, over_ yes, ok id _ (grown.trans (over_ yes).grows)⟩
  | .lost =>
    have over_ (known : ¬ acked) : Move acked ⟨b, .flying e false⟩ s₁ ⟨b, landed body⟩
        (s₁.arrive e false) := .arrive fun yes => absurd yes known
    by_cases yes : acked
    · cases answer yes
    · exact ⟨_, over_ yes, error yes _ _ (grown.trans (over_ yes).grows)⟩

end Rules

section Demotions

/-- A handler comes back with nothing left to do. -/
def Back (acked : Prop) (b : Base) : Except Error α → Tok → World → Prop
  | .ok _, τ, s => τ = ⟨b, .idle⟩ ∧ Serving b s
  | .error _, τ, s => Ends acked s τ.stage

variable {b : Base} {cap : PyStr} {e : Entry} {τ : Tok} {s' : World}

theorem executeDemotion_keeps {σ : Stage} {t : Int} {trigger : Trigger} {id : Option PyStr}
    (serving : Serving b s) (other : b ≠ .reconciling)
    (from_ : σ = .idle ∨ ∃ ex, σ = .overriding cap ex) (at_ : s.entryAt? cap = some e)
    (way : Lowers b e.effective t) (told : trigger ≠ .manual) :
    Keeps acked ⟨b, σ⟩ s (executeDemotion cap t trigger id) (Back acked b) := by
  have level : s.level? cap = some e.effective := congrArg (Option.map Entry.effective) at_
  let s₁ := s.edit cap (·.demote t)
  let s₂ := s₁.edit cap (·.withCounters .reset)
  have at₁ : s₁.entryAt? cap = some (e.demote t) := by rw [entryAt?_edit_self, at_]; rfl
  have at₂ : s₂.entryAt? cap = some ((e.demote t).withCounters .reset) := by
    rw [entryAt?_edit_self, at₁]
    rfl
  have tells (s₃ : World) (name : PyStr) (serving : Serving b s₃) : Keeps acked
      ⟨b, .owing cap e.effective t⟩ s₃ ((emit (Body.demoted cap name e.effective t trigger id)).bind
        fun sent => .ret (DemotionResult.demoted cap e.effective t trigger sent)) (Back acked b) := by
    have plain : landed (Body.demoted cap name e.effective t trigger id) = .idle := by
      simp [landed, Body.announces, told]
    refine emit_then serving (by rw [Sends, if_neg told]) ?_ ?_
    · intro sent s₄ grown
      rw [plain]
      exact ⟨rfl, serving.grown grown⟩
    · intro _ x s₄ _
      rw [plain]
      trivial
  refine level_then at_ (edit_then at_ (.lower serving other from_ level way) (edit_then at₁ .reset ?_))
  match id with
  | none => exact tells s₂ _ (serving.same rfl)
  | some id =>
    by_cases named : id ≠ []
    · simp only [if_pos named]
      exact edit_then at₂ (.counters (.incident id)) (tells _ _ (serving.same rfl))
    · simp only [if_neg named]
      exact tells s₂ _ (serving.same rfl)

theorem count_then {β : Type} {τ : Tok} {k : Nat → Prog β}
    {Φ : Except Error β → Tok → World → Prop} (serving : Serving .call s)
    (here : ∀ n s', Serving .call s' → Keeps acked τ s' (k n) Φ)
    (error : ∀ x s', Φ (.error x) τ s') :
    Keeps acked τ s ((getRecentFailureCount cap).bind k) Φ := by
  change Keeps acked τ s (((evictOldFailures cap).bind fun _ => (entry cap).bind fun e =>
    .ret e.counters.recentFailures.length).bind k) Φ
  unfold evictOldFailures
  simp only [Co.bind_eq, Co.bind_assoc]
  refine entry_then (fun e at_ => ?_) fun _ x => error x s
  refine world_then (orRaise_then (fun kept _ => ?_) (error _ s))
  refine edit_then at_ (.counters (.evict kept)) ?_
  exact entry_then (fun e' _ => here _ _ serving) fun _ x => error x _

theorem handleStripFailure_keeps {id : PyStr} (serving : Serving .call s) :
    Keeps acked ⟨.call, .idle⟩ s (handleStripFailure id) (Back acked .call) := by
  refine world_then ?_
  split
  · exact ⟨rfl, serving⟩
  refine wal_then (fun e at_ => ?_) fun _ _ => trivial
  split
  · exact ⟨rfl, serving⟩
  · rename_i working
    exact executeDemotion_keeps serving (by decide) (.inl rfl) at_ ⟨working, .inl rfl⟩ (by decide)

theorem handleJobFailure_keeps {id : PyStr} {ts : Stamp} (serving : Serving .call s) :
    Keeps acked ⟨.call, .idle⟩ s (handleJobFailure cap id ts) (Back acked .call) := by
  unfold handleJobFailure
  split
  · exact ⟨rfl, serving⟩
  refine world_then ?_
  split
  · exact ⟨rfl, serving⟩
  refine try_edit_then (fun e at_ => ⟨_, .counters (.fail _), ?_⟩) fun _ _ => trivial
  refine count_then serving (fun count s₁ serving => ?_) fun _ _ => trivial
  split
  · exact ⟨rfl, serving⟩
  refine wal_then (fun e at_ => ?_) fun _ _ => trivial
  split
  · exact ⟨rfl, serving⟩
  · have way : Lowers .call e.effective (e.effective - 1) :=
      ⟨by omega, .inr (.inl ⟨by omega, by omega⟩)⟩
    exact executeDemotion_keeps serving (by decide) (.inl rfl) at_ way (by decide)

theorem handleOverrideDemotion_keeps {type : PyStr} {prior : Option PyStr} {id : PyStr}
    (serving : Serving .call s) :
    Keeps acked ⟨.call, .idle⟩ s (handleOverrideDemotion type cap prior id) fun _ τ s =>
      Ends acked s τ.stage := by
  unfold handleOverrideDemotion
  split
  · trivial
  refine update_then (.override serving) (wal_then (fun e at_ => ?_) fun missing x e at_ => ?_)
  · split
    · rename_i low
      intro e' at' h
      cases at_.symm.trans at'
      exact absurd h.1 (by omega)
    split
    · rename_i spared
      intro e' at' h
      rw [spared] at h
      cases h.2
    · have way : Lowers .call e.effective (e.effective - 1) :=
        ⟨by omega, .inr (.inl ⟨by omega, by omega⟩)⟩
      have told : Trigger.override ≠ .manual := by decide
      let s₁ := s.note (.overridden cap (exempt prior))
      refine (executeDemotion_keeps (s := s₁) serving (by decide) (.inr ⟨_, rfl⟩) at_ way told).mono ?_
      rintro (x | result) τ s' back
      · exact back
      · rw [back.1]
        trivial
  · cases missing.symm.trans at_

theorem handleModelChange_keeps {id : Option PyStr} {caps : List PyStr}
    (model : b = .model ∨ b = .settled) (serving : Serving b s) :
    Keeps acked ⟨b, .idle⟩ s (handleModelChange id caps) (Back acked b) := by
  have begun : b ≠ .reconciling := by
    rcases model with rfl | rfl <;> decide
  induction caps generalizing s with
  | nil => exact ⟨rfl, serving⟩
  | cons cap rest ih =>
    unfold handleModelChange
    refine wal_then (fun e at_ => ?_) fun _ _ => trivial
    split
    · exact ih serving
    · rename_i changed
      have way : Lowers b e.effective 0 := ⟨changed, .inr (.inr ⟨model, rfl⟩)⟩
      refine follows_bind ((executeDemotion_keeps serving begun (.inl rfl) at_ way (by decide)).mono ?_)
      rintro (x | result) τ s' back
      · exact back
      · obtain ⟨rfl, serving⟩ := back
        refine follows_bind ((ih serving).mono ?_)
        rintro (x | results) τ s' back
        · exact back
        · exact back

theorem handleApprovalDecay_keeps (serving : Serving .call s) :
    Keeps acked ⟨.call, .idle⟩ s (handleApprovalDecay cap) (Back acked .call) := by
  refine wal_then (fun e at_ => ?_) fun _ _ => trivial
  split
  · exact ⟨rfl, serving⟩
  rename_i three
  refine known_then at_ ?_
  split
  · exact ⟨rfl, serving⟩
  split
  · exact ⟨rfl, serving⟩
  · have way : Lowers .call e.effective 2 := ⟨by omega, .inr (.inl ⟨by omega, by omega⟩)⟩
    exact executeDemotion_keeps serving (by decide) (.inl rfl) at_ way (by decide)

theorem demoteForOverride_keeps {engine : Bool} {cap : Option PyStr} {jobId type : PyStr}
    (serving : Serving .call s) :
    Keeps acked ⟨.call, .idle⟩ s (demoteForOverride engine cap jobId type) (Back acked .call) := by
  unfold demoteForOverride
  split
  · match cap with
    | none => exact ⟨rfl, serving⟩
    | some cap =>
      exact emit_then serving ⟨rfl, rfl⟩ (fun _ _ grown => ⟨rfl, serving.grown grown⟩)
        fun _ _ _ _ => trivial
  · exact ⟨rfl, serving⟩

end Demotions

section Decay

variable {config : DecayConfig} {now : Int} {cap : PyStr}

theorem evaluateCapability_keeps (serving : Serving .call s) :
    Keeps acked ⟨.call, .idle⟩ s (evaluateCapability config now cap) (Back acked .call) := by
  refine entry_then (fun e at_ => ?_) fun _ _ => trivial
  dsimp only
  split
  · exact ⟨rfl, serving⟩
  rename_i high
  split
  · exact ⟨rfl, serving⟩
  refine orRaise_then (fun cutoff _ => ?_) trivial
  refine orRaise_then (fun inWindow _ => ?_) trivial
  split
  · exact ⟨rfl, serving⟩
  refine emit_then serving ⟨rfl, rfl, by omega, e, at_, rfl⟩ (fun id s₁ grown => ?_) ?_
  · have serving₁ := serving.grown grown
    refine try_edit_then (fun e₁ at₁ => ?_) fun missing x yes c f t told => ?_
    · refine ⟨_, .decay serving₁ at₁ rfl (by omega), ?_⟩
      have at₂ : (s₁.edit cap (·.demote (e.effectiveWalLevel - 1))).entryAt? cap =
          some (e₁.demote (e.effectiveWalLevel - 1)) := by rw [entryAt?_edit_self, at₁]; rfl
      exact edit_then at₂ .reset ⟨rfl, serving₁⟩
    · cases told
      by_contra other
      have stays := grown.stays serving.begun cap other (by rw [at_]; rfl)
      rw [missing] at stays
      cases stays
  · exact fun unknown _ _ _ yes => absurd yes unknown

theorem evaluateAll_keeps {caps : List PyStr} (serving : Serving .call s) :
    Keeps acked ⟨.call, .idle⟩ s (evaluateAll config now caps) (Back acked .call) := by
  induction caps generalizing s with
  | nil => exact ⟨rfl, serving⟩
  | cons cap rest ih =>
    refine follows_bind ((evaluateCapability_keeps serving).mono ?_)
    rintro (x | action) τ s' back
    · exact back
    · obtain ⟨rfl, serving⟩ := back
      refine follows_bind ((ih serving).mono ?_)
      rintro (x | actions) τ s' back
      · exact back
      · exact back

theorem evaluate_keeps (serving : Serving .call s) :
    Keeps acked ⟨.call, .idle⟩ s (evaluate config) (Back acked .call) := by
  unfold evaluate
  split
  · exact evaluateAll_keeps serving
  · exact ⟨rfl, serving⟩

theorem evaluateStartup_keeps {passes : Nat} (serving : Serving .call s) :
    Keeps acked ⟨.call, .idle⟩ s (evaluateStartup config passes) (Back acked .call) := by
  induction passes generalizing s with
  | zero => exact ⟨rfl, serving⟩
  | succ passes ih =>
    refine follows_bind ((evaluate_keeps serving).mono ?_)
    rintro (x | actions) τ s' back
    · exact back
    · obtain ⟨rfl, serving⟩ := back
      cases actions with
      | nil => exact ⟨rfl, serving⟩
      | cons =>
        refine follows_bind ((ih serving).mono ?_)
        rintro (x | more) τ s' back
        · exact back
        · exact back

end Decay

section Promotion

variable {cap : PyStr}

/-- The evidence that is weighed stands in the counters. -/
def Weighed (criteria : Criteria) (c : Counters) :
    Except Error (Except String PromotionEvidence) → Prop
  | .ok (.ok _) => criteria.evaluableOutcomes ≤ c.evaluableOutcomes.length ∧
      ∃ ts t, c.firstJobDate = some ts ∧ ts.instant? = some t
  | .ok (.error _) | .error _ => True

theorem weigh_keeps {criteria : Criteria} {now : Int} {c : Counters} {τ : Tok} :
    Keeps acked τ s (weigh criteria now c) fun r τ' s' =>
      τ' = τ ∧ s' = s ∧ Weighed criteria c r := by
  have idle (r : Except String PromotionEvidence) (h : Weighed criteria c (.ok r)) :
      Keeps acked τ s (.ret r) fun r τ' s' => τ' = τ ∧ s' = s ∧ Weighed criteria c r :=
    ⟨rfl, rfl, h⟩
  unfold weigh
  dsimp only
  split
  · exact idle _ trivial
  rename_i outcomes
  split
  · exact idle _ trivial
  rename_i ts dated
  refine orRaise_then (fun first read => ?_) ⟨rfl, rfl, trivial⟩
  split
  · exact idle _ trivial
  split
  · exact idle _ trivial
  split
  · exact idle _ trivial
  split
  · exact idle _ trivial
  · exact idle _ ⟨not_lt.mp outcomes, ts, first, dated, read⟩

theorem checkPromotion_keeps (serving : Serving .call s) :
    Keeps acked ⟨.call, .idle⟩ s (checkPromotion cap) (Back acked .call) := by
  refine wal_then (fun e at_ => ?_) fun _ _ => trivial
  split
  · exact ⟨rfl, serving⟩
  refine world_then ?_
  split
  · exact ⟨rfl, serving⟩
  rename_i config known
  split
  · exact ⟨rfl, serving⟩
  split
  · exact ⟨rfl, serving⟩
  rename_i criteria asks
  refine world_then (known_then at_ (follows_bind (weigh_keeps.mono ?_)))
  rintro (x | reason | evidence) τ s₁ ⟨rfl, rfl, weighed⟩
  · trivial
  · exact ⟨rfl, serving⟩
  obtain ⟨outcomes, ts, t, dated, read⟩ := weighed
  have evident : Evident s₁ cap e.effective :=
    ⟨e, config, criteria, ts, t, at_, rfl, known, asks, outcomes, dated, read⟩
  exact emit_then serving ⟨rfl, rfl, evident⟩ (fun _ _ grown => ⟨rfl, serving.grown grown⟩)
    fun _ _ _ _ => trivial

theorem checkEach_keeps {caps : List PyStr} (serving : Serving .call s) :
    Keeps acked ⟨.call, .idle⟩ s (checkEach caps) (Back acked .call) := by
  induction caps generalizing s with
  | nil => exact ⟨rfl, serving⟩
  | cons cap rest ih =>
    unfold checkEach
    split
    · exact ih serving
    refine follows_bind ((checkPromotion_keeps serving).mono ?_)
    rintro (x | result) τ s' back
    · exact back
    · obtain ⟨rfl, serving⟩ := back
      refine follows_bind ((ih serving).mono ?_)
      rintro (x | results) τ s' back
      · exact back
      · exact back

theorem recordReviewOutcome_keeps {disposition : PyStr} (serving : Serving .call s) :
    Keeps acked ⟨.call, .idle⟩ s (recordReviewOutcome cap disposition) (Back acked .call) := by
  refine world_then ?_
  split
  · trivial
  refine world_then ?_
  unfold recordOutcome setFirstJobDate
  simp only [Co.bind_eq, Co.bind_assoc]
  refine entry_then (fun e at_ => update_then .outcome ?_) fun _ _ => trivial
  refine entry_then (fun e₁ at₁ => ?_) fun _ _ => trivial
  split
  · exact edit_then at₁ (.counters .firstJob) (checkPromotion_keeps serving)
  · exact checkPromotion_keeps serving

end Promotion

section Starting

variable {cap : PyStr} {config : Capability} {s' : World}

theorem settled_of_effective {e : Entry} (at_ : s.entryAt? cap = some e)
    (same : config.desiredWalLevel = e.effective) : Settled s cap config := by
  have nonneg := config.desired_nonneg
  unfold Entry.effective at same
  split at same
  · omega
  · rename_i active
    refine ⟨e, at_, same.symm, ?_⟩
    cases status : e.status with
    | active => rfl
    | suspended => exact absurd status active

/-- The write that an announcement owes finds its capability, unless that is "_meta". -/
theorem ends_due {b : Body} {f t : Int} {e : Entry} (grown : Grows s s') (begun : s.phase ≠ .down)
    (at_ : s.entryAt? cap = some e) (told : b.change? = some (cap, f, t))
    (missing : s'.entryAt? cap = none) : Ends acked s' (.due b) := by
  intro _ c f' t' told'
  cases told.symm.trans told'
  by_contra other
  have stays := grown.stays begun cap other (by rw [at_]; rfl)
  rw [missing] at stays
  cases stays

/-- A capability, once reconciled, is as the registry wants it as long as the reconcile lasts. -/
def Reconciled (acked : Prop) (s : World) (caps : List (PyStr × Capability)) :
    Except Error α → Tok → World → Prop
  | .ok _, τ, s' => τ = ⟨.reconciling, .idle⟩ ∧ Grows s s' ∧
      (s'.phase = .reconciling → ∀ c ∈ caps, Settled s' c.1 c.2)
  | .error _, τ, s' => Ends acked s' τ.stage

theorem reconciling_of_grown (grown : Grows s s') (begun : s.phase ≠ .down)
    (phase : s'.phase = .reconciling) : s.phase = .reconciling := by
  have floor : s.phase.rank ≠ 0 := fun h => begun (rank_down.mp h)
  have := rank_reconciling.mpr phase
  have := grown.rank
  exact rank_reconciling.mp (by omega)

theorem reconcileCapability_keeps (begun : s.phase ≠ .down)
    (known : s.registry.get? cap = some config) :
    Keeps acked ⟨.reconciling, .idle⟩ s (reconcileCapability cap config)
      (Reconciled acked s [(cap, config)]) := by
  refine wal_then (fun e at_ => ?_) fun _ _ => trivial
  have level : s.level? cap = some e.effective := congrArg (Option.map Entry.effective) at_
  split
  · rename_i same
    refine ⟨rfl, .refl s, fun _ c mem => ?_⟩
    cases List.mem_singleton.mp mem
    exact settled_of_effective at_ same
  split
  · rename_i up
    refine emit_then begun ⟨rfl, rfl, level, up, config, known, rfl⟩ (fun id s₁ grown => ?_)
      fun unknown _ _ _ yes => absurd yes unknown
    refine try_edit_then (fun e₁ at₁ => ?_) fun missing _ => ends_due grown begun at_ rfl missing
    have known₁ : s₁.registry.get? cap = some config := by rw [(grown.fixed begun).1, known]
    have raised : Move acked ⟨.reconciling, .due (.promoted cap config.capabilityName e.effective
        config.desiredWalLevel)⟩ s₁ _ _ := .raise at₁ rfl up known₁ rfl
    have grown₂ := grown.trans raised.grows
    have at₂ : (s₁.edit cap (·.setLevel config.desiredWalLevel)).entryAt? cap =
        some (e₁.setLevel config.desiredWalLevel) := by rw [entryAt?_edit_self, at₁]; rfl
    refine ⟨_, raised, ?_⟩
    split
    · refine edit_then at₂ .activate ⟨rfl, grown₂.trans ?_, fun _ c mem => ?_⟩
      · exact .edit (fun _ _ _ _ => rfl) fun _ _ _ _ _ h => h
      · cases List.mem_singleton.mp mem
        exact ⟨_, by rw [entryAt?_edit_self, at₂]; rfl, rfl, rfl⟩
    · rename_i working
      refine ⟨rfl, grown₂, fun phase c mem => ?_⟩
      cases List.mem_singleton.mp mem
      have active : Active s cap := by
        refine ⟨e, at_, ?_⟩
        cases status : e.status with
        | active => rfl
        | suspended => exact absurd (if_pos status) working
      obtain ⟨e₁', at₁', active₁⟩ :=
        grown.active (reconciling_of_grown grown begun phase) phase cap active
      cases at₁.symm.trans at₁'
      exact ⟨_, at₂, rfl, active₁⟩
  · rename_i other notUp
    refine emit_then begun ⟨rfl, rfl, level, by omega, config, known, rfl⟩ (fun id s₁ grown => ?_)
      fun unknown _ _ _ yes => absurd yes unknown
    refine try_edit_then (fun e₁ at₁ => ?_) fun missing _ => ends_due grown begun at_ rfl missing
    have known₁ : s₁.registry.get? cap = some config := by rw [(grown.fixed begun).1, known]
    have brought : Move acked ⟨.reconciling, .due (.demoted cap config.capabilityName e.effective
        config.desiredWalLevel .manual none)⟩ s₁ _ _ := .bring at₁ rfl known₁ rfl
    have at₂ : (s₁.edit cap (·.demote config.desiredWalLevel)).entryAt? cap =
        some (e₁.demote config.desiredWalLevel) := by rw [entryAt?_edit_self, at₁]; rfl
    refine ⟨_, brought, edit_then at₂ .reset ⟨rfl, ?_, fun _ c mem => ?_⟩⟩
    · exact (grown.trans brought.grows).trans (.counters ..)
    · cases List.mem_singleton.mp mem
      exact ⟨(e₁.demote config.desiredWalLevel).withCounters .reset,
        by rw [entryAt?_edit_self, at₂]; rfl, level_demote ..,
        status_demote_nonneg config.desired_nonneg _⟩

theorem reconcile_keeps {caps : List (PyStr × Capability)} (begun : s.phase ≠ .down)
    (known : ∀ c ∈ caps, s.registry.get? c.1 = some c.2) :
    Keeps acked ⟨.reconciling, .idle⟩ s (reconcile caps) (Reconciled acked s caps) := by
  induction caps generalizing s with
  | nil => exact ⟨rfl, .refl s, fun _ c mem => by cases mem⟩
  | cons c rest ih =>
    obtain ⟨cap, config⟩ := c
    refine follows_bind ((reconcileCapability_keeps begun (known _ List.mem_cons_self)).mono ?_)
    rintro (x | n) τ s₁ first
    · exact first
    obtain ⟨rfl, grown, settled⟩ := first
    have begun₁ : s₁.phase ≠ .down := fun down => begun (rank_down.mp (by
      have := rank_down.mpr down
      have := grown.rank
      omega))
    have known₁ : ∀ c ∈ rest, s₁.registry.get? c.1 = some c.2 := fun c mem => by
      rw [(grown.fixed begun).1, known c (List.mem_cons_of_mem _ mem)]
    refine follows_bind ((ih begun₁ known₁).mono ?_)
    rintro (x | m) τ s₂ later
    · exact later
    obtain ⟨rfl, grown₂, settled₂⟩ := later
    refine ⟨rfl, grown.trans grown₂, fun phase c mem => ?_⟩
    rcases List.mem_cons.mp mem with rfl | mem
    · have phase₁ := reconciling_of_grown grown₂ begun₁ phase
      refine grown₂.settled phase₁ phase cap config ?_ (settled phase₁ _ List.mem_cons_self)
      rw [(grown.fixed begun).1, known _ List.mem_cons_self]
    · exact settled₂ phase c mem

variable {last : Option Metadata}

theorem serving_enter (s : World) : Serving .settled (s.enter .starting) := by
  rw [Serving, phase_enter]
  exact Nat.le_max_right ..

theorem compareConfig_keeps {file : ConfigFile} (down : s.phase = .down) (saved : s.saved = true)
    (loaded : s.registry = file.capabilities ∧ s.configHash = file.configHash) :
    Keeps acked ⟨.loading (some file), .idle⟩ s compareConfig (Back acked .settled) := by
  refine world_then ?_
  dsimp only
  split
  · rename_i same
    exact update_then (.keep down saved loaded same) ⟨rfl, serving_enter s⟩
  let s₁ := s.enter .reconciling
  have rank₁ : 1 ≤ s₁.phase.rank := by
    rw [phase_enter]
    exact Nat.le_max_right ..
  have begun : s₁.phase ≠ .down := fun h => by
    have := rank_down.mpr h
    omega
  have known : ∀ c ∈ s.registry.entries, s₁.registry.get? c.1 = some c.2 := by
    intro c mem
    rw [registry_enter]
    exact Dict.get?_eq_some_iff.mpr mem
  refine update_then (.begin down saved loaded) (follows_bind ((reconcile_keeps begun known).mono ?_))
  rintro (x | n) τ s₂ settled
  · exact settled
  obtain ⟨rfl, grown, settled⟩ := settled
  have begun₂ : 1 ≤ s₂.phase.rank := rank₁.trans grown.rank
  have down₂ : s₂.phase ≠ .down := fun h => by
    have := rank_down.mpr h
    omega
  refine emit_then down₂ rfl (fun id s₃ grown₃ => ?_) fun _ _ _ _ => trivial
  have done (phase : s₃.phase = .reconciling) (cap : PyStr) (config : Capability)
      (wanted : s₃.registry.get? cap = some config) : Settled s₃ cap config := by
    have phase₂ := reconciling_of_grown grown₃ down₂ phase
    rw [(grown₃.fixed down₂).1] at wanted
    refine grown₃.settled phase₂ phase cap config wanted (settled phase₂ (cap, config) ?_)
    rw [(grown.fixed begun).1, registry_enter] at wanted
    exact Dict.get?_eq_some_iff.mp wanted
  exact update_then (.configured done) ⟨rfl, serving_enter s₃⟩

theorem settle_keeps {file : ConfigFile} (down : s.phase = .down)
    (loaded : s.registry = file.capabilities ∧ s.configHash = file.configHash) :
    Keeps acked ⟨.loading (some file), .idle⟩ s settle (Back acked .settled) := by
  refine world_then ?_
  split
  · exact compareConfig_keeps down ‹_› loaded
  · rename_i new
    exact update_then (.init down (Bool.eq_false_iff.mpr new)) (compareConfig_keeps down rfl loaded)

theorem conclude_keeps {events : Nat} (serving : Serving .settled s) :
    Keeps acked ⟨.settled, .idle⟩ s (conclude last events) fun _ τ s => Ends acked s τ.stage := by
  have finish (s : World) (serving : Serving .settled s) (model digest : Option PyStr) :
      Keeps acked ⟨.settled, .idle⟩ s ((update (·.updateMeta model digest)).bind fun _ =>
        world.bind fun s => (emit (.startup s.configHash model digest)).bind fun _ =>
          (update (·.enter .up)).bind fun _ =>
            .ret (StartupResult.succeeded s.configHash model events))
        fun _ τ s => Ends acked s τ.stage := by
    refine update_then (.updateMeta serving) (world_then (emit_then serving rfl ?_ fun _ _ _ _ => trivial))
    exact fun id s₁ grown => update_then .up trivial
  refine ⟨fun _ => ⟨rfl, .inr rfl⟩, fun s₁ grown answer _ => ?_⟩
  have serving := serving.grown grown
  obtain ⟨model, digest⟩ := answer
  have checked : Keeps acked ⟨.settled, .idle⟩ s₁ (checkModel last model digest)
      (Back acked .settled) := by
    unfold checkModel
    split
    · refine world_then (emit_then serving rfl (fun id s₂ grown₂ => ?_) fun _ _ _ _ => trivial)
      refine follows_bind ((handleModelChange_keeps (.inr rfl) (serving.grown grown₂)).mono ?_)
      rintro (x | results) τ s₃ back
      · exact back
      · exact back
    · exact ⟨rfl, serving⟩
  change Keeps acked _ s₁ ((checkModel last model digest).bind _) _
  refine follows_bind (checked.mono ?_)
  rintro (x | u) τ s₂ back
  · exact back
  · obtain ⟨rfl, serving₂⟩ := back
    exact finish s₂ serving₂ model digest

theorem startup_keeps {files : Files} (down : s.phase = .down) :
    Keeps acked ⟨.loading files.config, .idle⟩ s (startup files) fun _ τ s => Ends acked s τ.stage := by
  unfold startup
  cases files.config with
  | none => trivial
  | some file =>
  refine update_then (.load down) ?_
  split
  · trivial
  refine world_then (follows_bind ((settle_keeps (s := s.loadRegistry file) down ⟨rfl, rfl⟩).mono ?_))
  rintro (x | events) τ s₁ back
  · exact back
  · obtain ⟨rfl, serving⟩ := back
    exact conclude_keeps serving

end Starting

section System

theorem back_ends {b : Base} {r : Except Error α} {τ : Tok} (back : Back acked b r τ s) :
    Ends acked s τ.stage := by
  cases r with
  | ok a =>
    rw [back.1]
    trivial
  | error x => exact back

theorem body_keeps {t : Tag} (may : t.Starts s) :
    Keeps acked (first t) s t.body fun _ τ s => Ends acked s τ.stage := by
  cases t with
  | startup files => exact startup_keeps may
  | tick d => exact ⟨_, .tick, trivial⟩
  | overrideDemotion type cap prior id =>
    have serving : Serving .call s := may
    exact handleOverrideDemotion_keeps serving
  | _ =>
    have serving : Serving .call s := may
    first
    | exact (handleStripFailure_keeps serving).mono fun _ _ _ => back_ends
    | exact (handleJobFailure_keeps serving).mono fun _ _ _ => back_ends
    | exact (handleModelChange_keeps (.inl rfl) serving).mono fun _ _ _ => back_ends
    | exact (handleApprovalDecay_keeps serving).mono fun _ _ _ => back_ends
    | exact (demoteForOverride_keeps serving).mono fun _ _ _ => back_ends
    | exact (evaluate_keeps serving).mono fun _ _ _ => back_ends
    | exact (evaluateStartup_keeps serving).mono fun _ _ _ => back_ends
    | exact (recordReviewOutcome_keeps serving).mono fun _ _ _ => back_ends
    | exact (checkPromotion_keeps serving).mono fun _ _ _ => back_ends
    | exact (checkEach_keeps serving).mono fun _ _ _ => back_ends

theorem conduct_sound : (conduct False).Sound where
  follows := body_keeps
  answers _ unknown := unknown.elim

/-- Runs in which every emit is acknowledged. -/
theorem conduct_acked {ok : Config machine → Label machine → Prop}
    (answered : ∀ {c i q a}, ok c (.answer i q a) → Answered q a) :
    (conduct True).SoundUnder ok where
  follows _ may := body_keeps may
  answers meets _ _ := answered meets

end System

end Drnt.Wal
