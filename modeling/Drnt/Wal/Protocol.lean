import Drnt.Wal.Startup
import Drnt.Lib.Plan

/-! The order that the calls keep among themselves: what each may write next, and what it
can rely on after an await. -/
namespace Drnt.Wal

open Lib Lib.Coop

section Worlds

variable {s : World} {cap c : PyStr} {f : Entry → Entry} {g : Counters → Counters}

theorem phase_enter (s : World) (phase : Phase) : (s.enter phase).phase.rank =
    max s.phase.rank phase.rank := by
  unfold World.enter
  split
  · rename_i lower
    exact (Nat.max_eq_right lower.le).symm
  · rename_i higher
    exact (Nat.max_eq_left (Nat.le_of_not_lt higher)).symm

theorem enter_eq (s : World) (phase : Phase) : ∃ p, s.enter phase = { s with phase := p } := by
  unfold World.enter
  split
  · exact ⟨phase, rfl⟩
  · exact ⟨s.phase, rfl⟩

@[simp] theorem registry_enter (s : World) (phase : Phase) :
    (s.enter phase).registry = s.registry := by
  unfold World.enter
  split <;> rfl

@[simp] theorem state_enter (s : World) (phase : Phase) : (s.enter phase).state = s.state := by
  unfold World.enter
  split <;> rfl

theorem entryAt?_edit (s : World) (cap c : PyStr) (f : Entry → Entry) :
    (s.edit cap f).entryAt? c = if c = cap then (s.entryAt? cap).map f else s.entryAt? c :=
  Dict.get?_modify ..

@[simp] theorem entryAt?_edit_self (s : World) (cap : PyStr) (f : Entry → Entry) :
    (s.edit cap f).entryAt? cap = (s.entryAt? cap).map f := by
  rw [entryAt?_edit, if_pos rfl]

theorem entryAt?_edit_ne (h : c ≠ cap) : (s.edit cap f).entryAt? c = s.entryAt? c := by
  rw [entryAt?_edit, if_neg h]

theorem level?_edit (s : World) (cap c : PyStr) (f : Entry → Entry) :
    (s.edit cap f).level? c =
      if c = cap then (s.entryAt? cap).map fun e => (f e).effective else s.level? c := by
  rw [World.level?, entryAt?_edit]
  split
  · rw [Option.map_map]
    rfl
  · rfl

theorem level?_counters (s : World) (cap c : PyStr) (g : Counters → Counters) :
    (s.edit cap (·.withCounters g)).level? c = s.level? c := by
  rw [level?_edit]
  split
  · rename_i same
    rw [same]
    rfl
  · rfl

theorem entrance_counters (s : World) (cap : PyStr) (g : Counters → Counters) :
    s.entrance cap (·.withCounters g) = [] := by
  unfold World.entrance
  split
  · rfl
  · exact if_pos rfl

end Worlds

section Tokens

/-- What a call is: one that may handle a model change, a startup and how far it is, or any
other. -/
inductive Base
  | call
  | model
  | loading (file : Option ConfigFile)
  | reconciling
  | settled
  deriving DecidableEq

def Base.isLoading : Base → Bool
  | .loading _ => true
  | .call | .model | .reconciling | .settled => false

/-- How far a call is with a level change: `due` is an announced change that is to be made,
`lowered` a change whose counters are to be reset, `owing` one whose event is to be sent, and
`raised` a promotion that the status does not show yet. -/
inductive Stage
  | idle
  | flying (e : Event) (logged : Bool)
  | due (b : Body)
  | lowered (cap : PyStr) (f t : Int) (tell : Bool)
  | owing (cap : PyStr) (f t : Int)
  | raised (cap : PyStr) (t : Int)
  | overriding (cap : PyStr) (exempt : Bool)
  deriving DecidableEq

structure Tok where
  base : Base
  stage : Stage

def landed (b : Body) : Stage := if b.announces then .due b else .idle

/-- The phases in which a call may go about its business. -/
def Serving : Base → World → Prop
  | .call, s | .model, s => s.phase = .up
  | .settled, s => 2 ≤ s.phase.rank
  | .reconciling, s => s.phase ≠ .down
  | .loading _, _ => False

def Active (s : World) (cap : PyStr) : Prop :=
  ∃ e, s.entryAt? cap = some e ∧ e.status = .active

/-- The capability is as the registry wants it. -/
def Settled (s : World) (cap : PyStr) (config : Capability) : Prop :=
  ∃ e, s.entryAt? cap = some e ∧ e.effectiveWalLevel = config.desiredWalLevel ∧ e.status = .active

/-- The evidence that the promotion monitor asks for. -/
def Evident (s : World) (cap : PyStr) (level : Int) : Prop :=
  ∃ e config criteria ts t, s.entryAt? cap = some e ∧ e.effective = level ∧
    s.registry.get? cap = some config ∧ config.promotionCriteria.get? level = some criteria ∧
    criteria.evaluableOutcomes ≤ e.counters.evaluableOutcomes.length ∧
    e.counters.firstJobDate = some ts ∧ ts.instant? = some t

/-- When an event may be sent. -/
def Sends (b : Base) (σ : Stage) (s : World) : Body → Prop
  | .promoted cap _ f t => b = .reconciling ∧ σ = .idle ∧ s.level? cap = some f ∧ f < t ∧
      ∃ config, s.registry.get? cap = some config ∧ config.desiredWalLevel = t
  | .demoted cap _ f t trigger _ =>
    if trigger = .manual then b = .reconciling ∧ σ = .idle ∧ s.level? cap = some f ∧ t < f ∧
      ∃ config, s.registry.get? cap = some config ∧ config.desiredWalLevel = t
    else σ = .owing cap f t
  | .decayed cap l .. => b = .call ∧ σ = .idle ∧ 1 ≤ l ∧
      ∃ e, s.entryAt? cap = some e ∧ e.effectiveWalLevel = l
  | .jobOverridden .. => b = .call ∧ σ = .idle
  | .promotionRecommended cap l _ => b = .call ∧ σ = .idle ∧ Evident s cap l
  | .configChange .. | .modelChange .. | .startup .. => σ = .idle

/-- The ways down: to -1, below the level that was read, or to 0 where the model has changed. -/
def Lowers (b : Base) (f t : Int) : Prop :=
  f ≠ t ∧ (t = -1 ∨ (0 ≤ t ∧ t < f) ∨ ((b = .model ∨ b = .settled) ∧ t = 0))

inductive Counts (s : World) : (Counters → Counters) → Prop
  | fail (failure : Failure) : Counts s (.fail failure)
  | evict (kept : List Failure) : Counts s (.evict kept)
  | firstJob : Counts s (.firstJob (.aware s.clock))
  | incident (id : PyStr) : Counts s (.incident id)

/-- Where every emit is acknowledged, none is over before the log holds its event. -/
inductive Move (acked : Prop) : Tok → World → Tok → World → Prop
  | send {b : Base} {σ : Stage} {s : World} {e : Event} (serving : Serving b s)
      (may : Sends b σ s e.body) :
      Move acked ⟨b, σ⟩ s ⟨b, .flying e false⟩ (s.send e)
  | record {b : Base} {s : World} {e : Event} :
      Move acked ⟨b, .flying e false⟩ s ⟨b, .flying e true⟩ (s.record e)
  | arrive {b : Base} {s : World} {e : Event} {logged : Bool} (known : acked → logged = true) :
      Move acked ⟨b, .flying e logged⟩ s ⟨b, landed e.body⟩ (s.arrive e logged)
  | lower {b : Base} {σ : Stage} {s : World} {cap : PyStr} {f t : Int} (serving : Serving b s)
      (other : b ≠ .reconciling) (from_ : σ = .idle ∨ ∃ ex, σ = .overriding cap ex) (at_ : s.level? cap = some f)
      (way : Lowers b f t) :
      Move acked ⟨b, σ⟩ s ⟨b, .lowered cap f t true⟩ (s.edit cap (·.demote t))
  | decay {s : World} {e : Entry} {b : Body} {cap : PyStr} {f : Int} (serving : Serving .call s)
      (at_ : s.entryAt? cap = some e) (told : b.decay? = some (cap, f)) (floor : 1 ≤ f) :
      Move acked ⟨.call, .due b⟩ s ⟨.call, .lowered cap f (f - 1) false⟩
        (s.edit cap (·.demote (f - 1)))
  | bring {s : World} {e : Entry} {b : Body} {cap : PyStr} {f t : Int} {config : Capability}
      (at_ : s.entryAt? cap = some e) (told : b.change? = some (cap, f, t))
      (known : s.registry.get? cap = some config) (wants : config.desiredWalLevel = t) :
      Move acked ⟨.reconciling, .due b⟩ s ⟨.reconciling, .lowered cap f t false⟩
        (s.edit cap (·.demote t))
  | reset {b : Base} {s : World} {cap : PyStr} {f t : Int} {tell : Bool} :
      Move acked ⟨b, .lowered cap f t tell⟩ s ⟨b, if tell then .owing cap f t else .idle⟩
        (s.edit cap (·.withCounters .reset))
  | raise {s : World} {e : Entry} {b : Body} {cap : PyStr} {f t : Int} {config : Capability}
      (at_ : s.entryAt? cap = some e) (told : b.change? = some (cap, f, t)) (up : f < t)
      (known : s.registry.get? cap = some config) (wants : config.desiredWalLevel = t) :
      Move acked ⟨.reconciling, .due b⟩ s
        ⟨.reconciling, if f = -1 then .raised cap t else .idle⟩ (s.edit cap (·.setLevel t))
  | activate {s : World} {cap : PyStr} {t : Int} :
      Move acked ⟨.reconciling, .raised cap t⟩ s ⟨.reconciling, .idle⟩ (s.edit cap (·.activate))
  | outcome {s : World} {cap : PyStr} {o : Outcome} :
      Move acked ⟨.call, .idle⟩ s ⟨.call, .idle⟩ (s.recordOutcome cap o)
  | counters {b : Base} {σ : Stage} {s : World} {cap : PyStr} {g : Counters → Counters}
      (counts : Counts s g) :
      Move acked ⟨b, σ⟩ s ⟨b, σ⟩ (s.edit cap (·.withCounters g))
  | override {s : World} {cap : PyStr} {ex : Bool} (serving : Serving .call s) :
      Move acked ⟨.call, .idle⟩ s ⟨.call, .overriding cap ex⟩ (s.note (.overridden cap ex))
  | load {s : World} {file : ConfigFile} (down : s.phase = .down) :
      Move acked ⟨.loading (some file), .idle⟩ s ⟨.loading (some file), .idle⟩
        (s.loadRegistry file)
  | init {s : World} {file : Option ConfigFile} (down : s.phase = .down)
      (new : s.saved = false) :
      Move acked ⟨.loading file, .idle⟩ s ⟨.loading file, .idle⟩ s.initializeFromRegistry
  | begin {s : World} {file : ConfigFile} (down : s.phase = .down) (saved : s.saved = true)
      (loaded : s.registry = file.capabilities ∧ s.configHash = file.configHash) :
      Move acked ⟨.loading (some file), .idle⟩ s ⟨.reconciling, .idle⟩ (s.enter .reconciling)
  | keep {s : World} {file : ConfigFile} (down : s.phase = .down) (saved : s.saved = true)
      (loaded : s.registry = file.capabilities ∧ s.configHash = file.configHash)
      (same : s.state.metadata.map (·.lastConfigHash) = some s.configHash) :
      Move acked ⟨.loading (some file), .idle⟩ s ⟨.settled, .idle⟩ (s.enter .starting)
  | configured {s : World}
      (done : s.phase = .reconciling →
        ∀ cap config, s.registry.get? cap = some config → Settled s cap config) :
      Move acked ⟨.reconciling, .idle⟩ s ⟨.settled, .idle⟩ (s.enter .starting)
  | updateMeta {s : World} {model digest : Option PyStr} (serving : Serving .settled s) :
      Move acked ⟨.settled, .idle⟩ s ⟨.settled, .idle⟩ (s.updateMeta model digest)
  | up {s : World} :
      Move acked ⟨.settled, .idle⟩ s ⟨.call, .idle⟩ (s.enter .up)
  | tick {b : Base} {s : World} {d : Nat} : Move acked ⟨b, .idle⟩ s ⟨b, .idle⟩ (s.tick d)

end Tokens

section Growing

/-- What holds on across an await. The entry of a capability "_meta" goes with the metadata. -/
structure Grows (s s' : World) : Prop where
  rank : s.phase.rank ≤ s'.phase.rank
  fixed : s.phase ≠ .down → s'.registry = s.registry ∧ s'.configHash = s.configHash
  stays : s.phase ≠ .down → ∀ cap, cap ≠ metaKey → (s.entryAt? cap).isSome → (s'.entryAt? cap).isSome
  active : s.phase = .reconciling → s'.phase = .reconciling → ∀ cap, Active s cap → Active s' cap
  settled : s.phase = .reconciling → s'.phase = .reconciling →
    ∀ cap config, s.registry.get? cap = some config → Settled s cap config →
      Settled s' cap config

theorem rank_down {p : Phase} : p.rank = 0 ↔ p = .down := by
  cases p <;> decide

theorem rank_reconciling {p : Phase} : p.rank = 1 ↔ p = .reconciling := by
  cases p <;> decide

variable {s s' s'' : World}

theorem Grows.refl (s : World) : Grows s s :=
  ⟨Nat.le_refl _, fun _ => ⟨rfl, rfl⟩, fun _ _ _ h => h, fun _ _ _ h => h, fun _ _ _ _ _ h => h⟩

theorem Grows.trans (h : Grows s s') (h' : Grows s' s'') : Grows s s'' := by
  have begun (up : s.phase ≠ .down) : s'.phase ≠ .down := by
    intro down
    have floor := rank_down.mpr down
    exact up (rank_down.mp (by have := h.rank; omega))
  have between (first : s.phase = .reconciling) (last : s''.phase = .reconciling) :
      s'.phase = .reconciling := by
    rw [← rank_reconciling] at first last ⊢
    have := h.rank
    have := h'.rank
    omega
  refine ⟨h.rank.trans h'.rank, ?_, ?_, ?_, ?_⟩
  · intro up
    obtain ⟨registry, hash⟩ := h.fixed up
    obtain ⟨registry', hash'⟩ := h'.fixed (begun up)
    exact ⟨registry'.trans registry, hash'.trans hash⟩
  · intro up cap ne some_
    exact h'.stays (begun up) cap ne (h.stays up cap ne some_)
  · intro first last cap act
    have mid := between first last
    exact h'.active mid last cap (h.active first mid cap act)
  · intro first last cap config known settled
    have mid := between first last
    have up : s.phase ≠ .down := by rw [first]; decide
    have same := (h.fixed up).1
    exact h'.settled mid last cap config (same ▸ known) (h.settled first mid cap config known settled)

/-- A write that leaves the phase, the registry and the entries alone. -/
theorem Grows.aside (phase : s'.phase = s.phase) (registry : s'.registry = s.registry)
    (hash : s'.configHash = s.configHash) (state : s'.state = s.state) : Grows s s' := by
  have same (cap : PyStr) : s'.entryAt? cap = s.entryAt? cap := by rw [World.entryAt?, World.entryAt?, state]
  refine ⟨by rw [phase], fun _ => ⟨registry, hash⟩, ?_, ?_, ?_⟩
  · intro _ cap _ h
    rw [same]
    exact h
  · intro _ _ cap h
    rw [Active, same]
    exact h
  · intro _ _ cap config _ h
    rw [Settled, same]
    exact h

/-- A change of one entry, which in a reconcile leaves it active and as wanted if it was so. -/
theorem Grows.edit {cap : PyStr} {f : Entry → Entry}
    (active : s.phase = .reconciling → ∀ e, s.entryAt? cap = some e → e.status = .active →
      (f e).status = .active)
    (settled : s.phase = .reconciling → ∀ e config, s.entryAt? cap = some e →
      s.registry.get? cap = some config → e.effectiveWalLevel = config.desiredWalLevel →
      (f e).effectiveWalLevel = config.desiredWalLevel) : Grows s (s.edit cap f) := by
  refine ⟨Nat.le_refl _, fun _ => ⟨rfl, rfl⟩, ?_, ?_, ?_⟩
  · intro _ c _ h
    by_cases same : c = cap
    · subst same
      rw [entryAt?_edit_self, Option.isSome_map]
      exact h
    · rw [entryAt?_edit_ne same]
      exact h
  · rintro phase - c ⟨e, at_, act⟩
    by_cases same : c = cap
    · subst same
      exact ⟨f e, by rw [entryAt?_edit_self, at_]; rfl, active phase e at_ act⟩
    · exact ⟨e, by rw [entryAt?_edit_ne same]; exact at_, act⟩
  · rintro phase - c config known ⟨e, at_, level, act⟩
    by_cases same : c = cap
    · subst same
      exact ⟨f e, by rw [entryAt?_edit_self, at_]; rfl, settled phase e config at_ known level,
        active phase e at_ act⟩
    · exact ⟨e, by rw [entryAt?_edit_ne same]; exact at_, level, act⟩

theorem Grows.counters (s : World) (cap : PyStr) (g : Counters → Counters) :
    Grows s (s.edit cap (·.withCounters g)) :=
  .edit (fun _ _ _ h => h) (fun _ _ _ _ _ h => h)

theorem Grows.enter (s : World) (phase : Phase) : Grows s (s.enter phase) := by
  obtain ⟨p, eq⟩ := enter_eq s phase
  refine ⟨?_, ?_, ?_, ?_, ?_⟩
  · rw [phase_enter]
    omega
  all_goals
    rw [eq]
  · exact fun _ => ⟨rfl, rfl⟩
  · exact fun _ _ _ h => h
  · exact fun _ _ _ h => h
  · exact fun _ _ _ _ _ h => h

theorem status_demote_nonneg {t : Int} (h : 0 ≤ t) (e : Entry) : (e.demote t).status = .active := by
  unfold Entry.demote
  rw [if_neg (by omega)]

theorem level_demote (t : Int) (e : Entry) : (e.demote t).effectiveWalLevel = t := by
  unfold Entry.demote
  split
  · rename_i floor
    exact floor.symm
  · rfl

theorem Serving.not_reconciling {b : Base} (h : Serving b s) (other : b ≠ .reconciling) :
    s.phase ≠ .reconciling := by
  intro phase
  cases b with
  | call | model => cases phase.symm.trans h
  | settled =>
    have floor : 2 ≤ s.phase.rank := h
    have := rank_reconciling.mpr phase
    omega
  | reconciling => exact other rfl
  | loading => exact h

theorem up_iff : s.phase = .up ↔ 3 ≤ s.phase.rank := by
  cases s.phase <;> decide

theorem Serving.same {b : Base} (h : Serving b s) (phase : s'.phase = s.phase) :
    Serving b s' := by
  cases b with
  | call | model => exact phase.trans h
  | settled =>
    change 2 ≤ s'.phase.rank
    rw [phase]
    exact h
  | reconciling =>
    change s'.phase ≠ .down
    rw [phase]
    exact h
  | loading => exact h

theorem Serving.begun {b : Base} (h : Serving b s) : s.phase ≠ .down := by
  intro phase
  cases b with
  | call | model => cases phase.symm.trans h
  | settled =>
    have floor : 2 ≤ s.phase.rank := h
    have := rank_down.mpr phase
    omega
  | reconciling => exact h phase
  | loading => exact h

theorem Serving.grown {b : Base} (h : Serving b s) (grown : Grows s s') : Serving b s' := by
  have rank := grown.rank
  cases b with
  | call | model => exact up_iff.mpr ((up_iff.mp h).trans rank)
  | settled => exact Nat.le_trans h rank
  | reconciling =>
    intro phase
    have := rank_down.mpr phase
    exact h (rank_down.mp (by omega))
  | loading => exact h

theorem Move.grows {acked : Prop} {τ τ' : Tok} (h : Move acked τ s τ' s') : Grows s s' := by
  cases h with
  | send | record | arrive | override | tick => exact .aside rfl rfl rfl rfl
  | lower serving other | decay serving =>
    have no := serving.not_reconciling (by first | exact other | decide)
    exact .edit (fun h => absurd h no) (fun h => absurd h no)
  | bring at_ told known wants =>
    rename_i e b cap f t config
    subst wants
    refine .edit (fun _ e _ _ => status_demote_nonneg config.desired_nonneg e) ?_
    intro _ e config' _ known' _
    cases known.symm.trans known'
    exact level_demote ..
  | raise at_ told up known wants =>
    subst wants
    refine .edit (fun _ e _ act => act) ?_
    intro _ e config' _ known' _
    cases known.symm.trans known'
    rfl
  | activate => exact .edit (fun _ _ _ _ => rfl) (fun _ _ _ _ _ h => h)
  | reset | counters => exact .counters ..
  | outcome => exact .trans (.counters ..) (.aside rfl rfl rfl rfl)
  | load down | init down =>
    refine ⟨Nat.le_refl _, fun h => absurd down h, fun h => absurd down h, ?_, ?_⟩
    all_goals
      intro h
      rw [down] at h
      cases h
  | begin | keep | configured | up => exact .enter ..
  | updateMeta serving =>
    have no := serving.not_reconciling (by decide)
    refine ⟨Nat.le_refl _, fun _ => ⟨rfl, rfl⟩, ?_, fun h => absurd h no, fun h => absurd h no⟩
    intro _ cap ne h
    have same := Dict.get?_erase_ne s.state.entries ne
    exact (congrArg Option.isSome same).trans h

end Growing

section Plans

/-- What a call has left behind when it ends. -/
def Ends (acked : Prop) (s : World) : Stage → Prop
  | .idle => True
  | .overriding cap ex => ∀ e, s.entryAt? cap = some e → ¬ (1 ≤ e.effective ∧ ex = false)
  | .due b => acked → ∀ cap f t, b.change? = some (cap, f, t) → cap = metaKey
  | .flying .. | .lowered .. | .owing .. | .raised .. => False

def first : Tag → Tok
  | .startup files => ⟨.loading files.config, .idle⟩
  | .modelChange .. => ⟨.model, .idle⟩
  | .stripFailure _ | .jobFailure .. | .overrideDemotion .. | .approvalDecay _ | .jobOverride ..
  | .evaluate _ | .evaluateStartup .. | .recordOutcome .. | .checkPromotion _ | .checkAll
  | .tick _ => ⟨.call, .idle⟩

/-- The answers that count as an acknowledged emit. -/
def Answered : (q : Req) → Req.Ans q → Prop
  | .deliver _, a => a = .accepted
  | .acknowledge _, a => a = true
  | .ollamaModelInfo, _ | .uuid7, _ => True

def conduct (acked : Prop) : Plan machine where
  Tok := Tok
  move := Move acked
  parks τ := τ.base.isLoading = false ∧ ((∃ e logged, τ.stage = .flying e logged) ∨ τ.stage = .idle)
  grows := Grows
  admits _ q a := acked → Answered q a
  grows_refl := .refl
  grows_trans := .trans
  move_grows := Move.grows
  first t _ := first t
  ends _ _ τ s := Ends acked s τ.stage
  retire _ := ⟨.call, .idle⟩
  retire_parks _ := ⟨rfl, .inr rfl⟩

end Plans

end Drnt.Wal
