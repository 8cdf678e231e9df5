import Drnt.Wal.Reconcile

/-! What the startups see of the model, over a whole history of them. -/
namespace Drnt.Wal

open Lib Lib.Coop

section History

/-- The name and the digest that a query yields, if it yields a model. -/
def seen? (info : Option PyStr × Option PyStr) : Option (PyStr × Option PyStr) :=
  info.1.map fun name => (name, info.2)

/-- What may happen between two startups: anything that leaves the metadata, and the file that
they stand in. -/
structure Interlude (s s₁ : World) : Prop where
  metadata : s₁.state.metadata = s.state.metadata
  saved : s₁.saved = false → s₁.state.metadata = none

/-- Successful startups one after the other, and what each of them got for an answer, newest
first. -/
inductive Startups : List (Option PyStr × Option PyStr) → World → Prop
  | start : Startups [] {}
  | next {infos : List (Option PyStr × Option PyStr)} {info : Option PyStr × Option PyStr}
      {s s₁ s' : World} {files : Files} {calls : List sig.Call} {hash : PyStr}
      {model : Option PyStr} {events : Nat} (before : Startups infos s) (between : Interlude s s₁)
      (run : (startup files).Trace s₁ calls (.ok (.succeeded hash model events)) s')
      (asked : modelInfos calls = [info]) : Startups (info :: infos) s'

/-- The most recent of the models seen. -/
def lastSeen (infos : List (Option PyStr × Option PyStr)) : Option (PyStr × Option PyStr) :=
  infos.findSome? seen?

def Body.tellsModel : Body → Bool
  | .modelChange .. => true
  | .promoted .. | .demoted .. | .decayed .. | .jobOverridden .. | .configChange .. | .startup ..
  | .promotionRecommended .. => false

/-- A startup that emits a model change and leaves no capability above 0 just when the model is
not the one seen last. -/
def Noticed (infos : List (Option PyStr × Option PyStr)) (info : Option PyStr × Option PyStr)
    (calls : List sig.Call) (s' : World) : Prop :=
  ∀ last now, lastSeen infos = some last → seen? info = some now →
    (now ≠ last → (∃ e ∈ emitted calls, e.body.tellsModel = true) ∧
      ∀ cap ∈ s'.registry.keys, ∀ level, s'.level? cap = some level → level ≤ 0) ∧
    (now = last → ∀ e ∈ emitted calls, e.body.tellsModel = false)

/-- The capabilities that a model change passes over are not above 0: those whose ids begin with
an underscore. -/
def Underscored (file : ConfigFile) (s : World) : Prop :=
  ∀ cap config, file.capabilities.get? cap = some config → py "_" <+: cap → cap ≠ metaKey →
    if s.state.metadata.map (·.lastConfigHash) = some file.configHash then
      ∀ level, s.level? cap = some level → level ≤ 0
    else config.desiredWalLevel ≤ 0

/-- Where the model is not the one seen last, the last startup has seen that one. -/
def Watched (infos : List (Option PyStr × Option PyStr)) (info : Option PyStr × Option PyStr)
    (file : ConfigFile) (s : World) : Prop :=
  ∀ last now, lastSeen infos = some last → seen? info = some now → now ≠ last →
    infos.head?.bind seen? ≠ none ∧ Underscored file s

end History

section Steps

variable {s s₁ s' : World} {calls c₁ c₂ : List sig.Call} {cap : PyStr} {e : Entry} {file : ConfigFile}

/-- No event about the model is sent, and the model is not asked for. -/
structure Quiet (calls : List sig.Call) : Prop where
  events : ∀ e ∈ emitted calls, e.body.tellsModel = false
  infos : modelInfos calls = []

theorem quiet_nil : Quiet [] := ⟨nofun, rfl⟩

theorem Quiet.append (h₁ : Quiet c₁) (h₂ : Quiet c₂) : Quiet (c₁ ++ c₂) := by
  constructor
  · rw [emitted_append]
    exact List.forall_mem_append.mpr ⟨h₁.events, h₂.events⟩
  · rw [modelInfos_append, h₁.infos, h₂.infos]
    rfl

theorem quiet_one {ev : Event} (sent : emitted calls = [ev]) (infos : modelInfos calls = [])
    (other : ev.body.tellsModel = false) : Quiet calls := by
  refine ⟨fun e mem => ?_, infos⟩
  rw [sent] at mem
  cases List.mem_singleton.mp mem
  exact other

theorem Brought.quiet {caps : List (PyStr × Capability)} {n : Nat} (h : Brought caps s calls n s') :
    Quiet calls := by
  refine ⟨fun e mem => ?_, h.infos⟩
  have told : e.body.change? ∈ (due s caps).map some := h.events ▸ List.mem_map_of_mem mem
  obtain ⟨change, -, eq⟩ := List.mem_map.mp told
  cases body : e.body with
  | modelChange =>
    rw [body] at eq
    cases eq
  | _ => rfl

/-- The entry of one capability is brought to a level. -/
structure Sets (cap : PyStr) (level : Int) (s s' : World) : Prop where
  frame : Frame s s'
  own : s'.level? cap = some level
  others : ∀ c, c ≠ cap → s'.entryAt? c = s.entryAt? c

theorem sets_demote (at_ : s.entryAt? cap = some e) (level : Int) :
    Sets cap level s (s.edit cap (·.demote level)) := by
  refine ⟨.edit .., ?_, fun c other => entryAt?_edit_ne other⟩
  rw [World.level?, entryAt?_edit_self, at_]
  exact congrArg some (Entry.effective_demote level e)

variable {level : Int}

theorem Sets.counters (h : Sets cap level s s₁) (g : Counters → Counters) :
    Sets cap level s (s₁.edit cap (·.withCounters g)) := by
  refine ⟨h.frame.trans (.edit ..), ?_, fun c other => (entryAt?_edit_ne other).trans (h.others c other)⟩
  have own := h.own
  rw [World.level?] at own ⊢
  rw [entryAt?_edit_self, Option.map_map]
  exact own

theorem Sets.entry (h : Sets cap level s s₁) : ∃ e, s₁.entryAt? cap = some e := by
  obtain ⟨e, at_, -⟩ := Option.map_eq_some_iff.mp h.own
  exact ⟨e, at_⟩

theorem Sets.same (h : Sets cap level s s₁) (frame : Frame s₁ s')
    (same : ∀ c, s'.entryAt? c = s₁.entryAt? c) : Sets cap level s s' :=
  ⟨h.frame.trans frame, (congrArg (Option.map Entry.effective) (same cap)).trans h.own,
    fun c other => (same c).trans (h.others c other)⟩

/-- A demotion tells nothing about the model and touches one entry. -/
theorem executeDemotion_trace {trigger : Trigger} {id : Option PyStr} {result : DemotionResult}
    (run : (executeDemotion cap level trigger id).Trace s calls (.ok result) s') :
    Quiet calls ∧ Sets cap level s s' := by
  have emits {s₁ : World} {body : Body} {k : PyStr → DemotionResult} (h : Sets cap level s s₁)
      (other : body.tellsModel = false)
      (run : ((emit body).bind fun id => .ret (k id)).Trace s₁ calls (.ok result) s') :
      Quiet calls ∧ Sets cap level s s' := by
    rcases emit_then_trace run with ⟨id, i, s₂, c₁, c₂, rfl, sent, infos, frame, same, rfl, -, rfl⟩ |
      ⟨-, error, eq⟩
    · rw [List.append_nil]
      exact ⟨quiet_one sent infos other, h.same frame same⟩
    · cases eq
  cases at_ : s.entryAt? cap with
  | none => cases ((missing_trace at_).mp run).2.1
  | some e =>
    replace run := (edit_trace at_).mp ((wal_trace at_).mp run)
    have demoted := sets_demote at_ level
    obtain ⟨e₁, at₁⟩ := demoted.entry
    replace run := (edit_trace at₁).mp run
    have reset := demoted.counters .reset
    cases id with
    | none => exact emits reset rfl run
    | some id =>
      dsimp only at run
      split at run
      · obtain ⟨e₂, at₂⟩ := reset.entry
        replace run := (edit_trace at₂).mp run
        exact emits (reset.counters (.incident id)) rfl run
      · exact emits reset rfl run

theorem handleModelChange_trace {id : Option PyStr} {caps : List PyStr}
    {results : List DemotionResult}
    (run : (handleModelChange id caps).Trace s calls (.ok results) s') :
    Quiet calls ∧ Frame s s' ∧ (∀ c ∈ caps, s'.level? c = some 0) ∧
      ∀ c, c ∉ caps → s'.entryAt? c = s.entryAt? c := by
  induction caps generalizing s calls results with
  | nil =>
    obtain ⟨rfl, -, rfl⟩ := run
    exact ⟨quiet_nil, .refl _, nofun, fun _ _ => rfl⟩
  | cons cap rest ih =>
    -- from where the capability itself is at 0
    have later {s₁ : World} {c₂ : List sig.Call} {results : List DemotionResult}
        (frame : Frame s s₁) (own : s₁.level? cap = some 0)
        (others : ∀ c, c ≠ cap → s₁.entryAt? c = s.entryAt? c)
        (run : (handleModelChange id rest).Trace s₁ c₂ (.ok results) s') :
        Quiet c₂ ∧ Frame s s' ∧ (∀ c ∈ cap :: rest, s'.level? c = some 0) ∧
          ∀ c, c ∉ cap :: rest → s'.entryAt? c = s.entryAt? c := by
      obtain ⟨quiet, frame', down, same⟩ := ih run
      refine ⟨quiet, frame.trans frame', fun c mem => ?_, fun c out => ?_⟩
      · by_cases again : c ∈ rest
        · exact down c again
        · obtain rfl := (List.mem_cons.mp mem).resolve_right again
          rw [World.level?, same c again]
          exact own
      · rw [List.mem_cons, not_or] at out
        rw [same c out.2, others c out.1]
    cases at_ : s.entryAt? cap with
    | none => cases ((missing_trace at_).mp run).2.1
    | some e =>
      replace run := (wal_trace at_).mp run
      split at run
      · rename_i floor
        refine later (.refl s) ?_ (fun _ _ => rfl) run
        rw [World.level?, at_, Option.map_some, floor]
      · obtain ⟨result, s₁, c₁, c₂, rfl, first, run⟩ := Co.Trace.split run
        obtain ⟨quiet, sets⟩ := executeDemotion_trace first
        obtain ⟨results, s₂, c₃, c₄, rfl, run, rfl, -, rfl⟩ := Co.Trace.split run
        obtain ⟨quiet', rest_⟩ := later sets.frame sets.own sets.others run
        rw [List.append_nil]
        exact ⟨quiet.append quiet', rest_⟩

end Steps

section Settling

variable {s s₁ s' : World} {calls : List sig.Call} {file : ConfigFile} {n : Nat}

theorem Frame.enter (s : World) (phase : Phase) : Frame s (s.enter phase) := by
  unfold World.enter
  split <;> exact ⟨rfl, rfl, rfl⟩

theorem entryAt?_enter (s : World) (phase : Phase) (cap : PyStr) :
    (s.enter phase).entryAt? cap = s.entryAt? cap := by
  rw [World.entryAt?, state_enter, World.entryAt?]

theorem entryAt?_updateMeta (s : World) (model digest : Option PyStr) (cap : PyStr) :
    (s.updateMeta model digest).entryAt? cap = if cap = metaKey then none else s.entryAt? cap := by
  change (s.state.entries.erase metaKey).get? cap = _
  split
  · rename_i gone
    rw [gone, Dict.get?_erase_self]
  · rename_i other
    exact Dict.get?_erase_ne _ other

/-- Either the configuration is the last one and no entry changes, or every capability is at its
desired level. -/
structure Compared (s s' : World) : Prop where
  frame : Frame s s'
  kept : s.state.metadata.map (·.lastConfigHash) = some s.configHash →
    ∀ c, s'.entryAt? c = s.entryAt? c
  reconciled : s.state.metadata.map (·.lastConfigHash) ≠ some s.configHash →
    ∀ cap config, s.registry.get? cap = some config → s'.level? cap = some config.desiredWalLevel

theorem compareConfig_trace (run : compareConfig.Trace s calls (.ok n) s') :
    Quiet calls ∧ Compared s s' := by
  change ((if _ then _ else _ : Prog Nat)).Trace s calls _ s' at run
  split at run
  · rename_i same
    obtain ⟨rfl, -, rfl⟩ := run
    exact ⟨quiet_nil, .enter .., fun _ c => entryAt?_enter .., fun other => absurd same other⟩
  · rename_i other
    obtain ⟨n', s₁, c₁, c₂, rfl, first, run⟩ := Co.Trace.split (Co.trace_modify_bind.mp run)
    have known := known_of_reconcile s.registry.nodup first
    have brought_ := (reconcile_trace s.registry.nodup known first).2 n' rfl
    rcases emit_then_trace run with ⟨id, i, s₂, c₃, c₄, rfl, sent, infos, frame, same, rfl, -, rfl⟩ |
      ⟨-, error, eq⟩
    case inr => cases eq
    rw [List.append_nil]
    refine ⟨brought_.quiet.append (quiet_one sent infos rfl), ?_, fun same => absurd same other, ?_⟩
    · exact (((Frame.enter s _).trans brought_.frame).trans frame).trans (.enter ..)
    · intro _ cap config at_
      have known' : ∀ cap ∈ s.registry.keys, (s.enter .reconciling).entryAt? cap ≠ none := known
      obtain ⟨e, here, level, -⟩ := brought_.settled known' cap config at_
      rw [World.level?, entryAt?_enter, same, here, Option.map_some, level]

/-- Without a state file there is no metadata to compare with. -/
theorem settle_trace (fresh : s.saved = false → s.state.metadata = none)
    (run : settle.Trace s calls (.ok n) s') : Quiet calls ∧ Compared s s' := by
  change ((if _ then _ else _ : Prog Nat)).Trace s calls _ s' at run
  split at run
  · exact compareConfig_trace run
  · rename_i new
    obtain ⟨quiet, h⟩ := compareConfig_trace (Co.trace_modify_bind.mp run)
    have none_ := fresh (Bool.eq_false_iff.mpr new)
    refine ⟨quiet, ⟨h.frame.metadata.trans none_.symm, h.frame.registry, h.frame.configHash⟩,
      fun same => ?_, fun _ => h.reconciled nofun⟩
    rw [none_] at same
    cases same

end Settling

section Concluding

variable {s s' : World} {calls : List sig.Call} {last : Option Metadata} {n : Nat}

/-- What a startup makes of the model, as its last steps come to an end. -/
structure Concluded (last : Option Metadata) (info : Option PyStr × Option PyStr)
    (s : World) (calls : List sig.Call) (s' : World) : Prop where
  asked : modelInfos calls = [info]
  metadata : s'.state.metadata = some ⟨s.configHash, info.1, info.2⟩
  registry : s'.registry = s.registry
  told : modelChanged last info.1 info.2 = true → ∃ e ∈ emitted calls, e.body.tellsModel = true
  quiet : modelChanged last info.1 info.2 = false → ∀ e ∈ emitted calls, e.body.tellsModel = false
  lowered : modelChanged last info.1 info.2 = true →
    ∀ cap ∈ affected s.registry, ∀ level, s'.level? cap = some level → level = 0
  others : ∀ cap, (modelChanged last info.1 info.2 = true → cap ∉ affected s.registry) →
    cap ≠ metaKey → s'.level? cap = s.level? cap
  gone : s'.level? metaKey = none

theorem checkModel_trace {info : Option PyStr × Option PyStr} {u : Unit}
    (run : (checkModel last info.1 info.2).Trace s calls (.ok u) s') :
    modelInfos calls = [] ∧ Frame s s' ∧
    if modelChanged last info.1 info.2 = true then
      (∃ e ∈ emitted calls, e.body.tellsModel = true) ∧
      (∀ cap ∈ affected s.registry, s'.level? cap = some 0) ∧
      ∀ cap, cap ∉ affected s.registry → s'.entryAt? cap = s.entryAt? cap
    else Quiet calls ∧ s' = s := by
  unfold checkModel at run
  split
  · rename_i changed
    rw [if_pos changed] at run
    rcases emit_then_trace run with ⟨id, i, s₁, c₁, c₂, rfl, sent, infos, frame, same, run⟩ |
      ⟨-, error, eq⟩
    case inr => cases eq
    obtain ⟨results, s₂, c₃, c₄, rfl, run, rfl, -, rfl⟩ := Co.Trace.split run
    obtain ⟨quiet, frame', down, same'⟩ := handleModelChange_trace run
    refine ⟨?_, frame.trans frame', ?_, down, fun cap out => (same' cap out).trans (same cap)⟩
    · rw [modelInfos_append, infos, List.append_nil, quiet.infos]
      rfl
    · obtain ⟨ev, sent, told⟩ : ∃ ev, emitted c₁ = [ev] ∧ ev.body.tellsModel = true := ⟨_, sent, rfl⟩
      refine ⟨ev, ?_, told⟩
      rw [emitted_append, sent]
      exact List.mem_append_left _ List.mem_cons_self
  · rename_i same
    rw [if_neg same] at run
    obtain ⟨rfl, -, rfl⟩ := run
    exact ⟨rfl, .refl _, quiet_nil, rfl⟩

theorem conclude_trace {result : StartupResult}
    (run : (conclude last n).Trace s calls (.ok result) s') :
    ∃ info, Concluded last info s calls s' := by
  obtain ⟨⟨model, digest⟩, rest, rfl, run⟩ := run
  change ((checkModel last model digest).bind _).Trace _ _ _ _ at run
  obtain ⟨u, s₁, c₁, c₂, rfl, check, run⟩ := Co.Trace.split run
  replace run := Co.trace_modify_bind.mp run
  rcases emit_then_trace run with ⟨id, i, s₂, c₃, c₄, rfl, sent, infos, frame, same, rfl, -, rfl⟩ |
    ⟨-, error, eq⟩
  case inr => cases eq
  obtain ⟨infos', frame', check⟩ := @checkModel_trace _ _ _ _ (model, digest) _ check
  have asked : modelInfos (⟨.ollamaModelInfo, (model, digest)⟩ :: (c₁ ++ (c₃ ++ []))) =
      [(model, digest)] := by
    change (model, digest) :: modelInfos (c₁ ++ (c₃ ++ [])) = _
    rw [List.append_nil, modelInfos_append, infos', infos]
    rfl
  have emits : emitted (⟨.ollamaModelInfo, (model, digest)⟩ :: (c₁ ++ (c₃ ++ []))) =
      emitted c₁ ++ [⟨id, .startup s₁.configHash model digest⟩] := by
    change emitted (c₁ ++ (c₃ ++ [])) = _
    rw [List.append_nil, emitted_append, sent]
    rfl
  have entry (cap : PyStr) : (s₂.enter .up).entryAt? cap =
      if cap = metaKey then none else s₁.entryAt? cap := by
    rw [entryAt?_enter, same, entryAt?_updateMeta]
  refine ⟨(model, digest), asked, ?_, ?_, fun changed => ?_, fun not_ => ?_, fun changed => ?_,
    fun cap out other => ?_, ?_⟩
  · rw [state_enter, frame.metadata]
    exact congrArg (fun h => some (Metadata.mk h model digest)) frame'.configHash
  · rw [registry_enter, frame.registry]
    exact frame'.registry
  · rw [if_pos changed] at check
    obtain ⟨e, mem, told⟩ := check.1
    exact ⟨e, emits ▸ List.mem_append_left _ mem, told⟩
  · rw [if_neg (by rw [not_]; nofun)] at check
    intro e mem
    rw [emits] at mem
    rcases List.mem_append.mp mem with mem | mem
    · exact check.1.events e mem
    · cases List.mem_singleton.mp mem
      rfl
  · rw [if_pos changed] at check
    intro cap mem l at_
    rw [World.level?, entry] at at_
    split at at_
    · cases at_
    · exact Option.some.inj (at_.symm.trans (check.2.1 cap mem))
  · rw [World.level?, entry, if_neg other]
    split at check
    · rename_i changed
      rw [check.2.2 cap (out changed), World.level?]
    · rw [check.2, World.level?]
  · rw [World.level?, entry, if_pos rfl]
    rfl

end Concluding

section Noticing

variable {infos : List (Option PyStr × Option PyStr)} {info : Option PyStr × Option PyStr}
  {s s₁ s' : World} {files : Files} {file : ConfigFile} {calls : List sig.Call} {hash : PyStr}
  {model : Option PyStr} {n : Nat}

/-- A successful startup settles the levels and then looks at the model. -/
theorem startup_trace (accepted : files.config = some file)
    (fresh : s.saved = false → s.state.metadata = none)
    (run : (startup files).Trace s calls (.ok (.succeeded hash model n)) s') :
    ∃ c₁ c₂ s₁ info, calls = c₁ ++ c₂ ∧ Quiet c₁ ∧ Compared (s.loadRegistry file) s₁ ∧
      Concluded s.state.metadata info s₁ c₂ s' := by
  unfold startup at run
  rw [accepted] at run
  replace run := Co.trace_modify_bind.mp run
  split at run
  · cases run.2.1
  · replace run := Co.trace_read_bind.mp run
    obtain ⟨events, s₁, c₁, c₂, rfl, settled, run⟩ := Co.Trace.split run
    obtain ⟨quiet, compared⟩ := settle_trace (s := s.loadRegistry file) fresh settled
    obtain ⟨info, concluded⟩ := conclude_trace run
    exact ⟨c₁, c₂, s₁, info, rfl, quiet, compared, concluded⟩

theorem Concluded.saved {last : Option Metadata} (h : Concluded last info s calls s') :
    (s'.state.metadata.map fun m => (m.lastOllamaModel, m.lastOllamaDigest)) = some info := by
  rw [h.metadata]
  rfl

/-- The metadata holds the answer of the last startup. -/
theorem Startups.metadata (h : Startups infos s) :
    (s.state.metadata.map fun m => (m.lastOllamaModel, m.lastOllamaDigest)) = infos.head? := by
  cases h with
  | start => rfl
  | @next infos info s s₁ _ files calls hash model events before between run asked =>
    cases accepted : files.config with
    | none =>
      rw [startup, accepted] at run
      cases run.2.1
    | some file =>
      obtain ⟨c₁, c₂, s₂, info', rfl, quiet, -, concluded⟩ := startup_trace accepted between.saved run
      rw [modelInfos_append, quiet.infos, concluded.asked] at asked
      rw [concluded.saved]
      exact congrArg List.head? asked

/-- Where the last startup has seen no model, no change is known of. -/
theorem unknown_change {last : Option Metadata}
    (held : last.map (fun m => (m.lastOllamaModel, m.lastOllamaDigest)) = infos.head?)
    (blind : infos.head?.bind seen? = none) (info : Option PyStr × Option PyStr) :
    modelChanged last info.1 info.2 = false := by
  rw [← held] at blind
  cases last with
  | none => rfl
  | some m =>
    have model : m.lastOllamaModel = none := by simpa [seen?] using blind
    simp [modelChanged, model]

theorem known_change {last : Option Metadata} {before now : PyStr × Option PyStr}
    (held : last.map (fun m => (m.lastOllamaModel, m.lastOllamaDigest)) = infos.head?)
    (saw : infos.head?.bind seen? = some before) (sees : seen? info = some now) :
    modelChanged last info.1 info.2 = decide (now ≠ before) := by
  rw [← held] at saw
  cases last with
  | none => cases saw
  | some m =>
    obtain ⟨name, digest⟩ := info
    cases name with
    | none => cases sees
    | some name =>
      cases sees
      cases model : m.lastOllamaModel with
      | none => simp [seen?, model] at saw
      | some old =>
        have eq : before = (old, m.lastOllamaDigest) := by simpa [seen?, model] using saw.symm
        subst eq
        simp only [modelChanged, Option.bind_some, model, ne_eq, Prod.mk.injEq, not_and_or,
          eq_comm (a := old), eq_comm (a := m.lastOllamaDigest)]

theorem lastSeen_head {before : PyStr × Option PyStr} (h : infos.head?.bind seen? = some before) :
    lastSeen infos = some before := by
  cases infos with
  | nil => cases h
  | cons info rest =>
    rw [lastSeen, List.findSome?_cons]
    rw [List.head?_cons, Option.bind_some] at h
    rw [h]

/-- Whatever the calls of a process that is up do comes between two startups. -/
theorem Interlude.move {acked : Prop} {τ τ' : Tok} (between : Interlude s s₁)
    (up : τ.base = .call ∨ τ.base = .model) (move : Move acked τ s₁ τ' s') : Interlude s s' := by
  have leaves : s'.state.metadata = s₁.state.metadata ∧ s'.saved = s₁.saved := by
    cases move with
    | init | begin | keep | configured | updateMeta | up | load => simp at up
    | send | record | arrive | lower | decay | bring | reset | raise | activate | outcome | counters
    | override | tick => exact ⟨rfl, rfl⟩
  obtain ⟨metadata, saved⟩ := leaves
  refine ⟨metadata.trans between.metadata, fun new => ?_⟩
  rw [metadata]
  exact between.saved (saved ▸ new)

theorem Interlude.restart (between : Interlude s s₁) (late : List Event) :
    Interlude s (s₁.restart late) := ⟨between.metadata, between.saved⟩

/-- After a model change, what is above 0 are capabilities with an underscore. -/
theorem underscored_iff {last : Option Metadata} (compared : Compared (s.loadRegistry file) s₁)
    (done : Concluded last info s₁ calls s') (changed : modelChanged last info.1 info.2 = true) :
    (∀ cap ∈ s'.registry.keys, ∀ level, s'.level? cap = some level → level ≤ 0) ↔
      Underscored file s := by
  have registry : s₁.registry = file.capabilities := compared.frame.registry
  have passed {cap : PyStr} (under : py "_" <+: cap) (other : cap ≠ metaKey) :
      s'.level? cap = s₁.level? cap := by
    refine done.others cap (fun _ mem => ?_) other
    have out := (List.mem_filter.mp mem).2
    simp only [decide_not, Bool.not_eq_true', decide_eq_false_iff_not] at out
    exact out under
  rw [done.registry, registry]
  constructor
  · intro h cap config at_ under other
    have known : cap ∈ file.capabilities.keys := List.mem_map_of_mem (Dict.get?_eq_some_iff.mp at_)
    split
    · rename_i same
      intro level here
      refine h cap known level ?_
      rw [passed under other, World.level?, compared.kept same]
      exact here
    · rename_i changed
      refine h cap known _ ?_
      rw [passed under other, compared.reconciled changed cap config at_]
  · intro h cap known level here
    by_cases special : cap = metaKey
    · rw [special, done.gone] at here
      cases here
    by_cases under : py "_" <+: cap
    · rw [passed under special] at here
      obtain ⟨config, at_⟩ : ∃ config, file.capabilities.get? cap = some config :=
        Option.ne_none_iff_exists'.mp fun none_ => Dict.get?_eq_none_iff.mp none_ known
      have low := h cap config at_ under special
      split at low
      · rename_i same
        refine low level ?_
        rw [World.level?, compared.kept same] at here
        exact here
      · rename_i changed
        rw [compared.reconciled changed cap config at_] at here
        cases here
        exact low
    · refine le_of_eq (done.lowered changed cap ?_ level here)
      rw [registry]
      exact List.mem_filter.mpr ⟨known, by simpa using under⟩

theorem noticed_iff (history : Startups infos s) (between : Interlude s s₁)
    (accepted : files.config = some file)
    (run : (startup files).Trace s₁ calls (.ok (.succeeded hash model n)) s')
    (asked : modelInfos calls = [info]) :
    Noticed infos info calls s' ↔ Watched infos info file s₁ := by
  have held := history.metadata
  rw [← between.metadata] at held
  obtain ⟨c₁, c₂, s₂, info', rfl, quiet, compared, done⟩ :=
    startup_trace accepted between.saved run
  have same : info' = info := by
    rw [modelInfos_append, quiet.infos, done.asked] at asked
    exact List.head_eq_of_cons_eq asked
  subst same
  have told (silent : modelChanged s₁.state.metadata info'.1 info'.2 = false) :
      ∀ e ∈ emitted (c₁ ++ c₂), e.body.tellsModel = false := by
    rw [emitted_append]
    exact List.forall_mem_append.mpr ⟨quiet.events, done.quiet silent⟩
  cases saw : infos.head?.bind seen? with
  | none =>
    have silent := told (unknown_change held saw info')
    constructor
    · intro h last now before sees ne
      obtain ⟨⟨e, mem, tells⟩, -⟩ := (h last now before sees).1 ne
      rw [silent e mem] at tells
      cases tells
    · intro h last now before sees
      exact ⟨fun ne => absurd saw (h last now before sees ne).1, fun _ => silent⟩
  | some old =>
    have changed {now : PyStr × Option PyStr} (sees : seen? info' = some now) :=
      known_change held saw sees
    constructor
    · intro h last now before sees ne
      cases (lastSeen_head saw).symm.trans before
      have differs := (changed sees).trans (decide_eq_true ne)
      refine ⟨by rw [saw]; nofun, (underscored_iff compared done differs).mp ?_⟩
      exact ((h old now before sees).1 ne).2
    · intro h last now before sees
      cases (lastSeen_head saw).symm.trans before
      refine ⟨fun ne => ?_, fun eq => told ?_⟩
      · have differs := (changed sees).trans (decide_eq_true ne)
        obtain ⟨e, mem, tells⟩ := done.told differs
        refine ⟨⟨e, ?_, tells⟩, ?_⟩
        · rw [emitted_append]
          exact List.mem_append_right _ mem
        · exact (underscored_iff compared done differs).mpr (h old now before sees ne).2
      · rw [changed sees, eq]
        simp

end Noticing

section Outage

def answering (info : Option PyStr × Option PyStr) : (q : Req) → Req.Ans q
  | .ollamaModelInfo => info
  | q => Trial.usual q

def startedWith (files : Files) (info : Option PyStr × Option PyStr) (s : World) :
    List sig.Call × Except Error StartupResult × World :=
  (startup files).exec (answering info) (s.restart [])

def oldModel : Option PyStr × Option PyStr := (some (py "llama"), some (py "1"))

def newModel : Option PyStr × Option PyStr := (some (py "llama"), some (py "2"))

def plain : Files := Trial.file "config" [("a", Trial.supervised)]

def underscored : Files := Trial.file "config" [("_a", Trial.supervised)]

def succeeded : Except Error StartupResult → Bool
  | .ok (.succeeded ..) => true
  | .ok .failed | .error _ => false

variable {infos : List (Option PyStr × Option PyStr)} {files : Files}
  {info : Option PyStr × Option PyStr} {s : World}

theorem interlude_restart (saved : s.saved = true ∨ s.state.metadata = none) :
    Interlude s (s.restart []) := by
  refine Interlude.restart ⟨rfl, fun new => ?_⟩ []
  rcases saved with saved | none_
  · cases new.symm.trans saved
  · exact none_

variable (files info) in
theorem startedWith_trace (ok : succeeded (startedWith files info s).2.1 = true) :
    ∃ hash model n, (startup files).Trace (s.restart []) (startedWith files info s).1
      (.ok (.succeeded hash model n)) (startedWith files info s).2.2 := by
  have run := Co.trace_exec (answering info) (startup files) (s.restart [])
  change Co.Trace _ _ (startedWith files info s).1 (startedWith files info s).2.1 _ at run
  generalize (startedWith files info s).2.1 = r at run ok
  match r with
  | .ok (.succeeded hash model n) => exact ⟨hash, model, n, run⟩

variable (files info) in
theorem Startups.with_ (before : Startups infos s)
    (saved : s.saved = true ∨ s.state.metadata = none)
    (ok : succeeded (startedWith files info s).2.1 = true)
    (asked : modelInfos (startedWith files info s).1 = [info]) :
    Startups (info :: infos) (startedWith files info s).2.2 := by
  obtain ⟨hash, model, n, run⟩ := startedWith_trace files info ok
  exact .next before (interlude_restart saved) run asked

theorem startups_once (files : Files) (ok : succeeded (startedWith files oldModel {}).2.1 = true)
    (asked : modelInfos (startedWith files oldModel {}).1 = [oldModel]) :
    Startups [oldModel] (startedWith files oldModel {}).2.2 :=
  .with_ files oldModel .start (.inr rfl) ok asked

/-- A change that is told of. -/
theorem noticed_iff_witness : Noticed [oldModel] newModel
    (startedWith plain newModel (startedWith plain oldModel {}).2.2).1
    (startedWith plain newModel (startedWith plain oldModel {}).2.2).2.2 := by
  have history := startups_once plain (by decide +kernel) (by decide +kernel)
  have ok : succeeded (startedWith plain newModel (startedWith plain oldModel {}).2.2).2.1 = true := by
    decide +kernel
  obtain ⟨hash, model, n, run⟩ := startedWith_trace plain newModel ok
  refine (noticed_iff history (interlude_restart (.inl (by decide +kernel))) rfl run
    (by decide +kernel)).mpr fun last now before sees ne => ⟨nofun, fun cap config at_ under _ => ?_⟩
  have known := List.mem_map_of_mem (f := Prod.fst) (Dict.get?_eq_some_iff.mp at_)
  rw [show List.map Prod.fst _ = [py "a"] by decide +kernel] at known
  cases List.mem_singleton.mp known
  exact absurd under (by decide)

/-- A startup that finds another model than the one seen last and does not do what it should. -/
def Misses (files : Files) (infos : List (Option PyStr × Option PyStr)) : Prop :=
  ∃ s calls s' hash model n, Startups infos s ∧ Interlude s (s.restart []) ∧
    (startup files).Trace (s.restart []) calls (.ok (.succeeded hash model n)) s' ∧
    modelInfos calls = [newModel] ∧ ¬ Noticed infos newModel calls s'

/-- A change over an outage goes unnoticed, and a capability with an underscore keeps its level. -/
theorem change_unnoticed : Misses plain [(none, none), oldModel] ∧ Misses underscored [oldModel] := by
  constructor
  case left =>
    have history := (startups_once plain (by decide +kernel) (by decide +kernel)).with_ plain
      (none, none) (.inl (by decide +kernel)) (by decide +kernel) (by decide +kernel)
    obtain ⟨hash, model, n, run⟩ := startedWith_trace plain newModel
      (s := (startedWith plain (none, none) (startedWith plain oldModel {}).2.2).2.2) (by decide +kernel)
    refine ⟨_, _, _, hash, model, n, history, interlude_restart (.inl (by decide +kernel)), run,
      by decide +kernel, fun h => ?_⟩
    obtain ⟨⟨e, mem, tells⟩, -⟩ := (h _ _ rfl rfl).1 (by decide)
    have silent : ∀ e ∈ emitted (startedWith plain newModel
        (startedWith plain (none, none) (startedWith plain oldModel {}).2.2).2.2).1,
        e.body.tellsModel = false := by decide +kernel
    cases (silent e mem).symm.trans tells
  case right =>
    have history := startups_once underscored (by decide +kernel) (by decide +kernel)
    obtain ⟨hash, model, n, run⟩ := startedWith_trace underscored newModel
      (s := (startedWith underscored oldModel {}).2.2) (by decide +kernel)
    refine ⟨_, _, _, hash, model, n, history, interlude_restart (.inl (by decide +kernel)), run,
      by decide +kernel, fun h => ?_⟩
    have low := ((h _ _ rfl rfl).1 (by decide)).2 (py "_a") (by decide +kernel) 1 (by decide +kernel)
    exact absurd low (by decide)

end Outage

end Drnt.Wal
