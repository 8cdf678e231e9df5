import Drnt.Wal.Steady

/-! What a promotion rests on. -/
namespace Drnt.Wal

open Lib Lib.Coop

section Accounts

/-- What has happened to a capability since it last entered a level. -/
structure Account where
  recorded : Nat := 0
  entered : Option Int := none
  overridden : Bool := false
  deriving DecidableEq

def Account.add (cap : PyStr) (a : Account) : Happening → Account
  | .entered c _ _ at_ => if c = cap then { entered := some at_ } else a
  | .recorded c => if c = cap then { a with recorded := a.recorded + 1 } else a
  | .overridden c _ => if c = cap then { a with overridden := true } else a

def account (cap : PyStr) : List Happening → Account
  | [] => {}
  | h :: earlier => (account cap earlier).add cap h

/-- The evidence for a promotion from a level has all come up since that level was entered. -/
def Grounded (s : World) (cap : PyStr) (level : Int) : Prop :=
  ∃ e config criteria t t₀, s.entryAt? cap = some e ∧ e.effective = level ∧
    s.registry.get? cap = some config ∧ config.promotionCriteria.get? level = some criteria ∧
    criteria.evaluableOutcomes ≤ (account cap s.history).recorded ∧
    e.counters.firstJobDate = some (.aware t) ∧
    (account cap s.history).entered = some t₀ ∧ t₀ ≤ t ∧
    (criteria.zeroCancelRedirect = true → (account cap s.history).overridden = false)

end Accounts

section Condition

variable (asks : PyStr → Bool)

/-- The capabilities whose criteria may ask for zero_cancel_redirect. -/
def asking (registry : Registry) : Bool :=
  registry.entries.all fun r => r.2.promotionCriteria.entries.all fun criteria =>
    !criteria.2.zeroCancelRedirect || asks r.1

def Counters.unearned (c : Counters) : Bool := c.evaluableOutcomes = [] ∧ c.firstJobDate = none

def noted (s s' : World) : List Happening :=
  s'.history.take (s'.history.length - s.history.length)

/-- An override leads to a demotion. -/
def heeded (s : World) : Happening → Bool
  | .overridden cap ex => !asks cap || ((s.level? cap).any (1 ≤ ·) && !ex)
  | _ => true

/-- What a recommendation in flight rests on stays as it is. -/
def stands (s s' : World) (ev : Event) : Bool :=
  match ev.body with
  | .promotionRecommended cap .. =>
    s'.level? cap = s.level? cap ∧
      ((s'.entryAt? cap).bind fun e => e.counters.firstJobDate) =
        ((s.entryAt? cap).bind fun e => e.counters.firstJobDate) ∧
      (account cap s'.history).overridden = (account cap s.history).overridden
  | _ => true

def grounds (s : World) (_ : Tag) (s' : World) : Bool :=
  ((relevelled s s').all fun r => s.phase ≠ .reconciling || r.2.2.effective ≤ r.2.1.effective ||
    r.2.1.counters.unearned) &&
  (noted s s').all (heeded asks s) && s.inFlight.all (stands s s')

/-- A reconcile promotes only capabilities without counters, an override always demotes where
the criteria may ask for it, nothing disturbs a recommendation in flight, and the process stops
between the segments of its calls. -/
def grounding (c : Run) : Label machine → Bool
  | .start (.startup files) => files.config.all fun file => asking asks file.capabilities
  | .crash => c.running.isNone
  | .work i => writing (grounds asks) c (.work i)
  | _ => true

end Condition

section Accounting

variable {s s' : World} {cap c : PyStr} {f : Entry → Entry} {g : Counters → Counters}

theorem account_edit_ne (h : cap ≠ c) :
    account cap (s.edit c f).history = account cap s.history := by
  rw [World.edit, World.entrance]
  split
  · rfl
  · split
    · rfl
    · exact if_neg h.symm

theorem account_edit_same {e : Entry} (at_ : s.entryAt? c = some e)
    (same : (f e).effective = e.effective) :
    account cap (s.edit c f).history = account cap s.history := by
  simp only [World.edit, World.entrance, at_, if_pos same, List.nil_append]

theorem account_edit_entered {e : Entry} (at_ : s.entryAt? c = some e)
    (ne : (f e).effective ≠ e.effective) :
    account c (s.edit c f).history = { entered := some s.clock } := by
  simp only [World.edit, World.entrance, at_, if_neg ne, List.cons_append, List.nil_append]
  exact if_pos rfl

theorem account_counters (s : World) (cap c : PyStr) (g : Counters → Counters) :
    account cap (s.edit c (·.withCounters g)).history = account cap s.history := by
  rw [World.edit, entrance_counters]
  rfl

theorem account_recordOutcome (s : World) (cap c : PyStr) (o : Outcome) :
    account cap (s.recordOutcome c o).history =
      (account cap s.history).add cap (.recorded c) := by
  rw [World.recordOutcome, World.note, account, account_counters]

theorem account_fresh (s : World) (cap : PyStr) :
    account cap s.initializeFromRegistry.history =
      if cap ∈ s.registry.keys then { entered := some s.clock } else account cap s.history := by
  rw [World.initializeFromRegistry]
  simp only
  induction s.registry.keys with
  | nil => rfl
  | cons key rest ih =>
    rw [List.map_cons, List.cons_append, account, ih, Account.add]
    by_cases same : key = cap
    · rw [if_pos same, if_pos (by simp [same])]
    · rw [if_neg same]
      simp [Ne.symm same]

end Accounting

section Credits

/-- The counters go back to the entry at most. -/
structure Backed (a : Account) (c : Counters) : Prop where
  count : c.evaluableOutcomes.length ≤ a.recorded
  first : ∀ ts, c.firstJobDate = some ts →
    ∃ t t₀, ts = .aware t ∧ a.entered = some t₀ ∧ t₀ ≤ t

/-- A level that has been entered, with the counters yet to be reset. -/
def Stage.settles (cap : PyStr) : Stage → Bool
  | .lowered c .. => c = cap
  | _ => false

def Stage.overrides (cap : PyStr) : Stage → Bool
  | .overriding c _ => c = cap
  | _ => false

variable (asks : PyStr → Bool)

structure Credited (s : World) (toks : Toks) : Prop where
  loading : ∀ {i : Nat} {t : Tag} {file : ConfigFile} {σ : Stage},
    toks[i]? = some (t, ⟨.loading (some file), σ⟩) → asking asks file.capabilities = true
  asked : s.phase ≠ .down → asking asks s.registry = true
  dated : ∀ {cap : PyStr} {e : Entry}, s.entryAt? cap = some e →
    ∃ t₀, (account cap s.history).entered = some t₀ ∧ t₀ ≤ s.clock
  backed : ∀ {cap : PyStr} {e : Entry}, s.entryAt? cap = some e →
    Staged (·.settles cap) toks ∨ Backed (account cap s.history) e.counters
  clean : ∀ {cap : PyStr}, asks cap = true → (account cap s.history).overridden = true →
    Staged (·.overrides cap) toks
  heeding : ∀ {i : Nat} {t : Tag} {τ : Tok} {cap : PyStr} {ex : Bool}, toks[i]? = some (t, τ) →
    τ.stage = .overriding cap ex → asks cap = true →
    ∃ l, s.level? cap = some l ∧ 1 ≤ l ∧ ex = false
  recommended : ∀ {i : Nat} {t : Tag} {τ : Tok} {ev : Event} {logged : Bool} {cap : PyStr}
    {l : Int} {evidence : PromotionEvidence}, toks[i]? = some (t, τ) →
    τ.stage = .flying ev logged → ev.body = .promotionRecommended cap l evidence →
    s.phase ≠ .down ∧ Grounded s cap l

end Credits

section Preserved

variable {acked : Prop} {asks : PyStr → Bool} {s s' : World} {toks : Toks} {i : Nat} {t : Tag}
  {τ τ' : Tok} {cap c : PyStr} {e e' : Entry} {f : Entry → Entry}

theorem sends_open {b : Base} {σ : Stage} {body : Body} (may : Sends b σ s body) (cap : PyStr) :
    σ.settles cap = false ∧ σ.overrides cap = false := by
  rcases sends_stage may with rfl | ⟨c, f, t, rfl⟩ <;> exact ⟨rfl, rfl⟩

/-- An entry after an edit, and the entry that it was. -/
theorem edited (at' : (s.edit c f).entryAt? cap = some e') :
    (cap ≠ c ∧ s.entryAt? cap = some e') ∨ (cap = c ∧ ∃ e, s.entryAt? c = some e ∧ e' = f e) := by
  by_cases same : cap = c
  · subst same
    rw [entryAt?_edit_self] at at'
    obtain ⟨e, here, rfl⟩ := Option.map_eq_some_iff.mp at'
    exact .inr ⟨rfl, e, here, rfl⟩
  · rw [entryAt?_edit_ne same] at at'
    exact .inl ⟨same, at'⟩

theorem dated_edit (dated : ∀ {cap e}, s.entryAt? cap = some e →
      ∃ t₀, (account cap s.history).entered = some t₀ ∧ t₀ ≤ s.clock)
    (at' : (s.edit c f).entryAt? cap = some e') :
    ∃ t₀, (account cap (s.edit c f).history).entered = some t₀ ∧ t₀ ≤ s.clock := by
  rcases edited at' with ⟨ne, here⟩ | ⟨rfl, e, here, rfl⟩
  · rw [account_edit_ne ne]
    exact dated here
  · by_cases same : (f e).effective = e.effective
    · rw [account_edit_same here same]
      exact dated here
    · rw [account_edit_entered here same]
      exact ⟨s.clock, rfl, le_refl _⟩

theorem mem_initialized (keys : List PyStr) (d : Dict PyStr Entry)
    (h : (keys.foldl (fun d cap => d.set cap {}) d).get? cap = some e') :
    cap ∈ keys ∨ d.get? cap = some e' := by
  induction keys generalizing d with
  | nil => exact .inr h
  | cons key rest ih =>
    rcases ih _ h with later | old
    · exact .inl (List.mem_cons_of_mem _ later)
    · rw [Dict.get?_set] at old
      split at old
      · rename_i same
        exact .inl (same ▸ List.mem_cons_self)
      · exact .inr old

theorem initialized_entry (h : s.initializeFromRegistry.entryAt? cap = some e') :
    e' = {} ∧ cap ∈ s.registry.keys := by
  constructor
  · rcases initialized s.registry.keys ∅ h with new | old
    · exact new
    · cases old
  · rcases mem_initialized s.registry.keys ∅ h with new | old
    · exact new
    · cases old

theorem dated_move (move : Move acked τ s τ' s')
    (dated : ∀ {cap e}, s.entryAt? cap = some e →
      ∃ t₀, (account cap s.history).entered = some t₀ ∧ t₀ ≤ s.clock)
    (at' : s'.entryAt? cap = some e') :
    ∃ t₀, (account cap s'.history).entered = some t₀ ∧ t₀ ≤ s'.clock := by
  cases move with
  | send | record | arrive | load => exact dated at'
  | begin | keep | configured | up =>
    obtain ⟨p, eq⟩ := enter_eq s _
    rw [eq] at at' ⊢
    exact dated at'
  | lower | decay | bring | reset | raise | activate | counters => exact dated_edit dated at'
  | @outcome _ c o =>
    obtain ⟨t₀, entered, le⟩ := dated_edit (s := s) dated at'
    rw [account_counters] at entered
    refine ⟨t₀, ?_, le⟩
    rw [account_recordOutcome, Account.add]
    split
    · exact entered
    · exact entered
  | @override _ c ex =>
    obtain ⟨t₀, entered, le⟩ := dated at'
    refine ⟨t₀, ?_, le⟩
    rw [World.note, account, Account.add]
    split
    · exact entered
    · exact entered
  | init =>
    rw [account_fresh, if_pos (initialized_entry at').2]
    exact ⟨s.clock, rfl, le_refl _⟩
  | updateMeta =>
    by_cases key : cap = metaKey
    · subst key
      have gone := Dict.get?_erase_self s.state.entries metaKey
      cases gone.symm.trans at'
    · have same := Dict.get?_erase_ne s.state.entries key
      exact dated (same.symm.trans at')
  | @tick _ _ d =>
    obtain ⟨t₀, entered, le⟩ := dated at'
    refine ⟨t₀, entered, ?_⟩
    change t₀ ≤ s.clock + d
    omega

theorem backed_unearned {a : Account} {c : Counters} (h : c.unearned = true) : Backed a c := by
  obtain ⟨none_, never⟩ := of_decide_eq_true h
  refine ⟨?_, ?_⟩
  · rw [none_]
    exact Nat.zero_le _
  · intro ts first
    cases never.symm.trans first

theorem Backed.overridden {a : Account} {k : Counters} (h : Backed a k) (cap c : PyStr) (ex : Bool) :
    Backed (a.add cap (.overridden c ex)) k := by
  rw [Account.add]
  split
  · exact ⟨h.count, h.first⟩
  · exact h

theorem length_record (o : Outcome) (k : Counters) :
    (k.record o).evaluableOutcomes.length ≤ k.evaluableOutcomes.length + 1 := by
  unfold Counters.record
  dsimp only
  rw [List.length_drop, List.length_append, List.length_singleton]
  exact Nat.sub_le ..

theorem firstJobDate_record (o : Outcome) (k : Counters) :
    (k.record o).firstJobDate = k.firstJobDate := by
  unfold Counters.record
  rfl

theorem Backed.record {a : Account} {k : Counters} (h : Backed a k) (o : Outcome) :
    Backed { a with recorded := a.recorded + 1 } (k.record o) := by
  refine ⟨(length_record o k).trans (Nat.succ_le_succ h.count), ?_⟩
  rw [firstJobDate_record]
  exact h.first

theorem Backed.counted {a : Account} {k : Counters} {g : Counters → Counters} (h : Backed a k)
    (counts : Counts s g) (dated : ∃ t₀, a.entered = some t₀ ∧ t₀ ≤ s.clock) : Backed a (g k) := by
  cases counts with
  | firstJob =>
    refine ⟨h.count, ?_⟩
    rintro ts ⟨⟩
    obtain ⟨t₀, entered, le⟩ := dated
    exact ⟨s.clock, t₀, rfl, entered, le⟩
  | fail | evict | incident => exact ⟨h.count, h.first⟩

/-- An edit that leaves the counters alone. -/
theorem backed_edit {q : Prop}
    (backed : ∀ {e}, s.entryAt? cap = some e → Backed (account cap s.history) e.counters)
    (counters : ∀ e, (f e).counters = e.counters)
    (climbs : ∀ e, s.entryAt? c = some e → cap = c → (f e).effective ≠ e.effective →
      q ∨ e.counters.unearned = true)
    (at' : (s.edit c f).entryAt? cap = some e') :
    q ∨ Backed (account cap (s.edit c f).history) e'.counters := by
  rcases edited at' with ⟨ne, here⟩ | ⟨rfl, e, here, rfl⟩
  · rw [account_edit_ne ne]
    exact .inr (backed here)
  · rw [counters]
    by_cases same : (f e).effective = e.effective
    · rw [account_edit_same here same]
      exact .inr (backed here)
    · exact (climbs e here rfl same).imp_right backed_unearned

theorem backed_move (placed : Placed s t τ) (raised : Raises s τ.stage)
    (steady : ∀ {cap f l}, τ.base = .reconciling → τ.stage.announced? = some (cap, f, l) →
      s.level? cap = some f)
    (dated : ∀ {cap e}, s.entryAt? cap = some e →
      ∃ t₀, (account cap s.history).entered = some t₀ ∧ t₀ ≤ s.clock)
    (backed : ∀ {cap e}, s.entryAt? cap = some e →
      τ.stage.settles cap = true ∨ Backed (account cap s.history) e.counters)
    (move : Move acked τ s τ' s')
    (climbs : ∀ {cap e e'}, s.phase = .reconciling → s.entryAt? cap = some e →
      s'.entryAt? cap = some e' → e.effective < e'.effective → e.counters.unearned = true)
    (at' : s'.entryAt? cap = some e') :
    τ'.stage.settles cap = true ∨ Backed (account cap s'.history) e'.counters := by
  have open_ (still : τ.stage.settles cap = false) {e : Entry} (here : s.entryAt? cap = some e) :
      Backed (account cap s.history) e.counters :=
    (backed here).resolve_left (by rw [still]; decide)
  cases move with
  | send serving may => exact .inr (open_ (sends_open may cap).1 at')
  | record | arrive | load | tick => exact .inr (open_ rfl at')
  | begin | keep | configured | up =>
    obtain ⟨p, eq⟩ := enter_eq s _
    rw [eq] at at' ⊢
    exact .inr (open_ rfl at')
  | @lower b σ _ c f t serving other from_ level way =>
    have still : σ.settles cap = false := by
      rcases from_ with rfl | ⟨ex, rfl⟩ <;> rfl
    refine backed_edit (open_ still)
      (fun e => Entry.counters_demote t e) ?_ at'
    intro _ _ same _
    exact .inl (decide_eq_true same.symm)
  | @decay _ _ b c f =>
    refine backed_edit (open_ rfl)
      (fun e => Entry.counters_demote (f - 1) e) ?_ at'
    intro _ _ same _
    exact .inl (decide_eq_true same.symm)
  | @bring _ _ b c f t =>
    refine backed_edit (open_ rfl)
      (fun e => Entry.counters_demote t e) ?_ at'
    intro _ _ same _
    exact .inl (decide_eq_true same.symm)
  | @reset b _ c f t tell =>
    rw [account_counters]
    rcases edited at' with ⟨ne, here⟩ | ⟨rfl, e, here, rfl⟩
    · exact .inr (open_ (decide_eq_false ne.symm) here)
    · exact .inr (backed_unearned rfl)
  | @raise _ e₀ b c f t config found told above known wants =>
    refine .inr ((backed_edit (f := (·.setLevel t)) (q := False) (open_ rfl) (fun _ => rfl) ?_ at').resolve_left id)
    rintro e here rfl changed
    have after : (s.edit cap (·.setLevel t)).entryAt? cap = some (e.setLevel t) := by
      rw [entryAt?_edit_self, here]
      rfl
    refine .inr (climbs placed.1 here after ?_)
    have level := steady rfl told
    rw [World.level?, here, Option.map_some, Option.some.injEq] at level
    have active : (e.setLevel t).status ≠ .suspended := by
      intro suspended
      have : e.status = .suspended := suspended
      simp [Entry.effective, Entry.setLevel, this] at changed
    rw [level, Entry.effective, if_neg active]
    exact above
  | @activate _ c t =>
    refine .inr ((backed_edit (f := (·.activate)) (q := False) (open_ rfl) (fun _ => rfl) ?_ at').resolve_left id)
    rintro e here rfl changed
    have after : (s.edit cap (·.activate)).entryAt? cap = some e.activate := by
      rw [entryAt?_edit_self, here]
      rfl
    refine .inr (climbs placed.1 here after ?_)
    have level := steady rfl rfl
    rw [World.level?, here, Option.map_some, Option.some.injEq] at level
    obtain ⟨floor, e₁, there, rfl⟩ := raised
    cases here.symm.trans there
    rw [level]
    change -1 < e.effectiveWalLevel
    omega
  | @outcome _ c o =>
    rw [account_recordOutcome]
    rcases edited (s := s) at' with ⟨ne, here⟩ | ⟨rfl, e, here, rfl⟩
    · rw [Account.add, if_neg ne.symm]
      exact .inr (open_ rfl here)
    · rw [Account.add, if_pos rfl]
      exact .inr ((open_ rfl here).record o)
  | @counters _ _ _ c g counts =>
    rw [account_counters]
    rcases edited at' with ⟨ne, here⟩ | ⟨rfl, e, here, rfl⟩
    · exact backed here
    · exact (backed here).imp_right fun h => h.counted counts (dated here)
  | @override _ c ex => exact .inr ((open_ rfl at').overridden cap c ex)
  | init =>
    rw [(initialized_entry at').1]
    exact .inr (backed_unearned rfl)
  | updateMeta =>
    by_cases key : cap = metaKey
    · subst key
      have gone := Dict.get?_erase_self s.state.entries metaKey
      cases gone.symm.trans at'
    · have same := Dict.get?_erase_ne s.state.entries key
      exact .inr (open_ rfl (same.symm.trans at'))

theorem overridden_edit (h : (account cap (s.edit c f).history).overridden = true) :
    (account cap s.history).overridden = true := by
  by_cases same : cap = c
  · subst same
    cases here : s.entryAt? cap with
    | none =>
      rw [World.edit, World.entrance, here] at h
      exact h
    | some e =>
      by_cases level : (f e).effective = e.effective
      · rwa [account_edit_same here level] at h
      · rw [account_edit_entered here level] at h
        cases h
  · rwa [account_edit_ne same] at h

theorem clean_move (clean : (account cap s.history).overridden = true → τ.stage.overrides cap = true)
    (move : Move acked τ s τ' s') (h : (account cap s'.history).overridden = true) :
    τ'.stage.overrides cap = true := by
  have settled (still : τ.stage.overrides cap = false)
      (was : (account cap s.history).overridden = true) : τ'.stage.overrides cap = true := by
    rw [still] at clean
    cases clean was
  cases move with
  | send serving may => exact settled (sends_open may cap).2 h
  | record | arrive | load | tick | updateMeta => exact settled rfl h
  | begin | keep | configured | up =>
    obtain ⟨p, eq⟩ := enter_eq s _
    rw [eq] at h
    exact settled rfl h
  | @lower b σ _ c f t serving other from_ level way =>
    by_cases same : cap = c
    · subst same
      obtain ⟨e, here, rfl⟩ := Option.map_eq_some_iff.mp level
      have changed : (e.demote t).effective ≠ e.effective := by
        rw [Entry.effective_demote]
        exact way.1.symm
      rw [account_edit_entered here changed] at h
      cases h
    · refine settled ?_ (overridden_edit h)
      rcases from_ with rfl | ⟨ex, rfl⟩
      · rfl
      · exact decide_eq_false (Ne.symm same)
  | decay | bring | reset | raise | activate => exact settled rfl (overridden_edit h)
  | counters => exact clean (overridden_edit h)
  | outcome =>
    rw [account_recordOutcome, Account.add] at h
    split at h
    · exact settled rfl h
    · exact settled rfl h
  | @override _ c ex =>
    by_cases same : c = cap
    · exact decide_eq_true same
    · rw [World.note, account, Account.add, if_neg same] at h
      exact settled rfl h
  | init =>
    rw [account_fresh] at h
    split at h
    · cases h
    · exact settled rfl h

theorem heeding_move (heeding : ∀ {cap ex}, τ.stage = .overriding cap ex → asks cap = true →
      ∃ l, s.level? cap = some l ∧ 1 ≤ l ∧ ex = false)
    (move : Move acked τ s τ' s') (notes : (noted s s').all (heeded asks s) = true) {ex : Bool}
    (stage : τ'.stage = .overriding cap ex) (asked : asks cap = true) :
    ∃ l, s'.level? cap = some l ∧ 1 ≤ l ∧ ex = false := by
  cases move with
  | counters =>
    rw [level?_counters]
    exact heeding stage asked
  | override =>
    cases stage
    have note : heeded asks s (.overridden cap ex) = true :=
      List.all_eq_true.mp notes _ (by simp [noted, World.note])
    simp only [heeded, asked, Bool.not_true, Bool.false_or, Bool.and_eq_true] at note
    obtain ⟨l, level, le⟩ := (Option.any_eq_true _ _).mp note.1
    exact ⟨l, level, of_decide_eq_true le, by simpa using note.2⟩
  | @arrive _ _ ev =>
    simp only [landed] at stage
    split at stage
    · cases stage
    · cases stage
  | reset | raise =>
    simp only at stage
    split at stage
    · cases stage
    · cases stage
  | _ => cases stage

/-- Without a new level, what has been recorded still counts. -/
theorem account_keeps (known : Orderly s toks) (move : Move acked τ s τ' s')
    (here : s.entryAt? cap = some e) (level : s'.level? cap = s.level? cap) :
    (account cap s.history).recorded ≤ (account cap s'.history).recorded ∧
      (account cap s'.history).entered = (account cap s.history).entered := by
  have edit {c : PyStr} {f : Entry → Entry} (level : (s.edit c f).level? cap = s.level? cap) :
      account cap (s.edit c f).history = account cap s.history := by
    by_cases same : cap = c
    · subst same
      refine account_edit_same here ?_
      rw [level?_edit, if_pos rfl, World.level?, here] at level
      exact Option.some.inj level
    · exact account_edit_ne same
  cases move with
  | send | record | arrive | load | tick | updateMeta => exact ⟨le_refl _, rfl⟩
  | begin | keep | configured | up =>
    obtain ⟨p, eq⟩ := enter_eq s _
    rw [eq]
    exact ⟨le_refl _, rfl⟩
  | lower | decay | bring | reset | raise | activate | counters =>
    rw [edit level]
    exact ⟨le_refl _, rfl⟩
  | outcome =>
    rw [account_recordOutcome, Account.add]
    split
    · exact ⟨Nat.le_succ _, rfl⟩
    · exact ⟨le_refl _, rfl⟩
  | override =>
    rw [World.note, account, Account.add]
    split
    · exact ⟨le_refl _, rfl⟩
    · exact ⟨le_refl _, rfl⟩
  | init down new => cases (known.fresh new cap).symm.trans here

theorem grounded_stands (known : Orderly s toks) (move : Move acked τ s τ' s')
    (begun : s.phase ≠ .down) {ev : Event} {l : Int} {evidence : PromotionEvidence}
    (body : ev.body = .promotionRecommended cap l evidence) (kept : stands s s' ev = true)
    (h : Grounded s cap l) : Grounded s' cap l := by
  obtain ⟨e, config, criteria, t, t₀, here, rfl, asked, wants, count, first, entered, le, clean⟩ := h
  rw [stands, body] at kept
  obtain ⟨level, date, over_⟩ := of_decide_eq_true kept
  obtain ⟨recorded, same⟩ := account_keeps known move here level
  have before : s.level? cap = some e.effective := congrArg (Option.map Entry.effective) here
  obtain ⟨e', there, eq⟩ := Option.map_eq_some_iff.mp (level.trans before)
  rw [here, there] at date
  refine ⟨e', config, criteria, t, t₀, there, eq, ?_, wants, ?_, date.trans first,
    same.trans entered, le, ?_⟩
  · rw [(move.grows.fixed begun).1]
    exact asked
  · exact count.trans (by exact_mod_cast recorded)
  · rw [over_]
    exact clean

theorem asking_criteria {registry : Registry} (h : asking asks registry = true)
    {config : Capability} {criteria : Criteria} {l : Int} (known : registry.get? cap = some config)
    (wants : config.promotionCriteria.get? l = some criteria)
    (zero : criteria.zeroCancelRedirect = true) : asks cap = true := by
  have each := List.all_eq_true.mp h (cap, config) (Dict.get?_eq_some_iff.mp known)
  have test := List.all_eq_true.mp each (l, criteria) (Dict.get?_eq_some_iff.mp wants)
  simpa [zero] using test

/-- What check_promotion sees is what has come up since the level was entered. -/
theorem grounded_evident {l : Int} (asked : asking asks s.registry = true)
    (backed : ∀ {e}, s.entryAt? cap = some e → Backed (account cap s.history) e.counters)
    (clean : asks cap = true → (account cap s.history).overridden = false)
    (h : Evident s cap l) : Grounded s cap l := by
  obtain ⟨e, config, criteria, ts, t, here, level, known, wants, count, date, instant⟩ := h
  have credit := backed here
  obtain ⟨t', t₀, rfl, entered, le⟩ := credit.first ts date
  refine ⟨e, config, criteria, t', t₀, here, level, known, wants, ?_, date, entered, le, ?_⟩
  · exact count.trans (by exact_mod_cast credit.count)
  · exact fun zero => clean (asking_criteria asked known wants zero)

theorem flying_here (known : Orderly s toks) (at_ : toks[i]? = some (t, τ)) {ev : Event}
    {logged : Bool} (stage : τ.stage = .flying ev logged) : ev ∈ s.inFlight := by
  have one : flies ev (t, τ) = 1 := by rw [flies, stage]; exact if_pos rfl
  have some_ := tally_pos (f := flies ev) at_ (by omega)
  rw [← known.flying] at some_
  exact List.count_pos_iff.mp some_

theorem sent_move (move : Move acked τ s τ' s') {ev : Event} (new : ev ∈ sent s s') :
    Serving τ.base s ∧ Sends τ.base τ.stage s ev.body := by
  have none_ {l : List Event} (short : l.length ≤ s.inFlight.length)
      (new : ev ∈ l.drop s.inFlight.length) : False := by
    rw [List.drop_eq_nil_of_le short] at new
    cases new
  cases move with
  | @send b σ _ e serving may =>
    rw [sent_send, List.mem_singleton] at new
    subst new
    exact ⟨serving, may⟩
  | arrive => exact (none_ (List.erase_sublist ..).length_le new).elim
  | begin | keep | configured | up =>
    obtain ⟨p, eq⟩ := enter_eq s _
    rw [sent, eq] at new
    exact (none_ (le_refl _) new).elim
  | _ => exact (none_ (le_refl _) new).elim

theorem ended_move (move : Move acked τ s τ' s') {ev : Event}
    (fewer : s'.inFlight.count ev < s.inFlight.count ev) : ∃ logged, τ.stage = .flying ev logged := by
  cases move with
  | @arrive b _ e logged =>
    refine ⟨logged, ?_⟩
    by_cases same : e = ev
    · rw [same]
    · change (s.inFlight.erase e).count ev < _ at fewer
      rw [List.count_erase_of_ne (Ne.symm same)] at fewer
      exact absurd fewer (lt_irrefl _)
  | send =>
    change (s.inFlight ++ _).count ev < _ at fewer
    rw [List.count_append] at fewer
    omega
  | begin | keep | configured | up =>
    obtain ⟨p, eq⟩ := enter_eq s _
    rw [eq] at fewer
    exact absurd fewer (lt_irrefl _)
  | _ => exact absurd fewer (lt_irrefl _)

theorem asking_move (known : Orderly s toks) (inv : Credited asks s toks)
    (at_ : toks[i]? = some (t, τ)) (move : Move acked τ s τ' s') (begun : s'.phase ≠ .down) :
    asking asks s'.registry = true := by
  by_cases down : s.phase = .down
  · have placed := known.placed at_
    cases move with
    | begin down saved loaded | keep down saved loaded =>
      rw [registry_enter, loaded.1]
      exact inv.loading at_
    | configured | up => cases down.symm.trans placed.1
    | _ => exact absurd down begun
  · rw [(move.grows.fixed down).1]
    exact inv.asked down

theorem recommended_send {b : Base} {σ : Stage} (inv : Credited asks s toks)
    (at_ : toks[i]? = some (t, ⟨b, σ⟩)) (parked : Plan.Parked (conduct acked) toks (some i))
    (serving : Serving b s) {l : Int} {evidence : PromotionEvidence}
    (may : Sends b σ s (.promotionRecommended cap l evidence)) : Grounded s cap l := by
  have idle := may.2.1
  have open_ (P : Stage → Bool) (none_ : P .idle = false)
      (flying : ∀ ev logged, P (.flying ev logged) = false) : ¬ Staged P toks := by
    intro held
    have mine := held.mover at_ parked none_ flying
    rw [show σ = .idle from idle, none_] at mine
    cases mine
  refine grounded_evident (inv.asked serving.begun) ?_ ?_ may.2.2
  · intro e here
    exact (inv.backed here).resolve_left (open_ (·.settles cap) rfl fun _ _ => rfl)
  · intro asked
    refine Bool.eq_false_iff.mpr fun overridden => ?_
    exact open_ (·.overrides cap) rfl (fun _ _ => rfl) (inv.clean asked overridden)

theorem recommended_move (known : Orderly s toks) (inv : Credited asks s toks)
    (at_ : toks[i]? = some (t, τ)) (parked : Plan.Parked (conduct acked) toks (some i))
    (move : Move acked τ s τ' s') (kept : s.inFlight.all (stands s s') = true)
    {j : Nat} {t₁ : Tag} {τ₁ : Tok} {ev : Event} {logged : Bool} {l : Int}
    {evidence : PromotionEvidence} (h : (toks.set i (t, τ'))[j]? = some (t₁, τ₁))
    (stage : τ₁.stage = .flying ev logged)
    (body : ev.body = .promotionRecommended cap l evidence) :
    s'.phase ≠ .down ∧ Grounded s' cap l := by
  have old {k : Nat} {t₂ : Tag} {τ₂ : Tok} {logged : Bool} (at₂ : toks[k]? = some (t₂, τ₂))
      (stage : τ₂.stage = .flying ev logged) : s'.phase ≠ .down ∧ Grounded s' cap l := by
    obtain ⟨begun, grounded⟩ := inv.recommended at₂ stage body
    refine ⟨fun down => ?_, ?_⟩
    · have := move.grows.rank
      rw [rank_down.mpr down] at this
      exact begun (rank_down.mp (by omega))
    · have here := List.all_eq_true.mp kept ev (flying_here known at₂ stage)
      exact grounded_stands known move begun body here grounded
  rcases get_set_cases h with ⟨-, eq⟩ | ⟨-, other⟩
  · cases eq
    cases move with
    | @send b σ _ e serving may =>
      cases stage
      rw [body] at may
      exact ⟨serving.begun, recommended_send inv at_ parked serving may⟩
    | record =>
      cases stage
      exact old at_ rfl
    | counters => exact old at_ stage
    | arrive =>
      simp only [landed] at stage
      split at stage
      · cases stage
      · cases stage
    | reset | raise =>
      simp only at stage
      split at stage
      · cases stage
      · cases stage
    | _ => cases stage
  · exact old other stage

theorem credited_move (known : Orderly s toks ∧ Steady s toks) (inv : Credited asks s toks)
    (at_ : toks[i]? = some (t, τ)) (parked : Plan.Parked (conduct acked) toks (some i))
    (move : Move acked τ s τ' s')
    (climbs : ∀ {cap e e'}, s.phase = .reconciling → s.entryAt? cap = some e →
      s'.entryAt? cap = some e' → e.effective < e'.effective → e.counters.unearned = true)
    (notes : (noted s s').all (heeded asks s) = true)
    (kept : s.inFlight.all (stands s s') = true) : Credited asks s' (toks.set i (t, τ')) := by
  obtain ⟨known, steady⟩ := known
  refine ⟨?_, asking_move known inv at_ move, dated_move move inv.dated, ?_, ?_, ?_,
    recommended_move known inv at_ parked move kept⟩
  · intro j t₁ file σ h
    rcases get_set_cases h with ⟨-, eq⟩ | ⟨-, other⟩
    · cases eq
      have was : ∃ σ, τ = ⟨.loading (some file), σ⟩ := by
        cases move <;> exact ⟨_, rfl⟩
      obtain ⟨σ₀, rfl⟩ := was
      exact inv.loading at_
    · exact inv.loading other
  · intro cap e' at'
    have before {cap : PyStr} {e : Entry} (here : s.entryAt? cap = some e) :=
      (inv.backed here).imp_left fun held => held.mover at_ parked rfl fun _ _ => rfl
    exact (backed_move (known.placed at_) (known.raised at_) (steady.steady at_) inv.dated before
      move climbs at').imp_left (.set at_)
  · intro cap asked overridden
    have before (was : (account cap s.history).overridden = true) :=
      (inv.clean asked was).mover at_ parked rfl fun _ _ => rfl
    exact .set at_ (clean_move before move overridden)
  · intro j t₁ τ₁ cap ex h stage asked
    rcases get_set_cases h with ⟨-, eq⟩ | ⟨ne, other⟩
    · cases eq
      exact heeding_move (inv.heeding at_) move notes stage asked
    · rcases (parked (by simpa using ne) other).2 with ⟨ev, logged, is⟩ | is
      · change τ₁.stage = _ at is
        cases is.symm.trans stage
      · change τ₁.stage = _ at is
        cases is.symm.trans stage

theorem credited_append (inv : Credited asks s toks)
    (loads : ∀ {file σ}, first t = ⟨.loading (some file), σ⟩ →
      asking asks file.capabilities = true) : Credited asks s (toks ++ [(t, first t)]) := by
  have last {k : Nat} {t₁ : Tag} {τ₁ : Tok} (h : (toks ++ [(t, first t)])[k]? = some (t₁, τ₁)) :
      (∃ j : Nat, toks[j]? = some (t₁, τ₁)) ∨ τ₁ = first t := by
    rcases List.mem_append.mp (List.mem_of_getElem? h) with old | new
    · exact .inl (List.getElem?_of_mem old)
    · cases List.mem_singleton.mp new
      exact .inr rfl
  have idle {τ₁ : Tok} {σ : Stage} (new : τ₁ = first t) (stage : τ₁.stage = σ) : σ = .idle := by
    rw [← stage, new, first_stage]
  refine ⟨?_, inv.asked, inv.dated, fun here => (inv.backed here).imp_left (·.append _),
    fun asked was => (inv.clean asked was).append _, ?_, ?_⟩
  · intro k t₁ file σ h
    rcases last h with ⟨j, old⟩ | new
    · exact inv.loading old
    · exact loads new.symm
  · intro k t₁ τ₁ cap ex h stage
    rcases last h with ⟨j, old⟩ | new
    · exact inv.heeding old stage
    · cases idle new stage
  · intro k t₁ τ₁ ev logged cap l evidence h stage
    rcases last h with ⟨j, old⟩ | new
    · exact inv.recommended old stage
    · cases idle new stage

/-- An override that is over has led to a demotion, where the criteria may ask for that. -/
theorem credited_retire (inv : Credited asks s toks) (at_ : toks[i]? = some (t, τ))
    (ends : Ends acked s τ.stage) : Credited asks s (toks.set i (t, ⟨.call, .idle⟩)) := by
  refine ⟨?_, inv.asked, inv.dated, ?_, ?_, ?_, ?_⟩
  · intro j t₁ file σ h
    rcases get_set_cases h with ⟨-, eq⟩ | ⟨-, other⟩
    · cases eq
    · exact inv.loading other
  · intro cap e here
    refine (inv.backed here).imp_left fun held => ?_
    refine held.retire at_ ?_
    cases stage : τ.stage with
    | lowered => exact (stage ▸ ends).elim
    | _ => rfl
  · intro cap asked was
    refine (inv.clean asked was).retire at_ ?_
    cases stage : τ.stage with
    | overriding c ex =>
      refine decide_eq_false fun same => ?_
      subst same
      obtain ⟨l, level, le, free⟩ := inv.heeding at_ stage asked
      obtain ⟨e, here, rfl⟩ := Option.map_eq_some_iff.mp level
      rw [stage] at ends
      exact ends e here ⟨le, free⟩
    | _ => rfl
  · intro j t₁ τ₁ cap ex h stage
    rcases get_set_cases h with ⟨-, eq⟩ | ⟨-, other⟩
    · cases eq
      cases stage
    · exact inv.heeding other stage
  · intro j t₁ τ₁ ev logged cap l evidence h stage
    rcases get_set_cases h with ⟨-, eq⟩ | ⟨-, other⟩
    · cases eq
      cases stage
    · exact inv.recommended other stage

/-- What holds in every run that meets the condition. -/
theorem credited (asks : PyStr → Bool) (acked : Prop) :
    (conduct acked).PreservesUnder (Meets (grounding asks))
      (fun s toks => Orderly s toks ∧ Steady s toks) (Credited asks) where
  start := by
    intro c toks t _ known inv _ _ met _
    refine credited_append inv fun {file σ} load => ?_
    cases t with
    | startup files =>
      have config := congrArg Tok.base load
      simp only [first, Base.loading.injEq] at config
      simpa only [Meets, grounding, config, Option.all_some] using met
    | _ => cases congrArg Tok.base load
  move := by
    intro c s' toks i t k τ τ' known inv program met at_ parked move
    have check : writing (grounds asks) c (.work i) = true := met
    have test := writing_work check program
    simp only [grounds, Bool.and_eq_true] at test
    refine credited_move known inv at_ parked move ?_ test.1.2 test.2
    intro cap e e' phase here there up
    have raised := List.all_eq_true.mp test.1.1 _ (mem_relevelled here there up.ne')
    simpa [phase, Int.not_le.mpr up] using raised
  finish := by
    intro c toks i t p τ r known inv program res met at_ ends
    exact credited_retire inv at_ ends
  crash := by
    intro c toks s' tracks known inv met again
    obtain ⟨late, -, rfl⟩ := again
    have idle : c.running = none := Option.isNone_iff_eq_none.mp met
    have open_ (P : Stage → Bool) (none_ : P .idle = false)
        (flying : ∀ ev logged, P (.flying ev logged) = false) : ¬ Staged P toks := by
      rintro ⟨k, t₁, τ₁, other, holds⟩
      have parks := (tracks.parks other (by simp [idle])).2
      rcases parks with ⟨ev, logged, stage⟩ | stage
      · change τ₁.stage = _ at stage
        rw [stage, flying] at holds
        cases holds
      · change τ₁.stage = _ at stage
        rw [stage, none_] at holds
        cases holds
    refine ⟨by intros; contradiction, fun begun => absurd rfl begun, inv.dated, ?_, ?_,
      by intros; contradiction, by intros; contradiction⟩
    · intro cap e here
      exact .inr ((inv.backed here).resolve_left (open_ (·.settles cap) rfl fun _ _ => rfl))
    · intro cap asked was
      exact absurd (inv.clean asked was) (open_ (·.overrides cap) rfl fun _ _ => rfl)

theorem credited_initial (asks : PyStr → Bool) : Credited asks initial.state [] :=
  ⟨nofun, fun begun => absurd rfl begun, nofun, nofun, nofun, nofun, nofun⟩

end Preserved

section Runs

variable {c c' : Run} {i : Nat} {asks : PyStr → Bool}

/-- check_promotion sends its recommendation, or takes in the end of its emit and returns. -/
def Recommends (c c' : Run) (cap : PyStr) (level : Int) : Prop :=
  ∃ ev evidence, ev.body = .promotionRecommended cap level evidence ∧
    (ev ∈ sent c.state c'.state ∨ c'.state.inFlight.count ev < c.state.inFlight.count ev)

theorem promotion_grounded (run : Reach machine (Meets (grounding asks)) initial c)
    (next : Step machine c (.work i) c') {cap : PyStr} {level : Int}
    (ready : Recommends c c' cap level) : Grounded c.state cap level := by
  have known := Plan.PreservesUnder.and (orderly False (Meets (grounding asks)))
    (steady False (Meets (grounding asks)))
  obtain ⟨toks, tracks, both, inv⟩ := Plan.reach conduct_sound.under
    (Plan.PreservesUnder.and known (credited asks False)) (Plan.tracks_boot _)
    ⟨⟨orderly_initial, steady_initial⟩, credited_initial asks⟩ run
  obtain ⟨ev, evidence, body, moves⟩ := ready
  have unchanged (same : c'.state = c.state) : Grounded c.state cap level := by
    rw [same] at moves
    rcases moves with new | fewer
    · rw [sent, List.drop_length] at new
      cases new
    · exact absurd fewer (lt_irrefl _)
  cases next with
  | @set _ t s k running at_ =>
    obtain ⟨τ, htok⟩ := tracks.token at_
    obtain ⟨τ', move, -⟩ := tracks.runs at_ htok running
    rcases moves with new | fewer
    · obtain ⟨serving, may⟩ := sent_move move new
      rw [body] at may
      have parked : Plan.Parked (conduct False) toks (some i) := fun ne other =>
        tracks.parks other (by simpa [running] using ne)
      exact recommended_send inv htok parked serving may
    · obtain ⟨logged, stage⟩ := ended_move move fewer
      exact (inv.recommended htok stage body).2
  | get | park | finish => exact unchanged rfl

namespace Trial

/-- A capability with criteria for the promotion from one level. -/
def promotable (desired max : Nat) (level : Int) (criteria : Criteria)
    (nonneg : desired ≤ max := by decide) (le : max ≤ 3 := by decide) : Capability :=
  { capability desired max nonneg le with
    promotionCriteria := (∅ : Dict Int Criteria).set level criteria }

/-- The test that evidence is missing. -/
def ungrounded (cap : PyStr) (level : Int) (s : World) : Bool :=
  ((s.registry.get? cap).bind (·.promotionCriteria.get? level)).any fun criteria =>
    ((account cap s.history).recorded : Rat) < criteria.evaluableOutcomes ||
      (criteria.zeroCancelRedirect && (account cap s.history).overridden)

theorem not_grounded {cap : PyStr} {level : Int} {s : World} (h : ungrounded cap level s = true) :
    ¬ Grounded s cap level := by
  rintro ⟨e, config, criteria, t, t₀, -, -, known, wants, count, -, -, -, clean⟩
  rw [ungrounded, known, Option.bind_some, wants, Option.any_some] at h
  rcases Bool.or_eq_true_iff.mp h with few | zero
  · exact absurd (of_decide_eq_true few) (not_lt.mpr count)
  · obtain ⟨asks, overridden⟩ := Bool.and_eq_true_iff.mp zero
    rw [clean asks] at overridden
    cases overridden

/-- The test that a check is over. -/
def returns (cap : PyStr) (level : Int) (c : Run) (l : Label machine) (c' : Run) : Bool :=
  match l with
  | .work _ => c.state.inFlight.any fun ev =>
    match ev.body with
    | .promotionRecommended cap' level' _ => cap' = cap ∧ level' = level ∧
        c'.state.inFlight.count ev < c.state.inFlight.count ev
    | _ => false
  | _ => false

theorem recommends_of_returns {cap : PyStr} {level : Int} {c c' : Run} {l : Label machine}
    (h : returns cap level c l c' = true) : ∃ i, l = .work i ∧ Recommends c c' cap level := by
  cases l with
  | work i =>
    refine ⟨i, rfl, ?_⟩
    obtain ⟨ev, -, is⟩ := List.any_eq_true.mp h
    split at is
    · rename_i cap' level' evidence body
      obtain ⟨rfl, rfl, fewer⟩ := of_decide_eq_true is
      exact ⟨ev, evidence, body, .inr fewer⟩
    · cases is
  | _ => cases h

/-- Whatever a script comes to, if the next step is the return of a check. -/
theorem returned {ok : Run → Label machine → Prop} {check : Run → Label machine → Bool}
    (g : Driver.Guards ok check) (script : List (Command machine)) (cap : PyStr) (level : Int)
    (test : World → Bool)
    (h : (run check script initial).any (fun c =>
      test c.state && (driver.tick c).any fun r => returns cap level c r.1 r.2) = true) :
    ∃ (c c' : Run) (i : Nat), Reach machine ok initial c ∧ Step machine c (.work i) c' ∧
      Recommends c c' cap level ∧ test c.state = true := by
  obtain ⟨c, reach, seen⟩ := reached g script _ h
  obtain ⟨holds, ticks⟩ := Bool.and_eq_true_iff.mp seen
  obtain ⟨l, c', next, is⟩ := step_of_tick (fun l c' => returns cap level c l c') ticks
  obtain ⟨i, rfl, recommends⟩ := recommends_of_returns is
  exact ⟨c, c', i, reach, next, recommends, holds⟩

end Trial

/-- A capability with one outcome and a criterion that asks for one. -/
theorem promotion_grounded_witness : ∃ c c' : Run, Recommends c c' (py "a") 0 ∧
    Grounded c.state (py "a") 0 := by
  obtain ⟨c, c', i, run, next, ready, -⟩ := Trial.returned (Trial.guards (grounding fun _ => true))
    [.start (.startup (Trial.file "h" [("a", Trial.promotable 0 1 0
        { evaluableOutcomes := 1, zeroCancelRedirect := true })])), .finish 0,
      .start (.recordOutcome (py "a") (py "accepted")), .resume 1, .pause 1 1]
    (py "a") 0 (fun _ => true) (by decide +kernel)
  exact ⟨c, c', ready, promotion_grounded run next ready⟩

/-- An outcome at WAL-0 counts at WAL-1 where a reconcile has promoted the capability; and an
override at WAL-0 is not held against it. -/
theorem promotion_ungrounded :
    (∃ (c c' : Run) (i : Nat), Reach machine Trial.Anyhow initial c ∧
      Step machine c (.work i) c' ∧ Recommends c c' (py "a") 1 ∧ ¬ Grounded c.state (py "a") 1) ∧
    ∃ (c c' : Run) (i : Nat), Reach machine Trial.Anyhow initial c ∧
      Step machine c (.work i) c' ∧ Recommends c c' (py "a") 0 ∧ ¬ Grounded c.state (py "a") 0 := by
  constructor
  case left =>
    obtain ⟨c, c', i, run, next, ready, missing⟩ := Trial.returned Trial.guards_anyhow
      [.start (.startup (Trial.file "old" [("a", Trial.promotable 0 2 1 { evaluableOutcomes := 1 })])),
        .finish 0, .start (.recordOutcome (py "a") (py "accepted")), .crash,
        .start (.startup (Trial.file "new" [("a", Trial.promotable 1 2 1 { evaluableOutcomes := 1 })])),
        .finish 0, .start (.checkPromotion (py "a")), .resume 1, .pause 1 1]
      (py "a") 1 (Trial.ungrounded (py "a") 1) (by decide +kernel)
    exact ⟨c, c', i, run, next, ready, Trial.not_grounded missing⟩
  case right =>
    obtain ⟨c, c', i, run, next, ready, missing⟩ := Trial.returned Trial.guards_anyhow
      [.start (.startup (Trial.file "h" [("a", Trial.promotable 0 2 0
          { evaluableOutcomes := 2, zeroCancelRedirect := true })])), .finish 0,
        .start (.recordOutcome (py "a") (py "accepted")),
        .start (.overrideDemotion (py "cancel") (py "a") none (py "event")),
        .start (.recordOutcome (py "a") (py "accepted")), .resume 3, .pause 3 1]
      (py "a") 0 (Trial.ungrounded (py "a") 0) (by decide +kernel)
    exact ⟨c, c', i, run, next, ready, Trial.not_grounded missing⟩

end Runs

end Drnt.Wal
