import Drnt.Wal.Handlers
import Drnt.Wal.Protocol
import Drnt.Lib.Trace
import Mathlib.Algebra.GroupWithZero.Nat
import Mathlib.Algebra.Order.Ring.Nat
import Mathlib.Algebra.Order.BigOperators.Group.List

/-! The decay at startup: passes over all capabilities until one of them lowers none, while the
clock goes on. -/
namespace Drnt.Wal.Decay

open Lib Lib.Coop

section Loading

def Positive (policies : Dict Int DecayPolicy) : Prop :=
  ∀ level p, policies.get? level = some p → 0 < p.windowDays ∧ 0 < p.minOutcomes

/-- What `loadDecayConfig` makes sure of. -/
structure Accepted (config : DecayConfig) : Prop where
  positive : ∀ cap level p, config.policy? cap level = some p →
    0 < p.windowDays ∧ 0 < p.minOutcomes
  disabled : config.enabled = false → ∀ cap level, config.policy? cap level = none

theorem positive_empty : Positive ∅ := by
  intro level p at_
  cases at_

theorem parsePolicy_positive {label key : PyStr} {entry : RawPolicy} {p : DecayPolicy}
    (h : parsePolicy label key entry = .ok p) : 0 < p.windowDays ∧ 0 < p.minOutcomes := by
  unfold parsePolicy at h
  dsimp only at h
  split at h
  · cases h
  split at h
  · cases h
  · cases h
    constructor
    · dsimp only
      omega
    · dsimp only
      omega

theorem parseKeys_positive {raw : RawPolicies} {label : PyStr} {keys : List (PyStr × Int)}
    {result policies : Dict Int DecayPolicy} (before : Positive result)
    (h : parseKeys raw label result keys = .ok policies) : Positive policies := by
  induction keys generalizing result with
  | nil =>
    cases h
    exact before
  | cons k keys ih =>
    obtain ⟨key, level⟩ := k
    unfold parseKeys at h
    split at h
    · exact ih before h
    split at h
    · cases h
    · rename_i p parsed
      refine ih ?_ h
      intro l q at_
      rw [Dict.get?_set] at at_
      split at at_
      · cases at_
        exact parsePolicy_positive parsed
      · exact before l q at_

theorem parseOverrides_positive {systemDefaults : Dict Int DecayPolicy}
    {raws : List (PyStr × RawPolicies)} {before overrides : Dict PyStr (Dict Int DecayPolicy)}
    (all : ∀ cap d, before.get? cap = some d → Positive d)
    (h : parseOverrides systemDefaults before raws = .ok overrides) :
    ∀ cap d, overrides.get? cap = some d → Positive d := by
  induction raws generalizing before with
  | nil =>
    cases h
    exact all
  | cons raw raws ih =>
    obtain ⟨key, raw⟩ := raw
    unfold parseOverrides at h
    split at h
    · cases h
    rename_i override parsed
    split at h
    · cases h
    refine ih ?_ h
    intro cap d at_
    rw [Dict.get?_set] at at_
    split at at_
    · cases at_
      exact parseKeys_positive positive_empty parsed
    · exact all cap d at_

theorem loadDecayConfig_accepted {data : ConfigData} {config : DecayConfig}
    (h : loadDecayConfig data = .ok config) : Accepted config := by
  unfold loadDecayConfig at h
  split at h
  · cases h
    constructor
    · intro cap level p at_
      cases at_
    · intro _ cap level
      rfl
  split at h
  · cases h
  rename_i systemDefaults parsed
  split at h
  · cases h
  rename_i overrides parsed'
  cases h
  constructor
  · intro cap level p at_
    unfold DecayConfig.policy? at at_
    split at at_
    · rename_i q found
      cases at_
      obtain ⟨d, at_', here⟩ := Option.bind_eq_some_iff.mp found
      refine parseOverrides_positive ?_ parsed' cap d at_' level _ here
      intro cap d none_
      cases none_
    · exact parseKeys_positive positive_empty parsed level p at_
  · intro off
    cases off

end Loading

section Judging

/-- The outcomes whose timestamps are not before a cutoff. -/
def countSince (cutoff : Int) (outcomes : List Outcome) : Nat :=
  outcomes.countP fun o => (o.timestamp.bind Stamp.utc?).any fun t => decide (cutoff ≤ t)

/-- `datetime.fromisoformat` reads every timestamp. -/
def Readable (outcomes : List Outcome) : Prop :=
  ∀ o ∈ outcomes, ∀ ts, o.timestamp = some ts → ts.utc? ≠ none

/-- The start of the window is a datetime. -/
def Windowed (now : Int) (p : DecayPolicy) : Prop := cutoff? now p.windowDays ≠ none

def countWithin (now : Int) (p : DecayPolicy) (outcomes : List Outcome) : Nat :=
  countSince (now - p.windowDays * day) outcomes

variable (config : DecayConfig) (now : Int) (cap : PyStr) (e : Entry)

/-- Nothing raises. -/
def Judged : Prop :=
  ∀ p, 1 ≤ e.effectiveWalLevel → config.policy? cap e.effectiveWalLevel = some p →
    Windowed now p ∧ Readable e.counters.evaluableOutcomes

/-- The policy of the level asks for more outcomes than there are. -/
def Lacks : Prop :=
  1 ≤ e.effectiveWalLevel ∧ ∃ p, config.policy? cap e.effectiveWalLevel = some p ∧
    (countWithin now p e.counters.evaluableOutcomes : Int) < p.minOutcomes

/-- One level lower, with new counters. -/
def lowered : Entry := (e.demote (e.effectiveWalLevel - 1)).withCounters .reset

def decayBody (p : DecayPolicy) : Body :=
  .decayed cap e.effectiveWalLevel p.windowDays
    (countWithin now p e.counters.evaluableOutcomes) p.minOutcomes
    (lastOutcomeTimestamp none e.counters.evaluableOutcomes)

variable {config now cap e} {cutoff : Int} {outcomes : List Outcome} {p : DecayPolicy}

@[simp] theorem level_lowered : (lowered e).effectiveWalLevel = e.effectiveWalLevel - 1 := by
  unfold lowered Entry.demote
  split
  · rename_i floor
    rw [floor]
    rfl
  · rfl

@[simp] theorem outcomes_lowered : (lowered e).counters.evaluableOutcomes = [] := rfl

theorem readable_nil : Readable [] := by
  intro o mem
  cases mem

theorem count_some (readable : Readable outcomes) :
    countOutcomesInWindow cutoff outcomes = some (countSince cutoff outcomes) := by
  induction outcomes with
  | nil => rfl
  | cons o rest ih =>
    obtain ⟨first, others⟩ := List.forall_mem_cons.mp readable
    have rest_ := ih others
    unfold countOutcomesInWindow
    cases stamp : o.timestamp with
    | none =>
      rw [countSince, List.countP_cons_of_neg (by simp [stamp])]
      exact rest_
    | some ts =>
      cases at_ : ts.utc? with
      | none => exact absurd at_ (first ts stamp)
      | some t =>
        dsimp only
        have here : countSince cutoff (o :: rest) =
            if cutoff ≤ t then countSince cutoff rest + 1 else countSince cutoff rest := by
          simp only [countSince, List.countP_cons, stamp, Option.bind_some, at_, Option.any_some,
            decide_eq_true_eq]
          split
          · rfl
          · rfl
        rw [rest_, at_, here]
        rfl

theorem readable_of_count {n : Nat} (h : countOutcomesInWindow cutoff outcomes = some n) :
    Readable outcomes := by
  induction outcomes generalizing n with
  | nil => exact readable_nil
  | cons o rest ih =>
    unfold countOutcomesInWindow at h
    refine List.forall_mem_cons.mpr ⟨?_, ?_⟩
    · intro ts stamp none_
      rw [stamp] at h
      dsimp only at h
      rw [none_] at h
      cases h
    · cases stamp : o.timestamp with
      | none =>
        rw [stamp] at h
        exact ih h
      | some ts =>
        rw [stamp] at h
        obtain ⟨t, -, h⟩ := Option.bind_eq_some_iff.mp h
        obtain ⟨count, counted, -⟩ := Option.bind_eq_some_iff.mp h
        exact ih counted

theorem cutoff_eq {c : Int} (h : cutoff? now p.windowDays = some c) :
    c = now - p.windowDays * day := by
  unfold cutoff? at h
  dsimp only at h
  split at h
  · cases h
    rfl
  · cases h

/-- The clock cannot leave a window again that it has reached. -/
theorem Windowed.later {t : Int} (h : Windowed now p) (positive : 0 < p.windowDays)
    (after : now ≤ t) : Windowed t p := by
  unfold Windowed cutoff? at h ⊢
  dsimp only at h ⊢
  rw [ne_eq, ite_eq_right_iff, not_forall] at h ⊢
  obtain ⟨⟨short, early, -⟩, -⟩ := h
  have positive' : 0 < p.windowDays * day := Int.mul_pos positive (by decide)
  refine ⟨⟨short, by omega, .inr (by omega)⟩, by simp⟩

/-- Without outcomes every policy asks for more. -/
theorem lacks_lowered (accepted : Accepted config) (high : 1 ≤ e.effectiveWalLevel - 1)
    (at_ : config.policy? cap (e.effectiveWalLevel - 1) = some p) :
    Lacks config now cap (lowered e) := by
  refine ⟨by rwa [level_lowered], p, by rwa [level_lowered], ?_⟩
  exact (accepted.positive _ _ _ at_).2

end Judging

section Calls

/-- Every emit is acknowledged. -/
def Answers : (q : Req) → Req.Ans q → Prop
  | .deliver _, answer => answer = Delivery.accepted
  | .acknowledge _, answer => answer = true
  | .ollamaModelInfo, _ => True
  | .uuid7, _ => True

/-- The clock goes on, as a relation says. -/
def Waits (R : Int → Int → Prop) (s s₁ : World) : Prop :=
  ∃ d : Nat, s₁ = s.tick d ∧ R s.clock s₁.clock

abbrev Runs {α : Type} (R : Int → Int → Prop) (x : Prog α) (s : World) (r : Except Error α)
    (s' : World) : Prop :=
  Co.Amid (S := sig) (Waits R) Answers x s r s'

variable {R : Int → Int → Prop} {s s' : World} {config : DecayConfig} {now : Int} {cap : PyStr}
  {e : Entry} {body : Body} {β : Type} {r : Except Error β}

theorem entry_runs {k : Entry → Prog β} (at_ : s.entryAt? cap = some e) :
    Runs R ((entry cap).bind k) s r s' ↔ Runs R (k e) s r s' := by
  change Runs R ((orRaise _ (s.entryAt? cap)).bind k) s r s' ↔ _
  rw [at_]
  rfl

theorem edit_runs {f : Entry → Entry} {k : Unit → Prog β} (at_ : s.entryAt? cap = some e) :
    Runs R ((edit cap f).bind k) s r s' ↔ Runs R (k ()) (s.edit cap f) r s' := by
  change Runs R (((entry cap).bind fun _ => update (·.edit cap f)).bind k) s r s' ↔ _
  rw [Co.bind_assoc]
  exact entry_runs at_

/-- An emit that is acknowledged writes its one event. -/
structure Emitted (R : Int → Int → Prop) (body : Body) (s s₁ : World) : Prop where
  state : s₁.state = s.state
  log : ∃ id, s₁.log = s.log ++ [⟨id, body⟩]
  clock : R s.clock s₁.clock

theorem emit_runs (trans : ∀ x y z, R x y → R y z → R x z) {k : PyStr → Prog β}
    (run : Runs R ((emit body).bind k) s r s') :
    ∃ id s₁, Emitted R body s s₁ ∧ Runs R (k id) s₁ r s' := by
  obtain ⟨id, s₁, -, ⟨d₁, rfl, c₁⟩, run⟩ := run
  obtain ⟨delivery, s₂, accepted, ⟨d₂, rfl, c₂⟩, run⟩ := run
  cases accepted
  obtain ⟨acknowledged, s₃, yes, ⟨d₃, rfl, c₃⟩, run⟩ := run
  cases yes
  refine ⟨id, _, ?_, run⟩
  constructor
  · rfl
  · exact ⟨id, rfl⟩
  · exact trans _ _ _ c₁ (trans _ _ _ c₂ c₃)

/-- One capability is lowered by one level and its event written. -/
structure Lowered (R : Int → Int → Prop) (now : Int) (cap : PyStr) (e : Entry) (s s' : World) :
    Prop where
  keys : s'.state.entries.keys = s.state.entries.keys
  own : s'.entryAt? cap = some (lowered e)
  others : ∀ c, c ≠ cap → s'.entryAt? c = s.entryAt? c
  log : ∃ id p, s'.log = s.log ++ [⟨id, decayBody now cap e p⟩]
  clock : R s.clock s'.clock

/-- What the evaluation of one capability does. -/
inductive Evaluated (R : Int → Int → Prop) (config : DecayConfig) (now : Int) (cap : PyStr)
    (e : Entry) (s : World) : Except Error (Option DecayAction) → World → Prop
  | raised {x : Error} (unjudged : ¬ Judged config now cap e) :
      Evaluated R config now cap e s (.error x) s
  | kept (judged : Judged config now cap e) (enough : ¬ Lacks config now cap e) :
      Evaluated R config now cap e s (.ok none) s
  | lowered {action : DecayAction} {s' : World} (judged : Judged config now cap e)
      (lacks : Lacks config now cap e) (done : Lowered R now cap e s s') :
      Evaluated R config now cap e s (.ok (some action)) s'

theorem evaluateCapability_runs (trans : ∀ x y z, R x y → R y z → R x z)
    {r : Except Error (Option DecayAction)} (at_ : s.entryAt? cap = some e)
    (run : Runs R (evaluateCapability config now cap) s r s') :
    Evaluated R config now cap e s r s' := by
  replace run := (entry_runs at_).mp run
  dsimp only at run
  split at run
  · rename_i low
    obtain ⟨rfl, rfl⟩ := run
    refine .kept ?_ ?_
    · intro p high
      omega
    · rintro ⟨high, -⟩
      omega
  rename_i high
  split at run
  · rename_i none_
    obtain ⟨rfl, rfl⟩ := run
    refine .kept ?_ ?_
    · intro p _ at_'
      rw [none_] at at_'
      cases at_'
    · rintro ⟨-, p, at_', -⟩
      rw [none_] at at_'
      cases at_'
  rename_i p policy
  have only {q : DecayPolicy} (h : config.policy? cap e.effectiveWalLevel = some q) : q = p := by
    rw [policy] at h
    cases h
    rfl
  cases window : cutoff? now p.windowDays with
  | none =>
    rw [window] at run
    obtain ⟨rfl, rfl⟩ := run
    refine .raised ?_
    intro judged
    exact (judged p (by omega) policy).1 window
  | some cutoff =>
  rw [window] at run
  replace run : Runs R ((orRaise .badTimestamp (countOutcomesInWindow cutoff
    e.counters.evaluableOutcomes)).bind _) s r s' := run
  cases counted : countOutcomesInWindow cutoff e.counters.evaluableOutcomes with
  | none =>
    rw [counted] at run
    obtain ⟨rfl, rfl⟩ := run
    refine .raised ?_
    intro judged
    rw [count_some (judged p (by omega) policy).2] at counted
    cases counted
  | some count =>
  rw [counted] at run
  have readable := readable_of_count counted
  have judged : Judged config now cap e := by
    intro q _ at_'
    rw [only at_']
    refine ⟨?_, readable⟩
    intro none_
    rw [none_] at window
    cases window
  have count_eq : count = countWithin now p e.counters.evaluableOutcomes := by
    rw [count_some readable, cutoff_eq window] at counted
    cases counted
    rfl
  replace run : Runs R (if p.minOutcomes ≤ count then _ else _) s r s' := run
  split at run
  · rename_i enough
    obtain ⟨rfl, rfl⟩ := run
    refine .kept judged ?_
    rintro ⟨-, q, at_', few⟩
    rw [only at_', ← count_eq] at few
    omega
  · rename_i few
    obtain ⟨id, s₁, emitted, run⟩ := emit_runs trans run
    have at₁ : s₁.entryAt? cap = some e := by
      rw [World.entryAt?, emitted.state]
      exact at_
    replace run := (edit_runs at₁).mp run
    have at₂ : (s₁.edit cap (·.demote (e.effectiveWalLevel - 1))).entryAt? cap =
        some (e.demote (e.effectiveWalLevel - 1)) := by
      rw [entryAt?_edit_self, at₁]
      rfl
    replace run := (edit_runs at₂).mp run
    obtain ⟨rfl, rfl⟩ := run
    refine .lowered judged ⟨by omega, p, policy, by omega⟩ ⟨?_, ?_, ?_, ?_, emitted.clock⟩
    · rw [← emitted.state]
      exact (Dict.keys_modify ..).trans (Dict.keys_modify ..)
    · rw [entryAt?_edit_self, at₂]
      rfl
    · intro c other
      rw [entryAt?_edit_ne other, entryAt?_edit_ne other, World.entryAt?, emitted.state]
      rfl
    · obtain ⟨id, log⟩ := emitted.log
      refine ⟨id, p, ?_⟩
      rw [decayBody, ← count_eq]
      exact log

end Calls

section Passes

/-- The changes of level that the events tell of a capability. -/
def steps (cap : PyStr) (events : List Event) : List (Int × Int) :=
  events.filterMap fun e => e.body.change?.bind fun change =>
    if change.1 = cap then some change.2 else none

/-- What a pass over some capabilities makes of an entry, and the events it writes about it. -/
inductive Passes (config : DecayConfig) (now : Int) (caps : List PyStr) (c : PyStr) (e : Entry) :
    List (Int × Int) → Entry → Prop
  | kept (enough : c ∈ caps → ¬ Lacks config now c e) : Passes config now caps c e [] e
  | lowered (mem : c ∈ caps) (lacks : Lacks config now c e) :
      Passes config now caps c e [(e.effectiveWalLevel, e.effectiveWalLevel - 1)] (lowered e)

structure Passed (R : Int → Int → Prop) (config : DecayConfig) (now : Int) (caps : List PyStr)
    (s : World) (actions : List DecayAction) (s' : World) : Prop where
  keys : s'.state.entries.keys = s.state.entries.keys
  judged : ∀ c ∈ caps, ∀ e, s.entryAt? c = some e → Judged config now c e
  entries : ∃ events, s'.log = s.log ++ events ∧ ∀ c e, s.entryAt? c = some e →
    ∃ e', s'.entryAt? c = some e' ∧ Passes config now caps c e (steps c events) e'
  idle : actions = [] → s' = s ∧ ∀ c ∈ caps, ∀ e, s.entryAt? c = some e → ¬ Lacks config now c e
  busy : actions ≠ [] → R s.clock s'.clock ∧
    ∃ c ∈ caps, ∃ e, s.entryAt? c = some e ∧ Lacks config now c e

variable {R : Int → Int → Prop} {s s₁ s' : World} {config : DecayConfig} {now : Int}
  {cap c : PyStr} {caps : List PyStr} {e : Entry} {actions : List DecayAction}

theorem steps_append (before after : List Event) :
    steps c (before ++ after) = steps c before ++ steps c after := List.filterMap_append

theorem steps_decay (id : PyStr) (p : DecayPolicy) : steps c [⟨id, decayBody now cap e p⟩] =
    if cap = c then [(e.effectiveWalLevel, e.effectiveWalLevel - 1)] else [] := by
  unfold steps decayBody
  by_cases same : cap = c
  · simp [Body.change?, same]
  · simp [Body.change?, same]

theorem passed_nil : Passed R config now [] s [] s where
  keys := rfl
  judged := by simp
  entries := ⟨[], (List.append_nil _).symm, fun c e at_ => ⟨e, at_, .kept (by simp)⟩⟩
  idle _ := ⟨rfl, by simp⟩
  busy := by simp

/-- A capability that keeps its level, and then the others. -/
theorem passed_kept (at_ : s.entryAt? cap = some e) (judged : Judged config now cap e)
    (enough : ¬ Lacks config now cap e) (rest : Passed R config now caps s actions s') :
    Passed R config now (cap :: caps) s actions s' := by
  have only {e' : Entry} (at' : s.entryAt? cap = some e') : e' = e := by
    rw [at_] at at'
    cases at'
    rfl
  constructor
  · exact rest.keys
  · refine List.forall_mem_cons.mpr ⟨?_, rest.judged⟩
    intro e' at'
    rw [only at']
    exact judged
  · obtain ⟨events, log, entries⟩ := rest.entries
    refine ⟨events, log, ?_⟩
    intro c e₁ at₁
    obtain ⟨e', at', passes⟩ := entries c e₁ at₁
    refine ⟨e', at', ?_⟩
    generalize steps c events = moves at passes ⊢
    cases passes with
    | kept enough' =>
      refine .kept ?_
      intro mem
      obtain rfl | mem := List.mem_cons.mp mem
      · rw [only at₁]
        exact enough
      · exact enough' mem
    | lowered mem lacks => exact .lowered (List.mem_cons_of_mem _ mem) lacks
  · intro none_
    obtain ⟨same, enough'⟩ := rest.idle none_
    refine ⟨same, List.forall_mem_cons.mpr ⟨?_, enough'⟩⟩
    intro e' at'
    rw [only at']
    exact enough
  · intro some_
    obtain ⟨clock, c, mem, lacks⟩ := rest.busy some_
    exact ⟨clock, c, List.mem_cons_of_mem _ mem, lacks⟩

/-- A capability that is lowered, and then the others. -/
theorem passed_lowered (trans : ∀ x y z, R x y → R y z → R x z) {action : DecayAction}
    (at_ : s.entryAt? cap = some e) (out : cap ∉ caps) (judged : Judged config now cap e)
    (lacks : Lacks config now cap e) (first : Lowered R now cap e s s₁)
    (rest : Passed R config now caps s₁ actions s') :
    Passed R config now (cap :: caps) s (action :: actions) s' := by
  have only {e' : Entry} (at' : s.entryAt? cap = some e') : e' = e := by
    rw [at_] at at'
    cases at'
    rfl
  have ne {c : PyStr} (mem : c ∈ caps) : c ≠ cap := by
    rintro rfl
    exact out mem
  constructor
  · exact rest.keys.trans first.keys
  · refine List.forall_mem_cons.mpr ⟨?_, ?_⟩
    · intro e' at'
      rw [only at']
      exact judged
    · intro c mem e' at'
      exact rest.judged c mem e' ((first.others c (ne mem)).trans at')
  · obtain ⟨id, p, log⟩ := first.log
    obtain ⟨events, log', entries⟩ := rest.entries
    refine ⟨⟨id, decayBody now cap e p⟩ :: events, ?_, ?_⟩
    · rw [log', log, List.append_assoc, List.singleton_append]
    intro c e₁ at₁
    have told : steps c (⟨id, decayBody now cap e p⟩ :: events) = (if cap = c then
        [(e.effectiveWalLevel, e.effectiveWalLevel - 1)] else []) ++ steps c events := by
      rw [← List.singleton_append, steps_append, steps_decay]
    rw [told]
    by_cases same : c = cap
    · rw [same] at at₁ ⊢
      rw [only at₁, if_pos rfl]
      obtain ⟨e', at', passes⟩ := entries cap (lowered e) first.own
      refine ⟨e', at', ?_⟩
      generalize steps cap events = moves at passes
      cases passes with
      | kept => exact .lowered (List.mem_cons_self ..) lacks
      | lowered mem => exact absurd mem out
    · rw [if_neg (Ne.symm same)]
      obtain ⟨e', at', passes⟩ := entries c e₁ ((first.others c same).trans at₁)
      refine ⟨e', at', ?_⟩
      rw [List.nil_append]
      generalize steps c events = moves at passes ⊢
      cases passes with
      | kept enough =>
        refine .kept ?_
        intro mem
        exact enough ((List.mem_cons.mp mem).resolve_left same)
      | lowered mem lacks' => exact .lowered (List.mem_cons_of_mem _ mem) lacks'
  · intro none_
    cases none_
  · intro _
    refine ⟨?_, cap, List.mem_cons_self .., e, at_, lacks⟩
    by_cases none_ : actions = []
    · rw [(rest.idle none_).1]
      exact first.clock
    · exact trans _ _ _ first.clock (rest.busy none_).1

theorem evaluateAll_runs (trans : ∀ x y z, R x y → R y z → R x z)
    {r : Except Error (List DecayAction)} (distinct : caps.Nodup)
    (known : ∀ c ∈ caps, s.entryAt? c ≠ none)
    (run : Runs R (evaluateAll config now caps) s r s') :
    (∃ x, r = .error x ∧ ∃ c ∈ caps, ∃ e, s.entryAt? c = some e ∧ ¬ Judged config now c e) ∨
      ∃ actions, r = .ok actions ∧ Passed R config now caps s actions s' := by
  induction caps generalizing s r with
  | nil =>
    obtain ⟨rfl, rfl⟩ := run
    exact .inr ⟨[], rfl, passed_nil⟩
  | cons cap caps ih =>
    obtain ⟨out, distinct⟩ := List.nodup_cons.mp distinct
    obtain ⟨here, known⟩ := List.forall_mem_cons.mp known
    obtain ⟨e, at_⟩ := Option.ne_none_iff_exists'.mp here
    obtain ⟨action, s₁, first, run⟩ | ⟨x, first, rfl⟩ := Co.amid_bind.mp run
    · have evaluated := evaluateCapability_runs trans at_ first
      have later : (∃ x, r = .error x ∧ Runs R (evaluateAll config now caps) s₁ (.error x) s') ∨
          ∃ actions, r = .ok (action.toList ++ actions) ∧
            Runs R (evaluateAll config now caps) s₁ (.ok actions) s' := by
        obtain ⟨actions, s₂, second, rfl, rfl⟩ | ⟨x, second, rfl⟩ := Co.amid_bind.mp run
        · exact .inr ⟨actions, rfl, second⟩
        · exact .inl ⟨x, rfl, second⟩
      cases evaluated with
      | kept judged enough =>
        obtain ⟨x, rfl, second⟩ | ⟨actions, rfl, second⟩ := later
        · obtain ⟨_, -, c, mem, unjudged⟩ | ⟨actions, eq, -⟩ := ih distinct known second
          · exact .inl ⟨x, rfl, c, List.mem_cons_of_mem _ mem, unjudged⟩
          · cases eq
        · obtain ⟨x, eq, -⟩ | ⟨actions', eq, passed⟩ := ih distinct known second
          · cases eq
          · cases eq
            exact .inr ⟨actions, rfl, passed_kept at_ judged enough passed⟩
      | @lowered action _ judged lacks done =>
        have others {c : PyStr} (mem : c ∈ caps) : s₁.entryAt? c = s.entryAt? c := by
          refine done.others c ?_
          rintro rfl
          exact out mem
        have known' : ∀ c ∈ caps, s₁.entryAt? c ≠ none := by
          intro c mem
          rw [others mem]
          exact known c mem
        obtain ⟨x, rfl, second⟩ | ⟨actions, rfl, second⟩ := later
        · obtain ⟨_, -, c, mem, e', at', unjudged⟩ | ⟨actions, eq, -⟩ := ih distinct known' second
          · rw [others mem] at at'
            exact .inl ⟨x, rfl, c, List.mem_cons_of_mem _ mem, e', at', unjudged⟩
          · cases eq
        · obtain ⟨x, eq, -⟩ | ⟨actions', eq, passed⟩ := ih distinct known' second
          · cases eq
          · cases eq
            exact .inr ⟨action :: actions, rfl,
              passed_lowered trans at_ out judged lacks done passed⟩
    · cases evaluateCapability_runs trans at_ first with
      | raised unjudged => exact .inl ⟨x, rfl, cap, List.mem_cons_self .., e, at_, unjudged⟩

/-- A pass over all capabilities. -/
abbrev PassedAll (R : Int → Int → Prop) (config : DecayConfig) (s : World)
    (actions : List DecayAction) (s' : World) : Prop :=
  Passed R config s.clock s.state.entries.keys s actions s'

theorem mem_keys_iff : c ∈ s.state.entries.keys ↔ ∃ e, s.entryAt? c = some e := by
  rw [← Option.ne_none_iff_exists', World.entryAt?, ne_eq, Dict.get?_eq_none_iff, not_not]

theorem evaluate_runs (accepted : Accepted config) (trans : ∀ x y z, R x y → R y z → R x z)
    {r : Except Error (List DecayAction)} (run : Runs R (evaluate config) s r s') :
    (∃ x, r = .error x ∧ ∃ c e, s.entryAt? c = some e ∧ ¬ Judged config s.clock c e) ∨
      ∃ actions, r = .ok actions ∧ PassedAll R config s actions s' := by
  unfold evaluate at run
  split at run
  · have known : ∀ c ∈ s.state.entries.keys, s.entryAt? c ≠ none := by
      intro c mem
      exact Option.ne_none_iff_exists'.mpr (mem_keys_iff.mp mem)
    obtain ⟨x, rfl, c, -, unjudged⟩ | passed :=
      evaluateAll_runs trans s.state.entries.nodup known run
    · exact .inl ⟨x, rfl, c, unjudged⟩
    · exact .inr passed
  · rename_i off
    obtain ⟨rfl, same⟩ := run
    rw [same]
    have none_ := accepted.disabled (Bool.eq_false_iff.mpr off)
    have enough (c : PyStr) (e : Entry) : ¬ Lacks config s.clock c e := by
      rintro ⟨-, p, at_, -⟩
      rw [none_] at at_
      cases at_
    refine .inr ⟨[], rfl, rfl, ?_, ?_, ?_, ?_⟩
    · intro c _ e _ p _ at_
      rw [none_] at at_
      cases at_
    · refine ⟨[], (List.append_nil _).symm, ?_⟩
      intro c e at_
      refine ⟨e, at_, .kept ?_⟩
      intro _
      exact enough c e
    · intro _
      refine ⟨rfl, ?_⟩
      intro c _ e _
      exact enough c e
    · simp

end Passes

section Loop

/-- Single steps down, one after the other. -/
inductive Chain : Int → List (Int × Int) → Int → Prop
  | nil (l : Int) : Chain l [] l
  | step {l l' : Int} {moves : List (Int × Int)} (rest : Chain (l - 1) moves l') :
      Chain l ((l, l - 1) :: moves) l'

/-- The sum of the levels above 0: how many steps down there can be. -/
def levels (s : World) : Nat :=
  (s.state.entries.keys.map fun c => ((s.entryAt? c).elim 0 (·.effectiveWalLevel.toNat))).sum

/-- A level at or under another, with policies on the way to it. -/
structure Below (config : DecayConfig) (cap : PyStr) (top l : Int) : Prop where
  pos : 1 ≤ l
  le : l ≤ top
  policies : ∀ k, l ≤ k → k ≤ top → config.policy? cap k ≠ none

/-- The evaluation does not raise, nor does it on the levels that the entry will come to. -/
structure Covered (config : DecayConfig) (now : Int) (cap : PyStr) (e : Entry) : Prop where
  judged : Judged config now cap e
  below : Lacks config now cap e → ∀ l p, l < e.effectiveWalLevel →
    Below config cap e.effectiveWalLevel l → config.policy? cap l = some p → Windowed now p

/-- At every clock that may come. -/
def Lasting (R : Int → Int → Prop) (config : DecayConfig) (s : World) : Prop :=
  ∀ t, R s.clock t → ∀ c e, s.entryAt? c = some e → Covered config t c e

/-- The capabilities are covered now, and if one of them is lowered now, so that there are passes
later, then at every clock that may come. -/
structure Sound (R : Int → Int → Prop) (config : DecayConfig) (s : World) : Prop where
  now : ∀ c e, s.entryAt? c = some e → Covered config s.clock c e
  later : (∃ c e, s.entryAt? c = some e ∧ Lacks config s.clock c e) → Lasting R config s

/-- The startup comes to an end, and what it leaves stays as it is. -/
structure Settled (R : Int → Int → Prop) (config : DecayConfig) (s : World)
    (r : Except Error (List DecayAction)) (s' : World) : Prop where
  returns : ∃ actions, r = .ok actions
  fixed : ∀ r' s'', Runs R (evaluate config) s' r' s'' → r' = .ok [] ∧ s'' = s'
  entries : ∃ events, s'.log = s.log ++ events ∧ ∀ c e, s.entryAt? c = some e →
    ∃ e', s'.entryAt? c = some e' ∧ e'.effectiveWalLevel ≤ e.effectiveWalLevel ∧
      (0 ≤ e.effectiveWalLevel → 0 ≤ e'.effectiveWalLevel) ∧
      Chain e.effectiveWalLevel (steps c events) e'.effectiveWalLevel

variable {R : Int → Int → Prop} {s s₁ s' : World} {config : DecayConfig} {now t : Int}
  {cap c : PyStr} {e e' : Entry} {actions : List DecayAction}

theorem Below.up {top l : Int} (h : Below config cap (top - 1) l)
    (here : config.policy? cap top ≠ none) : Below config cap top l := by
  refine ⟨h.pos, by have := h.le; omega, ?_⟩
  intro k low high
  by_cases same : k = top
  · rw [same]
    exact here
  · exact h.policies k low (by omega)

theorem Lacks.policy (h : Lacks config now cap e) :
    config.policy? cap e.effectiveWalLevel ≠ none := by
  obtain ⟨-, p, at_, -⟩ := h
  rw [at_]
  exact Option.some_ne_none p

theorem covered_lowered (accepted : Accepted config) (h : Covered config now cap e)
    (lacks : Lacks config now cap e) (after : now ≤ t) : Covered config t cap (lowered e) := by
  constructor
  · intro p high at_
    rw [level_lowered] at high at_
    refine ⟨?_, readable_nil⟩
    have here : Below config cap (e.effectiveWalLevel - 1) (e.effectiveWalLevel - 1) := by
      refine ⟨high, le_rfl, ?_⟩
      intro k low up
      rw [show k = e.effectiveWalLevel - 1 by omega, at_]
      exact Option.some_ne_none p
    exact (h.below lacks _ p (by omega) (here.up lacks.policy) at_).later
      (accepted.positive _ _ _ at_).1 after
  · intro _ l p lt below at_
    rw [level_lowered] at lt below
    exact (h.below lacks l p (by omega) (below.up lacks.policy) at_).later
      (accepted.positive _ _ _ at_).1 after

theorem covered_of_lowered (accepted : Accepted config) (judged : Judged config now cap e)
    (h : Covered config now cap (lowered e)) : Covered config now cap e := by
  refine ⟨judged, ?_⟩
  intro _ l p lt below at_
  have down : Below config cap (e.effectiveWalLevel - 1) l := by
    refine ⟨below.pos, by omega, ?_⟩
    intro k low high
    exact below.policies k low (by omega)
  have top : config.policy? cap (e.effectiveWalLevel - 1) ≠ none :=
    below.policies _ (by have := below.pos; omega) (by omega)
  obtain ⟨q, at_top⟩ := Option.ne_none_iff_exists'.mp top
  have high : 1 ≤ e.effectiveWalLevel - 1 := by
    have := below.pos
    omega
  by_cases same : l = e.effectiveWalLevel - 1
  · refine (h.judged p ?_ ?_).1
    · rwa [level_lowered]
    · rw [level_lowered, ← same]
      exact at_
  · refine h.below (lacks_lowered accepted high at_top) l p ?_ ?_ at_
    · rw [level_lowered]
      omega
    · rw [level_lowered]
      exact down

theorem Covered.later (accepted : Accepted config) (h : Covered config now cap e)
    (lacks : Lacks config now cap e) (after : now ≤ t) : Covered config t cap e := by
  constructor
  · intro p high at_
    obtain ⟨window, readable⟩ := h.judged p high at_
    exact ⟨window.later (accepted.positive _ _ _ at_).1 after, readable⟩
  · intro _ l p lt below at_
    exact (h.below lacks l p lt below at_).later (accepted.positive _ _ _ at_).1 after

/-- A pass that lowers a capability takes from the levels. -/
theorem levels_passed (passed : PassedAll R config s actions s') (some_ : actions ≠ []) :
    levels s' < levels s := by
  obtain ⟨events, -, entries⟩ := passed.entries
  have each (c : PyStr) (mem : c ∈ s.state.entries.keys) :
      ((s'.entryAt? c).elim 0 (·.effectiveWalLevel.toNat)) ≤
        ((s.entryAt? c).elim 0 (·.effectiveWalLevel.toNat)) := by
    obtain ⟨e, at_⟩ := mem_keys_iff.mp mem
    obtain ⟨e', at', passes⟩ := entries c e at_
    rw [at_, at']
    generalize steps c events = moves at passes
    cases passes with
    | kept => exact le_rfl
    | lowered =>
      simp only [Option.elim_some, level_lowered]
      omega
  obtain ⟨-, c, mem, e, at_, lacks⟩ := passed.busy some_
  unfold levels
  rw [passed.keys]
  refine List.sum_lt_sum _ _ each ⟨c, mem, ?_⟩
  obtain ⟨e', at', passes⟩ := entries c e at_
  rw [at_, at']
  generalize steps c events = moves at passes
  cases passes with
  | kept enough => exact absurd lacks (enough mem)
  | lowered =>
    simp only [Option.elim_some, level_lowered]
    have := lacks.1
    omega

theorem sound_passed (accepted : Accepted config) (trans : ∀ x y z, R x y → R y z → R x z)
    (forward : ∀ x y, R x y → x ≤ y) (sound : Sound R config s)
    (passed : PassedAll R config s actions s') (some_ : actions ≠ []) : Sound R config s' := by
  obtain ⟨clock, c₀, -, e₀, at₀, lacks₀⟩ := passed.busy some_
  have covered {t : Int} (after : R s.clock t) (c : PyStr) (e' : Entry)
      (at' : s'.entryAt? c = some e') : Covered config t c e' := by
    have mem : c ∈ s.state.entries.keys := by
      rw [← passed.keys]
      exact mem_keys_iff.mpr ⟨e', at'⟩
    obtain ⟨e, at_⟩ := mem_keys_iff.mp mem
    obtain ⟨events, -, entries⟩ := passed.entries
    obtain ⟨e₁, at₁, passes⟩ := entries c e at_
    rw [at'] at at₁
    cases at₁
    generalize steps c events = moves at passes
    cases passes with
    | kept => exact sound.later ⟨c₀, e₀, at₀, lacks₀⟩ t after c _ at_
    | lowered _ lacks => exact covered_lowered accepted (sound.now c e at_) lacks (forward _ _ after)
  constructor
  · exact covered clock
  · intro _ t after
    exact covered (trans _ _ _ clock after)

/-- Where nothing is lowered any more, another evaluation does nothing. -/
theorem evaluate_still (accepted : Accepted config) (trans : ∀ x y z, R x y → R y z → R x z)
    {r : Except Error (List DecayAction)} (sound : Sound R config s)
    (enough : ∀ c ∈ s.state.entries.keys, ∀ e, s.entryAt? c = some e → ¬ Lacks config s.clock c e)
    (run : Runs R (evaluate config) s r s') : r = .ok [] ∧ s' = s := by
  obtain ⟨x, rfl, c, e, at_, unjudged⟩ | ⟨actions, rfl, passed⟩ := evaluate_runs accepted trans run
  · exact absurd (sound.now c e at_).judged unjudged
  · by_cases none_ : actions = []
    · rw [none_]
      exact ⟨rfl, (passed.idle none_).1⟩
    · obtain ⟨-, c, mem, e, at_, lacks⟩ := passed.busy none_
      exact absurd lacks (enough c mem e at_)

/-- A run of the loop: no action in the first pass, or some and then the rest of the loop. -/
theorem startup_runs {passes : Nat} {r : Except Error (List DecayAction)}
    (run : Runs R (evaluateStartup config (passes + 1)) s r s') :
    (∃ x, Runs R (evaluate config) s (.error x) s' ∧ r = .error x) ∨
      (Runs R (evaluate config) s (.ok []) s' ∧ r = .ok []) ∨
      ∃ actions s₁ r₁, actions ≠ [] ∧ Runs R (evaluate config) s (.ok actions) s₁ ∧
        Runs R (evaluateStartup config passes) s₁ r₁ s' ∧ r = r₁.map (actions ++ ·) := by
  obtain ⟨actions, s₁, first, run⟩ | ⟨x, first, rfl⟩ := Co.amid_bind.mp run
  · cases actions with
    | nil =>
      obtain ⟨rfl, rfl⟩ := run
      exact .inr (.inl ⟨first, rfl⟩)
    | cons action actions =>
      right
      right
      obtain ⟨more, s₂, rest, rfl, rfl⟩ | ⟨x, rest, rfl⟩ := Co.amid_bind.mp run
      · exact ⟨_, s₁, .ok more, by simp, first, rest, rfl⟩
      · exact ⟨_, s₁, .error x, by simp, first, rest, rfl⟩
  · exact .inl ⟨x, first, rfl⟩

theorem startup_settles (accepted : Accepted config) (trans : ∀ x y z, R x y → R y z → R x z)
    (forward : ∀ x y, R x y → x ≤ y) {passes : Nat} {r : Except Error (List DecayAction)}
    (sound : Sound R config s) (enough : levels s < passes)
    (run : Runs R (evaluateStartup config passes) s r s') : Settled R config s r s' := by
  induction passes generalizing s r with
  | zero => omega
  | succ passes ih =>
    obtain ⟨x, first, rfl⟩ | ⟨first, rfl⟩ | ⟨actions, s₁, r₁, some_, first, rest, rfl⟩ :=
      startup_runs run
    · obtain ⟨_, -, c, e, at_, unjudged⟩ | ⟨actions, eq, -⟩ := evaluate_runs accepted trans first
      · exact absurd (sound.now c e at_).judged unjudged
      · cases eq
    · obtain ⟨x, eq, -⟩ | ⟨actions, eq, passed⟩ := evaluate_runs accepted trans first
      · cases eq
      · cases eq
        obtain ⟨same, idle⟩ := passed.idle rfl
        rw [same]
        refine ⟨⟨[], rfl⟩, ?_, [], (List.append_nil _).symm, ?_⟩
        · intro r' s'' again
          exact evaluate_still accepted trans sound idle again
        · intro c e at_
          exact ⟨e, at_, le_rfl, id, .nil _⟩
    · obtain ⟨x, eq, -⟩ | ⟨actions, eq, passed⟩ := evaluate_runs accepted trans first
      · cases eq
      cases eq
      have later := sound_passed accepted trans forward sound passed some_
      have fewer := levels_passed passed some_
      have settled := ih later (by omega) rest
      obtain ⟨more, ok⟩ := settled.returns
      obtain ⟨events, log, entries⟩ := passed.entries
      obtain ⟨events', log', entries'⟩ := settled.entries
      refine ⟨⟨actions ++ more, by rw [ok]; rfl⟩, settled.fixed, events ++ events', ?_, ?_⟩
      · rw [log', log, List.append_assoc]
      intro c e at_
      obtain ⟨e₁, at₁, passes_⟩ := entries c e at_
      obtain ⟨e', at', le, floor, chain⟩ := entries' c e₁ at₁
      refine ⟨e', at', ?_⟩
      rw [steps_append]
      generalize steps c events = moves at passes_ ⊢
      cases passes_ with
      | kept => exact ⟨le, floor, chain⟩
      | lowered _ lacks =>
        have high := lacks.1
        rw [level_lowered] at le floor chain
        refine ⟨by omega, ?_, .step chain⟩
        intro _
        exact floor (by omega)

end Loop

section Fixed

/-- Down to level 0 or a level without a policy. -/
structure Lands (config : DecayConfig) (cap : PyStr) (top l : Int) : Prop where
  nonneg : 0 ≤ l
  lt : l < top
  stop : l = 0 ∨ config.policy? cap l = none
  policies : ∀ k, l < k → k ≤ top → config.policy? cap k ≠ none

/-- Where a capability ends that is evaluated at one clock only. -/
inductive Ends (config : DecayConfig) (now : Int) (cap : PyStr) (e : Entry) : Entry → Prop
  | kept (enough : ¬ Lacks config now cap e) : Ends config now cap e e
  | lowered {e' : Entry} (lacks : Lacks config now cap e)
      (lands : Lands config cap e.effectiveWalLevel e'.effectiveWalLevel) : Ends config now cap e e'

variable {R : Int → Int → Prop} {s s' : World} {config : DecayConfig} {now t : Int}
  {cap c : PyStr} {e e' : Entry}

theorem ends_of_lowered (accepted : Accepted config) (lacks : Lacks config now cap e)
    (h : Ends config now cap (lowered e) e') : Ends config now cap e e' := by
  have high := lacks.1
  refine .lowered lacks ?_
  cases h with
  | kept enough =>
    rw [level_lowered]
    refine ⟨by omega, by omega, ?_, ?_⟩
    · by_contra stays
      rw [not_or] at stays
      obtain ⟨p, at_⟩ := Option.ne_none_iff_exists'.mp stays.2
      exact enough (lacks_lowered accepted (by omega) at_)
    · intro k low up
      rw [show k = e.effectiveWalLevel by omega]
      exact lacks.policy
  | lowered _ lands =>
    rw [level_lowered] at lands
    refine ⟨lands.nonneg, by have := lands.lt; omega, lands.stop, ?_⟩
    intro k low up
    by_cases same : k = e.effectiveWalLevel
    · rw [same]
      exact lacks.policy
    · exact lands.policies k low (by omega)

/-- A startup that returns, at a clock that stands still, has met no level that raises. -/
theorem ends_of_returns (accepted : Accepted config) (trans : ∀ x y z, R x y → R y z → R x z)
    {passes : Nat} {actions : List DecayAction} (still : ∀ y, R s.clock y → y = s.clock)
    (enough : levels s < passes)
    (run : Runs R (evaluateStartup config passes) s (.ok actions) s') :
    ∀ c e, s.entryAt? c = some e → Covered config s.clock c e ∧
      ∃ e', s'.entryAt? c = some e' ∧ Ends config s.clock c e e' := by
  induction passes generalizing s actions with
  | zero => omega
  | succ passes ih =>
    intro c e at_
    have mem : c ∈ s.state.entries.keys := mem_keys_iff.mpr ⟨e, at_⟩
    obtain ⟨x, -, eq⟩ | ⟨first, -⟩ | ⟨actions, s₁, r₁, some_, first, rest, eq⟩ := startup_runs run
    · cases eq
    · obtain ⟨x, eq, -⟩ | ⟨actions, eq, passed⟩ := evaluate_runs accepted trans first
      · cases eq
      cases eq
      obtain ⟨same, idle⟩ := passed.idle rfl
      refine ⟨⟨passed.judged c mem e at_, ?_⟩, e, ?_, .kept (idle c mem e at_)⟩
      · intro lacks
        exact absurd lacks (idle c mem e at_)
      · rw [same]
        exact at_
    · obtain ⟨x, eq', -⟩ | ⟨actions, eq', passed⟩ := evaluate_runs accepted trans first
      · cases eq'
      cases eq'
      have clock : s₁.clock = s.clock := still _ (passed.busy some_).1
      have fewer := levels_passed passed some_
      cases r₁ with
      | error x => cases eq
      | ok more =>
      obtain ⟨events, -, entries⟩ := passed.entries
      obtain ⟨e₁, at₁, passes_⟩ := entries c e at_
      have later := ih (by rwa [clock]) (by omega) rest c e₁ at₁
      rw [clock] at later
      obtain ⟨covered, e', at', ends⟩ := later
      generalize steps c events = moves at passes_
      cases passes_ with
      | kept => exact ⟨covered, e', at', ends⟩
      | lowered _ lacks =>
        have judged := passed.judged c mem e at_
        exact ⟨covered_of_lowered accepted judged covered, e', at',
          ends_of_lowered accepted lacks ends⟩

end Fixed

section Settling

/-- The clock goes on to a time and stands still from then on. -/
def until_ (t x y : Int) : Prop := y = max x t

variable {α : Type} {s s' : World} {config : DecayConfig} {c : PyStr} {e : Entry} {t : Int}

theorem until_trans (t : Int) : ∀ x y z, until_ t x y → until_ t y z → until_ t x z := by
  intro x y z first second
  unfold until_ at first second ⊢
  omega

theorem until_forward (t : Int) : ∀ x y, until_ t x y → x ≤ y := by
  intro x y h
  unfold until_ at h
  omega

theorem Waits.mono {R R' : Int → Int → Prop} (weaker : ∀ x y, R x y → R' x y) :
    ∀ a b, Waits R a b → Waits R' a b := by
  rintro a b ⟨d, rfl, h⟩
  exact ⟨d, rfl, weaker _ _ h⟩

theorem exists_runs {R : Int → Int → Prop} (goes : ∀ x, ∃ d : Nat, R x (x + d)) (x : Prog α)
    (s : World) : ∃ r s', Runs R x s r s' := by
  refine Co.exists_amid ?_ ?_ x s
  · intro a
    obtain ⟨d, next⟩ := goes a.clock
    exact ⟨a.tick d, d, rfl, next⟩
  · intro q
    cases q with
    | deliver _ => exact ⟨.accepted, rfl⟩
    | acknowledge _ => exact ⟨true, rfl⟩
    | ollamaModelInfo => exact ⟨(none, none), trivial⟩
    | uuid7 => exact ⟨[], trivial⟩

theorem until_goes (t x : Int) : ∃ d : Nat, until_ t x (x + d) := by
  refine ⟨(t - x).toNat, ?_⟩
  unfold until_
  omega

/-- A startup settles whatever the clock does. -/
def Settles (config : DecayConfig) (s : World) : Prop :=
  ∀ passes, levels s < passes → ∀ r s', Runs (· ≤ ·) (evaluateStartup config passes) s r s' →
    Settled (· ≤ ·) config s r s'

/-- Then there is a run to every clock that returns. -/
theorem Settles.until (h : Settles config s) (t : Int) : ∃ actions s',
    Runs (until_ t) (evaluateStartup config (levels s + 1)) s (.ok actions) s' := by
  obtain ⟨r, s', run⟩ := exists_runs (until_goes t) (evaluateStartup config (levels s + 1)) s
  have settled := h (levels s + 1) (by omega) r s' (run.mono (Waits.mono (until_forward t)))
  obtain ⟨actions, rfl⟩ := settled.returns
  exact ⟨actions, s', run⟩

theorem Settles.covered (accepted : Accepted config) (h : Settles config s) (c : PyStr) (e : Entry)
    (at_ : s.entryAt? c = some e) : Covered config s.clock c e := by
  obtain ⟨actions, s', run⟩ := h.until s.clock
  refine (ends_of_returns accepted (until_trans _) ?_ (by omega) run c e at_).1
  intro y still
  unfold until_ at still
  omega

/-- The second pass of a run may come at any later clock. -/
theorem Settles.lasting (accepted : Accepted config) (h : Settles config s)
    (lacks : ∃ c e, s.entryAt? c = some e ∧ Lacks config s.clock c e) : Lasting (· ≤ ·) config s := by
  intro t after c e at_
  obtain ⟨c₀, e₀, at₀, lacks₀⟩ := lacks
  obtain ⟨actions, s', run⟩ := h.until t
  obtain ⟨x, -, eq⟩ | ⟨first, -⟩ | ⟨actions, s₁, r₁, some_, first, rest, eq⟩ := startup_runs run
  · cases eq
  · obtain ⟨x, eq, -⟩ | ⟨actions, eq, passed⟩ := evaluate_runs accepted (until_trans t) first
    · cases eq
    · cases eq
      exact absurd lacks₀ ((passed.idle rfl).2 c₀ (mem_keys_iff.mpr ⟨e₀, at₀⟩) e₀ at₀)
  · obtain ⟨x, eq', -⟩ | ⟨actions, eq', passed⟩ := evaluate_runs accepted (until_trans t) first
    · cases eq'
    cases eq'
    have clock : s₁.clock = t := by
      have := (passed.busy some_).1
      unfold until_ at this
      omega
    have fewer := levels_passed passed some_
    cases r₁ with
    | error x => cases eq
    | ok more =>
    obtain ⟨events, -, entries⟩ := passed.entries
    obtain ⟨e₁, at₁, passes⟩ := entries c e at_
    generalize steps c events = moves at passes
    cases passes with
    | kept =>
      have covered := ends_of_returns accepted (until_trans t) ?_ fewer rest c e at₁
      · rw [clock] at covered
        exact covered.1
      · intro y still
        unfold until_ at still
        omega
    | lowered _ lacks => exact (h.covered accepted c e at_).later accepted lacks after

/-- The startup settles exactly if no window that it looks at starts before the first datetime and
no timestamp that it reads is unreadable. -/
theorem startup_settles_iff {data : ConfigData} (loaded : loadDecayConfig data = .ok config)
    (s : World) :
    (∀ passes, levels s < passes → ∀ r s', Runs (· ≤ ·) (evaluateStartup config passes) s r s' →
      Settled (· ≤ ·) config s r s') ↔ Sound (· ≤ ·) config s := by
  have accepted := loadDecayConfig_accepted loaded
  constructor
  · intro h
    exact ⟨Settles.covered accepted h, Settles.lasting accepted h⟩
  · intro sound passes enough r s' run
    refine startup_settles accepted ?_ ?_ sound enough run
    · intro x y z first second
      exact Int.le_trans first second
    · intro x y forward
      exact forward

end Settling

section Sample

def policies (wal1 wal2 : RawPolicy) : RawPolicies :=
  ((∅ : RawPolicies).set (py "wal_1") wal1).set (py "wal_2") wal2

def monthly : ConfigData where
  decayPolicy := some (policies ⟨some 90, some 10⟩ ⟨some 30, some 25⟩)

/-- A window of a million days. -/
def millionDays : ConfigData where
  decayPolicy := some (policies ⟨some 1000000, some 10⟩ ⟨some 30, some 25⟩)

def systemWide (wal1 wal2 : DecayPolicy) : DecayConfig where
  systemDefaults := ((∅ : Dict Int DecayPolicy).set 1 wal1).set 2 wal2

def sampleEntry (level : Int) (outcomes : List Outcome) : Entry where
  effectiveWalLevel := level
  counters := { evaluableOutcomes := outcomes }

/-- One capability, in 2026. -/
def oneAt (level : Int) (outcomes : List Outcome) : World where
  state := { entries := (∅ : Dict PyStr Entry).set (py "a") (sampleEntry level outcomes) }
  clock := 1767225600 * 1000000

theorem monthly_loads : loadDecayConfig monthly = .ok (systemWide ⟨90, 10⟩ ⟨30, 25⟩) := by
  rfl

theorem millionDays_loads :
    loadDecayConfig millionDays = .ok (systemWide ⟨1000000, 10⟩ ⟨30, 25⟩) := by
  rfl

theorem startup_settles_iff_monthly :
    loadDecayConfig monthly = .ok (systemWide ⟨90, 10⟩ ⟨30, 25⟩) ∧
    ((∀ passes, levels (oneAt 2 []) < passes → ∀ r s',
      Runs (· ≤ ·) (evaluateStartup (systemWide ⟨90, 10⟩ ⟨30, 25⟩) passes) (oneAt 2 []) r s' →
        Settled (· ≤ ·) (systemWide ⟨90, 10⟩ ⟨30, 25⟩) (oneAt 2 []) r s') ↔
      Sound (· ≤ ·) (systemWide ⟨90, 10⟩ ⟨30, 25⟩) (oneAt 2 [])) :=
  ⟨monthly_loads, startup_settles_iff monthly_loads _⟩

def isOverflow : Except Error (List DecayAction) → Bool
  | .error .overflow => true
  | .ok _ | .error _ => false

def calm : (q : Req) → Req.Ans q
  | .deliver _ => Delivery.accepted
  | .acknowledge _ => true
  | .ollamaModelInfo => (none, none)
  | .uuid7 => []

theorem runs_calm {α : Type} {R : Int → Int → Prop} (refl : ∀ x, R x x) (x : Prog α) (s : World) :
    Runs R x s (x.exec calm s).2.1 (x.exec calm s).2.2 := by
  refine Co.amid_exec ?_ ?_ x s
  · intro a
    exact ⟨0, by rw [World.tick, Int.ofNat_zero, Int.add_zero], refl _⟩
  · intro q
    cases q with
    | deliver _ => rfl
    | acknowledge _ => rfl
    | ollamaModelInfo => trivial
    | uuid7 => trivial

/-- It is accepted, and the startup raises. -/
theorem startup_overflows :
    loadDecayConfig millionDays = .ok (systemWide ⟨1000000, 10⟩ ⟨30, 25⟩) ∧
    levels (oneAt 1 []) < 2 ∧ ∃ r s', isOverflow r = true ∧
      Runs (· ≤ ·) (evaluateStartup (systemWide ⟨1000000, 10⟩ ⟨30, 25⟩) 2) (oneAt 1 []) r s' ∧
      ¬ Settled (· ≤ ·) (systemWide ⟨1000000, 10⟩ ⟨30, 25⟩) (oneAt 1 []) r s' := by
  have run := runs_calm Int.le_refl (evaluateStartup (systemWide ⟨1000000, 10⟩ ⟨30, 25⟩) 2)
    (oneAt 1 [])
  have overflow : isOverflow (Co.exec calm
      (evaluateStartup (systemWide ⟨1000000, 10⟩ ⟨30, 25⟩) 2) (oneAt 1 [])).2.1 = true := by
    decide +kernel
  refine ⟨millionDays_loads, by decide +kernel, _, _, overflow, run, ?_⟩
  intro settled
  obtain ⟨actions, eq⟩ := settled.returns
  rw [eq] at overflow
  cases overflow

end Sample

end Drnt.Wal.Decay
