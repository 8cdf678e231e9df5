import Drnt.Orchestrator.Refinement
import Drnt.Lib.Tally

/-! Who may move a job on. An id is in the hands of at most one party: the call that made it,
the queue, the pipeline or the startup. -/
namespace Drnt.Orchestrator

open Lib Lib.Coop

section Rule

abbrev Toks := List (Call × Tok)

/-- A step that meets a condition has written a new view. -/
def Writes (cfg : Settings) (ok : Config (orchestrator cfg) → Label (orchestrator cfg) → Prop)
    (t : Call) (v v' : View) : Prop :=
  ∃ (c : Config (orchestrator cfg)) (i : Nat) (w : World) (k : Task t.Res),
    c.threads[i]? = some ⟨t, .set w k⟩ ∧ ok c (.work i) ∧ c.state.view = v ∧ w.view = v'

/-- A step that meets a condition finds a call finished. -/
def Finishes (cfg : Settings) (ok : Config (orchestrator cfg) → Label (orchestrator cfg) → Prop)
    (t : Call) (r : Except Exc t.Res) (w : World) : Prop :=
  ∃ (c : Config (orchestrator cfg)) (i : Nat) (p : Task t.Res),
    c.threads[i]? = some ⟨t, p⟩ ∧ p.result = some r ∧ ok c (.work i) ∧ c.state = w

/-- What has to be shown of an invariant over the view and the tokens of all calls, where
another one is known already. -/
structure Invariant (cfg : Settings)
    (ok : Config (orchestrator cfg) → Label (orchestrator cfg) → Prop)
    (Known Inv : View → Toks → Prop) : Prop where
  start : ∀ {c : Config (orchestrator cfg)} {toks : Toks} {t : Call},
    (plan cfg).Tracks c toks → Known c.state.view toks → Inv c.state.view toks →
    (∀ tok ∈ toks, tok.2.parks) → c.running = none → ok c (.start t) → mayStart c.state t →
    Inv c.state.view (toks ++ [(t, first t c.state)])
  move : ∀ {v : View} {toks : Toks} {i : Nat} {t : Call} {τ τ' : Tok} {a : Act},
    Known v toks → Inv v toks → toks[i]? = some (t, τ) →
    (∀ (k : Nat) (tok : Call × Tok), k ≠ i → toks[k]? = some tok → tok.2.parks) →
    Writes cfg ok t v (a.apply v) → Allowed τ v a τ' → Inv (a.apply v) (toks.set i (t, τ'))
  finish : ∀ {w : World} {toks : Toks} {i : Nat} {t : Call} {τ : Tok} {r : Except Exc t.Res},
    Known w.view toks → Inv w.view toks → toks[i]? = some (t, τ) → Finishes cfg ok t r w →
    Ends cfg t r τ w → Inv w.view (toks.set i (t, τ.retire))
  crash : ∀ {c : Config (orchestrator cfg)} {toks : Toks}, (plan cfg).Tracks c toks →
    Known c.state.view toks → Inv c.state.view toks → ok c .crash →
    Inv c.state.restart.view []

variable {cfg : Settings} {ok : Config (orchestrator cfg) → Label (orchestrator cfg) → Prop}
  {Known Inv : View → Toks → Prop}

theorem Invariant.preserves (h : Invariant cfg ok Known Inv) :
    (plan cfg).PreservesUnder ok (fun w toks => Known w.view toks)
      (fun w toks => Inv w.view toks) where
  start tracks known inv parked idle meets may := by
    refine h.start tracks known inv (fun tok mem => ?_) idle meets may
    obtain ⟨k, hk⟩ := List.getElem?_of_mem mem
    exact parked (by simp) hk
  move known inv at_ meets tok parked hm := by
    obtain ⟨a, allowed, eq⟩ := hm
    rw [eq]
    exact h.move known inv tok (fun k other hk => parked (by simpa using hk.symm))
      ⟨_, _, _, _, at_, meets, rfl, eq⟩ allowed
  finish known inv at_ res meets tok ends :=
    h.finish known inv tok ⟨_, _, _, at_, res, meets, rfl⟩ ends
  crash tracks known inv meets again := by
    cases again
    exact h.crash tracks known inv meets

/-- The invariant rule from a configuration whose threads are tracked. -/
theorem Invariant.reach {Known : View → Toks → Prop}
    (known : Invariant cfg (fun _ _ => True) (fun _ _ => True) Known)
    (h : Invariant cfg ok Known Inv) {c₀ c : Config (orchestrator cfg)} {toks₀ : Toks}
    (tracks : (plan cfg).Tracks c₀ toks₀) (base : Known c₀.state.view toks₀)
    (init : Inv c₀.state.view toks₀) (run : Reach (orchestrator cfg) ok c₀ c) :
    ∃ toks, (plan cfg).Tracks c toks ∧ Known c.state.view toks ∧ Inv c.state.view toks :=
  Plan.reach (plan_sound cfg).under
    ((known.preserves.mono fun _ _ _ => trivial).and h.preserves) tracks ⟨base, init⟩ run

/-- The invariant rule for the next step. -/
theorem Invariant.step {Known : View → Toks → Prop}
    (known : Invariant cfg (fun _ _ => True) (fun _ _ => True) Known)
    (h : Invariant cfg ok Known Inv) {c c' : Config (orchestrator cfg)}
    {l : Label (orchestrator cfg)} {toks : Toks} (tracks : (plan cfg).Tracks c toks)
    (base : Known c.state.view toks) (inv : Inv c.state.view toks) (meets : ok c l)
    (next : Step (orchestrator cfg) c l c') :
    ∃ toks', (plan cfg).Tracks c' toks' ∧ Known c'.state.view toks' ∧ Inv c'.state.view toks' ∧
      Plan.Effect (plan cfg) c.state toks l c'.state toks' := by
  obtain ⟨toks', tracks', ⟨base', inv'⟩, effect⟩ := Plan.step_effect (plan_sound cfg).under
    ((known.preserves.mono fun _ _ _ => trivial).and h.preserves) tracks ⟨base, inv⟩ meets next
  exact ⟨toks', tracks', base', inv', effect⟩

/-- A budget that no step raises and every marked step spends from. -/
theorem Invariant.counted {Known : View → Toks → Prop}
    (known : Invariant cfg (fun _ _ => True) (fun _ _ => True) Known)
    (h : Invariant cfg ok Known Inv)
    {mark : Config (orchestrator cfg) → Label (orchestrator cfg) → Config (orchestrator cfg) → Prop}
    (budget : View → Toks → Nat)
    (pays : ∀ {c c' : Config (orchestrator cfg)} {l : Label (orchestrator cfg)} {toks toks' : Toks},
      (plan cfg).Tracks c toks → Known c.state.view toks → Inv c.state.view toks → ok c l →
      Step (orchestrator cfg) c l c' → (plan cfg).Tracks c' toks' → Inv c'.state.view toks' →
      Plan.Effect (plan cfg) c.state toks l c'.state toks' →
      budget c'.state.view toks' ≤ budget c.state.view toks ∧
        (mark c l c' → budget c'.state.view toks' < budget c.state.view toks))
    {c₀ c : Config (orchestrator cfg)} {toks₀ : Toks} {n : Nat} (tracks : (plan cfg).Tracks c₀ toks₀)
    (base : Known c₀.state.view toks₀) (init : Inv c₀.state.view toks₀)
    (run : Counted (orchestrator cfg) ok mark c₀ n c) : n ≤ budget c₀.state.view toks₀ := by
  obtain ⟨toks, -, -, paid⟩ := Plan.counted (plan_sound cfg).under
    ((known.preserves.mono fun _ _ _ => trivial).and h.preserves)
    (fun w toks => budget w.view toks) (fun tracks inv meets next tracks' inv' effect =>
      pays tracks inv.1 inv.2 meets next tracks' inv'.2 effect) tracks ⟨base, init⟩ run
  omega

end Rule

section Custody

def SubmitPhase.holds (j : JobId) : SubmitPhase → Nat
  | minted i | claimed _ i | stored i => if i = j then 1 else 0
  | start | ended => 0

def Successor.holds (j : JobId) : Successor → Nat
  | minted i | waiting i => if i = j then 1 else 0
  | none | made => 0

def SubmitPhase.pending (j : JobId) : SubmitPhase → Prop
  | minted i | claimed _ i => i = j
  | start | stored _ | ended => False

def Successor.pending (j : JobId) : Successor → Prop
  | minted i => i = j
  | none | waiting _ | made => False

def BootPhase.holds (j : JobId) : BootPhase → Nat
  | failing i | resetting i | queueing i | delivering i => if i = j then 1 else 0
  | rising | between | kept => 0

/-- The call is the one that takes the decision. -/
def Decision.fits (t : Call) (j : JobId) : Decision → Prop
  | override type _ => ∃ r, t = .override j r ∧ r.overrideType = type
  | review p => p.decision ∈ terminalReviewDecisions ∧ ∃ r device, t = .review j r device ∧
      p = r.payload j

/-- An outcome belongs to the review that it is of. -/
def Decision.Owns (d : Decision) (outcome : Option ReviewIdempotencyRecord) : Prop :=
  ∀ r, outcome = some r → d = .review r.payloadIdentity

namespace Tok

/-- Whether a call has the job in its hands. -/
def holds (j : JobId) : Tok → Nat
  | submits _ _ p => p.holds j
  | decides _ _ _ succ => succ.holds j
  | works i _ => if i = j then 1 else 0
  | boots todo p => todo.count j + p.holds j
  | idle | refused | decided _ _ _ | defers _ _ | repeats _ | fetches _ | polls _ => 0

/-- A call has an id for which there is no job yet. -/
def pending (j : JobId) : Tok → Prop
  | submits _ _ p => p.pending j
  | decides _ _ _ succ => succ.pending j
  | idle | refused | decided _ _ _ | defers _ _ | repeats _ | fetches _ | works _ _ | boots _ _
  | polls _ => False

/-- Calls are served only after the startup. -/
def phased (p : Phase) : Tok → Prop
  | boots _ .rising => p = .stopped
  | boots _ _ => p = .starting
  | submits _ _ phase => phase ≠ .ended → p = .serving
  | decides _ _ _ _ | defers _ _ | fetches _ | works _ _ | polls _ => p = .serving
  | idle | refused | decided _ _ _ | repeats _ => True

def booting : Tok → Nat
  | boots _ _ => 1
  | _ => 0

/-- The token fits the call that carries it. -/
def fits (t : Call) : Tok → Prop
  | decides j d p _ => d.fits t j ∧ d.Owns p.outcome?
  | decided j d outcome => d.fits t j ∧ d.Owns outcome
  | defers p phase => ∃ j r device, t = .review j r device ∧ p = r.payload j ∧
      (Decision.review p).Owns phase.outcome?
  | repeats record => ∃ j r device, t = .review j r device ∧ record.payloadIdentity = r.payload j
  | works j _ | fetches j => t = .worker j
  | submits _ _ _ => ∃ s, t = .submit s
  | boots _ _ => t = .startup
  | polls _ => t = .autoAccept
  | idle | refused => True

end Tok

/-- In how many hands a job is. -/
def load (v : View) (toks : Toks) (j : JobId) : Nat :=
  v.queue.count j + tally (fun tok => tok.2.holds j) toks

structure Custody (v : View) (toks : Toks) : Prop where
  single : ∀ j, load v toks j ≤ 1
  known : ∀ j, 0 < load v toks j → j ∈ v.issued
  issued : ∀ {j c}, v.core j = some c → j ∈ v.issued
  rows : ∀ {j c}, v.row j = some c → j ∈ v.issued
  pending : ∀ {t τ j}, (t, τ) ∈ toks → τ.pending j → v.core j = none
  present : ∀ {t τ j}, (t, τ) ∈ toks → 0 < τ.holds j → τ.pending j ∨ ∃ c, v.core j = some c
  queued : ∀ {j}, j ∈ v.queue → ∃ c, v.core j = some c
  working : ∀ {t j stage}, (t, .works j stage) ∈ toks → v.processing = some j
  dispatching : ∀ {t j e permit}, (t, .works j (.dispatched e permit)) ∈ toks →
    Lifecycle "job.dispatched" j e
  parent : ∀ {t i d p j c}, (t, .decides i d p (.waiting j)) ∈ toks → v.core j = some c →
    c.parentJobId = some i
  deciding : ∀ {t j d p succ}, (t, .decides j d p succ) ∈ toks → ∃ c, v.core j = some c
  phased : ∀ {t τ}, (t, τ) ∈ toks → τ.phased v.phase
  asleep : v.phase = .stopped → v.queue = []
  enqueued : ∀ {j}, .enqueued j ∈ v.trace → j ∈ v.issued
  booting : tally (fun tok => tok.2.booting) toks ≤ 1
  minting : ∀ {t i d p succ}, (t, .decides i d p succ) ∈ toks →
    succ = .none ∨ ∃ type status, d = .override type status
  fits : ∀ {t τ}, (t, τ) ∈ toks → τ.fits t

variable {v : View} {toks : Toks}

theorem load_set {i : Nat} {t : Call} {τ : Tok} (at_ : toks[i]? = some (t, τ)) (v' : View)
    (τ' : Tok) (j : JobId) :
    load v' (toks.set i (t, τ')) j + τ.holds j + v.queue.count j =
      load v toks j + τ'.holds j + v'.queue.count j := by
  have := tally_set (f := fun tok => tok.2.holds j) at_ (t, τ')
  simp only [load] at *
  omega

theorem mem_set {i : Nat} {t : Call} {τ' : Tok} {tok : Call × Tok}
    (h : tok ∈ toks.set i (t, τ')) : tok = (t, τ') ∨ ∃ k, k ≠ i ∧ toks[k]? = some tok := by
  obtain ⟨k, hk⟩ := List.getElem?_of_mem h
  by_cases eq : i = k
  · subst eq
    rw [List.getElem?_set_self (by
      have := (List.getElem?_eq_some_iff.mp hk).1; simpa using this)] at hk
    exact .inl (Option.some.inj hk).symm
  · rw [List.getElem?_set_ne eq] at hk
    exact .inr ⟨k, Ne.symm eq, hk⟩

/-- Taking a job out of the list of the startup and into hand. -/
theorem count_picked {todo : List JobId} {i : JobId} (mem : i ∈ todo) (j : JobId) :
    (todo.filter (· ≠ i)).count j + (if i = j then 1 else 0) ≤ todo.count j := by
  by_cases hi : i = j
  · subst hi
    have zero : (todo.filter (· ≠ i)).count i = 0 := List.count_eq_zero.mpr (by simp)
    have pos := List.count_pos_iff.mpr mem
    simp only [if_true]
    omega
  · rw [List.count_filter (by simpa using Ne.symm hi)]
    simp [hi]

/-- What a write does to the hands a job is in: it is in no more of them than before, unless
its id is new. -/
theorem allowed_load {τ τ' : Tok} {a : Act} (h : Allowed τ v a τ') (j : JobId) :
    (a.apply v).queue.count j + τ'.holds j ≤ v.queue.count j + τ.holds j ∨
      j ∉ v.issued ∧ a = .mint j ∧
        (a.apply v).queue.count j + τ'.holds j ≤ v.queue.count j + τ.holds j + 1 := by
  cases h with
  | mintJob fresh =>
    rename_i i _ _
    by_cases hi : i = j
    · subst hi; exact .inr ⟨fresh, rfl, by simp [Act.apply, Tok.holds, SubmitPhase.holds]⟩
    · exact .inl (by simp [Act.apply, Tok.holds, SubmitPhase.holds, hi])
  | mintSuccessor _ fresh =>
    rename_i i _
    by_cases hi : i = j
    · subst hi; exact .inr ⟨fresh, rfl, by simp [Act.apply, Tok.holds, Successor.holds]⟩
    · exact .inl (by simp [Act.apply, Tok.holds, Successor.holds, hi])
  | fetch head free =>
    rename_i i
    refine .inl ?_
    obtain ⟨rest, hq⟩ := List.head?_eq_some_iff.mp head
    simp only [Act.apply, Tok.holds, hq, List.tail_cons, List.count_cons, beq_iff_eq]
    omega
  | bootFailEvent mem | bootReset mem | bootCount mem | bootDeliverEvent mem =>
    refine .inl ?_
    have := count_picked mem j
    simp only [Act.apply, Tok.holds, BootPhase.holds]
    omega
  | bootScan =>
    refine .inl ?_
    rename_i todo i action _
    have := (List.filter_sublist (p := (· ≠ i)) (l := todo)).count_le j
    simp only [Act.apply, Tok.holds, BootPhase.holds]
    omega
  | enqueueNew | enqueueSuccessor | bootEnqueue =>
    refine .inl ?_
    simp only [Act.apply, Tok.holds, SubmitPhase.holds, Successor.holds, BootPhase.holds,
      List.count_append, List.count_singleton, beq_iff_eq]
    omega
  | store ready =>
    rcases ready with rfl | ⟨-, rfl⟩ <;> exact .inl (Nat.le_refl _)
  | _ => exact .inl (by simp [Act.apply, Tok.holds, SubmitPhase.holds, Successor.holds,
      BootPhase.holds])

theorem apply_core {a : Act} {j : JobId} {c : Core} (h : (a.apply v).core j = some c) :
    (∃ c, v.core j = some c) ∨ ∃ c, a = .add j c := by
  cases a with
  | revise i g =>
    simp only [Act.apply] at h
    split at h
    · subst j
      obtain ⟨c, hc, -⟩ := Option.map_eq_some_iff.mp h
      exact .inl ⟨c, hc⟩
    · exact .inl ⟨c, h⟩
  | add i c₀ =>
    simp only [Act.apply] at h
    split at h
    · subst j; exact .inr ⟨c₀, rfl⟩
    · exact .inl ⟨c, h⟩
  | _ => exact .inl ⟨c, h⟩

theorem apply_row {a : Act} {j : JobId} {c : Core} (h : (a.apply v).row j = some c) :
    v.row j = some c ∨ v.core j = some c := by
  cases a with
  | persist i =>
    simp only [Act.apply, View.persisted] at h
    split at h
    · split at h
      · subst j; cases h; exact .inr ‹_›
      · exact .inl (Option.filter_eq_some_iff.mp h).1
    · exact .inl h
  | _ => exact .inl h

theorem apply_trace {a : Act} {o : Obs} (h : o ∈ (a.apply v).trace) :
    o ∈ v.trace ∨ a = .observe o ∨ ∃ j, a = .enqueue j ∧ o = .enqueued j := by
  cases a with
  | observe o' =>
    rcases List.mem_append.mp h with old | new
    · exact .inl old
    · cases List.mem_singleton.mp new
      exact .inr (.inl rfl)
  | enqueue j =>
    rcases List.mem_append.mp h with old | new
    · exact .inl old
    · exact .inr (.inr ⟨j, rfl, List.mem_singleton.mp new⟩)
  | _ => exact .inl h

/-- A write that adds an entry to the history. -/
theorem apply_grown {a : Act} {o : Obs} (h : (a.apply v).trace = v.trace ++ [o]) :
    a = .observe o ∨ ∃ j, a = .enqueue j ∧ o = .enqueued j := by
  cases a with
  | observe o' =>
    simp only [Act.apply, List.append_cancel_left_eq, List.cons.injEq, and_true] at h
    exact .inl (by rw [h])
  | enqueue j =>
    simp only [Act.apply, List.append_cancel_left_eq, List.cons.injEq, and_true] at h
    exact .inr ⟨j, rfl, h.symm⟩
  | _ => simp [Act.apply] at h

theorem pending_holds {τ : Tok} {j : JobId} (h : τ.pending j) : 0 < τ.holds j := by
  cases τ with
  | submits again l p =>
    cases p <;> simp_all [Tok.pending, SubmitPhase.pending, Tok.holds, SubmitPhase.holds]
  | decides i d p succ =>
    cases succ <;> simp_all [Tok.pending, Successor.pending, Tok.holds, Successor.holds]
  | _ => exact h.elim

theorem allowed_add {τ τ' : Tok} {j : JobId} {c : Core} (h : Allowed τ v (.add j c) τ') :
    τ.pending j ∧ ¬ τ'.pending j := by
  cases h with
  | store ready =>
    rcases ready with rfl | ⟨-, rfl⟩ <;> exact ⟨rfl, id⟩
  | storeSuccessor => exact ⟨rfl, id⟩

theorem allowed_pending {τ τ' : Tok} {a : Act} {j : JobId} (h : Allowed τ v a τ')
    (hp : τ'.pending j) : τ.pending j ∨ j ∉ v.issued ∧ a = .mint j := by
  cases h with
  | mintJob fresh => cases hp; exact .inr ⟨fresh, rfl⟩
  | mintSuccessor _ fresh => cases hp; exact .inr ⟨fresh, rfl⟩
  | store | storeSuccessor => exact hp.elim
  | _ => exact .inl hp

theorem allowed_kept {τ τ' : Tok} {a : Act} {j : JobId} (h : Allowed τ v a τ')
    (hp : τ.pending j) : τ'.pending j ∨ ∃ c, a = .add j c := by
  cases h with
  | store ready =>
    rcases ready with rfl | ⟨-, rfl⟩ <;> cases hp <;> exact .inr ⟨_, rfl⟩
  | storeSuccessor => cases hp; exact .inr ⟨_, rfl⟩
  | mintJob | mintSuccessor | enqueueNew | failNew | enqueueSuccessor | failSuccessor =>
    exact hp.elim
  | _ => exact .inl hp

/-- A job in hand is pending or in memory. -/
theorem allowed_present {τ τ' : Tok} {a : Act} {j : JobId} (h : Allowed τ v a τ')
    (old : 0 < τ.holds j → τ.pending j ∨ ∃ c, v.core j = some c)
    (queued : j ∈ v.queue → ∃ c, v.core j = some c) (pos : 0 < τ'.holds j) :
    τ'.pending j ∨ ∃ c, (a.apply v).core j = some c := by
  have grown : (∃ c, v.core j = some c) → ∃ c, (a.apply v).core j = some c :=
    fun ⟨_, hc⟩ => h.grows.core hc
  have held (hp : 0 < τ.holds j) : τ'.pending j ∨ ∃ c, (a.apply v).core j = some c := by
    rcases old hp with pending | here
    · rcases allowed_kept h pending with kept | ⟨c, rfl⟩
      · exact .inl kept
      · exact .inr ⟨c, by simp [Act.apply]⟩
    · exact .inr (grown here)
  rcases allowed_load h j with le | ⟨fresh, rfl, le⟩
  · by_cases hp : 0 < τ.holds j
    · exact held hp
    · refine .inr (grown (queued (List.count_pos_iff.mp ?_)))
      omega
  · cases h with
    | mint | bootKept => exact held pos
    | mintJob => exact .inl rfl
    | mintSuccessor => exact .inl rfl

theorem allowed_works {τ τ' : Tok} {a : Act} {j : JobId} {stage : Stage}
    (h : Allowed τ v a τ') (hw : τ' = .works j stage) :
    (∃ stage, τ = .works j stage) ∧ (a.apply v).processing = v.processing ∨
      (a.apply v).processing = some j ∧ v.processing = none := by
  subst hw
  cases h with
  | fetch head free => exact .inr ⟨rfl, free⟩
  | _ => exact .inl ⟨⟨_, rfl⟩, rfl⟩

/-- The pipeline's slot is taken only when it is free and freed only by its holder. -/
theorem allowed_processing {τ τ' : Tok} {a : Act} (h : Allowed τ v a τ') :
    (a.apply v).processing = v.processing ∨ v.processing = none ∨
      ∃ j stage, τ = .works j stage ∧ τ' = .idle := by
  cases h with
  | fetch head free => exact .inr (.inl free)
  | release => exact .inr (.inr ⟨_, _, rfl, rfl⟩)
  | _ => exact .inl rfl

theorem boots_early {todo : List JobId} {p : BootPhase} {phase : Phase}
    (h : (Tok.boots todo p).phased phase) : phase ≠ .serving := by
  rintro rfl
  cases p <;> cases h

/-- Only the startup changes the phase. -/
theorem allowed_phase {τ τ' : Tok} {a : Act} (h : Allowed τ v a τ') (phased : τ.phased v.phase) :
    τ'.phased (a.apply v).phase ∧
      ((a.apply v).phase = v.phase ∨ τ.booting = 1 ∧ v.phase ≠ .serving) := by
  cases h with
  | boot => exact ⟨rfl, .inr ⟨rfl, by rw [show v.phase = .stopped from phased]; simp⟩⟩
  | serve => exact ⟨trivial, .inr ⟨rfl, by rw [show v.phase = .starting from phased]; simp⟩⟩
  | store ready =>
    refine ⟨fun _ => phased ?_, .inl rfl⟩
    rcases ready with rfl | ⟨-, rfl⟩ <;> simp
  | mintJob | bind => exact ⟨fun _ => phased (by simp), .inl rfl⟩
  | enqueueNew | failNew => exact ⟨fun live => absurd rfl live, .inl rfl⟩
  | release => exact ⟨trivial, .inl rfl⟩
  | _ => exact ⟨phased, .inl rfl⟩

/-- Before the phase of service, only the startup depends on the phase. -/
theorem phased_other {τ : Tok} {p p' : Phase} (h : τ.phased p) (other : τ.booting = 0)
    (early : p ≠ .serving) : τ.phased p' := by
  cases τ with
  | boots => cases other
  | submits again l q => exact fun live => absurd (h live) early
  | decides | defers | fetches | works | polls => exact absurd h early
  | idle | refused | decided | repeats => trivial

theorem allowed_booting {τ τ' : Tok} {a : Act} (h : Allowed τ v a τ') :
    τ'.booting ≤ τ.booting := by
  cases h <;> first | exact Nat.le_refl _ | exact Nat.zero_le _

theorem allowed_fits {τ τ' : Tok} {a : Act} {t : Call} (h : Allowed τ v a τ') (fits : τ.fits t) :
    τ'.fits t := by
  cases h with
  | release | serve => trivial
  | conclude payload => exact ⟨fits.1, fun r h => by cases h; rw [payload]⟩
  | abort => exact ⟨fits.1, fun _ eq => by cases eq⟩
  | defer payload =>
    obtain ⟨j, q, device, call, eq, -⟩ := fits
    exact ⟨j, q, device, call, eq, fun r h => by cases h; rw [payload]⟩
  | _ => exact fits

theorem allowed_enqueued {τ τ' : Tok} {a : Act} {j : JobId} (h : Allowed τ v a τ')
    (ho : .enqueued j ∈ (a.apply v).trace) : .enqueued j ∈ v.trace ∨ 0 < τ.holds j := by
  rcases apply_trace ho with old | rfl | ⟨i, rfl, eq⟩
  · exact .inl old
  · cases h with
    | note harmless => exact harmless.elim
  · cases eq
    cases h with
    | enqueueNew | enqueueSuccessor | bootEnqueue =>
      exact .inr (by simp [Tok.holds, SubmitPhase.holds, Successor.holds, BootPhase.holds])

theorem allowed_asleep {τ τ' : Tok} {a : Act} (h : Allowed τ v a τ') (phased : τ.phased v.phase)
    (asleep : v.phase = .stopped → v.queue = []) (stop : (a.apply v).phase = .stopped) :
    (a.apply v).queue = [] := by
  cases h with
  | enqueueNew => exact absurd ((phased (by simp)).symm.trans stop) (by simp)
  | enqueueSuccessor | bootEnqueue => exact absurd (phased.symm.trans stop) (by simp)
  | fetch => exact absurd (phased.symm.trans stop) (by simp)
  | boot | serve => cases stop
  | _ => exact asleep stop

/-- No update changes where a job comes from. -/
theorem allowed_revise {τ τ' : Tok} {j : JobId} {g : Core → Core}
    (h : Allowed τ v (.revise j g) τ') (c : Core) :
    (g c).parentJobId = c.parentJobId ∧ (g c).idempotencyKey = c.idempotencyKey ∧
      (g c).sourceKey = c.sourceKey := by
  have reserved (d : Decision) (c : Core) : (d.reserve c).parentJobId = c.parentJobId ∧
      (d.reserve c).idempotencyKey = c.idempotencyKey ∧ (d.reserve c).sourceKey = c.sourceKey := by
    cases d <;> exact ⟨rfl, rfl, rfl⟩
  cases h with
  | reserve | reserveAgain => exact reserved _ c
  | settle _ h =>
    rcases h with rfl | rfl
    · exact ⟨rfl, rfl, rfl⟩
    · exact reserved _ _
  | fail _ h => rw [h c]; exact ⟨rfl, rfl, rfl⟩
  | _ => exact ⟨rfl, rfl, rfl⟩

theorem allowed_origin {τ τ' : Tok} {a : Act} {j : JobId} {c' : Core} (h : Allowed τ v a τ')
    (hc : (a.apply v).core j = some c') :
    (∃ c, v.core j = some c ∧ c'.parentJobId = c.parentJobId ∧
      c'.idempotencyKey = c.idempotencyKey ∧ c'.sourceKey = c.sourceKey) ∨ a = .add j c' := by
  cases a with
  | revise i g =>
    simp only [Act.apply] at hc
    split at hc
    · subst j
      obtain ⟨c, found, rfl⟩ := Option.map_eq_some_iff.mp hc
      exact .inl ⟨c, found, allowed_revise h c⟩
    · exact .inl ⟨c', hc, rfl, rfl, rfl⟩
  | add i c₀ =>
    simp only [Act.apply] at hc
    split at hc
    · subst j; cases hc; exact .inr rfl
    · exact .inl ⟨c', hc, rfl, rfl, rfl⟩
  | _ => exact .inl ⟨c', hc, rfl, rfl, rfl⟩

theorem allowed_dispatching {τ τ' : Tok} {a : Act} {j : JobId} {e : Event} {permit : Permit}
    (h : Allowed τ v a τ') (ht : τ' = .works j (.dispatched e permit)) :
    τ = .works j (.dispatched e permit) ∨ Lifecycle "job.dispatched" j e := by
  subst ht
  cases h with
  | authorise _ _ h => exact .inr h
  | _ => exact .inl rfl

theorem allowed_waiting {τ τ' : Tok} {a : Act} {i j : JobId} {d : Decision} {p : DecisionPhase}
    (h : Allowed τ v a τ') (ht : τ' = .decides i d p (.waiting j)) :
    (∃ p, τ = .decides i d p (.waiting j)) ∨ a = .add j (.successor i) := by
  subst ht
  cases h with
  | storeSuccessor => exact .inr rfl
  | _ => exact .inl ⟨_, rfl⟩

theorem allowed_decides {τ τ' : Tok} {a : Act} {j : JobId} {d : Decision} {p : DecisionPhase}
    {succ : Successor} (h : Allowed τ v a τ') (ht : τ' = .decides j d p succ) :
    ∃ p succ, τ = .decides j d p succ := by
  subst ht
  cases h <;> exact ⟨_, _, rfl⟩

/-- Only an override makes a successor. -/
theorem allowed_minting {τ τ' : Tok} {a : Act} {i : JobId} {d : Decision} {p : DecisionPhase}
    {succ : Successor} (h : Allowed τ v a τ') (ht : τ' = .decides i d p succ) :
    succ = .none ∨ (∃ type status, d = .override type status) ∨
      ∃ p succ, τ = .decides i d p succ ∧ succ ≠ .none := by
  subst ht
  by_cases none : succ = .none
  · exact .inl none
  · cases h with
    | mintSuccessor => exact .inr (.inl ⟨_, _, rfl⟩)
    | storeSuccessor => exact .inr (.inr ⟨_, _, rfl, nofun⟩)
    | enqueueSuccessor | failSuccessor => exact .inr (.inr ⟨_, _, rfl, nofun⟩)
    | _ => exact .inr (.inr ⟨_, _, rfl, none⟩)

theorem allowed_queue {τ τ' : Tok} {a : Act} {j : JobId} (h : Allowed τ v a τ')
    (hq : j ∈ (a.apply v).queue) : j ∈ v.queue ∨ 0 < τ.holds j ∧ ¬ τ.pending j := by
  cases h with
  | enqueueNew | enqueueSuccessor | bootEnqueue =>
    rcases List.mem_append.mp hq with old | new
    · exact .inl old
    · refine .inr ⟨?_, id⟩
      simp [Tok.holds, SubmitPhase.holds, Successor.holds, BootPhase.holds,
        List.mem_singleton.mp new]
  | fetch => exact .inl (List.mem_of_mem_tail hq)
  | _ => exact .inl hq

namespace Custody

theorem load_le (h : Custody v toks) {i : Nat} {tok : Call × Tok} (at_ : toks[i]? = some tok)
    (j : JobId) : v.queue.count j + tok.2.holds j ≤ 1 := by
  have := le_tally (f := fun tok => tok.2.holds j) at_
  have := h.single j
  simp only [load] at this
  omega

/-- Two calls never have the same job in hand. -/
theorem exclusive (h : Custody v toks) {i k : Nat} {a b : Call × Tok} (ne : i ≠ k)
    (hi : toks[i]? = some a) (hk : toks[k]? = some b) {j : JobId} (ha : 0 < a.2.holds j)
    (hb : 0 < b.2.holds j) : False := by
  have := add_le_tally (f := fun tok => tok.2.holds j) ne hi hk
  have := h.single j
  simp only [load] at this
  omega

theorem held_known (h : Custody v toks) {i : Nat} {tok : Call × Tok} (at_ : toks[i]? = some tok)
    {j : JobId} (pos : 0 < tok.2.holds j) : j ∈ v.issued := by
  refine h.known j ?_
  have := le_tally (f := fun tok => tok.2.holds j) at_
  simp only [load]
  omega

theorem booting_other (h : Custody v toks) {i k : Nat} {a b : Call × Tok} (ne : i ≠ k)
    (hi : toks[i]? = some a) (hk : toks[k]? = some b) (ha : a.2.booting = 1) :
    b.2.booting = 0 := by
  have := add_le_tally (f := fun tok => tok.2.booting) ne hi hk
  have := h.booting
  omega

end Custody

theorem custody_move {i : Nat} {t : Call} {τ τ' : Tok} {a : Act} (inv : Custody v toks)
    (at_ : toks[i]? = some (t, τ)) (h : Allowed τ v a τ') :
    Custody (a.apply v) (toks.set i (t, τ')) := by
  have mem : (t, τ) ∈ toks := List.mem_of_getElem? at_
  have issued : ∀ {u}, u ∈ v.issued → u ∈ (a.apply v).issued := h.grows.issued
  have queue (j : JobId) := load_set (v := v) at_ (a.apply v) τ' j
  constructor
  case single =>
    intro j
    have := inv.single j
    have := queue j
    rcases allowed_load h j with le | ⟨fresh, -, le⟩
    · omega
    · have : load v toks j = 0 := by
        by_contra ne
        exact fresh (inv.known j (Nat.pos_of_ne_zero ne))
      omega
  case known =>
    intro j pos
    have := queue j
    rcases allowed_load h j with le | ⟨-, rfl, -⟩
    · exact issued (inv.known j (by omega))
    · simp [Act.apply]
  case issued =>
    intro j c hc
    rcases apply_core hc with ⟨c₀, hc₀⟩ | ⟨c₀, rfl⟩
    · exact issued (inv.issued hc₀)
    · exact issued (inv.held_known at_ (pending_holds (allowed_add h).1))
  case rows =>
    intro j c hc
    rcases apply_row hc with hr | hc
    · exact issued (inv.rows hr)
    · exact issued (inv.issued hc)
  case pending =>
    -- an id that is pending stays without a job, since only its holder makes one
    intro t' τ₁ j hm hp
    by_contra some
    obtain ⟨c, hc⟩ := Option.ne_none_iff_exists'.mp some
    rcases mem_set hm with eq | ⟨k, hk, hm⟩
    · cases eq
      rcases apply_core hc with ⟨c₀, hc₀⟩ | ⟨c₀, rfl⟩
      · rcases allowed_pending h hp with old | ⟨fresh, -⟩
        · rw [inv.pending mem old] at hc₀; cases hc₀
        · exact fresh (inv.issued hc₀)
      · exact (allowed_add h).2 hp
    · rcases apply_core hc with ⟨c₀, hc₀⟩ | ⟨c₀, rfl⟩
      · rw [inv.pending (List.mem_of_getElem? hm) hp] at hc₀; cases hc₀
      · exact inv.exclusive hk hm at_ (pending_holds hp) (pending_holds (allowed_add h).1)
  case present =>
    intro t' τ₁ j hm hp
    rcases mem_set hm with eq | ⟨k, hk, hm⟩
    · cases eq
      exact allowed_present h (inv.present mem) inv.queued hp
    · refine (inv.present (List.mem_of_getElem? hm) hp).imp id ?_
      rintro ⟨c, hc⟩
      exact h.grows.core hc
  case queued =>
    intro j hq
    have here : ∃ c, v.core j = some c := by
      rcases allowed_queue h hq with old | ⟨pos, made⟩
      · exact inv.queued old
      · exact (inv.present mem pos).resolve_left made
    exact h.grows.core here.choose_spec
  case working =>
    intro t' j stage hm
    rcases mem_set hm with eq | ⟨k, hk, hm⟩
    · cases eq
      rcases allowed_works h rfl with ⟨⟨_, rfl⟩, same⟩ | ⟨taken, -⟩
      · exact same.trans (inv.working mem)
      · exact taken
    · have mine := inv.working (List.mem_of_getElem? hm)
      rcases allowed_processing h with same | free | ⟨j', stage', rfl, -⟩
      · exact same.trans mine
      · rw [free] at mine; cases mine
      · have theirs := inv.working mem
        rw [mine] at theirs
        cases theirs
        exact (inv.exclusive (j := j) hk hm at_ (by simp [Tok.holds]) (by simp [Tok.holds])).elim
  case dispatching =>
    intro t' j e permit hm
    rcases mem_set hm with eq | ⟨k, hk, hm⟩
    · cases eq
      rcases allowed_dispatching h rfl with rfl | lifecycle
      · exact inv.dispatching mem
      · exact lifecycle
    · exact inv.dispatching (List.mem_of_getElem? hm)
  case parent =>
    intro t' k d p j c hm hc
    rcases mem_set hm with eq | ⟨n, hn, hm⟩
    · cases eq
      rcases allowed_waiting h rfl with ⟨p, rfl⟩ | rfl
      · rcases allowed_origin h hc with ⟨c₀, hc₀, same, -⟩ | rfl
        · exact same.trans (inv.parent mem hc₀)
        · exact (allowed_add h).1.elim
      · simp only [Act.apply, if_true, Option.some.injEq] at hc
        rw [← hc]; rfl
    · have mine := List.mem_of_getElem? hm
      rcases allowed_origin h hc with ⟨c₀, hc₀, same, -⟩ | rfl
      · exact same.trans (inv.parent mine hc₀)
      · exact (inv.exclusive hn hm at_ (by simp [Tok.holds, Successor.holds])
          (pending_holds (allowed_add h).1)).elim
  case deciding =>
    intro t' j d p succ hm
    have here : ∃ c, v.core j = some c := by
      rcases mem_set hm with eq | ⟨k, hk, hm⟩
      · cases eq
        obtain ⟨p', succ', rfl⟩ := allowed_decides h rfl
        exact inv.deciding mem
      · exact inv.deciding (List.mem_of_getElem? hm)
    exact h.grows.core here.choose_spec
  case phased =>
    intro t' τ₁ hm
    rcases mem_set hm with eq | ⟨k, hk, hm⟩
    · cases eq
      exact (allowed_phase h (inv.phased mem)).1
    · have phased := inv.phased (List.mem_of_getElem? hm)
      rcases (allowed_phase h (inv.phased mem)).2 with same | ⟨boots, early⟩
      · rw [same]; exact phased
      · exact phased_other phased (inv.booting_other hk.symm at_ hm boots) early
  case asleep => exact allowed_asleep h (inv.phased mem) inv.asleep
  case enqueued =>
    intro j ho
    rcases allowed_enqueued h ho with old | pos
    · exact issued (inv.enqueued old)
    · exact issued (inv.held_known at_ pos)
  case booting =>
    have := tally_set (f := fun tok : Call × Tok => tok.2.booting) at_ (t, τ')
    have := allowed_booting h
    have := inv.booting
    simp only at *
    omega
  case minting =>
    intro t' k d p succ hm
    rcases mem_set hm with eq | ⟨n, -, hn⟩
    · cases eq
      rcases allowed_minting h rfl with none | human | ⟨p', succ', rfl, made⟩
      · exact .inl none
      · exact .inr human
      · exact .inr ((inv.minting mem).resolve_left made)
    · exact inv.minting (List.mem_of_getElem? hn)
  case fits =>
    intro t' τ₁ hm
    rcases mem_set hm with eq | ⟨k, hk, hm⟩
    · cases eq
      exact allowed_fits h (inv.fits mem)
    · exact inv.fits (List.mem_of_getElem? hm)

theorem asleep_idle {τ : Tok} (phased : τ.phased .stopped) (parks : τ.parks) :
    (∀ j, τ.holds j = 0) ∧ τ.booting = 0 := by
  cases τ with
  | boots todo p => cases p <;> first | exact parks.elim | cases phased
  | submits again l p =>
    cases p with
    | ended => exact ⟨fun _ => rfl, rfl⟩
    | start | minted | claimed | stored => cases phased (by simp)
  | decides | defers | fetches | works | polls => cases phased
  | idle | refused | decided | repeats => exact ⟨fun _ => rfl, rfl⟩

theorem tally_zero {f : Call × Tok → Nat} (h : ∀ tok ∈ toks, f tok = 0) : tally f toks = 0 := by
  by_contra ne
  obtain ⟨i, tok, at_, pos⟩ := exists_of_tally_pos (Nat.pos_of_ne_zero ne)
  exact Nat.lt_irrefl 0 (h tok (List.mem_of_getElem? at_) ▸ pos)

theorem count_keys {κ α : Type} [DecidableEq κ] (d : Dict κ α) (k : κ) : d.keys.count k ≤ 1 :=
  List.nodup_iff_count_le_one.mp d.nodup k

theorem mem_keys {w : World} {j : JobId} (h : j ∈ w.jobs.keys) : ∃ c, w.view.core j = some c := by
  cases hj : w.job? j with
  | none => exact absurd h (Dict.get?_eq_none_iff.mp hj)
  | some job => exact ⟨job.core, by simp [hj]⟩

/-- A token of a call that has not written anything. -/
inductive Tok.Unwritten : Tok → Prop
  | idle : Unwritten .idle
  | refused : Unwritten .refused
  | submits {again} : Unwritten (.submits again .none .start)
  | decides {j d} : Unwritten (.decides j d .accepted .none)
  | defers {p} : Unwritten (.defers p .accepted)
  | repeats {r} : Unwritten (.repeats r)
  | fetches {j} : Unwritten (.fetches j)
  | polls : Unwritten (.polls none)

/-- The token with which an override starts. -/
theorem first_override (j : JobId) (r : OverrideRequest) (w : World) :
    first (.override j r) w = .idle ∨ first (.override j r) w = .refused ∨
      ∃ job, w.job? j = some job ∧ r.reserves job ∧
        first (.override j r) w = .decides j (.override r.overrideType job.status) .accepted .none := by
  simp only [first]
  cases hj : w.job? j with
  | none => exact .inl rfl
  | some job =>
    dsimp only
    by_cases reserves : r.reserves job = true
    · exact .inr (.inr ⟨job, rfl, reserves, if_pos reserves⟩)
    · rw [if_neg reserves]
      by_cases refused : (overrideRefusal job).isSome = true
      · exact .inr (.inl (if_pos refused))
      · exact .inl (if_neg refused)

/-- The token with which a review starts. -/
theorem first_review (j : JobId) (r : ReviewRequest) (device : String) (w : World) :
    first (.review j r device) w = .idle ∨ first (.review j r device) w = .refused ∨
      (∃ record, w.reviewRecords.get? r.decisionIdempotencyKey = some record ∧
        record.payloadIdentity = r.payload j ∧ first (.review j r device) w = .repeats record) ∨
      w.reviewRecords.get? r.decisionIdempotencyKey = none ∧ ∃ job, w.job? j = some job ∧
        (r.reserves job ∧
            first (.review j r device) w = .decides j (.review (r.payload j)) .accepted .none ∨
          reviewRefusal job r = none ∧ r.decision = "defer" ∧
            first (.review j r device) w = .defers (r.payload j) .accepted) := by
  simp only [first]
  cases hk : w.reviewRecords.get? r.decisionIdempotencyKey with
  | some record =>
    dsimp only
    by_cases same : record.payloadIdentity = r.payload j
    · exact .inr (.inr (.inl ⟨record, rfl, same, if_pos same⟩))
    · exact .inr (.inl (if_neg same))
  | none =>
    cases hj : w.job? j with
    | none => exact .inl rfl
    | some job =>
      dsimp only
      by_cases reserves : r.reserves job = true
      · exact .inr (.inr (.inr ⟨rfl, job, rfl, .inl ⟨reserves, if_pos reserves⟩⟩))
      rw [if_neg reserves]
      by_cases refused : (reviewRefusal job r).isSome = true
      · exact .inr (.inl (if_pos refused))
      rw [if_neg refused]
      by_cases defer : r.decision = "defer"
      · exact .inr (.inr (.inr ⟨rfl, job, rfl,
          .inr ⟨by simpa using refused, defer, if_pos defer⟩⟩))
      · exact .inl (if_neg defer)

theorem first_fits (t : Call) (w : World) : (first t w).fits t := by
  cases t with
  | override j r =>
    rcases first_override j r w with eq | eq | ⟨job, -, -, eq⟩ <;> rw [eq]
    · trivial
    · trivial
    · exact ⟨⟨r, rfl, rfl⟩, fun _ eq => by cases eq⟩
  | review j r device =>
    rcases first_review j r device w with eq | eq | ⟨record, -, same, eq⟩ |
      ⟨-, job, -, ⟨reserves, eq⟩ | ⟨-, -, eq⟩⟩ <;> rw [eq]
    · trivial
    · trivial
    · exact ⟨j, r, device, rfl, same⟩
    · simp only [ReviewRequest.reserves, decide_eq_true_eq] at reserves
      exact ⟨⟨reserves.2, r, device, rfl, rfl⟩, fun _ eq => by cases eq⟩
    · exact ⟨j, r, device, rfl, rfl, fun _ eq => by cases eq⟩
  | submit s => exact ⟨s, rfl⟩
  | startup | worker | autoAccept | checkPermission | setHub | configure => trivial

theorem first_phased {t : Call} {w : World} (may : mayStart w t) :
    (first t w).phased w.view.phase := by
  cases t with
  | startup => exact may
  | worker => exact may.1
  | autoAccept => exact may.1
  | submit s => exact fun _ => may
  | override j r =>
    rcases first_override j r w with eq | eq | ⟨job, -, -, eq⟩ <;> rw [eq]
    · trivial
    · trivial
    · exact may
  | review j r device =>
    rcases first_review j r device w with eq | eq | ⟨record, -, same, eq⟩ |
      ⟨-, job, -, ⟨reserves, eq⟩ | ⟨-, -, eq⟩⟩ <;> rw [eq]
    · trivial
    · trivial
    · trivial
    · exact may
    · exact may
  | checkPermission | setHub | configure => trivial

theorem first_unwritten {t : Call} (w : World) (other : t ≠ .startup) :
    (first t w).Unwritten := by
  cases t with
  | startup => exact absurd rfl other
  | override j r =>
    rcases first_override j r w with eq | eq | ⟨job, -, -, eq⟩ <;> rw [eq]
    · exact .idle
    · exact .refused
    · exact .decides
  | review j r device =>
    rcases first_review j r device w with eq | eq | ⟨record, -, same, eq⟩ |
      ⟨-, job, -, ⟨reserves, eq⟩ | ⟨-, -, eq⟩⟩ <;> rw [eq]
    · exact .idle
    · exact .refused
    · exact .repeats
    · exact .decides
    · exact .defers
  | submit => exact .submits
  | worker => exact .fetches
  | autoAccept => exact .polls
  | checkPermission | setHub | configure => exact .idle

theorem first_deciding {t : Call} {w : World} {j : JobId} {d : Decision} {p : DecisionPhase}
    {succ : Successor} (h : first t w = .decides j d p succ) : ∃ c, w.view.core j = some c := by
  cases t with
  | override i r =>
    rcases first_override i r w with eq | eq | ⟨job, hj, -, eq⟩ <;> cases eq.symm.trans h
    exact ⟨job.core, by simp [hj]⟩
  | review i r device =>
    rcases first_review i r device w with eq | eq | ⟨record, -, same, eq⟩ |
      ⟨-, job, hj, ⟨reserves, eq⟩ | ⟨-, -, eq⟩⟩ <;> cases eq.symm.trans h
    exact ⟨job.core, by simp [hj]⟩
  | startup | worker | autoAccept | submit | checkPermission | setHub | configure => cases h

theorem Tok.Unwritten.holds {τ : Tok} (h : τ.Unwritten) (j : JobId) : τ.holds j = 0 := by
  cases h <;> rfl

theorem Tok.Unwritten.booting {τ : Tok} (h : τ.Unwritten) : τ.booting = 0 := by
  cases h <;> rfl

/-- A call that has not made a job, nor taken one. -/
def Tok.Plain : Tok → Prop
  | submits _ _ p => p = .start ∨ p = .ended
  | decides _ _ _ succ => succ = .none
  | works _ _ => False
  | idle | refused | decided _ _ _ | defers _ _ | repeats _ | fetches _ | boots _ _ | polls _ => True

namespace Tok.Plain

variable {τ : Tok} (h : τ.Plain)
include h

theorem pending (j : JobId) : ¬ τ.pending j := by
  cases τ with
  | submits again l p => rcases h with rfl | rfl <;> exact id
  | decides i d p succ => cases h; exact id
  | _ => exact id

theorem works (j : JobId) (stage : Stage) : τ ≠ .works j stage := by
  rintro rfl; exact h

theorem waits (i : JobId) (d : Decision) (p : DecisionPhase) (j : JobId) :
    τ ≠ .decides i d p (.waiting j) := by
  rintro rfl; cases h

end Tok.Plain

theorem Tok.Unwritten.plain {τ : Tok} (h : τ.Unwritten) : τ.Plain := by
  cases h with
  | submits => exact .inl rfl
  | decides => rfl
  | _ => trivial

theorem first_plain (t : Call) (w : World) : (first t w).Plain := by
  by_cases other : t = .startup
  · subst other; trivial
  · exact (first_unwritten w other).plain

theorem custody_start {w : World} {t : Call} (inv : Custody w.view toks)
    (parked : ∀ tok ∈ toks, tok.2.parks) (may : mayStart w t) :
    Custody w.view (toks ++ [(t, first t w)]) := by
  have total (j : JobId) : load w.view (toks ++ [(t, first t w)]) j =
      load w.view toks j + (first t w).holds j := by
    simp [load]; omega
  -- the startup finds nobody else with a job in hand
  have hands (j : JobId) (pos : 0 < (first t w).holds j) :
      load w.view toks j = 0 ∧ (first t w).holds j ≤ 1 ∧ ∃ c, w.view.core j = some c := by
    by_cases other : t = .startup
    · subst other
      have stopped : w.view.phase = .stopped := may
      have none : tally (fun tok => tok.2.holds j) toks = 0 := tally_zero fun tok hm =>
        (asleep_idle (stopped ▸ inv.phased hm) (parked tok hm)).1 j
      refine ⟨by simp [load, inv.asleep stopped, none], ?_, mem_keys (List.count_pos_iff.mp pos)⟩
      exact count_keys w.jobs j
    · rw [(first_unwritten w other).holds] at pos
      exact absurd pos (Nat.lt_irrefl 0)
  have old {t' τ} (h : (t', τ) ∈ toks ++ [(t, first t w)]) :
      (t', τ) ∈ toks ∨ t' = t ∧ τ = first t w := by
    rcases List.mem_append.mp h with h | h
    · exact .inl h
    · cases List.mem_singleton.mp h; exact .inr ⟨rfl, rfl⟩
  have plain := first_plain t w
  constructor
  case single =>
    intro j
    have := total j
    have := inv.single j
    by_cases pos : 0 < (first t w).holds j
    · have := hands j pos
      omega
    · omega
  case known =>
    intro j pos
    have := total j
    by_cases new : 0 < (first t w).holds j
    · obtain ⟨-, -, c, hc⟩ := hands j new
      exact inv.issued hc
    · exact inv.known j (by omega)
  case issued => exact inv.issued
  case rows => exact inv.rows
  case pending =>
    intro t' τ j hm hp
    rcases old hm with hm | ⟨-, rfl⟩
    · exact inv.pending hm hp
    · exact absurd hp (plain.pending j)
  case present =>
    intro t' τ j hm hp
    rcases old hm with hm | ⟨-, rfl⟩
    · exact inv.present hm hp
    · exact .inr (hands j hp).2.2
  case queued => exact inv.queued
  case working =>
    intro t' j stage hm
    rcases old hm with hm | ⟨-, eq⟩
    · exact inv.working hm
    · exact absurd eq.symm (plain.works j stage)
  case dispatching =>
    intro t' j e permit hm
    rcases old hm with hm | ⟨-, eq⟩
    · exact inv.dispatching hm
    · exact absurd eq.symm (plain.works j _)
  case parent =>
    intro t' i d p j c hm hc
    rcases old hm with hm | ⟨-, eq⟩
    · exact inv.parent hm hc
    · exact absurd eq.symm (plain.waits i d p j)
  case deciding =>
    intro t' j d p succ hm
    rcases old hm with hm | ⟨-, eq⟩
    · exact inv.deciding hm
    · exact first_deciding eq.symm
  case phased =>
    intro t' τ hm
    rcases old hm with hm | ⟨-, rfl⟩
    · exact inv.phased hm
    · exact first_phased may
  case asleep => exact inv.asleep
  case enqueued => exact inv.enqueued
  case booting =>
    rw [tally_append, tally_cons, tally_nil]
    have := inv.booting
    by_cases other : t = .startup
    · subst other
      have stopped : w.view.phase = .stopped := may
      have none : tally (fun tok => tok.2.booting) toks = 0 := tally_zero fun tok hm =>
        (asleep_idle (stopped ▸ inv.phased hm) (parked tok hm)).2
      rw [none]
      exact Nat.le_refl 1
    · rw [(first_unwritten w other).booting]
      exact this
  case minting =>
    intro t' k d p succ hm
    rcases old hm with hm | ⟨-, eq⟩
    · exact inv.minting hm
    · rw [← eq] at plain
      exact .inl plain
  case fits =>
    intro t' τ hm
    rcases old hm with hm | ⟨rfl, rfl⟩
    · exact inv.fits hm
    · exact first_fits t' w

/-- What is left of a finished call. -/
inductive Tok.Spent : Tok → Prop
  | idle : Spent .idle
  | refused : Spent .refused
  | submits {again l} : Spent (.submits again l .ended)
  | decided {j d o} : Spent (.decided j d o)
  | repeats {r} : Spent (.repeats r)

theorem retire_spent (τ : Tok) : τ.retire.Spent := by
  cases τ with
  | submits => exact .submits
  | decides | decided => exact .decided
  | defers p phase =>
    cases phase with
    | concluded r => exact .repeats
    | accepted | reserved | announced | ending | settled | aborted => exact .idle
  | repeats => exact .repeats
  | refused => exact .refused
  | idle | fetches | works | boots | polls => exact .idle

namespace Tok.Spent

variable {τ : Tok} (h : τ.Spent)
include h

/-- A finished call has nothing in hand. -/
theorem plain : τ.Plain := by
  cases h with
  | submits => exact .inr rfl
  | _ => trivial

theorem empty (j : JobId) : τ.holds j = 0 := by cases h <;> rfl

theorem booting : τ.booting = 0 := by cases h <;> rfl

theorem phased (p : Phase) : τ.phased p := by
  cases h with
  | submits => exact fun live => absurd rfl live
  | _ => trivial

theorem decides (j : JobId) (d : Decision) (p : DecisionPhase) (succ : Successor) :
    τ ≠ .decides j d p succ := by
  rintro rfl; cases h

end Tok.Spent

theorem retire_fits {t : Call} {τ : Tok} (h : τ.fits t) : τ.retire.fits t := by
  cases τ with
  | submits | decides | decided | repeats => exact h
  | defers p phase =>
    cases phase with
    | concluded r =>
      obtain ⟨j, q, device, call, eq, owns⟩ := h
      cases owns r rfl
      exact ⟨j, q, device, call, eq⟩
    | accepted | reserved | announced | ending | settled | aborted => trivial
  | idle | refused | fetches | works | boots | polls => trivial

theorem custody_finish {i : Nat} {t : Call} {τ : Tok} (inv : Custody v toks)
    (at_ : toks[i]? = some (t, τ)) : Custody v (toks.set i (t, τ.retire)) := by
  have spent := retire_spent τ
  have plain := spent.plain
  have queue (j : JobId) := load_set (v := v) at_ v τ.retire j
  have old {t' τ'} (h : (t', τ') ∈ toks.set i (t, τ.retire)) :
      (t', τ') ∈ toks ∨ t' = t ∧ τ' = τ.retire := by
    rcases mem_set h with h | ⟨k, -, h⟩
    · cases h; exact .inr ⟨rfl, rfl⟩
    · exact .inl (List.mem_of_getElem? h)
  constructor
  case single =>
    intro j
    have := queue j
    have := inv.single j
    have := spent.empty j
    omega
  case known =>
    intro j pos
    have := queue j
    have := spent.empty j
    exact inv.known j (by omega)
  case issued => exact inv.issued
  case rows => exact inv.rows
  case pending =>
    intro t' τ j hm hp
    rcases old hm with hm | ⟨-, rfl⟩
    · exact inv.pending hm hp
    · exact absurd hp (plain.pending j)
  case present =>
    intro t' τ j hm hp
    rcases old hm with hm | ⟨-, rfl⟩
    · exact inv.present hm hp
    · rw [spent.empty j] at hp; cases hp
  case queued => exact inv.queued
  case working =>
    intro t' j stage hm
    rcases old hm with hm | ⟨-, eq⟩
    · exact inv.working hm
    · exact absurd eq.symm (plain.works j stage)
  case dispatching =>
    intro t' j e permit hm
    rcases old hm with hm | ⟨-, eq⟩
    · exact inv.dispatching hm
    · exact absurd eq.symm (plain.works j _)
  case parent =>
    intro t' i d p j c hm hc
    rcases old hm with hm | ⟨-, eq⟩
    · exact inv.parent hm hc
    · exact absurd eq.symm (plain.waits _ d p j)
  case deciding =>
    intro t' j d p succ hm
    rcases old hm with hm | ⟨-, eq⟩
    · exact inv.deciding hm
    · exact absurd eq.symm (spent.decides j d p succ)
  case phased =>
    intro t' τ hm
    rcases old hm with hm | ⟨-, rfl⟩
    · exact inv.phased hm
    · exact spent.phased _
  case asleep => exact inv.asleep
  case enqueued => exact inv.enqueued
  case booting =>
    have := tally_set (f := fun tok : Call × Tok => tok.2.booting) at_ (t, τ.retire)
    have := spent.booting
    have := inv.booting
    simp only at *
    omega
  case minting =>
    intro t' k d p succ hm
    rcases old hm with hm | ⟨-, eq⟩
    · exact inv.minting hm
    · exact absurd eq.symm (spent.decides k d p succ)
  case fits =>
    intro t' τ hm
    rcases old hm with hm | ⟨rfl, rfl⟩
    · exact inv.fits hm
    · exact retire_fits (inv.fits (List.mem_of_getElem? at_))

section Restart

variable {w : World} {j : JobId} {c : Core}

theorem restart_row (w : World) (j : JobId) : w.restart.view.row j = w.view.row j := by
  simp only [World.view, World.restart]
  cases w.db <;> rfl

/-- A restart brings back the rows of the jobs that have not ended. -/
theorem restart_core (h : w.restart.view.core j = some c) : w.view.row j = some c := by
  simp only [view_core, World.restart, World.job?] at h
  simp only [World.view]
  cases hd : w.db with
  | none => simp [hd] at h
  | some db =>
    simp only [hd, Option.map_some, Option.getD_some, loadJobs, Dict.get?_filter] at h
    obtain ⟨job, hj, rfl⟩ := Option.map_eq_some_iff.mp h
    rw [Option.bind_some, (Option.filter_eq_some_iff.mp hj).1]
    rfl

end Restart

theorem custody_restart {w : World} (inv : Custody w.view toks) : Custody w.restart.view [] where
  single _ := Nat.zero_le _
  known _ pos := absurd pos (Nat.lt_irrefl 0)
  issued h := inv.rows (restart_core h)
  rows h := inv.rows (restart_row w _ ▸ h)
  pending h := by cases h
  present h := by cases h
  queued h := by cases h
  working h := by cases h
  dispatching h := by cases h
  parent h := by cases h
  deciding h := by cases h
  phased h := by cases h
  asleep _ := rfl
  enqueued h := inv.enqueued h
  booting := Nat.zero_le _
  minting h := by cases h
  fits h := by cases h

end Custody

end Drnt.Orchestrator
