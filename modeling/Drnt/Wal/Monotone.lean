import Drnt.Wal.Trial

/-! Outside a reconcile the levels only fall. -/
namespace Drnt.Wal

open Lib Lib.Coop

section Condition

/-- `handle_model_change` is at work, in a call of its own or in a startup. -/
def handlesModelChange (s : World) (t : Tag) : Bool :=
  t.isModelChange || (t.isStartup && s.phase = .starting)

/-- A level that the decay in flight does not undo. -/
def spares (cap : PyStr) (level : Int) (ev : Event) : Bool :=
  match ev.body.decay? with
  | some (c, f) => c ≠ cap ∨ f - 1 ≤ level
  | none => true

def startsActive (s : World) (ev : Event) : Bool :=
  match ev.body.decay? with
  | some (cap, _) => (s.entryAt? cap).any (·.status = .active)
  | none => true

/-- A model change meets no suspended capability, a decay starts from none, and no level falls
below that of a decay in flight. -/
def careful : Run → Label machine → Bool := writing fun s t s' =>
  ((relevelled s s').all fun r =>
    (!handlesModelChange s t || r.2.1.status = .active) &&
      s.inFlight.all (spares r.1 r.2.2.effective)) &&
  (sent s s').all (startsActive s)

/-- No level rises and no suspension is lifted, unless in a reconcile. -/
def NeverRaises (s s' : World) : Prop :=
  s.phase ≠ .reconciling → ∀ cap e e', s.entryAt? cap = some e → s'.entryAt? cap = some e' →
    e'.effective ≤ e.effective ∧ (e.status = .suspended → e'.status = .suspended)

end Condition

section Preserved

structure Ratchet (s : World) (toks : Toks) : Prop where
  sane : ∀ {cap : PyStr} {e : Entry}, s.entryAt? cap = some e → e.status = .active →
    0 ≤ e.effectiveWalLevel
  pending : ∀ {i : Nat} {t : Tag} {τ : Tok} {cap : PyStr} {f l : Int},
    toks[i]? = some (t, τ) → τ.stage.decay? = some (cap, f) → s.level? cap = some l → f - 1 ≤ l

variable {acked : Prop} {s s' : World} {toks : Toks} {i : Nat} {t : Tag} {τ τ' : Tok}
  {cap : PyStr} {e e' : Entry} {f : Int}

theorem sane_becomes
    (sane : ∀ {cap e}, s.entryAt? cap = some e → e.status = .active → 0 ≤ e.effectiveWalLevel)
    (h : Becomes τ s cap e') (active : e'.status = .active) : 0 ≤ e'.effectiveWalLevel := by
  cases h with
  | kept at_ => exact sane at_ active
  | counted at_ =>
    have nonneg := sane at_
    exact nonneg active
  | @lowered e t at_ serving other way =>
    rw [level_demote]
    have falls : t ≠ -1 := by
      intro floor
      rw [(Entry.status_demote t e).mpr floor] at active
      cases active
    rcases way.2 with floor | ⟨floor, -⟩ | ⟨-, zero⟩
    · exact absurd floor falls
    · exact floor
    · exact zero.ge
  | decayed at_ call told floor =>
    rw [level_demote]
    omega
  | brought at_ base known =>
    rw [level_demote]
    exact Capability.desired_nonneg _
  | raised at_ base known => exact Capability.desired_nonneg _
  | activated at_ base floor => exact floor
  | new => exact Int.le_refl 0

theorem effective_floor (sane : e.status = .active → 0 ≤ e.effectiveWalLevel) : -1 ≤ e.effective := by
  unfold Entry.effective
  split
  · exact Int.le_refl _
  · rename_i active
    have : e.status = .active := by
      cases status : e.status with
      | active => rfl
      | suspended => exact absurd status active
    have := sane this
    omega

theorem sends_decay {b : Base} {σ : Stage} {body : Body} (may : Sends b σ s body)
    (told : body.decay? = some (cap, f)) : b = .call ∧ σ = .idle ∧ 1 ≤ f ∧
      ∃ e, s.entryAt? cap = some e ∧ e.effectiveWalLevel = f := by
  cases body with
  | decayed =>
    cases told
    exact may
  | _ => cases told

/-- Before the process is up, no decay is under way. -/
theorem no_decay_loading (inv : Orderly s toks) (down : s.phase = .down)
    (at_ : toks[i]? = some (t, τ)) (begun : τ.base.isLoading = false) : τ.stage = .idle := by
  have placed := inv.placed at_
  unfold Placed at placed
  cases base : τ.base with
  | call =>
    rw [base] at placed
    exact placed.resolve_left (by rw [down]; decide)
  | model =>
    rw [base] at placed
    exact placed.1.resolve_left (by rw [down]; decide)
  | loading =>
    rw [base] at begun
    cases begun
  | reconciling | settled =>
    rw [base] at placed
    cases down.symm.trans placed.1

theorem loading_down (placed : Placed s t τ) (loading : τ.base.isLoading = true) :
    s.phase = .down := by
  unfold Placed at placed
  cases base : τ.base with
  | loading =>
    rw [base] at placed
    exact placed.1
  | _ =>
    rw [base] at loading
    cases loading

/-- What a careful write leaves of a decay that another call has announced. -/
theorem pending_other (known : Orderly s toks) (inv : Ratchet s toks)
    (at_ : toks[i]? = some (t, τ)) (parked : Plan.Parked (conduct acked) toks (some i))
    (move : Move acked τ s τ' s')
    (spared : ∀ {cap e e'}, s.entryAt? cap = some e → s'.entryAt? cap = some e' →
      e'.effective ≠ e.effective → ∀ ev ∈ s.inFlight, spares cap e'.effective ev = true)
    {k : Nat} {t₁ : Tag} {τ₁ : Tok} {l : Int} (ne : i ≠ k) (other : toks[k]? = some (t₁, τ₁))
    (told : τ₁.stage.decay? = some (cap, f)) (level : s'.level? cap = some l) : f - 1 ≤ l := by
  obtain ⟨begun, flying⟩ := parked (by simpa using ne) other
  change τ₁.base.isLoading = false at begun
  rcases flying with ⟨ev, logged, stage⟩ | stage
  case inr =>
    change τ₁.stage = _ at stage
    rw [stage] at told
    cases told
  change τ₁.stage = _ at stage
  have here : ev ∈ s.inFlight := by
    have one : flies ev (t₁, τ₁) = 1 := by rw [flies, stage]; exact if_pos rfl
    have some_ := tally_pos (f := flies ev) other (by omega)
    rw [← known.flying] at some_
    exact List.count_pos_iff.mp some_
  obtain ⟨e', at', rfl⟩ := Option.map_eq_some_iff.mp level
  have old : ∃ e, s.entryAt? cap = some e := by
    cases move.becomes (known.raised at_) at' with
    | new base saved =>
      have idle := no_decay_loading known (loading_down (known.placed at_) base) other begun
      rw [idle] at told
      cases told
    | kept at_ => exact ⟨_, at_⟩
    | counted at_ => exact ⟨_, at_⟩
    | lowered at_ => exact ⟨_, at_⟩
    | decayed at_ => exact ⟨_, at_⟩
    | brought at_ => exact ⟨_, at_⟩
    | raised at_ => exact ⟨_, at_⟩
    | activated at_ => exact ⟨_, at_⟩
  obtain ⟨e, at_⟩ := old
  by_cases same : e'.effective = e.effective
  · rw [same]
    exact inv.pending other told (congrArg (Option.map Entry.effective) at_)
  · have spare := spared at_ at' same ev here
    rw [stage] at told
    unfold spares at spare
    rw [show ev.body.decay? = some (cap, f) from told] at spare
    simpa using spare

/-- The decay that the call itself has announced. -/
theorem pending_own (inv : Ratchet s toks) (at_ : toks[i]? = some (t, τ))
    (move : Move acked τ s τ' s') (starts : ∀ ev ∈ sent s s', startsActive s ev = true) {l : Int}
    (told : τ'.stage.decay? = some (cap, f)) (level : s'.level? cap = some l) : f - 1 ≤ l := by
  cases move with
  | @send b σ _ ev serving may =>
    obtain ⟨-, -, -, e, here, rfl⟩ := sends_decay may told
    have active := starts ev (by rw [sent_send]; exact List.mem_singleton_self _)
    unfold startsActive at active
    rw [show ev.body.decay? = some (cap, e.effectiveWalLevel) from told] at active
    simp only [here, Option.any_some, decide_eq_true_eq] at active
    have : s.level? cap = some e.effective := congrArg (Option.map Entry.effective) here
    cases this.symm.trans level
    rw [effective_active active]
    omega
  | record => exact inv.pending at_ told level
  | @arrive b _ ev logged =>
    refine inv.pending at_ ?_ level
    change (landed ev.body).decay? = _ at told
    unfold landed at told
    split at told
    · exact told
    · cases told
  | counters =>
    rw [level?_counters] at level
    exact inv.pending at_ told level
  | reset =>
    split at told
    · cases told
    · cases told
  | raise =>
    split at told
    · cases told
    · cases told
  | _ => cases told

theorem ratchet_start (inv : Ratchet s toks) : Ratchet s (toks ++ [(t, first t)]) := by
  refine ⟨inv.sane, fun {k t₁ τ₁ _ _ _} h told level => ?_⟩
  rcases List.mem_append.mp (List.mem_of_getElem? h) with old | new
  · obtain ⟨j, hj⟩ := List.getElem?_of_mem old
    exact inv.pending hj told level
  · cases List.mem_singleton.mp new
    rw [first_stage] at told
    cases told

theorem ratchet (acked : Prop) : (conduct acked).PreservesUnder (Meets careful) Orderly Ratchet where
  start _ _ inv _ _ _ _ := ratchet_start inv
  move := by
    intro c s' toks i t k τ τ' known inv program met at_ parked move
    have test := writing_work met program
    obtain ⟨levels, starts⟩ := Bool.and_eq_true_iff.mp test
    rw [List.all_eq_true] at levels starts
    refine ⟨fun at' => sane_becomes inv.sane (move.becomes (known.raised at_) at'), ?_⟩
    intro j t₁ τ₁ cap f l h told level
    rcases get_set_cases h with ⟨rfl, eq⟩ | ⟨ne, other⟩
    · cases eq
      exact pending_own inv at_ move starts told level
    · refine pending_other known inv at_ parked move ?_ ne other told level
      intro cap e e' here there changed ev mem
      have level := (Bool.and_eq_true_iff.mp (levels _ (mem_relevelled here there changed))).2
      exact List.all_eq_true.mp level ev mem
  finish := by
    intro c toks i t p τ r known inv program res met at_ ends
    refine ⟨inv.sane, fun {j t₁ τ₁ _ _ _} h told level => ?_⟩
    rcases get_set_cases h with ⟨-, eq⟩ | ⟨-, other⟩
    · cases eq
      cases told
    · exact inv.pending other told level
  crash := by
    intro c toks s' _ known inv _ again
    obtain ⟨late, -, rfl⟩ := again
    exact ⟨inv.sane, nofun⟩

end Preserved

section Runs

variable {c c' : Run} {l : Label machine}

theorem never_raises_write {s s' : World} {toks : Toks} {i : Nat} {t : Tag} {τ τ' : Tok}
    (known : Orderly s toks) (inv : Ratchet s toks) (at_ : toks[i]? = some (t, τ))
    (move : Move False τ s τ' s')
    (meets : ∀ {cap e e'}, s.entryAt? cap = some e → s'.entryAt? cap = some e' →
      e'.effective ≠ e.effective → handlesModelChange s t = true → e.status = .active) :
    NeverRaises s s' := by
  intro outside cap e e' here there
  have placed := known.placed at_
  unfold Placed at placed
  cases move.becomes (known.raised at_) there with
  | kept old | counted old =>
    cases here.symm.trans old
    exact ⟨Int.le_refl _, id⟩
  | @lowered _ lv old serving other way =>
    cases here.symm.trans old
    have bound := effective_floor (inv.sane here)
    rw [Entry.effective_demote, Entry.status_demote]
    have lifted (zero : lv = 0) (model : handlesModelChange s t = true) : 0 ≤ e.effective := by
      have changed : (e.demote lv).effective ≠ e.effective := by
        rw [Entry.effective_demote]
        exact way.1.symm
      have active := meets here there changed model
      rw [effective_active active]
      exact inv.sane here active
    have suspends (h : 0 ≤ e.effective) : e.status = .suspended → lv = -1 := by
      intro suspended
      rw [status_of_effective h] at suspended
      cases suspended
    rcases way.2 with floor | ⟨floor, falls⟩ | ⟨model | settled, zero⟩
    · exact ⟨floor ▸ bound, fun _ => floor⟩
    · exact ⟨falls.le, suspends (by omega)⟩
    · rw [model] at placed
      have nonneg := lifted zero (by rw [handlesModelChange, placed.2]; rfl)
      exact ⟨by omega, suspends nonneg⟩
    · rw [settled] at placed
      have nonneg := lifted zero (by simp [handlesModelChange, placed.1, placed.2])
      exact ⟨by omega, suspends nonneg⟩
  | decayed old call told floor =>
    cases here.symm.trans old
    have bound := inv.pending at_ told (congrArg (Option.map Entry.effective) here)
    rw [Entry.effective_demote]
    refine ⟨bound, fun suspended => ?_⟩
    rw [status_of_effective (by omega)] at suspended
    cases suspended
  | brought _ base | raised _ base | activated _ base =>
    rw [base] at placed
    exact absurd placed.1 outside
  | new _ saved => cases (known.fresh saved cap).symm.trans here

theorem demotion_never_raises (run : Reach machine (Meets careful) initial c)
    (met : Meets careful c l) (next : Step machine c l c') : NeverRaises c.state c'.state := by
  have start : Ratchet initial.state [] := ⟨nofun, nofun⟩
  obtain ⟨toks, tracks, known, inv⟩ := Plan.reach conduct_sound.under
    (Plan.PreservesUnder.and (orderly False _) (ratchet False)) (Plan.tracks_boot _)
    ⟨orderly_initial, start⟩ run
  have unchanged {s : World} (same : s.state = c.state.state) : NeverRaises c.state s := by
    intro _ cap e e' here there
    rw [World.entryAt?, same] at there
    cases here.symm.trans there
    exact ⟨Int.le_refl _, id⟩
  cases next with
  | @set i t s k running at_ =>
    obtain ⟨τ, htok⟩ := tracks.token at_
    obtain ⟨τ', move, -⟩ := tracks.runs at_ htok running
    refine never_raises_write known inv htok move fun here there changed model => ?_
    have test := (Bool.and_eq_true_iff.mp (writing_work met at_)).1
    have level := List.all_eq_true.mp test _ (mem_relevelled here there changed)
    simpa [model] using (Bool.and_eq_true_iff.mp level).1
  | crash again =>
    obtain ⟨late, -, rfl⟩ := again
    exact unchanged rfl
  | start | get | answer | park | resume | finish => exact unchanged rfl

/-- A capability decays by a level. -/
theorem demotion_never_raises_witness : ∃ c c' : Run, c.state.level? (py "a") = some 2 ∧
    c'.state.level? (py "a") = some 1 ∧ NeverRaises c.state c'.state := by
  obtain ⟨c, run, seen⟩ := Trial.reached (Trial.guards careful)
    [.start (.startup (Trial.file "h" [("a", Trial.capability 2 2)])), .finish 0,
      .start (.evaluate Trial.monthly), .resume 1, .pause 1 4]
    (fun c => (Trial.driver.tick c).any fun r =>
      careful c r.1 && Trial.takes (py "a") 2 1 c r.2) (by decide +kernel)
  obtain ⟨l, c', next, holds⟩ := Trial.step_of_tick (fun l c' =>
    careful c l && Trial.takes (py "a") 2 1 c c') seen
  obtain ⟨met, before, after⟩ := by
    simpa only [Trial.takes, Bool.and_eq_true, decide_eq_true_eq] using holds
  exact ⟨c, c', before, after, demotion_never_raises run met next⟩

theorem raises_of_takes {s s' : World} {cap : PyStr} {before after : Int}
    (settled : s.phase ≠ .reconciling) (here : s.level? cap = some before)
    (there : s'.level? cap = some after) (up : before < after) : ¬ NeverRaises s s' := by
  intro falls
  obtain ⟨e, at_, rfl⟩ := Option.map_eq_some_iff.mp here
  obtain ⟨e', at', rfl⟩ := Option.map_eq_some_iff.mp there
  have := (falls settled cap e e' at_ at').1
  omega

/-- Whatever the script comes to, its next step raises the capability. -/
theorem raises_next (script : List (Command machine)) (cap : PyStr) (before after : Int)
    (h : (Trial.run (fun _ _ => true) script initial).any (fun c => (Trial.driver.tick c).any
      fun r => c.state.phase = .up && Trial.takes cap before after c r.2) = true)
    (up : before < after) : ∃ (c c' : Run) (l : Label machine),
      Reach machine Trial.Anyhow initial c ∧ Step machine c l c' ∧
        ¬ NeverRaises c.state c'.state := by
  obtain ⟨c, run, seen⟩ := Trial.reached Trial.guards_anyhow script _ h
  obtain ⟨l, c', next, holds⟩ := Trial.step_of_tick (fun _ c' =>
    c.state.phase = .up && Trial.takes cap before after c c') seen
  obtain ⟨phase, here, there⟩ := by
    simpa only [Trial.takes, Bool.and_eq_true, decide_eq_true_eq] using holds
  exact ⟨c, c', l, run, next, raises_of_takes (by rw [phase]; decide) here there up⟩

/-- A model change takes a suspended capability to level 0; a decay that waits for its audit
event takes a capability, demoted twice in the meantime, from 0 to 1. -/
theorem suspension_lifted :
    (∃ (c c' : Run) (l : Label machine), Reach machine Trial.Anyhow initial c ∧
      Step machine c l c' ∧ ¬ NeverRaises c.state c'.state) ∧
    ∃ (c c' : Run) (l : Label machine), Reach machine Trial.Anyhow initial c ∧
      Step machine c l c' ∧ ¬ NeverRaises c.state c'.state := by
  constructor
  case left =>
    exact raises_next
      [.start (.startup (Trial.file "h" [("a", Trial.capability 1 1),
          ("context.package", Trial.capability 0 1)])), .finish 0,
        .start (.stripFailure (py "strip")), .finish 1,
        .start (.modelChange [py "a", contextPackage] none), .resume 2, .pause 2 7]
      contextPackage (-1) 0 (by decide +kernel) (by decide)
  case right =>
    exact raises_next
      [.start (.startup (Trial.file "h" [("a", Trial.capability 2 2)])), .finish 0,
        .start (.evaluate Trial.monthly), .resume 1,
        .start (.overrideDemotion (py "cancel") (py "a") none (py "first")), .finish 2,
        .start (.overrideDemotion (py "cancel") (py "a") none (py "second")), .finish 3,
        .pause 1 4]
      (py "a") 0 1 (by decide +kernel) (by decide)

end Runs

end Drnt.Wal
