import Drnt.Wal.Bounded

/-! While a startup reconciles, the level that it has read stays. -/
namespace Drnt.Wal

open Lib Lib.Coop

section Staged

variable {acked : Prop} {toks : Toks} {i : Nat} {t : Tag} {τ τ' : Tok}

/-- Some call is at such a stage. -/
def Staged (P : Stage → Bool) (toks : Toks) : Prop :=
  ∃ (i : Nat) (t : Tag) (τ : Tok), toks[i]? = some (t, τ) ∧ P τ.stage = true

/-- Only the call that moves can be between two writes. -/
theorem Staged.mover {P : Stage → Bool} (h : Staged P toks) (at_ : toks[i]? = some (t, τ))
    (parked : Plan.Parked (conduct acked) toks (some i)) (idle : P .idle = false)
    (flying : ∀ ev logged, P (.flying ev logged) = false) : P τ.stage = true := by
  obtain ⟨k, t₁, τ₁, other, holds⟩ := h
  by_cases same : i = k
  · subst same
    cases at_.symm.trans other
    exact holds
  · rcases (parked (by simpa using same) other).2 with ⟨ev, logged, stage⟩ | stage
    · change τ₁.stage = _ at stage
      rw [stage, flying] at holds
      cases holds
    · change τ₁.stage = _ at stage
      rw [stage, idle] at holds
      cases holds

theorem Staged.set {P : Stage → Bool} (at_ : toks[i]? = some (t, τ)) (holds : P τ'.stage = true) :
    Staged P (toks.set i (t, τ')) := by
  have bound : i < toks.length := (List.getElem?_eq_some_iff.mp at_).1
  exact ⟨i, t, τ', List.getElem?_set_self bound, holds⟩

theorem Staged.append {P : Stage → Bool} (h : Staged P toks) (tok : Tag × Tok) :
    Staged P (toks ++ [tok]) := by
  obtain ⟨k, t₁, τ₁, other, holds⟩ := h
  refine ⟨k, t₁, τ₁, ?_, holds⟩
  rw [List.getElem?_append_left (List.getElem?_eq_some_iff.mp other).1]
  exact other

theorem Staged.retire {P : Stage → Bool} (h : Staged P toks) (at_ : toks[i]? = some (t, τ))
    (own : P τ.stage = false) : Staged P (toks.set i (t, ⟨.call, .idle⟩)) := by
  obtain ⟨k, t₁, τ₁, other, holds⟩ := h
  by_cases same : i = k
  · subst same
    cases at_.symm.trans other
    rw [own] at holds
    cases holds
  · exact ⟨k, t₁, τ₁, (List.getElem?_set_ne same).trans other, holds⟩

end Staged

section Announced

/-- The change that an event announces. -/
def Body.announced? (b : Body) : Option (PyStr × Int × Int) :=
  if b.announces then b.change? else none

/-- The change that a call has announced and has yet to make. -/
def Stage.announced? : Stage → Option (PyStr × Int × Int)
  | .flying e _ => e.body.announced?
  | .due b => b.change?
  | .raised cap t => some (cap, -1, t)
  | .idle | .lowered .. | .owing .. | .overriding .. => none

/-- Active capabilities have a level, and what a reconcile has announced starts from the level
that the capability has. -/
structure Steady (s : World) (toks : Toks) : Prop where
  sane : ∀ {cap : PyStr} {e : Entry}, s.entryAt? cap = some e → e.status = .active →
    0 ≤ e.effectiveWalLevel
  steady : ∀ {i : Nat} {t : Tag} {τ : Tok} {cap : PyStr} {f l : Int}, toks[i]? = some (t, τ) →
    τ.base = .reconciling → τ.stage.announced? = some (cap, f, l) → s.level? cap = some f

end Announced

section Preserved

variable {acked : Prop} {s s' : World} {toks : Toks} {i : Nat} {t : Tag} {τ τ' : Tok}
  {cap : PyStr} {e e' : Entry} {f l : Int} {b : Body}

theorem announced_landed (b : Body) : (landed b).announced? = b.announced? := by
  unfold landed Body.announced?
  split <;> rfl

theorem announced_change (h : b.announced? = some (cap, f, l)) : b.change? = some (cap, f, l) := by
  unfold Body.announced? at h
  split at h
  · exact h
  · cases h

/-- What lets an announcement go out. -/
theorem sends_announced {b : Base} {σ : Stage} {body : Body} (may : Sends b σ s body)
    (told : body.announced? = some (cap, f, l)) : σ = .idle ∧ f ≠ l ∧
      ((b = .reconciling ∧ s.level? cap = some f) ∨
        (b = .call ∧ 1 ≤ f ∧ l = f - 1 ∧ ∃ e, s.entryAt? cap = some e ∧ e.effectiveWalLevel = f)) := by
  cases body with
  | promoted =>
    cases told
    exact ⟨may.2.1, may.2.2.2.1.ne, .inl ⟨may.1, may.2.2.1⟩⟩
  | demoted cap' name f' t' trigger ref =>
    by_cases manual : trigger = .manual
    · rw [Sends, if_pos manual] at may
      rw [Body.announced?, if_pos (by simp [Body.announces, manual])] at told
      cases told
      exact ⟨may.2.1, may.2.2.2.1.ne', .inl ⟨may.1, may.2.2.1⟩⟩
    · rw [Body.announced?, if_neg (by simp [Body.announces, manual])] at told
      cases told
  | decayed =>
    cases told
    exact ⟨may.2.1, by omega, .inr ⟨may.1, may.2.2.1, rfl, may.2.2.2⟩⟩
  | _ => cases told

/-- Before the process is up, a call without anything under way changes no level. -/
theorem level_idle (move : Move acked τ s τ' s') (free : τ.base = .call ∨ τ.base = .model)
    (idle : τ.stage = .idle) (notUp : s.phase ≠ .up) (cap : PyStr) :
    s'.level? cap = s.level? cap := by
  have other {b : Base} (serving : Serving b s) (free : b = .call ∨ b = .model) : False := by
    rcases free with rfl | rfl
    · exact notUp serving
    · exact notUp serving
  cases move with
  | send serving => exact (other serving free).elim
  | lower serving => exact (other serving free).elim
  | override serving => exact (other serving free).elim
  | tick => rfl
  | counters => exact level?_counters ..
  | outcome => exact level?_counters s ..
  | record | arrive | decay | bring | reset | raise | activate => cases idle
  | load | init | begin | keep | configured | updateMeta | up =>
    rcases free with base | base
    · cases base
    · cases base

theorem suspended_of_effective (sane : e.status = .active → 0 ≤ e.effectiveWalLevel)
    (h : e.effective = -1) : e.status = .suspended := by
  cases status : e.status with
  | suspended => rfl
  | active =>
    have := sane status
    rw [effective_active status] at h
    omega

/-- The announcement of the call that moves. -/
theorem steady_own (inv : Steady s toks) (at_ : toks[i]? = some (t, τ))
    (move : Move acked τ s τ' s') (base : τ'.base = .reconciling)
    (told : τ'.stage.announced? = some (cap, f, l)) : s'.level? cap = some f := by
  cases move with
  | @send b σ _ ev serving may =>
    rcases (sends_announced may told).2.2 with ⟨-, level⟩ | ⟨call, -⟩
    · exact level
    · cases base.symm.trans call
  | record => exact inv.steady at_ base told
  | @arrive b _ ev logged =>
    rw [announced_landed] at told
    exact inv.steady at_ base told
  | counters =>
    rw [level?_counters]
    exact inv.steady at_ base told
  | @raise _ e b cap' f' t' config here before up known wants =>
    split at told
    · rename_i floor
      cases told
      subst floor
      have level := inv.steady at_ rfl before
      rw [World.level?, here, Option.map_some, Option.some.injEq] at level
      have suspended := suspended_of_effective (inv.sane here) level
      rw [level?_edit, if_pos rfl, here, Option.map_some, Entry.effective, if_pos]
      exact suspended
    · cases told
  | reset =>
    split at told
    · cases told
    · cases told
  | _ => cases told

theorem steady_other (known : Orderly s toks) (inv : Steady s toks) (at_ : toks[i]? = some (t, τ))
    (move : Move acked τ s τ' s') {k : Nat} {t₁ : Tag} {τ₁ : Tok} (ne : i ≠ k)
    (other : toks[k]? = some (t₁, τ₁)) (base : τ₁.base = .reconciling)
    (told : τ₁.stage.announced? = some (cap, f, l)) : s'.level? cap = some f := by
  have there : busy (t₁, τ₁) = 1 := by rw [busy, base]
  have phase := (known.placed other).not_up there
  have free := not_both_busy known other at_ ne.symm there
  have placed := known.placed at_
  have calling : τ.base = .call ∨ τ.base = .model := by
    unfold busy at free
    cases here : τ.base with
    | call => exact .inl rfl
    | model => exact .inr rfl
    | loading | reconciling | settled => simp [here] at free
  have idle : τ.stage = .idle := by
    unfold Placed at placed
    rcases calling with here | here
    · rw [here] at placed
      exact placed.resolve_left phase
    · rw [here] at placed
      exact placed.1.resolve_left phase
  rw [level_idle move calling idle phase]
  exact inv.steady other base told

theorem steady_start (inv : Steady s toks) : Steady s (toks ++ [(t, first t)]) := by
  refine ⟨inv.sane, fun {k t₁ τ₁ _ _ _} h base told => ?_⟩
  rcases List.mem_append.mp (List.mem_of_getElem? h) with old | new
  · obtain ⟨j, hj⟩ := List.getElem?_of_mem old
    exact inv.steady hj base told
  · cases List.mem_singleton.mp new
    rw [first_stage] at told
    cases told

/-- What holds in every run. -/
theorem steady (acked : Prop) (ok : Config machine → Label machine → Prop) :
    (conduct acked).PreservesUnder ok Orderly Steady where
  start _ _ inv _ _ _ _ := steady_start inv
  move := by
    intro c s' toks i t k τ τ' known inv _ _ at_ _ move
    refine ⟨fun at' => sane_becomes inv.sane (move.becomes (known.raised at_) at'), ?_⟩
    intro j t₁ τ₁ cap f l h base told
    rcases get_set_cases h with ⟨rfl, eq⟩ | ⟨ne, other⟩
    · cases eq
      exact steady_own inv at_ move base told
    · exact steady_other known inv at_ move ne other base told
  finish := by
    intro c toks i t p τ r known inv _ _ _ at_ _
    refine ⟨inv.sane, fun {j t₁ τ₁ _ _ _} h base told => ?_⟩
    rcases get_set_cases h with ⟨-, eq⟩ | ⟨-, other⟩
    · cases eq
      cases base
    · exact inv.steady other base told
  crash := by
    intro c toks s' _ known inv _ again
    obtain ⟨late, -, rfl⟩ := again
    exact ⟨inv.sane, nofun⟩

theorem steady_initial : Steady initial.state [] := ⟨nofun, nofun⟩

end Preserved

end Drnt.Wal
