import Drnt.Wal.Monotone

/-! After a successful startup each level is within its bounds, and the status agrees. -/
namespace Drnt.Wal

open Lib Lib.Coop

section Condition

/-- The entry of a capability is well formed. -/
def Entry.Within (max : Int) (e : Entry) : Prop :=
  -1 ≤ e.effectiveWalLevel ∧ e.effectiveWalLevel ≤ max ∧
    (e.status = .suspended ↔ e.effectiveWalLevel = -1)

def Within (registry : Registry) (s : World) : Prop :=
  ∀ cap config, registry.get? cap = some config →
    ∃ e, s.entryAt? cap = some e ∧ e.Within config.maxWal

variable (caps : PyStr → Registry)

/-- A startup reads a registry that its hash determines and in which no capability is called
"_meta"; if the hash is the one of the metadata, no reconcile has been cut short since. -/
def reconciles (s : World) (file : ConfigFile) : Bool :=
  file.capabilities = caps file.configHash ∧ metaKey ∉ file.capabilities.keys ∧
    (s.state.metadata.map (·.lastConfigHash) = some file.configHash → s.unsettled = false)

def reconciling (c : Run) : Label machine → Bool
  | .start (.startup files) => files.config.all (reconciles caps c.state)
  | _ => true

end Condition

section Preserved

variable {caps : PyStr → Registry} {acked : Prop} {s s' : World} {toks : Toks} {i : Nat} {t : Tag}
  {τ τ' : Tok} {cap : PyStr} {e e' : Entry} {f : Int} {registry : Registry}

/-- The entries and the decays under way fit a registry. -/
structure Fits (registry : Registry) (s : World) (toks : Toks) : Prop where
  plain : metaKey ∉ registry.keys
  within : Within registry s
  pending : ∀ {i : Nat} {t : Tag} {τ : Tok} {cap : PyStr} {f : Int} {config : Capability},
    toks[i]? = some (t, τ) → τ.stage.decay? = some (cap, f) →
      registry.get? cap = some config → f ≤ config.maxWal

/-- What the metadata stands for, and what a startup has brought about. -/
structure Bounds (caps : PyStr → Registry) (s : World) (toks : Toks) : Prop where
  known : ∀ {i : Nat} {t : Tag} {file : ConfigFile} {σ : Stage},
    toks[i]? = some (t, ⟨.loading (some file), σ⟩) → reconciles caps s file = true
  registered : s.phase ≠ .down → s.registry = caps s.configHash ∧ metaKey ∉ s.registry.keys
  stored : s.unsettled = false → ∀ m, s.state.metadata = some m →
    Fits (caps m.lastConfigHash) s toks
  settled : 2 ≤ s.phase.rank → Fits s.registry s toks

theorem Entry.Within.effective {max : Int} (h : e.Within max) :
    e.effective = e.effectiveWalLevel := by
  unfold Entry.effective
  split
  · rename_i suspended
    exact (h.2.2.mp suspended).symm
  · rfl

theorem within_demote {max t : Int} (floor : -1 ≤ t) (le : t ≤ max) : (e.demote t).Within max := by
  refine ⟨?_, ?_, ?_⟩
  · rw [level_demote]
    exact floor
  · rw [level_demote]
    exact le
  · rw [level_demote]
    exact Entry.status_demote t e

theorem lowers_within {b : Base} {config : Capability} {t : Int} (h : e.Within config.maxWal)
    (way : Lowers b e.effective t) : -1 ≤ t ∧ t ≤ config.maxWal := by
  have nonneg := config.desired_nonneg
  have le := config.desired_le_max
  have bound : e.effective ≤ config.maxWal := h.effective ▸ h.2.1
  rcases way.2 with rfl | ⟨floor, falls⟩ | ⟨-, rfl⟩
  · exact ⟨by omega, by omega⟩
  · exact ⟨by omega, by omega⟩
  · exact ⟨by omega, by omega⟩

theorem isSome_edit {c : PyStr} {g : Entry → Entry} (h : (s.entryAt? cap).isSome) :
    ((s.edit c g).entryAt? cap).isSome := by
  rw [entryAt?_edit]
  split
  · rename_i same
    rw [Option.isSome_map, ← same]
    exact h
  · exact h

/-- No write takes an entry away, unless it is in the place of the metadata. -/
theorem entry_stays (known : Orderly s toks) (move : Move acked τ s τ' s') (ne : cap ≠ metaKey)
    (h : (s.entryAt? cap).isSome) : (s'.entryAt? cap).isSome := by
  cases move with
  | send | record | arrive | override | load | tick => exact h
  | lower | decay | bring | reset | raise | activate | counters => exact isSome_edit h
  | outcome => exact isSome_edit (s := s) h
  | begin | keep | configured | up =>
    rw [World.entryAt?, state_enter]
    exact h
  | init down new =>
    rw [known.fresh new cap] at h
    cases h
  | updateMeta =>
    have same := Dict.get?_erase_ne s.state.entries ne
    exact (congrArg Option.isSome same).trans h

theorem within_move (known : Orderly s toks) (at_ : toks[i]? = some (t, τ))
    (move : Move acked τ s τ' s') (fits : Fits registry s toks)
    (quiet : s.phase = .reconciling → ∀ cap, s'.entryAt? cap = s.entryAt? cap) :
    Within registry s' := by
  intro cap config asked
  obtain ⟨e, here, good⟩ := fits.within cap config asked
  by_cases phase : s.phase = .reconciling
  · exact ⟨e, (quiet phase cap).trans here, good⟩
  have ne : cap ≠ metaKey := by
    rintro rfl
    rw [Dict.get?_eq_none_iff.mpr fits.plain] at asked
    cases asked
  obtain ⟨e', there⟩ :=
    Option.isSome_iff_exists.mp (entry_stays known move ne (Option.isSome_of_eq_some here))
  refine ⟨e', there, ?_⟩
  have outside (base : τ.base = .reconciling) : False := by
    have placed := known.placed at_
    rw [Placed, base] at placed
    exact phase placed.1
  cases move.becomes (known.raised at_) there with
  | kept old | counted old =>
    cases here.symm.trans old
    exact good
  | lowered old serving other way =>
    cases here.symm.trans old
    obtain ⟨floor, le⟩ := lowers_within good way
    exact within_demote floor le
  | decayed old call told floor =>
    have bound := fits.pending at_ told asked
    exact within_demote (by omega) (by omega)
  | brought _ base | raised _ base | activated _ base => exact (outside base).elim
  | new _ saved => cases (known.fresh saved cap).symm.trans here

/-- A decay starts from a level within bounds. -/
theorem pending_move (at_ : toks[i]? = some (t, τ)) (move : Move acked τ s τ' s')
    (fits : Fits registry s toks) {config : Capability} (told : τ'.stage.decay? = some (cap, f))
    (asked : registry.get? cap = some config) : f ≤ config.maxWal := by
  cases move with
  | @send b σ _ ev serving may =>
    obtain ⟨-, -, -, e, here, rfl⟩ := sends_decay may told
    obtain ⟨e', there, good⟩ := fits.within cap config asked
    cases here.symm.trans there
    exact good.2.1
  | record | counters => exact fits.pending at_ told asked
  | @arrive b _ ev logged =>
    refine fits.pending at_ ?_ asked
    change (landed ev.body).decay? = _ at told
    unfold landed at told
    split at told
    · exact told
    · cases told
  | reset | raise =>
    split at told
    · cases told
    · cases told
  | _ => cases told

theorem fits_move (known : Orderly s toks) (at_ : toks[i]? = some (t, τ))
    (move : Move acked τ s τ' s') (fits : Fits registry s toks)
    (quiet : s.phase = .reconciling → ∀ cap, s'.entryAt? cap = s.entryAt? cap) :
    Fits registry s' (toks.set i (t, τ')) := by
  refine ⟨fits.plain, within_move known at_ move fits quiet, ?_⟩
  intro j t₁ τ₁ cap f config h told asked
  rcases get_set_cases h with ⟨-, eq⟩ | ⟨-, other⟩
  · cases eq
    exact pending_move at_ move fits told asked
  · exact fits.pending other told asked

/-- What a write does to the metadata. -/
inductive Rewrites (τ : Tok) (s s' : World) : Prop
  | keeps (same : s'.state.metadata = s.state.metadata) (flag : s'.unsettled = s.unsettled)
      (quiet : s.phase = .reconciling → ∀ cap, s'.entryAt? cap = s.entryAt? cap)
  | unsettles (phase : s.phase = .reconciling) (flag : s'.unsettled = true)
  | begins (base : τ.base = .settled)
      (hash : s'.state.metadata.map (·.lastConfigHash) = some s.configHash)
  | empties (loading : τ.base.isLoading = true) (gone : s'.state.metadata = none)

theorem rewrites_edit (s : World) (cap : PyStr) (g : Entry → Entry) :
    Rewrites τ s (s.edit cap g) := by
  by_cases phase : s.phase = .reconciling
  · refine .unsettles phase ?_
    rw [World.edit, phase]
    exact Bool.or_true _
  · refine .keeps rfl ?_ fun h => absurd h phase
    rw [World.edit, decide_eq_false phase]
    exact Bool.or_false _

theorem Move.rewrites (move : Move acked τ s τ' s') : Rewrites τ s s' := by
  cases move with
  | send | record | arrive | override | load | tick => exact .keeps rfl rfl fun _ _ => rfl
  | lower | decay | bring | reset | raise | activate | counters => exact rewrites_edit ..
  | @outcome _ cap o =>
    cases rewrites_edit (τ := ⟨.call, .idle⟩) s cap (·.withCounters (.record o)) with
    | keeps same flag quiet => exact .keeps same flag quiet
    | unsettles phase flag => exact .unsettles phase flag
    | begins base => cases base
    | empties loading => cases loading
  | begin | keep | configured | up =>
    refine .keeps (by rw [state_enter]) ?_ fun _ cap => ?_
    · unfold World.enter
      split <;> rfl
    · rw [World.entryAt?, state_enter, World.entryAt?]
  | init => exact .empties rfl rfl
  | updateMeta => exact .begins rfl rfl

theorem known_move (known : Orderly s toks) (inv : Bounds caps s toks)
    (at_ : toks[i]? = some (t, τ)) (parked : Plan.Parked (conduct acked) toks (some i))
    (move : Move acked τ s τ' s') {j : Nat} {t₁ : Tag} {file : ConfigFile} {σ : Stage}
    (h : (toks.set i (t, τ'))[j]? = some (t₁, ⟨.loading (some file), σ⟩)) :
    reconciles caps s' file = true := by
  rcases get_set_cases h with ⟨-, eq⟩ | ⟨ne, other⟩
  · cases eq
    have was : ∃ σ, τ = ⟨.loading (some file), σ⟩ := by
      cases move <;> exact ⟨_, rfl⟩
    obtain ⟨σ₀, rfl⟩ := was
    have here := inv.known at_
    cases move.rewrites with
    | keeps same flag =>
      rw [reconciles, same, flag]
      exact here
    | unsettles phase =>
      have down := loading_down (known.placed at_) rfl
      cases down.symm.trans phase
    | begins base => cases base
    | empties _ gone =>
      simp only [reconciles, gone, decide_eq_true_eq] at here ⊢
      exact ⟨here.1, here.2.1, nofun⟩
  · have begun := (parked (by simpa using ne) other).1
    cases begun

theorem registered_move (known : Orderly s toks) (inv : Bounds caps s toks)
    (at_ : toks[i]? = some (t, τ)) (move : Move acked τ s τ' s') (begun : s'.phase ≠ .down) :
    s'.registry = caps s'.configHash ∧ metaKey ∉ s'.registry.keys := by
  by_cases down : s.phase = .down
  · have entered {file : ConfigFile} (mine : τ = ⟨.loading (some file), .idle⟩)
        (loaded : s.registry = file.capabilities ∧ s.configHash = file.configHash) :
        s.registry = caps s.configHash ∧ metaKey ∉ s.registry.keys := by
      subst mine
      have here := inv.known at_
      simp only [reconciles, decide_eq_true_eq] at here
      rw [loaded.1, loaded.2]
      exact ⟨here.1, here.2.1⟩
    have placed := known.placed at_
    cases move with
    | begin down saved loaded =>
      obtain ⟨p, eq⟩ := enter_eq s .reconciling
      rw [eq]
      exact entered rfl loaded
    | keep down saved loaded =>
      obtain ⟨p, eq⟩ := enter_eq s .starting
      rw [eq]
      exact entered rfl loaded
    | configured | up => cases down.symm.trans placed.1
    | _ => exact absurd down begun
  · obtain ⟨registry, hash⟩ := move.grows.fixed down
    rw [registry, hash]
    exact inv.registered down

theorem stored_move (known : Orderly s toks) (inv : Bounds caps s toks)
    (at_ : toks[i]? = some (t, τ)) (move : Move acked τ s τ' s') (flag : s'.unsettled = false)
    (m : Metadata) (there : s'.state.metadata = some m) :
    Fits (caps m.lastConfigHash) s' (toks.set i (t, τ')) := by
  have placed := known.placed at_
  cases move.rewrites with
  | empties _ gone => cases gone.symm.trans there
  | unsettles _ up => cases flag.symm.trans up
  | begins base hash =>
    rw [Placed, base] at placed
    have begun : s.phase ≠ .down := by rw [placed.1]; decide
    have outside : s.phase ≠ .reconciling := by rw [placed.1]; decide
    rw [there] at hash
    rw [show m.lastConfigHash = s.configHash from Option.some.inj hash, ← (inv.registered begun).1]
    have fits := inv.settled (by rw [placed.1]; decide)
    exact fits_move known at_ move fits fun h => absurd h outside
  | keeps same old quiet =>
    have fits := inv.stored (old ▸ flag) m (same ▸ there)
    exact fits_move known at_ move fits quiet

/-- Nothing is under way beside a startup. -/
theorem idle_beside (known : Orderly s toks) (at_ : toks[i]? = some (t, τ))
    (mine : busy (t, τ) = 1) (still : τ.stage = .idle) {k : Nat} {t₁ : Tag} {τ₁ : Tok}
    (other : toks[k]? = some (t₁, τ₁)) : τ₁.stage = .idle := by
  by_cases same : i = k
  · subst same
    cases at_.symm.trans other
    exact still
  have notUp := (known.placed at_).not_up mine
  have free := not_both_busy known at_ other same mine
  have placed := known.placed other
  unfold Placed at placed
  unfold busy at free
  cases base : τ₁.base with
  | call =>
    rw [base] at placed
    exact placed.resolve_left notUp
  | model =>
    rw [base] at placed
    exact placed.1.resolve_left notUp
  | loading | reconciling | settled => simp [base] at free

theorem settled_move (known : Orderly s toks) (inv : Bounds caps s toks)
    (at_ : toks[i]? = some (t, τ)) (move : Move acked τ s τ' s') (past : 2 ≤ s'.phase.rank) :
    Fits s'.registry s' (toks.set i (t, τ')) := by
  have placed := known.placed at_
  by_cases before : 2 ≤ s.phase.rank
  · have begun : s.phase ≠ .down := by
      intro down
      have := rank_down.mpr down
      omega
    have outside : s.phase ≠ .reconciling := by
      intro phase
      have := rank_reconciling.mpr phase
      omega
    rw [(move.grows.fixed begun).1]
    exact fits_move known at_ move (inv.settled before) fun h => absurd h outside
  · cases move with
    | @keep _ file down saved loaded same =>
      have here := inv.known at_
      simp only [reconciles, decide_eq_true_eq] at here
      obtain ⟨registry, -, unsettled⟩ := here
      have flag := unsettled (loaded.2 ▸ same)
      obtain ⟨m, at', hash⟩ := Option.map_eq_some_iff.mp same
      have fits := inv.stored flag m at'
      rw [hash, loaded.2, ← registry, ← loaded.1] at fits
      rw [registry_enter]
      have move : Move acked _ s _ _ := .keep down saved loaded same
      exact fits_move known at_ move fits fun h => by cases down.symm.trans h
    | @configured _ done =>
      have phase : s.phase = .reconciling := placed.1
      obtain ⟨-, plain⟩ := inv.registered (by rw [phase]; decide)
      have fits : Fits s.registry s toks := by
        refine ⟨plain, ?_, ?_⟩
        · intro cap config asked
          obtain ⟨e, here, level, active⟩ := done phase cap config asked
          have nonneg := config.desired_nonneg
          have le := config.desired_le_max
          refine ⟨e, here, by omega, by omega, ?_⟩
          rw [active, level]
          refine ⟨nofun, fun low => ?_⟩
          omega
        · intro j t₁ τ₁ cap f config other told asked
          rw [idle_beside known at_ rfl rfl other] at told
          cases told
      rw [registry_enter]
      have move : Move acked _ s _ _ := .configured done
      exact fits_move known at_ move fits fun _ cap => by
        rw [World.entryAt?, state_enter, World.entryAt?]
    | up =>
      have phase : s.phase = .starting := placed.1
      rw [phase] at before
      exact absurd (by decide) before
    | begin down =>
      rw [phase_enter, down] at past
      exact absurd past (by decide)
    | _ => exact absurd past before

theorem fits_append (fits : Fits registry s toks) (t : Tag) :
    Fits registry s (toks ++ [(t, first t)]) := by
  refine ⟨fits.plain, fits.within, ?_⟩
  intro j t₁ τ₁ cap f config h told asked
  rcases List.mem_append.mp (List.mem_of_getElem? h) with old | new
  · obtain ⟨k, hk⟩ := List.getElem?_of_mem old
    exact fits.pending hk told asked
  · cases List.mem_singleton.mp new
    rw [first_stage] at told
    cases told

theorem fits_retire (fits : Fits registry s toks) :
    Fits registry s (toks.set i (t, ⟨.call, .idle⟩)) := by
  refine ⟨fits.plain, fits.within, ?_⟩
  intro j t₁ τ₁ cap f config h told asked
  rcases get_set_cases h with ⟨-, eq⟩ | ⟨-, other⟩
  · cases eq
    cases told
  · exact fits.pending other told asked

theorem fits_restart (fits : Fits registry s toks) (late : List Event) :
    Fits registry (s.restart late) [] := ⟨fits.plain, fits.within, nofun⟩

theorem bounds (caps : PyStr → Registry) (acked : Prop) :
    (conduct acked).PreservesUnder (Meets (reconciling caps)) Orderly (Bounds caps) where
  start := by
    intro c toks t _ known inv _ _ met _
    refine ⟨?_, inv.registered, fun flag m at_ => fits_append (inv.stored flag m at_) t,
      fun past => fits_append (inv.settled past) t⟩
    intro j t₁ file σ h
    rcases List.mem_append.mp (List.mem_of_getElem? h) with old | new
    · obtain ⟨k, hk⟩ := List.getElem?_of_mem old
      exact inv.known hk
    · obtain ⟨rfl, token⟩ := Prod.mk.inj (List.mem_singleton.mp new)
      cases t₁ with
      | startup files =>
        have config := congrArg Tok.base token
        simp only [conduct, first, Base.loading.injEq] at config
        simpa only [Meets, reconciling, ← config, Option.all_some] using met
      | _ => cases congrArg Tok.base token
  move := by
    intro c s' toks i t k τ τ' known inv program met at_ parked move
    exact ⟨known_move known inv at_ parked move, registered_move known inv at_ move,
      stored_move known inv at_ move, settled_move known inv at_ move⟩
  finish := by
    intro c toks i t p τ r known inv program res met at_ ends
    refine ⟨?_, inv.registered, fun flag m at_ => fits_retire (inv.stored flag m at_),
      fun past => fits_retire (inv.settled past)⟩
    intro j t₁ file σ h
    rcases get_set_cases h with ⟨-, eq⟩ | ⟨-, other⟩
    · cases eq
    · exact inv.known other
  crash := by
    intro c toks s' _ known inv _ again
    obtain ⟨late, -, rfl⟩ := again
    refine ⟨nofun, fun begun => absurd rfl begun, ?_, ?_⟩
    · intro flag m at_
      exact fits_restart (inv.stored flag m at_) late
    · intro past
      have floor : 2 ≤ Phase.down.rank := past
      exact absurd floor (by decide)

theorem bounds_initial (caps : PyStr → Registry) : Bounds caps initial.state [] :=
  ⟨nofun, fun begun => absurd rfl begun, nofun, fun past => absurd past (by decide)⟩

end Preserved

section Runs

variable {c : Run} {caps : PyStr → Registry}

/-- Each capability of the registry has a level within bounds, a status that agrees with it, and
is reported as it is stored. -/
def Conforms (s : World) : Prop :=
  ∀ cap config, s.registry.get? cap = some config →
    ∃ e, s.entryAt? cap = some e ∧ e.Within config.maxWal ∧ e.effective = e.effectiveWalLevel

theorem startup_conforms (run : Reach machine (Meets (reconciling caps)) initial c)
    (up : c.state.phase = .up) : Conforms c.state := by
  obtain ⟨toks, -, -, inv⟩ := Plan.reach conduct_sound.under
    (Plan.PreservesUnder.and (orderly False _) (bounds caps False)) (Plan.tracks_boot _)
    ⟨orderly_initial, bounds_initial caps⟩ run
  have past : 2 ≤ c.state.phase.rank := by rw [up]; decide
  intro cap config asked
  obtain ⟨e, here, good⟩ := (inv.settled past).within cap config asked
  exact ⟨e, here, good, good.effective⟩

namespace Trial

/-- The test that a capability of the registry is not as it should be. -/
def strays (cap : PyStr) (s : World) : Bool :=
  s.phase = .up && (s.registry.get? cap).any fun config =>
    !(s.entryAt? cap).any fun e =>
      -1 ≤ e.effectiveWalLevel && e.effectiveWalLevel ≤ config.maxWal &&
        decide (e.status = .suspended ↔ e.effectiveWalLevel = -1)

theorem not_conforms {cap : PyStr} {s : World} (h : strays cap s = true) : ¬ Conforms s := by
  intro good
  simp only [strays, Bool.and_eq_true] at h
  obtain ⟨config, asked, bad⟩ := (Option.any_eq_true _ _).mp h.2
  obtain ⟨e, here, ⟨floor, le, status⟩, -⟩ := good cap config asked
  simp [here, floor, le, status] at bad

/-- After some calls a reconcile for the file "new" is cut short, and the file is again "old". -/
def undone (old new : Files) (calls : List (Command machine)) (steps : Nat) :
    List (Command machine) :=
  [.start (.startup old), .finish 0] ++ calls ++
    [.crash, .start (.startup new), .resume 0, .pause 0 steps, .crash, .start (.startup old),
      .finish 0]

theorem stray (script : List (Command machine)) (cap : PyStr)
    (h : (run (fun _ _ => true) script initial).any (fun c => strays cap c.state) = true) :
    ∃ c, Reach machine Anyhow initial c ∧ c.state.phase = .up ∧ ¬ Conforms c.state := by
  obtain ⟨c, reach, seen⟩ := reached guards_anyhow script (fun c => strays cap c.state) h
  refine ⟨c, reach, ?_, not_conforms seen⟩
  simp only [strays, Bool.and_eq_true, decide_eq_true_eq] at seen
  exact seen.1

end Trial

/-- A capability at the level that it may have at most. -/
theorem startup_conforms_witness : ∃ c : Run, c.state.phase = .up ∧
    c.state.level? (py "a") = some 2 ∧ Conforms c.state := by
  let registry : Registry := (∅ : Registry).set (py "a") (Trial.capability 2 2)
  obtain ⟨c, run, seen⟩ := Trial.reached (Trial.guards (reconciling fun _ => registry))
    [.start (.startup (Trial.file "h" [("a", Trial.capability 2 2)])), .finish 0]
    (fun c => c.state.phase = .up && c.state.level? (py "a") = some 2) (by decide +kernel)
  simp only [Bool.and_eq_true, decide_eq_true_eq] at seen
  exact ⟨c, seen.1, seen.2, startup_conforms run seen.1⟩

/-- A reconcile that a crash has cut short, with the old file back in place, leaves a level above
max_wal, or a suspended capability with a level of its own; and a capability "_meta" has no
entry. -/
theorem startup_strays :
    (∃ c, Reach machine Trial.Anyhow initial c ∧ c.state.phase = .up ∧ ¬ Conforms c.state) ∧
    (∃ c, Reach machine Trial.Anyhow initial c ∧ c.state.phase = .up ∧ ¬ Conforms c.state) ∧
    ∃ c, Reach machine Trial.Anyhow initial c ∧ c.state.phase = .up ∧ ¬ Conforms c.state := by
  refine ⟨?_, ?_, ?_⟩
  · exact Trial.stray
      (Trial.undone (Trial.file "old" [("a", Trial.capability 0 0)])
        (Trial.file "new" [("a", Trial.capability 3 3)]) [] 5)
      (py "a") (by decide +kernel)
  · exact Trial.stray
      (Trial.undone (Trial.file "old" [("context.package", Trial.capability 0 1)])
        (Trial.file "new" [("context.package", Trial.capability 1 1)])
        [.start (.stripFailure (py "strip")), .finish 1] 5)
      contextPackage (by decide +kernel)
  · exact Trial.stray
      [.start (.startup (Trial.file "h" [("_meta", Trial.capability 0 0)])), .finish 0]
      metaKey (by decide +kernel)

end Runs

end Drnt.Wal
