import Drnt.Orchestrator.Trial

/-! The first override of a job is its only one: one human event, one success, one successor. -/
namespace Drnt.Orchestrator

open Lib Lib.Coop Trial

section Once

/-- A step that announces an override of the job. -/
def Announces {cfg : Settings} (j : JobId) (c : Run cfg) (_ : Label (orchestrator cfg))
    (c' : Run cfg) : Prop :=
  ∃ e, Lifecycle "human.override" j e ∧ c'.state.trace = c.state.trace ++ [.attempted e]

/-- A step with which an override of the job returns a success status. -/
def Succeeds {cfg : Settings} (j : JobId) (c : Run cfg) (l : Label (orchestrator cfg))
    (_ : Run cfg) : Prop :=
  ∃ (i : Nat) (r : OverrideRequest) (p : Task OverrideReply) (reply : OverrideReply),
    l = .work i ∧ c.threads[i]? = some ⟨.override j r, p⟩ ∧ p.result = some (.ok reply) ∧
      reply.effective = true

/-- A step with which a job whose parent is this one comes to be. -/
def Succession {cfg : Settings} (j : JobId) (c : Run cfg) (_ : Label (orchestrator cfg))
    (c' : Run cfg) : Prop :=
  ∃ i job, c.state.job? i = none ∧ c.state.row? i = none ∧ c'.state.job? i = some job ∧
    job.parentJobId = some j

/-- An override of the job has been announced. -/
def View.Announced (v : View) (j : JobId) : Prop :=
  ∃ e, .attempted e ∈ v.trace ∧ Lifecycle "human.override" j e

def Decision.isOverride : Decision → Bool
  | override _ _ => true
  | review _ => false

/-- There is no job of the successor yet. -/
def Successor.unborn : Successor → Bool
  | none | minted _ => true
  | waiting _ | made => false

/-- The call has set the guard of an override of the job, and its successor is as `f` says. -/
def Tok.overrides (f : Successor → Bool) (j : JobId) : Tok → Nat
  | decides i d p succ => if i = j ∧ d.isOverride ∧ p ≠ .accepted ∧ f succ then 1 else 0
  | idle | refused | submits _ _ _ | decided _ _ _ | defers _ _ | repeats _ | fetches _ | works _ _
  | boots _ _ | polls _ => 0

structure Once (j : JobId) (v : View) (toks : Toks) : Prop where
  single : tally (fun tok => tok.2.overrides (fun _ => true) j) toks ≤ 1
  unset : ∀ {t type st succ}, (t, .decides j (.override type st) .accepted succ) ∈ toks →
    ∀ c, v.core j = some c → c.overrideType.isSome = false
  fresh : ∀ {t type st succ}, (t, .decides j (.override type st) .reserved succ) ∈ toks →
    ¬ v.Announced j
  told : ∀ {t type st p succ}, (t, .decides j (.override type st) p succ) ∈ toks →
    p.told ∨ succ ≠ .none → v.Announced j
  spoken : v.Announced j →
    (∀ c, v.core j = some c → c.overrideType.isSome) ∧
      (∀ c, v.row j = some c → c.overrideType.isSome) ∧ j ∈ v.issued ∧
      ∀ tok ∈ toks, ¬ tok.2.pending j

variable {v : View} {toks : Toks} {i : Nat} {t : Call} {τ τ' : Tok} {a : Act} {j : JobId}
  {type : String} {st : JobStatus} {p : DecisionPhase} {succ : Successor}

theorem endType_announces (d : Decision) : d.endType ≠ "human.override" := by
  unfold Decision.endType
  cases d.endStatus <;> decide

theorem Announced.grown {v' : View} (h : v.Announced j) (grows : v.Grows v') : v'.Announced j := by
  obtain ⟨e, mem, about⟩ := h
  exact ⟨e, grows.trace.subset mem, about⟩

/-- Only an override that has set its guard is announced. -/
theorem observe_announces {e : Event} (h : Allowed τ v (.observe (.attempted e)) τ')
    (about : Lifecycle "human.override" j e)
    (dispatching : ∀ i e permit, τ = .works i (.dispatched e permit) →
      Lifecycle "job.dispatched" i e) :
    ∃ type st succ, τ = .decides j (.override type st) .reserved succ ∧
      τ' = .decides j (.override type st) .announced succ ∧
      ∀ c, v.row j = some c → c.overrideType.isSome := by
  have other {type : String} (is : e.eventType = type) (isnt : type ≠ "human.override") : False :=
    isnt (is.symm.trans about.1)
  cases h with
  | note harmless => exact absurd (by simp [about.1]) harmless
  | announce own kept =>
    cases own.2.symm.trans about.2
    exact ⟨_, _, _, rfl, rfl, kept⟩
  | endEvent own => exact (other own.1 (endType_announces _)).elim
  | dispatch => exact (other (dispatching _ _ _ rfl).1 (by decide)).elim
  | receive own | proposeEvent own | deliverEvent _ own | failEvent _ own | bootFailEvent _ own
  | bootDeliverEvent _ own => exact (other own.1 (by decide)).elim
  | acceptEvent own => exact (other own (by decide)).elim

theorem allowed_announced (h : Allowed τ v a τ')
    (dispatching : ∀ i e permit, τ = .works i (.dispatched e permit) →
      Lifecycle "job.dispatched" i e) (said : (a.apply v).Announced j) :
    v.Announced j ∨ ∃ type st succ, τ = .decides j (.override type st) .reserved succ ∧
      τ' = .decides j (.override type st) .announced succ ∧
      ∀ c, v.row j = some c → c.overrideType.isSome := by
  obtain ⟨e, mem, about⟩ := said
  rcases apply_trace mem with old | rfl | ⟨k, rfl, eq⟩
  · exact .inl ⟨e, old, about⟩
  · exact .inr (observe_announces h about dispatching)
  · cases eq

/-- A test of a successor that fails for good once it fails. -/
structure Successor.Fades (f : Successor → Bool) : Prop where
  minted : ∀ i, f (.minted i) → f .none
  waiting : ∀ i, f (.waiting i) → f (.minted i)
  made : ∀ i, f .made → f (.waiting i)

theorem ite_mono {P Q : Prop} [Decidable P] [Decidable Q] (h : P → Q) :
    (if P then 1 else 0) ≤ (if Q then 1 else 0) := by
  by_cases hp : P
  · simp [hp, h hp]
  · simp [hp]

/-- The guard of an override is set once, and no later step of its call sets it anew. -/
theorem allowed_overrides {f : Successor → Bool} (fades : Successor.Fades f)
    (h : Allowed τ v a τ') : τ'.overrides f j ≤ τ.overrides f j ∨
      ∃ type st succ, τ = .decides j (.override type st) .accepted succ ∧
        τ' = .decides j (.override type st) .reserved succ := by
  cases h with
  | reserve =>
    rename_i k d succ
    by_cases own : k = j ∧ d.isOverride
    · obtain ⟨rfl, is⟩ := own
      cases d with
      | override type st => exact .inr ⟨type, st, succ, rfl, rfl⟩
      | review => cases is
    · exact .inl (ite_mono fun ⟨hk, hd, _⟩ => absurd ⟨hk, hd⟩ own)
  | announce | announceReview | endEvent | settle =>
    exact .inl (ite_mono fun ⟨hk, hd, _, hs⟩ => ⟨hk, hd, nofun, hs⟩)
  | conclude _ _ _ => exact .inl (ite_mono fun ⟨_, hd, _⟩ => by cases hd)
  | abort taken => exact .inl (ite_mono fun ⟨hk, hd, _, hs⟩ => ⟨hk, hd, taken, hs⟩)
  | mintSuccessor =>
    exact .inl (ite_mono fun ⟨hk, hd, hp, hs⟩ => ⟨hk, hd, hp, fades.minted _ hs⟩)
  | storeSuccessor =>
    exact .inl (ite_mono fun ⟨hk, hd, hp, hs⟩ => ⟨hk, hd, hp, fades.waiting _ hs⟩)
  | enqueueSuccessor | failSuccessor =>
    exact .inl (ite_mono fun ⟨hk, hd, hp, hs⟩ => ⟨hk, hd, hp, fades.made _ hs⟩)
  | release | serve => exact .inl (Nat.zero_le _)
  | _ => exact .inl (Nat.le_refl _)

/-- What has been said stays said, and a successor is made only after the announcement. -/
theorem allowed_told (h : Allowed τ v a τ') (ht : τ' = .decides j (.override type st) p succ)
    (said : p.told ∨ succ ≠ .none) :
    (∃ p succ, τ = .decides j (.override type st) p succ ∧ (p.told ∨ succ ≠ .none)) ∨
      (a.apply v).Announced j := by
  subst ht
  cases h with
  | announce own => exact .inr ⟨_, List.mem_append_right _ (List.mem_singleton_self _), own⟩
  | reserve =>
    rcases said with told | made
    · cases told
    · exact .inl ⟨_, _, rfl, .inr made⟩
  | endEvent | settle => exact .inl ⟨_, _, rfl, .inl rfl⟩
  | abort =>
    rcases said with told | made
    · cases told
    · exact .inl ⟨_, _, rfl, .inr made⟩
  | mintSuccessor announced =>
    refine .inl ⟨_, _, rfl, .inl ?_⟩
    rcases announced with rfl | rfl <;> rfl
  | storeSuccessor | enqueueSuccessor | failSuccessor => exact .inl ⟨_, _, rfl, .inr nofun⟩
  | quiet | persist | note | mint | reserveAgain => exact .inl ⟨_, _, rfl, said⟩

section Moves

theorem overrides_le (f : Successor → Bool) (τ : Tok) (j : JobId) :
    τ.overrides f j ≤ τ.overrides (fun _ => true) j := by
  cases τ with
  | decides => exact ite_mono fun ⟨hk, hd, hp, _⟩ => ⟨hk, hd, hp, rfl⟩
  | _ => exact Nat.le_refl _

theorem fades_any : Successor.Fades fun _ => true := ⟨fun _ _ => rfl, fun _ _ => rfl, fun _ _ => rfl⟩

theorem overrides_taken (taken : p ≠ .accepted) :
    (Tok.decides j (.override type st) p succ).overrides (fun _ => true) j = 1 :=
  if_pos ⟨rfl, rfl, taken, rfl⟩

/-- An override that has set its guard shows on the job. -/
theorem overridden (base : Base v toks) (mem : (t, .decides j (.override type st) p succ) ∈ toks)
    (taken : p ≠ .accepted) : ∃ c, v.core j = some c ∧ c.overrideType.isSome := by
  obtain ⟨c, hc⟩ := base.1.deciding mem
  exact ⟨c, hc, base.2.guarded mem ⟨rfl, rfl, taken⟩ hc⟩

variable (base : Base v toks) (inv : Once j v toks)
include base inv

/-- A call that has found the job without an override has no announcement before it. -/
theorem unset_silent (mem : (t, .decides j (.override type st) .accepted succ) ∈ toks) :
    ¬ v.Announced j := by
  intro said
  obtain ⟨c, hc⟩ := base.1.deciding mem
  have set := (inv.spoken said).1 c hc
  rw [inv.unset mem c hc] at set
  cases set

/-- While a call has found the job without an override, no other one overrides it. -/
theorem unset_alone (mem : (t, .decides j (.override type st) .accepted succ) ∈ toks) :
    tally (fun tok => tok.2.overrides (fun _ => true) j) toks = 0 := by
  refine tally_zero fun tok hm => ?_
  obtain ⟨t', τ⟩ := tok
  cases τ with
  | decides k d q s =>
    refine if_neg ?_
    rintro ⟨rfl, is, taken, -⟩
    cases d with
    | override =>
      obtain ⟨c, hc, set⟩ := overridden base hm taken
      rw [inv.unset mem c hc] at set
      cases set
    | review => cases is
  | _ => rfl

/-- The overrides under way become fewer, or it is the first one that sets its guard. -/
theorem once_tally {f : Successor → Bool} (fades : Successor.Fades f)
    (at_ : toks[i]? = some (t, τ)) (h : Allowed τ v a τ') :
    tally (fun tok => tok.2.overrides f j) (toks.set i (t, τ')) ≤
        tally (fun tok => tok.2.overrides f j) toks ∨
      ¬ v.Announced j ∧ tally (fun tok => tok.2.overrides f j) (toks.set i (t, τ')) ≤ 1 := by
  have moved := tally_set (f := fun tok : Call × Tok => tok.2.overrides f j) at_ (t, τ')
  simp only at moved
  rcases allowed_overrides fades h (j := j) with le | ⟨type, st, succ, rfl, rfl⟩
  · exact .inl (by omega)
  · have mem := List.mem_of_getElem? at_
    have none := unset_alone base inv mem
    have least := tally_mono (fun tok : Call × Tok => overrides_le f tok.2 j) toks
    have one : (Tok.decides j (.override type st) .reserved succ).overrides f j ≤ 1 := by
      simp only [Tok.overrides]
      split <;> omega
    exact .inr ⟨unset_silent base inv mem, by omega⟩

theorem once_move (at_ : toks[i]? = some (t, τ))
    (parked : ∀ (k : Nat) (tok : Call × Tok), k ≠ i → toks[k]? = some tok → tok.2.parks)
    (h : Allowed τ v a τ') : Once j (a.apply v) (toks.set i (t, τ')) := by
  have mem : (t, τ) ∈ toks := List.mem_of_getElem? at_
  have dispatching : ∀ i e permit, τ = .works i (.dispatched e permit) →
      Lifecycle "job.dispatched" i e := fun _ _ _ eq => base.1.dispatching (eq ▸ mem)
  -- what the announcing call leaves to the others
  have alone {k : Nat} {t' : Call} {type type' : String} {st st' : JobStatus}
      {p p' : DecisionPhase} {s s' : Successor} (hk : k ≠ i)
      (hm : toks[k]? = some (t', .decides j (.override type st) p s))
      (own : τ = .decides j (.override type' st') p' s') (taken : p ≠ .accepted)
      (taken' : p' ≠ .accepted) : False := by
    subst own
    have := add_le_tally (f := fun tok : Call × Tok => tok.2.overrides (fun _ => true) j) hk hm at_
    simp only [overrides_taken taken, overrides_taken taken'] at this
    have := inv.single
    omega
  constructor
  case single =>
    have := inv.single
    rcases once_tally base inv fades_any at_ h with le | ⟨-, le⟩ <;> omega
  case unset =>
    intro t' type st succ hm c hc
    rcases mem_set hm with eq | ⟨k, hk, hm⟩
    · cases eq
      cases h with
      | quiet | persist | note | mint | mintSuccessor | enqueueSuccessor => exact inv.unset mem c hc
      | reserveAgain taken => exact absurd rfl taken
      | storeSuccessor | failSuccessor =>
        exact absurd (inv.told mem (.inr nofun)) (unset_silent base inv mem)
    · exact (parked k _ hk hm).elim
  case fresh =>
    intro t' type st succ hm said
    rcases allowed_announced h dispatching said with before | ⟨type', st', s', rfl, rfl, -⟩
    · rcases mem_set hm with eq | ⟨k, hk, hm⟩
      · cases eq
        cases h with
        | reserve => exact unset_silent base inv mem before
        | quiet | persist | note | mint | reserveAgain | mintSuccessor | storeSuccessor
        | enqueueSuccessor | failSuccessor => exact inv.fresh mem before
      · exact inv.fresh (List.mem_of_getElem? hm) before
    · rcases mem_set hm with eq | ⟨k, hk, hm⟩
      · cases eq
      · exact alone hk hm rfl nofun nofun
  case told =>
    intro t' type st p succ hm said
    rcases mem_set hm with eq | ⟨k, hk, hm⟩
    · cases eq
      rcases allowed_told h rfl said with ⟨p', s', rfl, before⟩ | now
      · exact Announced.grown (inv.told mem before) h.grows
      · exact now
    · exact Announced.grown (inv.told (List.mem_of_getElem? hm) said) h.grows
  case spoken =>
    intro said
    have before : ((∀ c, v.core j = some c → c.overrideType.isSome) ∧
        (∀ c, v.row j = some c → c.overrideType.isSome) ∧ j ∈ v.issued) ∧
          ∀ tok ∈ toks, ¬ tok.2.pending j := by
      rcases allowed_announced h dispatching said with before | ⟨type, st, succ, rfl, -, kept⟩
      · obtain ⟨core, row, issued, pending⟩ := inv.spoken before
        exact ⟨⟨core, row, issued⟩, pending⟩
      · obtain ⟨c, hc, set⟩ := overridden base mem nofun
        refine ⟨⟨fun c' hc' => ?_, kept, base.1.issued hc⟩, fun tok hm pending => ?_⟩
        · cases hc.symm.trans hc'
          exact set
        · rw [base.1.pending hm pending] at hc
          cases hc
    obtain ⟨⟨core, row, issued⟩, pending⟩ := before
    refine ⟨fun c hc => ?_, fun c hc => ?_, h.grows.issued issued, fun tok hm hp => ?_⟩
    · rcases core_cases hc with same | ⟨g, c₀, rfl, hc₀, rfl⟩ | rfl
      · exact core c same
      · exact guards_kept (d := .override "" .failed) h (base.1.fits mem) (core c₀ hc₀)
      · exact absurd (allowed_add h).1 (pending _ mem)
    · rcases apply_row hc with old | written
      · exact row c old
      · exact core c written
    · rcases mem_set hm with rfl | ⟨k, -, hk⟩
      · rcases allowed_pending h hp with old | ⟨fresh, -⟩
        · exact pending _ mem old
        · exact fresh issued
      · exact pending tok (List.mem_of_getElem? hk) hp

end Moves

section Steps

variable {w : World}

theorem first_overrides (f : Successor → Bool) (t : Call) (w : World) (j : JobId) :
    (first t w).overrides f j = 0 := by
  by_cases other : t = .startup
  · subst other
    rfl
  · have unwritten := first_unwritten w other
    generalize first t w = τ at unwritten
    cases unwritten with
    | decides => exact if_neg fun h => h.2.2.1 rfl
    | _ => rfl

theorem spent_overrides (f : Successor → Bool) (h : τ.Spent) (j : JobId) : τ.overrides f j = 0 := by
  cases h <;> rfl

theorem once_start (inv : Once j w.view toks) : Once j w.view (toks ++ [(t, first t w)]) := by
  have old {tok : Call × Tok} (h : tok ∈ toks ++ [(t, first t w)]) :
      tok ∈ toks ∨ tok = (t, first t w) :=
    (List.mem_append.mp h).imp id List.mem_singleton.mp
  have new {type : String} {st : JobStatus} {p : DecisionPhase} {succ : Successor}
      (eq : Tok.decides j (.override type st) p succ = first t w) :
      p = .accepted ∧ succ = .none ∧
        ∀ c, w.view.core j = some c → c.overrideType.isSome = false := by
    cases t with
    | override i r =>
      rcases first_override i r w with h | h | ⟨job, hj, reserves, h⟩ <;> cases eq.trans h
      refine ⟨rfl, rfl, fun c hc => ?_⟩
      simp only [OverrideRequest.reserves, decide_eq_true_eq] at reserves
      rw [view_core, hj] at hc
      cases hc
      exact (open_of_override reserves.1).2.2.2
    | review i r device =>
      rcases first_review i r device w with h | h | ⟨record, -, -, h⟩ |
        ⟨-, job, -, ⟨-, h⟩ | ⟨-, -, h⟩⟩ <;> cases eq.trans h
    | startup | worker | autoAccept | submit | checkPermission | setHub | configure => cases eq
  constructor
  case single =>
    have := inv.single
    have := first_overrides (fun _ => true) t w j
    simp only [tally_append, tally_cons, tally_nil]
    omega
  case unset =>
    intro t' type st succ hm
    rcases old hm with hm | eq
    · exact inv.unset hm
    · exact (new (Prod.mk.inj eq).2).2.2
  case fresh =>
    intro t' type st succ hm
    rcases old hm with hm | eq
    · exact inv.fresh hm
    · cases (new (Prod.mk.inj eq).2).1
  case told =>
    intro t' type st p succ hm said
    rcases old hm with hm | eq
    · exact inv.told hm said
    · obtain ⟨rfl, rfl, -⟩ := new (Prod.mk.inj eq).2
      rcases said with told | made
      · cases told
      · exact absurd rfl made
  case spoken =>
    intro said
    obtain ⟨core, row, issued, pending⟩ := inv.spoken said
    refine ⟨core, row, issued, fun tok hm hp => ?_⟩
    rcases old hm with hm | rfl
    · exact pending tok hm hp
    · exact (first_plain t w).pending j hp

theorem once_finish (inv : Once j v toks) (at_ : toks[i]? = some (t, τ)) :
    Once j v (toks.set i (t, τ.retire)) := by
  have spent := retire_spent τ
  have old {tok : Call × Tok} (h : tok ∈ toks.set i (t, τ.retire)) :
      tok ∈ toks ∨ tok = (t, τ.retire) := by
    rcases mem_set h with h | ⟨k, -, h⟩
    · exact .inr h
    · exact .inl (List.mem_of_getElem? h)
  have kept {t' : Call} {d : Decision} {p : DecisionPhase} {succ : Successor}
      (h : (t', .decides j d p succ) ∈ toks.set i (t, τ.retire)) : (t', .decides j d p succ) ∈ toks := by
    rcases old h with h | eq
    · exact h
    · exact absurd (Prod.mk.inj eq).2.symm (spent.decides j d p succ)
  refine ⟨?_, fun hm => inv.unset (kept hm), fun hm => inv.fresh (kept hm),
    fun hm => inv.told (kept hm), fun said => ?_⟩
  · have := tally_set (f := fun tok : Call × Tok => tok.2.overrides (fun _ => true) j) at_
      (t, τ.retire)
    have := spent_overrides (fun _ => true) spent j
    have := inv.single
    simp only at *
    omega
  · obtain ⟨core, row, issued, pending⟩ := inv.spoken said
    refine ⟨core, row, issued, fun tok hm hp => ?_⟩
    rcases old hm with hm | rfl
    · exact pending tok hm hp
    · exact spent.plain.pending j hp

theorem once_restart (inv : Once j w.view toks) : Once j w.restart.view [] where
  single := Nat.zero_le _
  unset hm := by cases hm
  fresh hm := by cases hm
  told hm := by cases hm
  spoken said := by
    obtain ⟨-, row, issued, -⟩ := inv.spoken said
    exact ⟨fun c hc => row c (restart_core hc), fun c hc => row c (restart_row w j ▸ hc), issued,
      by simp⟩

theorem once (cfg : Settings) (j : JobId) :
    Invariant cfg (fun _ _ => True) Base (Once j) where
  start _ _ inv _ _ _ _ := once_start inv
  move base inv at_ parked _ h := once_move base inv at_ parked h
  finish _ inv at_ _ _ := once_finish inv at_
  crash _ _ inv _ := once_restart inv

end Steps

section Budget

open Classical in
/-- What is left of a budget of one: it is untouched until an override is announced, and then
the announcing call holds it while its successor is as `f` says. -/
noncomputable def budget (f : Successor → Bool) (j : JobId) (v : View) (toks : Toks) : Nat :=
  if v.Announced j then tally (fun tok => tok.2.overrides f j) toks else 1

variable {f : Successor → Bool} {cfg : Settings} {c c' : Run cfg}
  {l : Label (orchestrator cfg)} {toks' : (plan cfg).Toks}

theorem budget_announced (said : v.Announced j) :
    budget f j v toks = tally (fun tok => tok.2.overrides f j) toks := if_pos said

theorem budget_silent (silent : ¬ v.Announced j) : budget f j v toks = 1 := if_neg silent

theorem budget_le (inv : Once j v toks) : budget f j v toks ≤ 1 := by
  unfold budget
  have := tally_mono (fun tok : Call × Tok => overrides_le f tok.2 j) toks
  have := inv.single
  split <;> omega

/-- No step raises the budget. -/
theorem budget_kept (fades : Successor.Fades f) (base : Base c.state.view toks)
    (inv : Once j c.state.view toks) (inv' : Once j c'.state.view toks')
    (effect : Plan.Effect (plan cfg) c.state toks l c'.state toks') :
    budget f j c'.state.view toks' ≤ budget f j c.state.view toks := by
  by_cases said : c.state.view.Announced j
  · generalize c'.state = w' at effect inv'
    cases effect with
    | start t =>
      rw [budget_announced said, budget_announced said, tally_append, tally_cons, tally_nil,
        first_overrides]
      exact Nat.le_refl _
    | quiet => exact Nat.le_refl _
    | move at_ hm =>
      obtain ⟨a, allowed, eq⟩ := hm
      have said' : w'.view.Announced j := Announced.grown said (eq ▸ allowed.grows)
      rw [budget_announced said, budget_announced said']
      rcases once_tally base inv fades at_ allowed with le | ⟨silent, -⟩
      · exact le
      · exact absurd said silent
    | @finish i t τ at_ =>
      rw [budget_announced said, budget_announced said]
      have := tally_set (f := fun tok : Call × Tok => tok.2.overrides f j) at_ (t, τ.retire)
      have := spent_overrides f (retire_spent τ) j
      simp only at *
      omega
    | crash again =>
      cases again
      rw [budget_announced (show c.state.restart.view.Announced j from said)]
      exact Nat.zero_le _
  · rw [budget_silent said]
    exact budget_le inv'

end Budget

section Marks

variable {cfg : Settings} {c c' : Run cfg} {l : Label (orchestrator cfg)}
  {toks' : (plan cfg).Toks}

theorem tally_none : tally (fun tok : Call × Tok => tok.2.overrides (fun _ => false) j) toks = 0 := by
  refine tally_zero fun tok _ => ?_
  cases tok.2 with
  | decides => exact if_neg fun h => by simp at h
  | _ => rfl

theorem announces_spends (base : Base c.state.view toks) (inv : Once j c.state.view toks)
    (effect : Plan.Effect (plan cfg) c.state toks l c'.state toks') (mark : Announces j c l c') :
    budget (fun _ => false) j c'.state.view toks' < budget (fun _ => false) j c.state.view toks := by
  obtain ⟨e, about, grown⟩ := mark
  generalize c'.state = w' at effect grown
  cases effect with
  | start | quiet | finish => simp at grown
  | crash again =>
    cases again
    exact absurd grown (by simp [World.restart])
  | move at_ hm =>
    obtain ⟨a, allowed, eq⟩ := hm
    have mem := List.mem_of_getElem? at_
    have trace : (a.apply c.state.view).trace = c.state.view.trace ++ [.attempted e] := by
      rw [← eq]
      exact grown
    rcases apply_grown trace with rfl | ⟨_, -, eq⟩
    · obtain ⟨type, st, succ, rfl, -⟩ :=
        observe_announces allowed about fun _ _ _ eq => base.1.dispatching (eq ▸ mem)
      have said : w'.view.Announced j :=
        ⟨e, by rw [eq, trace]; exact List.mem_append_right _ (List.mem_singleton_self _), about⟩
      rw [budget_silent (inv.fresh mem), budget_announced said, tally_none]
      exact Nat.one_pos
    · cases eq

/-- A call whose token gives up its share of the budget. -/
theorem share_spent {f : Successor → Bool} {τ τ' : Tok} {toks' : Toks}
    (effect : ∃ u, toks' = toks.set i u) (at_ : toks[i]? = some (t, τ))
    (at' : toks'[i]? = some (t, τ')) (share : τ.overrides f j = 1) (none : τ'.overrides f j = 0) :
    tally (fun tok => tok.2.overrides f j) toks' < tally (fun tok => tok.2.overrides f j) toks := by
  obtain ⟨u, rfl⟩ := effect
  cases (set_at at_).symm.trans at'
  have := tally_set (f := fun tok : Call × Tok => tok.2.overrides f j) at_ (t, τ')
  simp only at *
  omega

/-- Only an override that has been announced returns a success status. -/
theorem effective_token {r : OverrideRequest} {reply : OverrideReply}
    (fits : τ.fits (.override j r)) (ends : OverrideEnds j r (.ok reply) τ v)
    (effective : reply.effective = true) :
    ∃ type st p succ, τ = .decides j (.override type st) p succ ∧ p ≠ .accepted ∧ p.told = true := by
  cases τ with
  | decides k d p succ =>
    cases d with
    | override type st =>
      obtain ⟨⟨_, eq, -⟩, -⟩ := fits
      cases eq
      exact ⟨type, st, p, succ, rfl, (ends.decided _ _ _ rfl).1,
        ends.effective _ _ _ reply rfl rfl effective⟩
    | review =>
      obtain ⟨⟨-, _, _, eq, -⟩, -⟩ := fits
      cases eq
  | idle =>
    rw [ends.idle rfl reply rfl] at effective
    cases effective
  | refused =>
    obtain ⟨reason, eq⟩ := ends.refused rfl
    cases eq
    cases effective
  | decided k d o =>
    cases d with
    | override type st =>
      obtain ⟨⟨_, eq, -⟩, -⟩ := fits
      cases eq
      exact absurd rfl (ends.live _ _)
    | review =>
      obtain ⟨⟨-, _, _, eq, -⟩, -⟩ := fits
      cases eq
  | defers =>
    obtain ⟨_, _, _, eq, -⟩ := fits
    cases eq
  | repeats =>
    obtain ⟨_, _, _, eq, -⟩ := fits
    cases eq
  | submits =>
    obtain ⟨_, eq⟩ := fits
    cases eq
  | fetches | works | boots | polls => cases fits

theorem succeeds_spends (base : Base c.state.view toks) (inv : Once j c.state.view toks)
    (tracks : (plan cfg).Tracks c toks) (next : Step (orchestrator cfg) c l c')
    (tracks' : (plan cfg).Tracks c' toks')
    (effect : Plan.Effect (plan cfg) c.state toks l c'.state toks') (mark : Succeeds j c l c') :
    budget (fun _ => true) j c'.state.view toks' < budget (fun _ => true) j c.state.view toks := by
  obtain ⟨i, r, p, reply, rfl, at_, res, effective⟩ := mark
  have finished : c.running = some i ∧ c' = { c with running := none } := by
    cases next with
    | finish run => exact ⟨run, rfl⟩
    | get _ at' | set _ at' | park _ at' =>
      cases at_.symm.trans at'
      cases res
  obtain ⟨run, rfl⟩ := finished
  obtain ⟨τ, tok⟩ := tracks.token at_
  have ends : OverrideEnds j r (.ok reply) τ c.state.view := by
    have follows := tracks.runs at_ tok run
    cases p with
    | ret b =>
      cases res
      exact follows
    | raise | get | set | call => cases res
  have mem := List.mem_of_getElem? tok
  obtain ⟨type, st, q, succ, rfl, taken, told⟩ :=
    effective_token (base.1.fits mem) ends effective
  have said : c.state.view.Announced j := inv.told mem (.inl told)
  -- the finished call has retired its token
  obtain ⟨τ', tok'⟩ := tracks'.token at_
  have spent : τ'.Spent := by
    rcases tracks'.stopped at_ tok' nofun with ⟨_, _, _, _, _, call, _⟩ | ⟨_, τ₀, _, _, _, _, eq⟩
    · have call : p = _ := call
      rw [call] at res
      cases res
    · have eq : τ' = τ₀.retire := eq
      exact eq ▸ retire_spent τ₀
  rw [budget_announced said, budget_announced said]
  refine share_spent ?_ tok tok' (overrides_taken taken) (spent_overrides _ spent j)
  cases effect with
  | quiet => exact ⟨_, (Plan.set_self tok).symm⟩
  | move at' | finish at' => exact ⟨_, rfl⟩

theorem succession_spends (base : Base c.state.view toks) (inv : Once j c.state.view toks)
    (effect : Plan.Effect (plan cfg) c.state toks l c'.state toks') (mark : Succession j c l c') :
    budget Successor.unborn j c'.state.view toks' < budget Successor.unborn j c.state.view toks := by
  obtain ⟨k, job, absent, unstored, born, parent⟩ := mark
  have absent : c.state.view.core k = none := by simp [absent]
  have unstored : c.state.view.row k = none := by simp [view_row, unstored]
  have born : c'.state.view.core k = some job.core := by simp [born]
  generalize c'.state = w' at effect born
  cases effect with
  | start | quiet | finish => exact nomatch absent.symm.trans born
  | crash again =>
    cases again
    exact nomatch unstored.symm.trans (restart_core born)
  | @move i t τ τ' _ at_ hm =>
    obtain ⟨a, allowed, eq⟩ := hm
    have mem := List.mem_of_getElem? at_
    have grows := allowed.grows
    rw [eq] at born
    rcases core_cases born with same | ⟨_, _, rfl, here, -⟩ | rfl
    · exact nomatch absent.symm.trans same
    · exact nomatch absent.symm.trans here
    · have parent : job.core.parentJobId = some j := parent
      generalize job.core = core at *
      cases allowed with
      | store => cases parent
      | storeSuccessor =>
        rename_i p
        cases parent
        obtain ⟨type, st, rfl⟩ := (base.1.minting mem).resolve_left nofun
        have said : c.state.view.Announced j := inv.told mem (.inr nofun)
        have taken : p ≠ .accepted := by
          rintro rfl
          exact unset_silent base inv mem said
        have said' : w'.view.Announced j := Announced.grown said (eq ▸ grows)
        rw [budget_announced said, budget_announced said']
        exact share_spent ⟨_, rfl⟩ at_ (set_at at_) (if_pos ⟨rfl, rfl, taken, rfl⟩)
          (if_neg fun h => by cases h.2.2.2)

end Marks

/-- At most one override of a job is announced, at most one returns a success status, and at
most one successor of the job is made, over all lifetimes of the process. -/
theorem override_first_writer (cfg : Settings) (persistent : Bool) (j : JobId) :
    AtMostOnce (orchestrator cfg) (Anyhow cfg) (.boot _ (World.initial persistent)) (Announces j) ∧
      AtMostOnce (orchestrator cfg) (Anyhow cfg) (.boot _ (World.initial persistent)) (Succeeds j) ∧
      AtMostOnce (orchestrator cfg) (Anyhow cfg) (.boot _ (World.initial persistent))
        (Succession j) := by
  have silent : ¬ (World.initial persistent).view.Announced j := by
    rintro ⟨_, mem, -⟩
    cases mem
  have initial : Once j (World.initial persistent).view [] :=
    ⟨Nat.zero_le _, (by cases ·), (by cases ·), (by cases ·), fun said => absurd said silent⟩
  have bound (f : Successor → Bool) {n : Nat} (h : n ≤ budget f j (World.initial persistent).view []) :
      n ≤ 1 :=
    Nat.le_trans h (budget_le initial)
  refine ⟨fun run => bound (fun _ => false) ?_, fun run => bound (fun _ => true) ?_,
    fun run => bound Successor.unborn ?_⟩
  · exact Invariant.counted (Drnt.Orchestrator.base cfg) (once cfg j) (budget (fun _ => false) j)
      (fun tracks base inv _ next tracks' inv' effect =>
        ⟨budget_kept ⟨(by simp), (by simp), (by simp)⟩ base inv inv' effect, announces_spends base inv effect⟩)
      (Plan.tracks_boot _) (base_initial persistent) initial run
  · exact Invariant.counted (Drnt.Orchestrator.base cfg) (once cfg j) (budget (fun _ => true) j)
      (fun tracks base inv _ next tracks' inv' effect =>
        ⟨budget_kept fades_any base inv inv' effect,
          succeeds_spends base inv tracks next tracks' effect⟩)
      (Plan.tracks_boot _) (base_initial persistent) initial run
  · exact Invariant.counted (Drnt.Orchestrator.base cfg) (once cfg j) (budget Successor.unborn j)
      (fun tracks base inv _ next tracks' inv' effect =>
        ⟨budget_kept ⟨fun _ _ => rfl, by intros; contradiction, by intros; contradiction⟩ base inv inv' effect,
          succession_spends base inv effect⟩)
      (Plan.tracks_boot _) (base_initial persistent) initial run

end Once

end Drnt.Orchestrator
