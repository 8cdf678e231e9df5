import Drnt.Orchestrator.Trial

/-! Submissions under one key: at most one job is made and queued, and every answer names it,
as long as no submission meets a key whose job is not in memory. -/
namespace Drnt.Orchestrator

open Lib Lib.Coop Trial

section Keyed

/-- How often the job may still be put into the queue. -/
def Tok.queues (j : JobId) : Tok → Nat
  | submits _ _ p => p.holds j
  | decides _ _ _ succ => succ.holds j
  | boots todo p => todo.count j + p.holds j
  | idle | refused | decided _ _ _ | defers _ _ | repeats _ | fetches _ | works _ _ | polls _ => 0

def queuings (v : View) (j : JobId) : Nat := v.trace.count (.enqueued j)

/-- `old` are the ids given out before the process started. -/
structure Keyed (old : List Uuid7) (v : View) (toks : Toks) : Prop where
  fresh : ∀ {t τ}, (t, τ) ∈ toks → τ.again = false
  claimed : ∀ {t again l k j}, (t, .submits again l (.claimed k j)) ∈ toks → v.records k = some j
  keyed : ∀ {j c k}, v.core j = some c → c.idempotencyKey = some k → j ∈ old ∨ v.records k = some j
  asleep : ∀ {j c}, v.phase = .stopped → v.core j = some c → j ∈ old
  issued : ∀ {j}, j ∈ old → j ∈ v.issued
  once : ∀ {j}, j ∉ old → queuings v j + tally (fun tok => tok.2.queues j) toks ≤ 1

variable {old : List Uuid7} {v : View} {toks : Toks} {i : Nat} {t : Call} {τ τ' : Tok} {a : Act}
  {j : JobId}

theorem allowed_again (h : Allowed τ v a τ') (fresh : τ.again = false) : τ'.again = false := by
  cases h with
  | release | serve => rfl
  | _ => exact fresh

theorem queues_le_holds (τ : Tok) (j : JobId) : τ.queues j ≤ τ.holds j := by
  cases τ <;> first | exact Nat.le_refl _ | exact Nat.zero_le _

theorem queuings_other {v : View} {o : Obs} (h : o ≠ .enqueued j) :
    queuings ((Act.observe o).apply v) j = queuings v j := by
  simp [queuings, Act.apply, List.count_append, h]

/-- Whoever queues a job could do so once less than before. -/
theorem allowed_queues (h : Allowed τ v a τ') (j : JobId) :
    queuings (a.apply v) j + τ'.queues j ≤ queuings v j + τ.queues j ∨
      j ∉ v.issued ∧ queuings (a.apply v) j + τ'.queues j ≤ queuings v j + τ.queues j + 1 := by
  have observed {o : Obs} {n m : Nat} (other : o ≠ .enqueued j) (le : n ≤ m) :
      queuings ((Act.observe o).apply v) j + n ≤ queuings v j + m := by
    rw [queuings_other other]; omega
  cases h with
  | mintJob fresh =>
    rename_i k _ _
    by_cases hk : k = j
    · subst hk; exact .inr ⟨fresh, by simp [queuings, Act.apply, Tok.queues, SubmitPhase.holds]⟩
    · exact .inl (by simp [queuings, Act.apply, Tok.queues, SubmitPhase.holds, hk])
  | mintSuccessor _ fresh =>
    rename_i k _
    by_cases hk : k = j
    · subst hk; exact .inr ⟨fresh, by simp [queuings, Act.apply, Tok.queues, Successor.holds]⟩
    · exact .inl (by simp [queuings, Act.apply, Tok.queues, Successor.holds, hk])
  | enqueueNew | enqueueSuccessor | bootEnqueue =>
    refine .inl ?_
    simp only [queuings, Act.apply, Tok.queues, SubmitPhase.holds, Successor.holds,
      BootPhase.holds, List.count_append, List.count_singleton, beq_iff_eq, Obs.enqueued.injEq]
    omega
  | bootFailEvent mem | bootDeliverEvent mem =>
    have := count_picked mem j
    exact .inl (observed (by simp) (by simp only [Tok.queues, BootPhase.holds]; omega))
  | bootReset mem | bootCount mem =>
    refine .inl ?_
    have := count_picked mem j
    simp only [queuings, Act.apply, Tok.queues, BootPhase.holds]
    omega
  | bootScan =>
    rename_i todo k _ _
    have := (List.filter_sublist (p := (· ≠ k)) (l := todo)).count_le j
    exact .inl (observed (by simp) (by simp only [Tok.queues, BootPhase.holds]; omega))
  | note h => exact .inl (observed (by rintro rfl; exact h) (Nat.le_refl _))
  | announce | announceReview | announceDefer | abort | endEvent | authorise | dispatch | call
  | receive | proposeEvent | deliverEvent | failEvent | acceptEvent =>
    exact .inl (observed (by simp) (Nat.le_refl _))
  | bootDrop =>
    exact .inl (observed (by simp) (by simp only [Tok.queues, BootPhase.holds]; omega))
  | store ready =>
    rcases ready with rfl | ⟨-, rfl⟩ <;> exact .inl (Nat.le_refl _)
  | _ => exact .inl (by simp [queuings, Act.apply, Tok.queues, SubmitPhase.holds,
      Successor.holds, BootPhase.holds])

theorem allowed_claimed {again : Bool} {l : Lease} {k : String} (h : Allowed τ v a τ')
    (ht : τ' = .submits again l (.claimed k j)) :
    (∃ l, τ = .submits again l (.claimed k j)) ∨ a = .bind k j := by
  subst ht
  cases h with
  | bind => exact .inr rfl
  | _ => exact .inl ⟨_, rfl⟩

theorem keyed_move (base : Custody v toks) (inv : Keyed old v toks)
    (at_ : toks[i]? = some (t, τ)) (h : Allowed τ v a τ') :
    Keyed old (a.apply v) (toks.set i (t, τ')) := by
  have mem : (t, τ) ∈ toks := List.mem_of_getElem? at_
  have grows := h.grows
  refine ⟨fun {t' τ₁} hm => ?_, fun {t' again l k j} hm => ?_, fun {j c k} hc hk => ?_,
    fun {j c} stop hc => ?_, fun {j} hj => grows.issued (inv.issued hj), fun {j} new => ?_⟩
  · rcases mem_set hm with eq | ⟨n, -, hn⟩
    · cases eq; exact allowed_again h (inv.fresh mem)
    · exact inv.fresh (List.mem_of_getElem? hn)
  · rcases mem_set hm with eq | ⟨n, -, hn⟩
    · cases eq
      rcases allowed_claimed h rfl with ⟨l, rfl⟩ | rfl
      · exact grows.records (inv.claimed mem)
      · simp [Act.apply]
    · exact grows.records (inv.claimed (List.mem_of_getElem? hn))
  · rcases allowed_origin h hc with ⟨c₀, hc₀, -, same, -⟩ | rfl
    · exact (inv.keyed hc₀ (same ▸ hk)).imp id grows.records
    · cases h with
      | store ready =>
        cases hk
        rcases ready with rfl | ⟨rfl, -⟩
        · exact .inr (inv.claimed mem)
        · exact absurd (inv.fresh mem) (by simp [Tok.again])
      | storeSuccessor => cases hk
  · -- nothing is made before the process serves
    have same : v.phase = .stopped := by
      cases h with
      | boot | serve => cases stop
      | _ => exact stop
    rcases apply_core hc with ⟨c₀, hc₀⟩ | ⟨c₀, rfl⟩
    · exact inv.asleep same hc₀
    · have serving := base.phased mem
      cases h with
      | store ready =>
        rcases ready with rfl | ⟨-, rfl⟩ <;>
          exact absurd ((serving (by simp)).symm.trans same) (by simp)
      | storeSuccessor => exact absurd (serving.symm.trans same) (by simp)
  · have change := tally_set (f := fun tok => tok.2.queues j) at_ (t, τ')
    have before := inv.once new
    simp only at change
    rcases allowed_queues h j with le | ⟨unknown, le⟩
    · omega
    · have unheld : load v toks j = 0 := by
        by_contra ne
        exact unknown (base.known j (Nat.pos_of_ne_zero ne))
      have unqueued : queuings v j = 0 :=
        List.count_eq_zero.mpr fun mem => unknown (base.enqueued mem)
      have idle : tally (fun tok => tok.2.queues j) toks = 0 := by
        refine tally_zero fun tok hm => ?_
        obtain ⟨n, hn⟩ := List.getElem?_of_mem hm
        have := le_tally (f := fun tok => tok.2.holds j) hn
        have := queues_le_holds tok.2 j
        simp only [load] at unheld
        omega
      have := le_tally (f := fun tok : Call × Tok => tok.2.queues j) at_
      simp only at this
      omega

theorem first_again (t : Call) (w : World) (h : (first t w).again = true) :
    ∃ s, t = .submit s ∧ s.stranded w = true := by
  cases t with
  | submit s => exact ⟨s, rfl, h⟩
  | override j r =>
    rcases first_override j r w with eq | eq | ⟨_, -, -, eq⟩ <;> rw [eq] at h <;> cases h
  | review j r device =>
    rcases first_review j r device w with eq | eq | ⟨_, -, -, eq⟩ |
      ⟨-, _, -, ⟨-, eq⟩ | ⟨-, -, eq⟩⟩ <;> rw [eq] at h <;> cases h
  | startup | worker | autoAccept | checkPermission | setHub | configure => cases h

/-- No submission starts with a key that is stored for a job that is not in memory. -/
def unstranded {cfg : Settings} (c : Run cfg) : Call → Bool
  | .submit s => !s.stranded c.state
  | _ => true

theorem keyed_start {w : World} (inv : Keyed old w.view toks) (may : mayStart w t)
    (met : ∀ s, t = .submit s → s.stranded w = false) :
    Keyed old w.view (toks ++ [(t, first t w)]) := by
  have last {tok : Call × Tok} (h : tok ∈ toks ++ [(t, first t w)]) :
      tok ∈ toks ∨ tok = (t, first t w) :=
    (List.mem_append.mp h).imp id List.mem_singleton.mp
  refine ⟨fun hm => ?_, fun {t' again l k j} hm => ?_, inv.keyed, inv.asleep, inv.issued,
    fun {j} new => ?_⟩
  · rcases last hm with hm | eq
    · exact inv.fresh hm
    · cases eq
      by_contra again
      obtain ⟨s, rfl, stranded⟩ := first_again t w (by simpa using again)
      rw [met s rfl] at stranded
      cases stranded
  · rcases last hm with hm | eq
    · exact inv.claimed hm
    · have := (first_plain t w).pending j
      rw [← (Prod.mk.inj eq).2] at this
      exact absurd rfl this
  · rw [tally_append, tally_cons, tally_nil]
    have := inv.once new
    have idle : (first t w).queues j = 0 := by
      by_cases other : t = .startup
      · subst other
        refine List.count_eq_zero.mpr fun mem => new ?_
        obtain ⟨c, hc⟩ := mem_keys mem
        exact inv.asleep may hc
      · have := queues_le_holds (first t w) j
        rw [(first_unwritten w other).holds] at this
        omega
    change _ + (_ + ((first t w).queues j + 0)) ≤ 1
    omega

theorem retire_again (τ : Tok) : τ.retire.again = τ.again := by
  cases τ with
  | defers p phase => cases phase <;> rfl
  | _ => rfl

theorem keyed_finish (inv : Keyed old v toks) (at_ : toks[i]? = some (t, τ)) :
    Keyed old v (toks.set i (t, τ.retire)) := by
  refine ⟨fun {t' τ₁} hm => ?_, fun {t' again l k j} hm => ?_, inv.keyed, inv.asleep, inv.issued,
    fun {j} new => ?_⟩
  · rcases mem_set hm with eq | ⟨n, -, hn⟩
    · cases eq
      exact (retire_again τ).trans (inv.fresh (List.mem_of_getElem? at_))
    · exact inv.fresh (List.mem_of_getElem? hn)
  · rcases mem_set hm with eq | ⟨n, -, hn⟩
    · have := (retire_spent τ).plain.pending j
      rw [← (Prod.mk.inj eq).2] at this
      exact absurd rfl this
    · exact inv.claimed (List.mem_of_getElem? hn)
  · have change := tally_set (f := fun tok => tok.2.queues j) at_ (t, τ.retire)
    have := inv.once new
    have := queues_le_holds τ.retire j
    rw [(retire_spent τ).empty] at this
    simp only at change
    omega

theorem keyed (cfg : Settings) (old : List Uuid7) :
    Invariant cfg (Meets (starting unstranded)) Base (Keyed old) where
  start _ _ inv _ _ meets may := keyed_start inv may fun s eq => by
    subst eq; simpa [Meets, starting, unstranded] using meets
  move base inv at_ _ _ h := keyed_move base.1 inv at_ h
  finish _ inv at_ _ _ := keyed_finish inv at_
  crash _ _ _ meets := by cases meets

theorem keyed_boot {w : World} (base : Base w.view []) : Keyed w.view.issued w.view [] where
  fresh h := by cases h
  claimed h := by cases h
  keyed h _ := .inl (base.1.issued h)
  asleep _ h := base.1.issued h
  issued h := h
  once {j} new := by
    have none : queuings w.view j = 0 :=
      List.count_eq_zero.mpr fun mem => new (base.1.enqueued mem)
    rw [none]
    exact Nat.zero_le 1

end Keyed

section Submit

/-- One job, at most, is made under the key and queued once since the process started on `w`,
and every submission under the key that returns names it. -/
def SubmitsOnce {cfg : Settings} (w : World) (c : Run cfg) (key : String) : Prop :=
  ∃ j, (∀ i job, i ∉ w.issued → c.state.job? i = some job → job.idempotencyKey = some key →
      i = j ∧ queuings c.state.view i ≤ 1) ∧
    ∀ s i, s.plainKey? = some key → c.Ended (.submit s) (.ok i) →
      i = j ∧ (c.state.job? i).isSome

variable {cfg : Settings} {w : World} {c : Run cfg}

theorem submit_once (boots : Boots cfg w)
    (run : Reach (orchestrator cfg) (Meets (starting unstranded)) (.boot _ w) c) (key : String) :
    SubmitsOnce w c key := by
  obtain ⟨toks, tracks, -, inv⟩ := Invariant.reach (base cfg) (keyed cfg w.issued)
    (Plan.tracks_boot _) boots.base (keyed_boot boots.base) run
  have made {i job} (new : i ∉ w.issued) (hi : c.state.job? i = some job)
      (hk : job.idempotencyKey = some key) : c.state.view.records key = some i :=
    (inv.keyed (j := i) (c := job.core) (by simp [hi]) hk).resolve_left new
  have named {s i} (hs : s.plainKey? = some key) (ended : c.Ended (.submit s) (.ok i)) :
      c.state.view.records key = some i ∧ (c.state.job? i).isSome := by
    obtain ⟨n, p, at_, fin⟩ := ended
    obtain ⟨τ, tok⟩ := tracks.token at_
    obtain ⟨τ₀, s₀, ends, grows, same⟩ := tracks.result at_ tok fin
    have fresh : τ₀.again = false := by
      have := inv.fresh (List.mem_of_getElem? tok)
      rcases same with rfl | rfl
      · exact this
      · exact (retire_again τ₀).symm.trans this
    have grows : s₀.view.Grows c.state.view := grows
    rcases ends.plain key i hs rfl with again | ⟨bound, core, hc⟩
    · rw [fresh] at again; cases again
    · obtain ⟨core', hc'⟩ := grows.core hc
      refine ⟨grows.records bound, ?_⟩
      obtain ⟨job, hj, -⟩ := Option.map_eq_some_iff.mp hc'
      rw [hj]; rfl
  have once {i} (new : i ∉ w.issued) : queuings c.state.view i ≤ 1 := by
    have := inv.once new
    omega
  cases hk : c.state.view.records key with
  | some j =>
    refine ⟨j, fun i job new hi key => ⟨?_, once new⟩, fun s i hs ended => ?_⟩
    · exact Option.some.inj ((made new hi key).symm.trans hk)
    · obtain ⟨bound, here⟩ := named hs ended
      exact ⟨Option.some.inj (bound.symm.trans hk), here⟩
  | none =>
    refine ⟨⟨0, 0, 0⟩, fun i job new hi key => ?_, fun s i hs ended => ?_⟩
    · rw [made new hi key] at hk; cases hk
    · rw [(named hs ended).1] at hk; cases hk

theorem submit_once_witness :
    ∃ c : Run plain, (c.state.job? (uuid 1)).any (·.idempotencyKey = some "k") = true ∧
      SubmitsOnce (World.initial false) c "k" := by
  obtain ⟨c, run, made⟩ := reached (guards unstranded) (fresh plain false)
    [.start .startup, .finish 0, .start (.submit (request (some "k"))), .finish 1]
    (fun c => (c.state.job? (uuid 1)).any (·.idempotencyKey = some "k")) (by decide +kernel)
  exact ⟨c, made, submit_once (.initial plain false) run "k"⟩

/-- Two submissions overlap: the key is stored at once, the job only after the audit's answer. -/
theorem submit_twice : ∃ c : Run plain,
    Reach (orchestrator plain) (NoCrash plain) (.boot _ (World.initial false)) c ∧
      ¬ SubmitsOnce (World.initial false) c "k" := by
  obtain ⟨c, run, made⟩ := reached (guards fun _ _ => true) (fresh plain false)
    [.start .startup, .finish 0, .start (.submit (request (some "k"))),
      .start (.submit (request (some "k"))), .finish 1, .finish 2]
    (fun c => (c.state.job? (uuid 1)).any (·.idempotencyKey = some "k") &&
      (c.state.job? (uuid 3)).any (·.idempotencyKey = some "k")) (by decide +kernel)
  refine ⟨c, run, fun ⟨j, one, _⟩ => ?_⟩
  obtain ⟨first, second⟩ := Bool.and_eq_true_iff.mp made
  obtain ⟨job, hj, key⟩ := (Option.any_eq_true _ _).mp first
  obtain ⟨job', hj', key'⟩ := (Option.any_eq_true _ _).mp second
  have same := (one _ job (by simp [World.initial]) hj (by simpa using key)).1
  have same' := (one _ job' (by simp [World.initial]) hj' (by simpa using key')).1
  exact absurd (same.trans same'.symm) (by decide)

end Submit

end Drnt.Orchestrator
