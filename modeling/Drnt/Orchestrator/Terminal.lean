import Drnt.Orchestrator.Trial

/-! Jobs that have failed, are revoked or closed: nothing moves them any more, as long as every
decision on a job finds it in nobody's hands. -/
namespace Drnt.Orchestrator

open Lib Lib.Coop Trial

section Calm

def JobStatus.final : JobStatus → Bool
  | failed | revoked | closedNoAction => true
  | submitted | classified | dispatched | responseReceived | delivered | proposalReady => false

/-- The decision has still to be settled. -/
def DecisionPhase.unsettled : DecisionPhase → Bool
  | accepted | reserved | announced | ending => true
  | settled | concluded _ | aborted => false

/-- The call has still to settle its decision on the job. -/
def Tok.deciding (j : JobId) : Tok → Prop
  | decides i _ p _ => i = j ∧ p.unsettled
  | idle | refused | submits _ _ _ | decided _ _ _ | defers _ _ | repeats _ | fetches _ | works _ _
  | boots _ _ | polls _ => False

/-- Declining to act is the one decision that ends a job before it has settled. -/
def Tok.declines (τ : Tok) : Prop :=
  ∀ i d p succ, τ = .decides i d p succ → p ≠ .accepted ∧ d.endStatus = .closedNoAction

structure Calm (v : View) (toks : Toks) : Prop where
  one : ∀ {i k : Nat} {j : JobId} {a b : Call × Tok}, toks[i]? = some a → toks[k]? = some b →
    a.2.deciding j → b.2.deciding j → i = k
  apart : ∀ {t τ j}, (t, τ) ∈ toks → τ.deciding j → load v toks j = 0
  ended : ∀ {j c}, v.core j = some c → c.status.final → ¬ Executing v toks j
  closed : ∀ {t j c}, (t, .works j .closed) ∈ toks → v.core j = some c → c.status.final →
    c.status = .failed
  declined : ∀ {t τ j c}, (t, τ) ∈ toks → τ.deciding j → v.core j = some c → c.status.final →
    c.status = .closedNoAction ∧ τ.declines

variable {v : View} {toks : Toks} {i : Nat} {t : Call} {τ τ' : Tok} {a : Act} {j : JobId}
  {g : Core → Core} {c : Core}

theorem about_of_deciding (h : τ.deciding j) : τ.about j := by
  cases τ <;> first | exact h.1 | exact h.elim

theorem allowed_deciding (h : Allowed τ v a τ') (hd : τ'.deciding j) : τ.deciding j := by
  cases h with
  | reserve | announce | announceReview | endEvent => exact ⟨hd.1, rfl⟩
  | settle | conclude | abort => exact absurd hd.2 (by simp [DecisionPhase.unsettled])
  | release | serve => exact hd.elim
  | _ => exact hd

theorem reserve_status (d : Decision) (c : Core) : (d.reserve c).status = c.status ∨
    d.endStatus = .closedNoAction ∧ (d.reserve c).status = .closedNoAction := by
  cases d with
  | override => exact .inl rfl
  | review p =>
    simp only [Decision.reserve, Decision.endStatus, Decision.reviewEnd]
    split
    · rename_i hp
      right
      simp [hp]
    · exact .inl rfl

/-- Who changes the status of a job: its executor, the pipeline once more, or a decision. -/
inductive Mover (j : JobId) (c c' : Core) : Tok → Prop
  | nobody {σ} (same : c'.status = c.status) : Mover j c c' σ
  | executor {σ} (ex : σ.executes j) : Mover j c c' σ
  | pipeline (failed : c'.status = .failed) : Mover j c c' (.works j .closed)
  | decision {d p succ} (open_ : p.unsettled)
      (status : c'.status = .closedNoAction ∧ d.endStatus = .closedNoAction ∨
        p = .ending ∧ c'.status = d.endStatus) : Mover j c c' (.decides j d p succ)
  | startup {todo p} (mem : j ∈ todo) (live : c.status.live) (reset : c'.status = .classified) :
      Mover j c c' (.boots todo p)

theorem allowed_mover (h : Allowed τ v (.revise j g) τ') (hc : v.core j = some c) :
    Mover j c (g c) τ := by
  cases h with
  | failNew | failSuccessor | bootFail | bootDeliver => exact .executor rfl
  | classify | progress | propose | deliver => exact .executor ⟨rfl, nofun⟩
  | fail ready hg told =>
    rename_i stage error
    by_cases closed : stage = .closed
    · subst closed
      exact .pipeline (by rw [hg c]; rfl)
    · exact .executor ⟨rfl, closed⟩
  | reserve =>
    rename_i d succ
    rcases reserve_status d c with same | ⟨closes, closed⟩
    · exact .nobody same
    · exact .decision rfl (.inl ⟨closed, closes⟩)
  | settle _ hg =>
    rename_i d succ error _
    refine .decision rfl ?_
    rcases hg with rfl | rfl
    · exact .inr ⟨rfl, rfl⟩
    · rcases reserve_status d (c.closes d.endStatus error) with same | ⟨closes, closed⟩
      · exact .inr ⟨rfl, same⟩
      · exact .inl ⟨closed, closes⟩
  | bootReset mem status =>
    refine .startup mem ?_ rfl
    have := status c hc
    cases hs : c.status <;> simp_all [JobStatus.live, queueable]
  | reserveAgain | bootRecount | bootCount | autoAccept => exact .nobody rfl

theorem live_final {st : JobStatus} (live : st.live) : st.final = false := by
  cases st <;> first | rfl | cases live

/-- What moves a job that has ended leaves its status as it is. -/
theorem mover_final {c' : Core} (inv : Calm v toks) (mem : (t, τ) ∈ toks)
    (hc : v.core j = some c) (final : c.status.final) (h : Mover j c c' τ) :
    c'.status = c.status := by
  cases h with
  | nobody same => exact same
  | executor ex => exact absurd (.inr ⟨_, mem, ex⟩) (inv.ended hc final)
  | pipeline failed => exact failed.trans (inv.closed mem hc final).symm
  | decision open_ status =>
    obtain ⟨closed, declines⟩ := inv.declined mem ⟨rfl, open_⟩ hc final
    rcases status with ⟨same, -⟩ | ⟨-, same⟩
    · exact same.trans closed.symm
    · exact same.trans ((declines _ _ _ _ rfl).2.trans closed.symm)
  | startup _ live => rw [live_final live] at final; cases final

/-- A job that has ended keeps its status in every step. -/
theorem allowed_final {c' : Core} (base : Custody v toks) (inv : Calm v toks) (mem : (t, τ) ∈ toks)
    (h : Allowed τ v a τ') (hc : v.core j = some c) (final : c.status.final)
    (hc' : (a.apply v).core j = some c') : c'.status = c.status := by
  rcases core_cases hc' with same | ⟨g, c₀, rfl, hc₀, rfl⟩ | rfl
  · cases hc.symm.trans same
    rfl
  · cases hc.symm.trans hc₀
    exact mover_final inv mem hc final (allowed_mover h hc)
  · rw [base.pending mem (allowed_add h).1] at hc
    cases hc

theorem allowed_add_status (h : Allowed τ v (.add j c) τ') : c.status.final = false := by
  cases h with
  | store | storeSuccessor => rfl

/-- The executor that ends a job lets go of it. -/
theorem allowed_finish (h : Allowed τ v (.revise j g) τ') (ex : τ.executes j)
    (other : ¬ τ.deciding j) (before : c.status.final = false) (final : (g c).status.final) :
    τ' = .works j .closed ∨ τ'.holds j + 1 ≤ τ.holds j := by
  cases h with
  | failNew | failSuccessor => right; simp [Tok.holds, SubmitPhase.holds, Successor.holds]
  | bootFail => right; simp [Tok.holds, BootPhase.holds]
  | fail => exact .inl rfl
  | progress status => rcases status with rfl | rfl <;> cases final
  | classify | propose | deliver | bootReset | bootDeliver => cases final
  | reserve | settle => exact absurd ⟨rfl, rfl⟩ other
  | reserveAgain | bootRecount | bootCount => exact absurd (before.symm.trans final) (by simp)
  | autoAccept => exact ex.elim

theorem allowed_declines (h : Allowed τ v a τ') (hd : τ.declines) : τ'.declines := by
  have same {j : JobId} {d : Decision} {p p' : DecisionPhase} {succ succ' : Successor}
      (hd : (Tok.decides j d p succ).declines) (later : p ≠ .accepted → p' ≠ .accepted) :
      (Tok.decides j d p' succ').declines := by
    intro i e q s eq
    cases eq
    obtain ⟨taken, closes⟩ := hd _ _ _ _ rfl
    exact ⟨later taken, closes⟩
  cases h with
  | reserve | announce | announceReview | endEvent | settle | conclude | abort =>
    exact same hd fun _ => nofun
  | reserveAgain | mintSuccessor | storeSuccessor | enqueueSuccessor | failSuccessor =>
    exact same hd id
  | quiet | persist | note | mint => exact hd
  | _ => exact fun _ _ _ _ eq => by cases eq

section Moves

/-- Whoever decides on a job has it not in hand, and nobody else has. -/
theorem decider_alone (inv : Calm v toks) (mem : (t, τ) ∈ toks) (hd : τ.deciding j)
    {tok : Call × Tok} (hm : tok ∈ toks) : tok.2.holds j = 0 := by
  obtain ⟨k, hk⟩ := List.getElem?_of_mem hm
  have := le_tally (f := fun tok => tok.2.holds j) hk
  have := inv.apart mem hd
  simp only [load] at this
  omega

theorem decider_idle (inv : Calm v toks) (mem : (t, τ) ∈ toks) (hd : τ.deciding j) :
    ¬ Executing v toks j := by
  intro ex
  have := executing_load ex
  have := inv.apart mem hd
  omega

/-- A revision makes nobody an executor, except for what the startup picks. -/
theorem revise_executing (at_ : toks[i]? = some (t, τ)) (h : Allowed τ v (.revise j g) τ')
    (ex : Executing ((Act.revise j g).apply v) (toks.set i (t, τ')) j) :
    Executing v toks j ∨ ∃ todo p, τ = .boots todo p ∧ j ∈ todo := by
  rcases executing_cases at_ h ex with before | ⟨c, eq⟩ | ⟨todo, p, boots, hj, -⟩
  · exact .inl before
  · cases eq
  · exact .inr ⟨todo, p, boots, hj⟩

theorem ended_move (base : Custody v toks) (inv : Calm v toks) (at_ : toks[i]? = some (t, τ))
    (h : Allowed τ v a τ') (hc : (a.apply v).core j = some c) (final : c.status.final) :
    ¬ Executing (a.apply v) (toks.set i (t, τ')) j := by
  have mem : (t, τ) ∈ toks := List.mem_of_getElem? at_
  intro ex
  rcases core_cases hc with same | ⟨g, c₀, rfl, hc₀, rfl⟩ | rfl
  · rcases executing_cases at_ h ex with before | ⟨c₁, rfl⟩ | ⟨todo, p, -, -, status⟩
    · exact inv.ended same final before
    · rw [base.pending mem (allowed_add h).1] at same; cases same
    · rw [live_final (status c same).1] at final; cases final
  · cases allowed_mover h hc₀ with
    | nobody same =>
      rw [same] at final
      rcases executing_cases at_ h ex with before | ⟨c₁, eq⟩ | ⟨todo, p, -, -, status⟩
      · exact inv.ended hc₀ final before
      · cases eq
      · rw [live_final (status c₀ hc₀).1] at final; cases final
    | executor exτ =>
      by_cases hd : τ.deciding j
      · exact decider_idle inv mem hd (.inr ⟨_, mem, exτ⟩)
      · have before : c₀.status.final = false := by
          by_contra already
          exact inv.ended hc₀ (by simpa using already) (.inr ⟨_, mem, exτ⟩)
        rcases allowed_finish h exτ hd before final with rfl | less
        · exact closed_idle (custody_move base at_ h) (set_at at_) ex
        · have := executing_load ex
          have := base.single j
          have moved : load ((Act.revise j g).apply v) (toks.set i (t, τ')) j + τ.holds j +
              v.queue.count j = load v toks j + τ'.holds j + v.queue.count j := load_set at_ _ τ' j
          omega
    | pipeline =>
      rcases revise_executing at_ h ex with before | ⟨_, _, eq, -⟩
      · exact closed_idle base at_ before
      · cases eq
    | decision open_ =>
      rcases revise_executing at_ h ex with before | ⟨_, _, eq, -⟩
      · exact decider_idle inv mem ⟨rfl, open_⟩ before
      · cases eq
    | startup hj live reset => rw [reset] at final; cases final
  · rw [allowed_add_status h] at final; cases final

theorem closed_move (base : Custody v toks) (inv : Calm v toks) (at_ : toks[i]? = some (t, τ))
    (h : Allowed τ v a τ') {t' : Call} (hm : (t', .works j .closed) ∈ toks.set i (t, τ'))
    (hc : (a.apply v).core j = some c) (final : c.status.final) : c.status = .failed := by
  have mem : (t, τ) ∈ toks := List.mem_of_getElem? at_
  rcases mem_set hm with eq | ⟨k, hk, hm⟩
  · cases eq
    have executor {stage : Stage} (mem : (t, .works j stage) ∈ toks) (open_ : stage ≠ .closed) :
        Executing v toks j := .inr ⟨(t, .works j stage), mem, ⟨rfl, open_⟩⟩
    cases h with
    | proposeEvent => exact absurd (executor mem nofun) (inv.ended hc final)
    | deliver =>
      simp only [Act.apply, if_true] at hc
      obtain ⟨c₀, -, rfl⟩ := Option.map_eq_some_iff.mp hc
      cases final
    | fail _ hg =>
      simp only [Act.apply, if_true] at hc
      obtain ⟨c₀, -, rfl⟩ := Option.map_eq_some_iff.mp hc
      rw [hg c₀]
      rfl
    | close done => rw [done c hc] at final; cases final
    | quiet | persist | note | mint => exact inv.closed mem hc final
  · have mine := List.mem_of_getElem? hm
    have held : 0 < (Tok.works j .closed).holds j := by simp [Tok.holds]
    rcases core_cases hc with same | ⟨g, c₀, rfl, hc₀, rfl⟩ | rfl
    · exact inv.closed mine same final
    · cases allowed_mover h hc₀ with
      | nobody same => exact same.trans (inv.closed mine hc₀ (same ▸ final))
      | executor ex => exact (base.exclusive hk hm at_ held (Tok.holds_of_executes ex)).elim
      | pipeline failed => exact failed
      | decision open_ =>
        rw [decider_alone inv mem ⟨rfl, open_⟩ mine] at held
        cases held
      | startup _ _ reset => rw [reset] at final; cases final
    · rw [allowed_add_status h] at final; cases final

theorem declined_move (inv : Calm v toks) (at_ : toks[i]? = some (t, τ))
    (h : Allowed τ v a τ') {tok : Call × Tok} (hm : tok ∈ toks.set i (t, τ')) (hd : tok.2.deciding j)
    (hc : (a.apply v).core j = some c) (final : c.status.final) :
    c.status = .closedNoAction ∧ tok.2.declines := by
  have mem : (t, τ) ∈ toks := List.mem_of_getElem? at_
  rcases mem_set hm with rfl | ⟨k, hk, hm⟩
  · have before := allowed_deciding h hd
    rcases core_cases hc with same | ⟨g, c₀, rfl, hc₀, rfl⟩ | rfl
    · obtain ⟨closed, declines⟩ := inv.declined mem before same final
      exact ⟨closed, allowed_declines h declines⟩
    · cases allowed_mover h hc₀ with
      | nobody same =>
        obtain ⟨closed, declines⟩ := inv.declined mem before hc₀ (same ▸ final)
        exact ⟨same.trans closed, allowed_declines h declines⟩
      | executor ex => exact absurd (.inr ⟨_, mem, ex⟩) (decider_idle inv mem before)
      | pipeline => exact before.elim
      | startup => exact before.elim
      | decision open_ status =>
        have settling : ∀ d succ, τ' ≠ .decides j d .settled succ := by
          rintro d succ rfl
          cases hd.2
        cases h with
        | reserve =>
          rcases status with ⟨closed, closes⟩ | ⟨eq, -⟩
          · exact ⟨closed, fun _ _ _ _ eq => by cases eq; exact ⟨nofun, closes⟩⟩
          · cases eq
        | reserveAgain taken =>
          rcases status with ⟨-, closes⟩ | ⟨rfl, same⟩
          · obtain ⟨_, eq, -⟩ := endStatus_closed _ closes
            cases eq
          · obtain ⟨closed, declines⟩ := inv.declined mem before hc₀ (by
              simpa [Decision.reserve] using final)
            exact ⟨closed, declines⟩
        | settle => exact absurd rfl (settling _ _)
        | failSuccessor =>
          exact absurd (.inr ⟨_, mem, rfl⟩) (decider_idle inv mem before)
    · rw [allowed_add_status h] at final; cases final
  · have mine := List.mem_of_getElem? hm
    rcases core_cases hc with same | ⟨g, c₀, rfl, hc₀, rfl⟩ | rfl
    · exact inv.declined mine hd same final
    · cases allowed_mover h hc₀ with
      | nobody same =>
        obtain ⟨closed, declines⟩ := inv.declined mine hd hc₀ (same ▸ final)
        exact ⟨same.trans closed, declines⟩
      | executor ex => exact absurd (.inr ⟨_, mem, ex⟩) (decider_idle inv mine hd)
      | pipeline =>
        have := decider_alone inv mine hd mem
        simp [Tok.holds] at this
      | decision open_ => exact absurd (inv.one hm at_ hd ⟨rfl, open_⟩) hk
      | startup _ _ reset => rw [reset] at final; cases final
    · rw [allowed_add_status h] at final; cases final

theorem calm_move (base : Base v toks) (inv : Calm v toks) (at_ : toks[i]? = some (t, τ))
    (h : Allowed τ v a τ') : Calm (a.apply v) (toks.set i (t, τ')) := by
  have back {k : Nat} {tok : Call × Tok} {j : JobId} (hk : (toks.set i (t, τ'))[k]? = some tok)
      (hd : tok.2.deciding j) : ∃ old, toks[k]? = some old ∧ old.2.deciding j := by
    by_cases eq : i = k
    · subst eq
      cases hk.symm.trans (set_at at_)
      exact ⟨_, at_, allowed_deciding h hd⟩
    · rw [List.getElem?_set_ne eq] at hk
      exact ⟨tok, hk, hd⟩
  constructor
  · intro m n j x y hm hn hx hy
    obtain ⟨x', hm', hx'⟩ := back hm hx
    obtain ⟨y', hn', hy'⟩ := back hn hy
    exact inv.one hm' hn' hx' hy'
  · intro t' τ₁ j hm hd
    obtain ⟨k, hk⟩ := List.getElem?_of_mem hm
    obtain ⟨⟨t₀, τ₀⟩, hk', hd'⟩ := back hk hd
    have mine := List.mem_of_getElem? hk'
    have none := inv.apart mine hd'
    obtain ⟨c, hc⟩ := base.2.present mine (about_of_deciding hd')
    have moved := load_set (v := v) at_ (a.apply v) τ' j
    rcases allowed_load h j with le | ⟨fresh, -⟩
    · omega
    · exact absurd (base.1.issued hc) fresh
  · intro j c hc final
    exact ended_move base.1 inv at_ h hc final
  · intro t' j c hm hc final
    exact closed_move base.1 inv at_ h hm hc final
  · intro t' τ₁ j c hm hd hc final
    exact declined_move inv at_ h hm hd hc final

end Moves

theorem deciding_serves {p : Phase} (h : τ.phased p) (hd : τ.deciding j) : p = .serving := by
  cases τ <;> first | exact h | exact hd.elim

/-- What a call has to find when it starts to decide on a job. -/
def Opens (v : View) (toks : Toks) (j : JobId) : Prop :=
  load v toks j = 0 ∧ (∀ tok ∈ toks, ¬ tok.2.deciding j) ∧
    ∀ c, v.core j = some c → c.status.final = false

theorem calm_start {w : World} (base : Custody w.view toks) (inv : Calm w.view toks)
    (may : mayStart w t)
    (opens : ∀ j, (first t w).deciding j → Opens w.view toks j) :
    Calm w.view (toks ++ [(t, first t w)]) := by
  have last {tok : Call × Tok} (h : tok ∈ toks ++ [(t, first t w)]) :
      tok ∈ toks ∨ tok = (t, first t w) :=
    (List.mem_append.mp h).imp id List.mem_singleton.mp
  have place {k : Nat} {tok : Call × Tok} (hk : (toks ++ [(t, first t w)])[k]? = some tok) :
      toks[k]? = some tok ∨ k = toks.length ∧ tok = (t, first t w) := by
    rcases Nat.lt_or_ge k toks.length with lt | ge
    · rw [List.getElem?_append_left lt] at hk
      exact .inl hk
    · have bound := (List.getElem?_eq_some_iff.mp hk).1
      simp only [List.length_append, List.length_singleton] at bound
      have eq : k = toks.length := by omega
      subst eq
      rw [List.getElem?_concat_length] at hk
      exact .inr ⟨rfl, (Option.some.inj hk).symm⟩
  have unheld {j : JobId} (hd : (first t w).deciding j) : (first t w).holds j = 0 := by
    by_cases other : t = .startup
    · subst other; exact hd.elim
    · exact (first_unwritten w other).holds j
  constructor
  · intro m n j x y hm hn hx hy
    rcases place hm with hm | ⟨rfl, rfl⟩ <;> rcases place hn with hn | ⟨rfl, rfl⟩
    · exact inv.one hm hn hx hy
    · exact absurd hx ((opens j hy).2.1 x (List.mem_of_getElem? hm))
    · exact absurd hy ((opens j hx).2.1 y (List.mem_of_getElem? hn))
    · rfl
  · intro t' τ j hm hd
    have same : load w.view (toks ++ [(t, first t w)]) j =
        load w.view toks j + (first t w).holds j := by
      simp [load]; omega
    rcases last hm with hm | eq
    · have unheld : (first t w).holds j = 0 := by
        by_cases other : t = .startup
        · have serving := deciding_serves (base.phased hm) hd
          subst other
          have stopped : w.view.phase = .stopped := may
          rw [stopped] at serving
          cases serving
        · exact (first_unwritten w other).holds j
      rw [same, inv.apart hm hd, unheld]
    · cases eq
      rw [same, (opens j hd).1, unheld hd]
  · intro j c hc final ex
    refine inv.ended hc final (ex.imp id ?_)
    rintro ⟨tok, hm, ex⟩
    rcases last hm with hm | rfl
    · exact ⟨tok, hm, ex⟩
    · exact absurd ex (first_took t w _).2
  · intro t' j c hm hc final
    rcases last hm with hm | eq
    · exact inv.closed hm hc final
    · exact absurd (Prod.mk.inj eq).2.symm ((first_plain t w).works j _)
  · intro t' τ j c hm hd hc final
    rcases last hm with hm | eq
    · exact inv.declined hm hd hc final
    · cases eq
      rw [(opens j hd).2.2 c hc] at final
      cases final

theorem retire_deciding (τ : Tok) (j : JobId) :
    ¬ τ.retire.deciding j ∧ ¬ τ.retire.executes j := by
  have spent := retire_spent τ
  generalize τ.retire = τ₀ at spent
  cases spent <;> exact ⟨id, id⟩

theorem calm_finish (inv : Calm v toks) (at_ : toks[i]? = some (t, τ)) :
    Calm v (toks.set i (t, τ.retire)) := by
  have old {tok : Call × Tok} (h : tok ∈ toks.set i (t, τ.retire)) :
      tok ∈ toks ∨ tok = (t, τ.retire) := by
    rcases mem_set h with h | ⟨k, -, h⟩
    · exact .inr h
    · exact .inl (List.mem_of_getElem? h)
  have place {k : Nat} {tok : Call × Tok} {j : JobId}
      (hk : (toks.set i (t, τ.retire))[k]? = some tok) (hd : tok.2.deciding j) :
      toks[k]? = some tok := by
    by_cases eq : i = k
    · subst eq
      cases hk.symm.trans (set_at at_)
      exact absurd hd (retire_deciding τ j).1
    · rwa [List.getElem?_set_ne eq] at hk
  constructor
  · intro m n j x y hm hn hx hy
    exact inv.one (place hm hx) (place hn hy) hx hy
  · intro t' τ₁ j hm hd
    rcases old hm with hm | eq
    · have none := inv.apart hm hd
      have moved := load_set (v := v) at_ v τ.retire j
      have := (retire_spent τ).empty j
      omega
    · cases eq
      exact absurd hd (retire_deciding τ j).1
  · intro j c hc final ex
    refine inv.ended hc final (ex.imp id fun ⟨tok, hm, ex⟩ => ?_)
    rcases old hm with hm | rfl
    · exact ⟨tok, hm, ex⟩
    · exact absurd ex (retire_deciding τ j).2
  · intro t' j c hm hc final
    rcases old hm with hm | eq
    · exact inv.closed hm hc final
    · exact absurd (Prod.mk.inj eq).2.symm ((retire_spent τ).plain.works j _)
  · intro t' τ₁ j c hm hd hc final
    rcases old hm with hm | eq
    · exact inv.declined hm hd hc final
    · cases eq
      exact absurd hd (retire_deciding τ j).1

end Calm

section Undisturbed

/-- An unfinished call passes a test. -/
def inFlight {cfg : Settings} (c : Run cfg) (test : Call → Bool) : Bool :=
  c.threads.any fun th => test th.1 && !decide th.2.Finished

/-- The job is not queued, not in the pipeline, and not a successor still being made. -/
def atRest {cfg : Settings} (c : Run cfg) (j : JobId) (job : Job) : Bool :=
  j ∉ c.state.queue && c.state.processing ≠ some j &&
    !inFlight c fun
      | .override i _ => job.parentJobId = some i
      | _ => false

/-- Every decision that the guards let through finds the job at rest, and a review finds no
other terminal review of it under way. -/
def undisturbed {cfg : Settings} (c : Run cfg) : Call → Bool
  | .override j r => (c.state.job? j).all fun job => !r.reserves job || atRest c j job
  | .review j r _ =>
    (c.state.reviewRecords.get? r.decisionIdempotencyKey).isSome ||
      (c.state.job? j).all fun job => !r.reserves job || (atRest c j job &&
        !inFlight c fun
          | .review i q _ => i = j && q.decision ∈ terminalReviewDecisions
          | _ => false)
  | _ => true

variable {cfg : Settings} {c : Run cfg} {toks : Toks} {j : JobId} {job : Job}

theorem inFlight_of_token (tracks : (plan cfg).Tracks c toks) (idle : c.running = none) {i : Nat}
    {t : Call} {τ : Tok} (at_ : toks[i]? = some (t, τ)) (live : ∀ τ₀ : Tok, τ ≠ τ₀.retire)
    {test : Call → Bool} (passes : test t = true) : inFlight c test = true := by
  obtain ⟨k, p, thread, unfinished⟩ := tracks.unfinished at_ (by simp [idle]) live
  refine List.any_eq_true.mpr ⟨⟨t, p⟩, List.mem_of_getElem? thread, ?_⟩
  simp [passes, unfinished]

theorem decides_live {d : Decision} {p : DecisionPhase} {succ : Successor} (τ : Tok) :
    Tok.decides j d p succ ≠ τ.retire :=
  fun eq => (retire_spent τ).decides j d p succ eq.symm

/-- A job at rest is in nobody's hands. -/
theorem atRest_load (tracks : (plan cfg).Tracks c toks) (base : Custody c.state.view toks)
    (idle : c.running = none) (parked : ∀ tok ∈ toks, tok.2.parks)
    (serving : c.state.phase = .serving) (hj : c.state.job? j = some job)
    (rest : atRest c j job = true) : load c.state.view toks j = 0 := by
  simp only [atRest, Bool.and_eq_true, decide_eq_true_eq, Bool.not_eq_true'] at rest
  obtain ⟨⟨unqueued, unprocessed⟩, parentless⟩ := rest
  have here : c.state.view.core j = some job.core := by simp [hj]
  have queue : c.state.view.queue.count j = 0 := List.count_eq_zero.mpr unqueued
  have hands : tally (fun tok => tok.2.holds j) toks = 0 := by
    refine tally_zero fun tok hm => Nat.eq_zero_of_not_pos fun pos => ?_
    obtain ⟨t, τ⟩ := tok
    have phased := base.phased hm
    have parks := parked _ hm
    have unpending : ¬ τ.pending j := by
      intro pending
      rw [base.pending hm pending] at here
      cases here
    cases τ with
    | submits again l p =>
      cases p with
      | start | ended => cases pos
      | minted i | claimed k i =>
        simp only [Tok.holds, SubmitPhase.holds] at pos
        split at pos
        · exact unpending ‹_›
        · cases pos
      | stored => exact parks
    | decides i d p succ =>
      cases succ with
      | none | made => cases pos
      | minted k =>
        simp only [Tok.holds, Successor.holds] at pos
        split at pos
        · exact unpending ‹_›
        · cases pos
      | waiting k =>
        simp only [Tok.holds, Successor.holds] at pos
        split at pos
        · subst k
          have parent : job.parentJobId = some i := base.parent hm here
          rcases base.minting hm with none | ⟨type, status, rfl⟩
          · cases none
          · obtain ⟨⟨r, rfl, -⟩, -⟩ := base.fits hm
            obtain ⟨k, at_⟩ := List.getElem?_of_mem hm
            rw [inFlight_of_token tracks idle at_ decides_live (by simp [parent])] at parentless
            cases parentless
        · cases pos
    | works i stage =>
      simp only [Tok.holds] at pos
      split at pos
      · subst i
        exact unprocessed (base.working hm)
      · cases pos
    | boots todo p => exact absurd serving (boots_early phased)
    | idle | refused | decided | defers | repeats | fetches | polls => cases pos
  simp only [load, queue, hands]

/-- A call that starts to decide has found the job and passed its guards. -/
inductive Starts (w : World) (j : JobId) (job : Job) : Call → Prop
  | override {r} (found : w.job? j = some job) (res : r.reserves job = true) :
      Starts w j job (.override j r)
  | review {r device} (found : w.job? j = some job) (res : r.reserves job = true)
      (new : w.reviewRecords.get? r.decisionIdempotencyKey = none) :
      Starts w j job (.review j r device)

theorem starts_of_deciding {t : Call} {w : World} (hd : (first t w).deciding j) :
    ∃ job, Starts w j job t := by
  cases t with
  | override i r =>
    rcases first_override i r w with eq | eq | ⟨job, hj, reserves, eq⟩ <;> rw [eq] at hd
    · exact hd.elim
    · exact hd.elim
    · obtain ⟨rfl, -⟩ := hd
      exact ⟨job, .override hj reserves⟩
  | review i r device =>
    rcases first_review i r device w with eq | eq | ⟨record, -, -, eq⟩ |
      ⟨new, job, hj, ⟨reserves, eq⟩ | ⟨-, -, eq⟩⟩ <;> rw [eq] at hd
    · exact hd.elim
    · exact hd.elim
    · exact hd.elim
    · obtain ⟨rfl, -⟩ := hd
      exact ⟨job, .review hj reserves new⟩
    · exact hd.elim
  | startup | worker | autoAccept | submit | checkPermission | setHub | configure =>
    exact hd.elim

/-- A decision under way shows in the guards of the job. -/
theorem deciding_guards {v : View} {toks : Toks} {tok : Call × Tok} {core : Core}
    (base : Base v toks) (hm : tok ∈ toks) (parks : tok.2.parks) (hd : tok.2.deciding j)
    (hc : v.core j = some core) : core.overrideType.isSome = true ∨
      core.reviewed ∧ ∃ r device, tok.1 = .review j r device ∧
        r.decision ∈ terminalReviewDecisions := by
  obtain ⟨t, τ⟩ := tok
  cases τ with
  | decides i d p succ =>
    obtain ⟨rfl, -⟩ := hd
    have taken : p ≠ .accepted := by
      rintro rfl
      exact parks
    have guards := base.2.guarded hm ⟨rfl, rfl, taken⟩ hc
    cases d with
    | override => exact .inl guards
    | review payload =>
      obtain ⟨⟨terminal, r, device, rfl, rfl⟩, -⟩ := base.1.fits hm
      exact .inr ⟨guards, r, device, rfl, terminal⟩
  | _ => exact hd.elim

theorem undisturbed_opens {t : Call} (tracks : (plan cfg).Tracks c toks)
    (base : Base c.state.view toks) (idle : c.running = none)
    (parked : ∀ tok ∈ toks, tok.2.parks) (may : mayStart c.state t)
    (met : undisturbed c t = true) (hd : (first t c.state).deciding j) :
    Opens c.state.view toks j := by
  obtain ⟨job, starts⟩ := starts_of_deciding hd
  have core (hj : c.state.job? j = some job) : c.state.view.core j = some job.core := by simp [hj]
  cases starts with
  | @override r hj res =>
    have rest : atRest c j job = true := by simpa [undisturbed, hj, res] using met
    have refusal : overrideRefusal job = none := by
      simp only [OverrideRequest.reserves, decide_eq_true_eq] at res
      exact res.1
    obtain ⟨unfailed, unrevoked, unreviewed, unoverridden⟩ := open_of_override refusal
    refine ⟨atRest_load tracks base.1 idle parked may hj rest, fun tok hm deciding => ?_,
      fun core' hc => ?_⟩
    · rcases deciding_guards base hm (parked tok hm) deciding (core hj) with overridden | ⟨reviewed, -⟩
      · have : job.overrideType.isSome = true := overridden
        rw [unoverridden] at this
        cases this
      · exact unreviewed reviewed
    · cases (core hj).symm.trans hc
      have sound := base.2.sound (core hj)
      change job.status.final = false
      cases hs : job.status with
      | failed => exact absurd hs unfailed
      | revoked => exact absurd hs unrevoked
      | closedNoAction => exact absurd (sound.closed hs) unreviewed
      | _ => rfl
  | @review r device hj res new =>
    have rest : atRest c j job = true ∧ inFlight c (fun
        | .review i q _ => i = j && q.decision ∈ terminalReviewDecisions
        | _ => false) = false := by
      simpa [undisturbed, hj, res, new] using met
    have refusal : reviewRefusal job r = none := by
      simp only [ReviewRequest.reserves, decide_eq_true_eq] at res
      exact res.1
    obtain ⟨ready, unoverridden⟩ := open_of_review refusal
    refine ⟨atRest_load tracks base.1 idle parked may hj rest.1, fun tok hm deciding => ?_,
      fun core' hc => ?_⟩
    · rcases deciding_guards base hm (parked tok hm) deciding (core hj) with
        overridden | ⟨-, q, device', eq, terminal⟩
      · have : job.overrideType.isSome = true := overridden
        rw [unoverridden] at this
        cases this
      · obtain ⟨t', τ⟩ := tok
        subst eq
        obtain ⟨k, at_⟩ := List.getElem?_of_mem hm
        have live : ∀ τ₀ : Tok, τ ≠ τ₀.retire := by
          rintro τ₀ rfl
          exact (retire_deciding τ₀ j).1 deciding
        have flying : inFlight c (fun
            | .review i q _ => i = j && q.decision ∈ terminalReviewDecisions
            | _ => false) = true := inFlight_of_token tracks idle at_ live (by simp [terminal])
        rw [rest.2] at flying
        cases flying
    · cases (core hj).symm.trans hc
      change job.status.final = false
      rw [ready]
      rfl

theorem calm (cfg : Settings) : Invariant cfg (Meets (starting undisturbed)) Base Calm where
  start tracks base inv parked idle met may :=
    calm_start base.1 inv may fun _ hd => undisturbed_opens tracks base idle parked may met hd
  move base inv at_ _ _ h := calm_move base inv at_ h
  finish _ inv at_ _ _ := calm_finish inv at_
  crash _ _ _ met := by cases met

theorem calm_boot {w : World} (boots : Boots cfg w) : Calm w.view [] where
  one hi := by simp at hi
  apart hm := by cases hm
  ended {j core} _ _ ex := by
    rcases ex with queued | ⟨_, hm, _⟩
    · have empty : w.view.queue = [] := boots.base.1.asleep boots.stopped
      rw [empty] at queued
      cases queued
    · cases hm
  closed hm := by cases hm
  declined hm := by cases hm

end Undisturbed

section Frozen

/-- The events with which a job goes on. -/
def onwardTypes : List String :=
  ["job.dispatched", "job.response_received", "job.proposal_ready", "job.delivered"]

/-- The job is dispatched, answered, proposed or delivered, or a model is called for it. -/
def Obs.Moves (j : JobId) : Obs → Prop
  | .attempted e => e.eventType ∈ onwardTypes ∧ e.jobId = some j
  | .called e _ => e.jobId = some j
  | _ => False

structure Frozen (j : JobId) (st : JobStatus) (past : List Obs) (v : View) : Prop where
  status : ∃ c, v.core j = some c ∧ c.status = st
  trace : ∃ obs, v.trace = past ++ obs ∧ ∀ o ∈ obs, ¬ o.Moves j

variable {v : View} {toks : Toks} {i : Nat} {t : Call} {τ τ' : Tok} {a : Act} {j : JobId}

/-- Whoever moves a job on is its pipeline, delivers it by a decision, or recovers it. -/
theorem allowed_moves (h : Allowed τ v a τ') (j : JobId)
    (base : ∀ i e permit, τ = .works i (.dispatched e permit) → Lifecycle "job.dispatched" i e) :
    ∃ obs, (a.apply v).trace = v.trace ++ obs ∧ ∀ o ∈ obs, o.Moves j →
      (∃ stage, τ = .works j stage ∧ stage ≠ .closed) ∨
      (∃ d succ, τ = .decides j d .announced succ ∧ d.endStatus = .delivered) ∨
      ∃ todo p, τ = .boots todo p ∧ j ∈ todo ∧
        ∀ c, v.core j = some c → c.status = .responseReceived := by
  have one {o : Obs} {P : Prop} (h : o.Moves j → P) : ∀ o' ∈ [o], o'.Moves j → P := by
    intro o' mem
    cases List.mem_singleton.mp mem
    exact h
  have mine {type : String} {k : JobId} {e : Event} (about : Lifecycle type k e)
      (moves : (Obs.attempted e).Moves j) : k = j ∧ type ∈ onwardTypes := by
    obtain ⟨isType, isJob⟩ := about
    exact ⟨Option.some.inj (isJob.symm.trans moves.2), isType ▸ moves.1⟩
  cases h with
  | note harmless =>
    refine ⟨_, rfl, one fun moves => ?_⟩
    rename_i o
    cases o with
    | attempted e =>
      refine absurd ?_ harmless
      have := moves.1
      simp only [onwardTypes, lifecycleTypes, List.mem_cons, List.not_mem_nil, or_false] at this ⊢
      tauto
    | called => exact harmless.elim
    | _ => exact moves.elim
  | endEvent about =>
    refine ⟨_, rfl, one fun moves => ?_⟩
    obtain ⟨rfl, type⟩ := mine about moves
    rename_i d succ e
    refine .inr (.inl ⟨d, succ, rfl, ?_⟩)
    unfold Decision.endType at type
    cases hs : d.endStatus <;> rw [hs] at type <;>
      first | rfl | exact absurd type (by decide) |
        exact absurd (endStatus_dead d) (by rw [hs]; decide)
  | dispatch =>
    refine ⟨_, rfl, one fun moves => ?_⟩
    obtain ⟨rfl, -⟩ := mine (base _ _ _ rfl) moves
    exact .inl ⟨_, rfl, (by simp)⟩
  | call =>
    refine ⟨_, rfl, one fun moves => ?_⟩
    have about := (base _ _ _ rfl).2
    cases about.symm.trans moves
    exact .inl ⟨_, rfl, (by simp)⟩
  | receive about | proposeEvent about | deliverEvent _ about =>
    refine ⟨_, rfl, one fun moves => ?_⟩
    obtain ⟨rfl, -⟩ := mine about moves
    exact .inl ⟨_, rfl, (by simp)⟩
  | announce about | failEvent _ about | bootFailEvent _ about =>
    refine ⟨_, rfl, one fun moves => ?_⟩
    exact absurd (mine about moves).2 (by decide)
  | acceptEvent reviewed =>
    refine ⟨_, rfl, one fun moves => ?_⟩
    exact absurd (reviewed ▸ moves.1) (by decide)
  | bootDeliverEvent mem about status =>
    refine ⟨_, rfl, one fun moves => ?_⟩
    obtain ⟨rfl, -⟩ := mine about moves
    exact .inr (.inr ⟨_, _, rfl, mem, status⟩)
  | announceReview | announceDefer | abort | authorise | bootDrop | bootScan | enqueueNew
  | enqueueSuccessor | bootEnqueue => exact ⟨_, rfl, one fun moves => moves.elim⟩
  | _ => exact ⟨[], (List.append_nil _).symm, by simp⟩

theorem frozen_move {st : JobStatus} {past : List Obs} (base : Base v toks) (inv : Calm v toks)
    (frozen : Frozen j st past v) (final : st.final = true) (at_ : toks[i]? = some (t, τ))
    (h : Allowed τ v a τ') : Frozen j st past (a.apply v) := by
  have mem : (t, τ) ∈ toks := List.mem_of_getElem? at_
  obtain ⟨c, hc, rfl⟩ := frozen.status
  obtain ⟨obs, grown, calm⟩ := frozen.trace
  constructor
  · obtain ⟨c', hc'⟩ := h.grows.core hc
    exact ⟨c', hc', allowed_final base.1 inv mem h hc final hc'⟩
  · obtain ⟨more, eq, moves⟩ :=
      allowed_moves h j fun k e permit eq => base.1.dispatching (eq ▸ mem)
    refine ⟨obs ++ more, by rw [eq, grown, List.append_assoc], fun o ho => ?_⟩
    rcases List.mem_append.mp ho with old | new
    · exact calm o old
    · intro moved
      rcases moves o new moved with ⟨stage, rfl, open_⟩ | ⟨d, succ, rfl, delivers⟩ |
        ⟨todo, p, -, -, received⟩
      · exact inv.ended hc final (.inr ⟨_, mem, ⟨rfl, open_⟩⟩)
      · have closes := (inv.declined mem ⟨rfl, rfl⟩ hc final).2 _ _ _ _ rfl
        rw [delivers] at closes
        cases closes.2
      · rw [received c hc] at final
        cases final

/-- The status of an ended job is for good, and nothing more happens for it. -/
def Absorbed (j : JobId) (st : JobStatus) (past : List Obs) (v : View) (toks : Toks) : Prop :=
  Calm v toks ∧ Frozen j st past v

theorem absorbed (cfg : Settings) (j : JobId) {st : JobStatus} (past : List Obs)
    (final : st.final = true) :
    Invariant cfg (Meets (starting undisturbed)) Base (Absorbed j st past) where
  start tracks base inv parked idle met may :=
    ⟨(calm cfg).start tracks base inv.1 parked idle met may, inv.2⟩
  move base inv at_ _ _ h :=
    ⟨calm_move base inv.1 at_ h, frozen_move base inv.1 inv.2 final at_ h⟩
  finish _ inv at_ _ _ := ⟨calm_finish inv.1 at_, inv.2⟩
  crash _ _ _ met := by cases met

/-- Nothing happens for the job between two configurations, and its status stays. -/
def Absorbs {cfg : Settings} (c c' : Run cfg) (j : JobId) (job : Job) : Prop :=
  (∃ job', c'.state.job? j = some job' ∧ job'.status = job.status) ∧
    ∃ obs, c'.state.trace = c.state.trace ++ obs ∧ ∀ o ∈ obs, ¬ o.Moves j

variable {cfg : Settings} {w : World} {c c' : Run cfg} {job : Job}

theorem terminal_absorbing (boots : Boots cfg w)
    (run : Reach (orchestrator cfg) (Meets (starting undisturbed)) (.boot _ w) c)
    (onward : Reach (orchestrator cfg) (Meets (starting undisturbed)) c c')
    (found : c.state.job? j = some job) (final : job.status.final = true) :
    Absorbs c c' j job := by
  obtain ⟨toks, tracks, known, inv⟩ := Invariant.reach (base cfg) (calm cfg)
    (Plan.tracks_boot _) boots.base (calm_boot boots) run
  have here : Frozen j job.status c.state.trace c.state.view :=
    ⟨⟨job.core, by simp [found], rfl⟩, [], by simp, by simp⟩
  obtain ⟨toks', -, -, -, frozen⟩ := Invariant.reach (base cfg)
    (absorbed cfg j c.state.trace final) tracks known ⟨inv, here⟩ onward
  obtain ⟨core, hc, same⟩ := frozen.status
  obtain ⟨job', hj', rfl⟩ := Option.map_eq_some_iff.mp hc
  exact ⟨⟨job', hj', same⟩, frozen.trace⟩

/-- The classifier gives up on the job. -/
def unclassified : (q : Req) → Ans q
  | .classify _ => (.error .timeout : Except Exc Classification)
  | q => usual (World.initial false) q

theorem terminal_absorbing_witness :
    ∃ (c c' : Run plain) (job : Job), c.state.job? (uuid 1) = some job ∧ job.status = .failed ∧
      Absorbs c c' (uuid 1) job := by
  obtain ⟨c, c', run, onward, seen⟩ := reached_on (guards undisturbed) (fresh plain false)
    [.start .startup, .finish 0, .start (.submit (request (some "k"))), .finish 1,
      .start (.worker (uuid 1)), .resumeWith 2 unclassified]
    [.start (.override (uuid 1) ⟨"cancel", "", "", "phone", none⟩)]
    (fun c _ => (c.state.job? (uuid 1)).any (·.status = .failed)) (by decide +kernel)
  obtain ⟨job, hj, failed⟩ := (Option.any_eq_true _ _).mp seen
  have failed : job.status = .failed := by simpa using failed
  exact ⟨c, c', job, hj, failed,
    terminal_absorbing (.initial plain false) run onward hj (by simp [failed, JobStatus.final])⟩

/-- A job that is cancelled while it waits in the queue is executed and delivered. -/
theorem cancelled_delivered : ∃ (c c' : Run plain) (job : Job),
    Reach (orchestrator plain) (NoCrash plain) (.boot _ (World.initial false)) c ∧
      Reach (orchestrator plain) (NoCrash plain) c c' ∧
      c.state.job? (uuid 1) = some job ∧ job.status.final = true ∧
      ¬ Absorbs c c' (uuid 1) job := by
  obtain ⟨c, c', run, onward, seen⟩ := reached_on (guards fun _ _ => true) (fresh plain false)
    [.start .startup, .finish 0, .start (.submit (request (some "k"))), .finish 1,
      .start (.override (uuid 1) ⟨"cancel", "", "", "phone", none⟩), .finish 2]
    [.start (.worker (uuid 1)), .finish 3]
    (fun c c' => (c.state.job? (uuid 1)).any (·.status = .failed) &&
      (c'.state.job? (uuid 1)).any (·.status = .delivered)) (by decide +kernel)
  obtain ⟨before, after⟩ := Bool.and_eq_true_iff.mp seen
  obtain ⟨job, hj, failed⟩ := (Option.any_eq_true _ _).mp before
  obtain ⟨job', hj', delivered⟩ := (Option.any_eq_true _ _).mp after
  have failed : job.status = .failed := by simpa using failed
  refine ⟨c, c', job, run, onward, hj, by simp [failed, JobStatus.final], ?_⟩
  rintro ⟨⟨other, hother, same⟩, -⟩
  cases hj'.symm.trans hother
  have delivered : job'.status = .delivered := by simpa using delivered
  rw [delivered, failed] at same
  cases same

end Frozen

end Drnt.Orchestrator
