import Drnt.Orchestrator.Trial

/-! How often the worker loop takes a job, over any number of crashes: once for the call that makes
it, and once for every recovery that has counted it. -/
namespace Drnt.Orchestrator

open Lib Lib.Coop Trial

section Counts

variable {v : View} {toks : Toks} {i : Nat} {t : Call} {τ τ' : Tok} {a : Act} {j : JobId}

/-- Whether the call is about to queue the job. -/
def Tok.readies (j : JobId) : Tok → Nat
  | submits _ _ p => p.holds j
  | decides _ _ _ succ => succ.holds j
  | boots _ (.queueing i) => if i = j then 1 else 0
  | boots _ _ | works _ _ | idle | refused | decided _ _ _ | defers _ _ | repeats _ | fetches _
  | polls _ => 0

/-- How often the job stands in the queue, or is about to. -/
def awaited (v : View) (toks : Toks) (j : JobId) : Nat :=
  v.queue.count j + tally (fun tok => tok.2.readies j) toks

/-- How often a job can still be taken: as often as it may still be recovered, and once more if it
is awaited and the recovery that queued it is stored. An id that is free is worth a new job. -/
def allowance : (row core : Option Core) → (known : Bool) → (awaited : Nat) → Nat
  | some r, some c, _, n =>
    if c.recoveryDispatchCount ≤ r.recoveryDispatchCount then
      maxRecoveryDispatches - r.recoveryDispatchCount + n
    else maxRecoveryDispatches - r.recoveryDispatchCount
  | some r, none, _, n => maxRecoveryDispatches - r.recoveryDispatchCount + n
  | none, some c, _, n => maxRecoveryDispatches - c.recoveryDispatchCount + n
  | none, none, true, n => (maxRecoveryDispatches + 1) * n
  | none, none, false, _ => maxRecoveryDispatches + 1

def redispatches (v : View) (toks : Toks) (j : JobId) : Nat :=
  allowance (v.row j) (v.core j) (decide (j ∈ v.issued)) (awaited v toks j)

/-- The counts of the jobs: never above the maximum, never behind the rows, and when the loop may
run no different from them. -/
structure Recounts (v : View) (toks : Toks) : Prop where
  core : ∀ {j c}, v.core j = some c → c.recoveryDispatchCount ≤ maxRecoveryDispatches
  row : ∀ {j r}, v.row j = some r → r.recoveryDispatchCount ≤ maxRecoveryDispatches
  ahead : ∀ {j c r}, v.core j = some c → v.row j = some r →
    r.recoveryDispatchCount ≤ c.recoveryDispatchCount
  level : (v.phase = .starting → ∃ t todo, (t, .boots todo .kept) ∈ toks) →
    ∀ {j c r}, v.core j = some c → v.row j = some r →
      c.recoveryDispatchCount = r.recoveryDispatchCount
  pending : ∀ {t τ j}, (t, τ) ∈ toks → τ.pending j → v.row j = none

theorem readies_le_holds (τ : Tok) (j : JobId) : τ.readies j ≤ τ.holds j := by
  cases τ with
  | submits again l p => cases p <;> exact Nat.le_refl _
  | decides i d p succ => cases succ <;> exact Nat.le_refl _
  | boots todo p =>
    cases p with
    | queueing i => exact Nat.le_add_left _ _
    | _ => exact Nat.zero_le _
  | _ => exact Nat.zero_le _

theorem awaited_le_one (base : Custody v toks) (j : JobId) : awaited v toks j ≤ 1 := by
  have := base.single j
  have := tally_mono (fun tok : Call × Tok => readies_le_holds tok.2 j) toks
  unfold awaited
  unfold load at *
  omega

variable (v) in
theorem awaited_set (at_ : toks[i]? = some (t, τ)) (v' : View) (τ' : Tok) (j : JobId) :
    awaited v' (toks.set i (t, τ')) j + τ.readies j + v.queue.count j =
      awaited v toks j + τ'.readies j + v'.queue.count j := by
  have := tally_set (f := fun tok => tok.2.readies j) at_ (t, τ')
  simp only [awaited] at *
  omega

/-- The startup counts a job under the maximum. -/
def Recounting (v : View) (τ : Tok) (a : Act) (τ' : Tok) (j : JobId) : Prop :=
  a = .revise j .recount ∧ (∃ todo p, τ = .boots todo p ∧ p ≠ .kept ∧ p ≠ .rising) ∧
    0 < τ.holds j ∧ (∀ c, v.core j = some c → c.recoveryDispatchCount < maxRecoveryDispatches) ∧
    τ'.readies j ≤ τ.readies j + 1

theorem counting_picked {todo : List JobId} (mem : j ∈ todo)
    (under : ∀ c, v.core j = some c → c.recoveryDispatchCount < maxRecoveryDispatches) :
    Recounting v (.boots todo .between) (.revise j .recount)
      (.boots (todo.filter (· ≠ j)) (.queueing j)) j :=
  ⟨rfl, ⟨_, _, rfl, by simp, by simp⟩, by simpa [Tok.holds, BootPhase.holds] using mem, under,
    by simp [Tok.readies]⟩

theorem counting_reset {todo : List JobId}
    (under : ∀ c, v.core j = some c → c.recoveryDispatchCount < maxRecoveryDispatches) :
    Recounting v (.boots todo (.resetting j)) (.revise j .recount) (.boots todo (.queueing j)) j :=
  ⟨rfl, ⟨_, _, rfl, by simp, by simp⟩, by simp [Tok.holds, BootPhase.holds], under,
    by simp [Tok.readies]⟩

/-- A job is awaited no more often than before, unless its id is new or the startup counts it. -/
theorem allowed_readies (h : Allowed τ v a τ') (j : JobId) :
    (a.apply v).queue.count j + τ'.readies j ≤ v.queue.count j + τ.readies j ∨
      j ∉ v.issued ∧ a = .mint j ∨ Recounting v τ a τ' j := by
  cases h with
  | mintJob fresh =>
    rename_i i _ _
    by_cases hi : i = j
    · subst hi
      exact .inr (.inl ⟨fresh, rfl⟩)
    · exact .inl (by simp [Act.apply, Tok.readies, SubmitPhase.holds, hi])
  | mintSuccessor _ fresh =>
    rename_i i _
    by_cases hi : i = j
    · subst hi
      exact .inr (.inl ⟨fresh, rfl⟩)
    · exact .inl (by simp [Act.apply, Tok.readies, Successor.holds, hi])
  | fetch head =>
    refine .inl ?_
    obtain ⟨rest, hq⟩ := List.head?_eq_some_iff.mp head
    simp only [Act.apply, Tok.readies, hq, List.tail_cons, List.count_cons, beq_iff_eq]
    omega
  | bootCount mem status under =>
    rename_i i
    by_cases hi : i = j
    · subst hi
      exact .inr (.inr (counting_picked mem under))
    · exact .inl (by simp [Act.apply, Tok.readies, hi])
  | bootRecount under =>
    rename_i i
    by_cases hi : i = j
    · subst hi
      exact .inr (.inr (counting_reset under))
    · exact .inl (by simp [Act.apply, Tok.readies, hi])
  | enqueueNew | enqueueSuccessor | bootEnqueue =>
    refine .inl ?_
    simp only [Act.apply, Tok.readies, SubmitPhase.holds, Successor.holds, List.count_append,
      List.count_singleton, beq_iff_eq]
    omega
  | store ready =>
    rcases ready with rfl | ⟨-, rfl⟩ <;> exact .inl (Nat.le_refl _)
  | _ => exact .inl (by simp [Act.apply, Tok.readies, SubmitPhase.holds, Successor.holds])

/-- Only the startup counts. -/
theorem allowed_counts {g : Core → Core} (h : Allowed τ v (.revise j g) τ') :
    (∀ c, (g c).recoveryDispatchCount = c.recoveryDispatchCount) ∨
      Recounting v τ (.revise j g) τ' j := by
  have reserved (d : Decision) (c : Core) :
      (d.reserve c).recoveryDispatchCount = c.recoveryDispatchCount := by
    cases d <;> rfl
  cases h with
  | reserve | reserveAgain => exact .inl (reserved _)
  | settle _ h =>
    rcases h with rfl | rfl
    · exact .inl fun _ => rfl
    · exact .inl fun c => reserved _ _
  | fail _ h =>
    refine .inl fun c => ?_
    rw [h c]
    rfl
  | bootCount mem _ under => exact .inr (counting_picked mem under)
  | bootRecount under => exact .inr (counting_reset under)
  | _ => exact .inl fun _ => rfl

theorem added_uncounted {c : Core} (h : Allowed τ v (.add j c) τ') : c.recoveryDispatchCount = 0 := by
  cases h with
  | store | storeSuccessor => rfl

/-- A row after a write: as before, or written out. -/
theorem row_cases {r : Core} (hr : (a.apply v).row j = some r) :
    v.row j = some r ∨ a = .persist j ∧ v.core j = some r := by
  cases a with
  | persist i =>
    simp only [Act.apply, View.persisted] at hr
    split at hr
    · split at hr
      · subst j
        cases hr
        exact .inr ⟨rfl, ‹_›⟩
      · exact .inl (Option.filter_eq_some_iff.mp hr).1
    · exact .inl hr
  | _ => exact .inl hr

/-- The startup has all counts stored, or has just seen that they are. -/
theorem allowed_kept_token {todo : List JobId} (h : Allowed τ v a (.boots todo .kept)) :
    τ = .boots todo .kept ∨ (∃ u, a = .mint u) ∧ ∀ j c r, v.core j = some c → v.row j = some r →
      r.recoveryDispatchCount = c.recoveryDispatchCount := by
  cases h with
  | bootKept kept => exact .inr ⟨⟨_, rfl⟩, kept⟩
  | _ => exact .inl rfl

theorem allowed_enters {p : Phase} (h : Allowed τ v (.enter p) τ') :
    (∃ todo, τ = .boots todo .rising ∧ p = .starting) ∨ τ = .boots [] .kept := by
  cases h with
  | boot => exact .inl ⟨_, rfl, rfl⟩
  | serve => exact .inr rfl

theorem phase_cases (v : View) (a : Act) :
    (a.apply v).phase = v.phase ∨ ∃ p, a = .enter p ∧ (a.apply v).phase = p := by
  cases a with
  | enter p => exact .inr ⟨p, rfl, rfl⟩
  | _ => exact .inl rfl

/-- What the startup has counted before it keeps the jobs is not level yet. -/
theorem not_level (base : Custody v toks) (at_ : toks[i]? = some (t, τ))
    (counting : Recounting v τ a τ' j) :
    ¬ (v.phase = .starting → ∃ t todo, (t, .boots todo .kept) ∈ toks) := by
  obtain ⟨-, ⟨todo, p, rfl, unkept, risen⟩, -⟩ := counting
  intro level
  have starting : v.phase = .starting := by
    have phased := base.phased (List.mem_of_getElem? at_)
    cases p with
    | rising => exact absurd rfl risen
    | _ => exact phased
  obtain ⟨t', todo', mem⟩ := level starting
  obtain ⟨k, at'⟩ := List.getElem?_of_mem mem
  by_cases same : i = k
  · subst same
    cases at_.symm.trans at'
    exact unkept rfl
  · have := base.booting_other same at_ at'
    simp [Tok.booting] at this

theorem recounts_move (base : Custody v toks) (inv : Recounts v toks)
    (at_ : toks[i]? = some (t, τ)) (h : Allowed τ v a τ') :
    Recounts (a.apply v) (toks.set i (t, τ')) := by
  have mem : (t, τ) ∈ toks := List.mem_of_getElem? at_
  have core {j c} (hc : (a.apply v).core j = some c) :
      c.recoveryDispatchCount ≤ maxRecoveryDispatches := by
    rcases core_cases hc with same | ⟨g, c₀, rfl, hc₀, rfl⟩ | rfl
    · exact inv.core same
    · rcases allowed_counts h with same | ⟨eq, -, -, under, -⟩
      · rw [same]
        exact inv.core hc₀
      · cases eq
        exact under c₀ hc₀
    · rw [added_uncounted h]
      exact Nat.zero_le _
  constructor
  case core => exact core
  case row =>
    intro j r hr
    rcases row_cases hr with old | ⟨-, hc⟩
    · exact inv.row old
    · exact inv.core hc
  case ahead =>
    intro j c r hc hr
    rcases row_cases hr with old | ⟨rfl, here⟩
    · rcases core_cases hc with same | ⟨g, c₀, rfl, hc₀, rfl⟩ | rfl
      · exact inv.ahead same old
      · have before := inv.ahead hc₀ old
        rcases allowed_counts h with same | ⟨eq, -, -, -, -⟩
        · rw [same]
          exact before
        · cases eq
          exact Nat.le_succ_of_le before
      · cases (inv.pending mem (allowed_add h).1).symm.trans old
    · cases here.symm.trans hc
      exact Nat.le_refl _
  case level =>
    intro level j c r hc hr
    by_cases before : v.phase = .starting → ∃ t todo, (t, .boots todo .kept) ∈ toks
    · rcases row_cases hr with old | ⟨rfl, here⟩
      · rcases core_cases hc with same | ⟨g, c₀, rfl, hc₀, rfl⟩ | rfl
        · exact inv.level before same old
        · rcases allowed_counts h with same | counting
          · rw [same]
            exact inv.level before hc₀ old
          · exact absurd before (not_level base at_ counting)
        · cases (inv.pending mem (allowed_add h).1).symm.trans old
      · cases here.symm.trans hc
        rfl
    · -- then the startup has just seen that every count is stored
      obtain ⟨starting, unkept⟩ := Classical.not_imp.mp before
      have still : (a.apply v).phase = .starting := by
        rcases phase_cases v a with same | ⟨p, rfl, now_⟩
        · rw [same, starting]
        · rcases allowed_enters h with ⟨todo, -, rfl⟩ | rfl
          · exact now_
          · exact absurd ⟨_, _, mem⟩ unkept
      obtain ⟨t', todo, kept⟩ := level still
      rcases mem_set kept with eq | ⟨k, -, at'⟩
      · cases eq
        rcases allowed_kept_token h with rfl | ⟨⟨u, rfl⟩, stored⟩
        · exact absurd ⟨_, _, mem⟩ unkept
        · exact (stored j c r hc hr).symm
      · exact absurd ⟨_, _, List.mem_of_getElem? at'⟩ unkept
  case pending =>
    intro t' τ₁ j hm pend
    by_contra some_
    obtain ⟨r, hr⟩ := Option.ne_none_iff_exists'.mp some_
    have old (hm : (t', τ₁) ∈ toks) : False := by
      rcases row_cases hr with row | ⟨-, here⟩
      · cases (inv.pending hm pend).symm.trans row
      · cases (base.pending hm pend).symm.trans here
    rcases mem_set hm with eq | ⟨k, -, at'⟩
    · cases eq
      rcases allowed_pending h pend with before | ⟨fresh, rfl⟩
      · rcases row_cases hr with row | ⟨-, here⟩
        · cases (inv.pending mem before).symm.trans row
        · cases (base.pending mem before).symm.trans here
      · exact fresh (base.rows hr)
    · exact old (List.mem_of_getElem? at')

theorem first_not_kept (t : Call) (w : World) (todo : List JobId) : first t w ≠ .boots todo .kept := by
  by_cases other : t = .startup
  · subst other
    exact nofun
  · intro eq
    have := first_unwritten w other
    rw [eq] at this
    cases this

theorem recounts_start {w : World} (inv : Recounts w.view toks) :
    Recounts w.view (toks ++ [(t, first t w)]) where
  core := inv.core
  row := inv.row
  ahead := inv.ahead
  level level := inv.level fun starting => by
    obtain ⟨t', todo, mem⟩ := level starting
    rcases List.mem_append.mp mem with old | new
    · exact ⟨t', todo, old⟩
    · have eq := (Prod.mk.inj (List.mem_singleton.mp new)).2
      exact absurd eq.symm (first_not_kept t w todo)
  pending mem pend := by
    rcases List.mem_append.mp mem with old | new
    · exact inv.pending old pend
    · have eq := (Prod.mk.inj (List.mem_singleton.mp new)).2
      rw [eq] at pend
      exact absurd pend ((first_plain t w).pending _)

variable (i t τ) in
theorem recounts_finish (inv : Recounts v toks) :
    Recounts v (toks.set i (t, τ.retire)) where
  core := inv.core
  row := inv.row
  ahead := inv.ahead
  level level := inv.level fun starting => by
    obtain ⟨t', todo, mem⟩ := level starting
    rcases mem_set mem with eq | ⟨k, -, at'⟩
    · have spent := retire_spent τ
      rw [← (Prod.mk.inj eq).2] at spent
      cases spent
    · exact ⟨t', todo, List.mem_of_getElem? at'⟩
  pending mem pend := by
    rcases mem_set mem with eq | ⟨k, -, at'⟩
    · rw [(Prod.mk.inj eq).2] at pend
      exact absurd pend ((retire_spent τ).plain.pending _)
    · exact inv.pending (List.mem_of_getElem? at') pend

theorem recounts_restart {w : World} (inv : Recounts w.view toks) : Recounts w.restart.view [] where
  core hc := inv.row (restart_core hc)
  row hr := inv.row (restart_row w _ ▸ hr)
  ahead hc hr := by
    cases (restart_core hc).symm.trans (restart_row w _ ▸ hr)
    exact Nat.le_refl _
  level := by
    intro _ j c r hc hr
    cases (restart_core hc).symm.trans (restart_row w _ ▸ hr)
    rfl
  pending mem := by cases mem

theorem recounts (cfg : Settings) : Invariant cfg (Anyhow cfg) Base Recounts where
  start _ _ inv _ _ _ _ := recounts_start inv
  move base inv at_ _ _ h := recounts_move base.1 inv at_ h
  finish _ inv _ _ _ := recounts_finish _ _ _ inv
  crash _ _ inv _ := recounts_restart inv

end Counts

section Allowance

variable {v : View} {toks : Toks} {i : Nat} {t : Call} {τ τ' : Tok} {a : Act} {j : JobId}

theorem allowance_mono (row core : Option Core) (known : Bool) {m n : Nat} (h : m ≤ n) :
    allowance row core known m ≤ allowance row core known n := by
  unfold allowance
  split
  · split <;> omega
  · omega
  · omega
  · exact Nat.mul_le_mul_left _ h
  · exact Nat.le_refl _

theorem pending_readies (h : τ.pending j) : 0 < τ.readies j := by
  cases τ with
  | submits | decides => exact pending_holds h
  | _ => exact h.elim

/-- Nobody waits for a job that has a row and is not in memory. -/
theorem awaited_absent (base : Custody v toks) (inv : Recounts v toks) {r : Core}
    (row : v.row j = some r) (absent : v.core j = none) : awaited v toks j = 0 := by
  have queue : v.queue.count j = 0 := by
    apply List.count_eq_zero.mpr
    intro mem
    obtain ⟨c, here⟩ := base.queued mem
    cases absent.symm.trans here
  have hands : tally (fun tok : Call × Tok => tok.2.readies j) toks = 0 := by
    refine tally_zero fun tok mem => ?_
    by_contra pos
    have holds := Nat.lt_of_lt_of_le (Nat.pos_of_ne_zero pos) (readies_le_holds tok.2 j)
    rcases base.present mem holds with pending | ⟨c, here⟩
    · cases (inv.pending mem pending).symm.trans row
    · cases absent.symm.trans here
  unfold awaited
  omega

theorem persisted_cases (v : View) (k j : JobId) :
    v.persisted k j = v.row j ∨ v.persisted k j = none ∨
      ∃ c, v.core j = some c ∧ v.persisted k j = some c := by
  unfold View.persisted
  split
  · rename_i c _ found
    split
    · rename_i own
      subst own
      exact .inr (.inr ⟨c, found, rfl⟩)
    · cases h : (v.row j).filter _ with
      | none => exact .inr (.inl rfl)
      | some r => exact .inl (Option.filter_eq_some_iff.mp h).1.symm
  · exact .inl rfl

/-- Writing a job out, or over another one's row, leaves no job more to be taken. -/
theorem allowance_persist (base : Custody v toks) (inv : Recounts v toks) (k : JobId) {n : Nat}
    (le : n ≤ awaited v toks j) :
    allowance (v.persisted k j) (v.core j) (decide (j ∈ v.issued)) n ≤ redispatches v toks j := by
  have one := awaited_le_one base j
  unfold redispatches
  rcases persisted_cases v k j with same | gone | ⟨c, here, own⟩
  · rw [same]
    exact allowance_mono _ _ _ le
  · rw [gone]
    cases row : v.row j with
    | none => exact allowance_mono _ _ _ le
    | some r =>
      cases here : v.core j with
      | none =>
        have none_ := awaited_absent base inv row here
        have known : decide (j ∈ v.issued) = true := by simpa using base.rows row
        obtain rfl : n = 0 := by omega
        rw [known]
        simp [allowance]
      | some c =>
        have behind := inv.ahead here row
        have most := inv.core here
        simp only [allowance]
        split <;> omega
  · rw [own, here]
    cases row : v.row j with
    | none =>
      simp only [allowance, Nat.le_refl, if_true]
      omega
    | some r =>
      have behind := inv.ahead here row
      have most := inv.core here
      simp only [allowance, Nat.le_refl, if_true]
      split <;> omega

/-- Counting a job makes up for queueing it. -/
theorem allowance_counting (base : Custody v toks) (inv : Recounts v toks)
    (at_ : toks[i]? = some (t, τ)) (counting : Recounting v τ a τ' j) {n : Nat}
    (le : n ≤ awaited v toks j + 1) :
    allowance (v.row j) ((v.core j).map Core.recount) (decide (j ∈ v.issued)) n ≤
      redispatches v toks j := by
  obtain ⟨-, ⟨todo, p, rfl, -⟩, holds, under, -⟩ := counting
  obtain ⟨c, here⟩ := (base.present (List.mem_of_getElem? at_) holds).resolve_left fun h => h
  have room := under c here
  unfold redispatches
  rw [here, Option.map_some]
  cases row : v.row j with
  | none =>
    simp only [allowance, Core.recount]
    omega
  | some r =>
    have behind := inv.ahead here row
    have uncounted : ¬ c.recoveryDispatchCount + 1 ≤ r.recoveryDispatchCount := by omega
    simp only [allowance, Core.recount, uncounted, if_false]
    split <;> omega

/-- No write lets a job be taken more often. -/
theorem redispatches_move (base : Custody v toks) (inv : Recounts v toks)
    (at_ : toks[i]? = some (t, τ)) (h : Allowed τ v a τ') :
    redispatches (a.apply v) (toks.set i (t, τ')) j ≤ redispatches v toks j := by
  have mem : (t, τ) ∈ toks := List.mem_of_getElem? at_
  have sums := awaited_set v at_ (a.apply v) τ' j
  have one := awaited_le_one (custody_move base at_ h) j
  by_cases counting : Recounting v τ a τ' j
  · have more : awaited (a.apply v) (toks.set i (t, τ')) j ≤ awaited v toks j + 1 := by
      have := counting.2.2.2.2
      obtain ⟨rfl, -⟩ := counting
      simp only [Act.apply] at *
      omega
    have done := allowance_counting base inv at_ counting more
    obtain ⟨rfl, -⟩ := counting
    have core : (Act.apply (.revise j .recount) v).core j = (v.core j).map Core.recount := if_pos rfl
    unfold redispatches at done ⊢
    rw [core]
    exact done
  by_cases fresh : j ∉ v.issued ∧ a = .mint j
  · obtain ⟨fresh, rfl⟩ := fresh
    have row : v.row j = none := by
      by_contra some_
      obtain ⟨r, row⟩ := Option.ne_none_iff_exists'.mp some_
      exact fresh (base.rows row)
    have core : v.core j = none := by
      by_contra some_
      obtain ⟨c, core⟩ := Option.ne_none_iff_exists'.mp some_
      exact fresh (base.issued core)
    have most := Nat.mul_le_mul_left (maxRecoveryDispatches + 1) one
    simp only [redispatches, Act.apply, row, core, fresh, List.mem_cons, true_or, decide_true,
      decide_false, allowance] at most ⊢
    omega
  have le : awaited (a.apply v) (toks.set i (t, τ')) j ≤ awaited v toks j := by
    rcases allowed_readies h j with fewer | is | is
    · omega
    · exact absurd is fresh
    · exact absurd is counting
  have same : allowance (v.row j) (v.core j) (decide (j ∈ v.issued))
      (awaited (a.apply v) (toks.set i (t, τ')) j) ≤ redispatches v toks j :=
    allowance_mono _ _ _ le
  cases a with
  | revise k g =>
    by_cases own : k = j
    · subst own
      have counts := (allowed_counts h).resolve_right counting
      unfold redispatches at same ⊢
      simp only [Act.apply, if_true] at same ⊢
      cases core : v.core k with
      | none => rwa [core] at same
      | some c =>
        rw [core] at same
        cases row : v.row k with
        | none => simpa [row, allowance, counts c] using same
        | some r => simpa [row, allowance, counts c] using same
    · have core : (Act.apply (.revise k g) v).core j = v.core j := if_neg (Ne.symm own)
      unfold redispatches at same ⊢
      rw [core]
      exact same
  | add k c =>
    by_cases own : k = j
    · subst own
      have pending := (allowed_add h).1
      have row := inv.pending mem pending
      have core := base.pending mem pending
      have ready := pending_readies pending
      have some_ : 0 < awaited v toks k := by
        have := le_tally (f := fun tok : Call × Tok => tok.2.readies k) at_
        unfold awaited
        simp only at this
        omega
      have known : decide (k ∈ v.issued) = true := by
        simpa using base.held_known at_ (pending_holds pending)
      have zero := added_uncounted h
      simp only [redispatches, Act.apply, if_true, row, core, known, allowance, zero]
      simp only [Act.apply] at one
      have : maxRecoveryDispatches + 1 ≤ (maxRecoveryDispatches + 1) * awaited v toks k :=
        Nat.le_mul_of_pos_right _ some_
      omega
    · have core : (Act.apply (.add k c) v).core j = v.core j := if_neg (Ne.symm own)
      unfold redispatches at same ⊢
      rw [core]
      exact same
  | persist k => exact allowance_persist base inv k le
  | mint u =>
    have known : j ∈ (Act.apply (.mint u) v).issued ↔ j ∈ v.issued := by
      refine ⟨fun old => ?_, List.mem_cons_of_mem _⟩
      rcases List.mem_cons.mp old with rfl | old
      · by_contra new
        exact fresh ⟨new, rfl⟩
      · exact old
    unfold redispatches at same ⊢
    simp only [known]
    exact same
  | quiet | enqueue | dequeue | taskDone | observe | bind | conclude | map | cache | unmap
  | enter => exact same

end Allowance

section Bound

variable {cfg : Settings} {c c' : Run cfg} {l : Label (orchestrator cfg)} {toks : Toks}
  {toks' : (plan cfg).Toks} {j : JobId}

/-- The worker loop takes the job. -/
def Takes (j : JobId) (c : Run cfg) (_ : Label (orchestrator cfg)) (c' : Run cfg) : Prop :=
  c.state.processing ≠ some j ∧ c'.state.processing = some j

theorem first_readies (t : Call) (w : World) (j : JobId) : (first t w).readies j = 0 := by
  by_cases other : t = .startup
  · subst other
    rfl
  · have := (first_unwritten w other).holds j
    have := readies_le_holds (first t w) j
    omega

theorem retire_readies (τ : Tok) (j : JobId) : τ.retire.readies j = 0 := by
  have := (retire_spent τ).empty j
  have := readies_le_holds τ.retire j
  omega

theorem allowance_row (r : Core) (core : Option Core) (known : Bool) (n : Nat) :
    maxRecoveryDispatches - r.recoveryDispatchCount ≤ allowance (some r) core known n := by
  cases core with
  | none => exact Nat.le_add_right _ _
  | some c =>
    simp only [allowance]
    split <;> omega

theorem allowance_loaded {r : Core} {core : Option Core} (known : Bool)
    (loaded : ∀ c, core = some c → c = r) : allowance (some r) core known 0 =
      maxRecoveryDispatches - r.recoveryDispatchCount := by
  cases core with
  | none => rfl
  | some c =>
    cases loaded c rfl
    simp only [allowance, Nat.le_refl, if_true, Nat.add_zero]

/-- After a restart nobody waits, and what is in memory is what was stored. -/
theorem redispatches_restart (base : Custody c.state.view toks) :
    redispatches c.state.restart.view [] j ≤ redispatches c.state.view toks j := by
  have zero : awaited c.state.restart.view [] j = 0 := rfl
  have known : c.state.restart.view.issued = c.state.view.issued := rfl
  unfold redispatches
  rw [zero, known, restart_row]
  cases row : c.state.view.row j with
  | some r =>
    rw [allowance_loaded _ fun r' loaded => Option.some.inj ((restart_core loaded).symm.trans row)]
    exact allowance_row ..
  | none =>
    have absent : c.state.restart.view.core j = none := by
      by_contra some_
      obtain ⟨r, loaded⟩ := Option.ne_none_iff_exists'.mp some_
      cases row.symm.trans (restart_core loaded)
    rw [absent]
    by_cases issued : j ∈ c.state.view.issued
    · simp only [issued, decide_true, allowance]
      exact Nat.zero_le _
    · have core : c.state.view.core j = none := by
        by_contra some_
        obtain ⟨r, here⟩ := Option.ne_none_iff_exists'.mp some_
        exact issued (base.issued here)
      rw [core]
      simp only [issued, decide_false, allowance, Nat.le_refl]

/-- No step lets a job be taken more often. -/
theorem redispatches_kept (base : Base c.state.view toks) (inv : Recounts c.state.view toks)
    (effect : Plan.Effect (plan cfg) c.state toks l c'.state toks') :
    redispatches c'.state.view toks' j ≤ redispatches c.state.view toks j := by
  generalize c'.state = w' at effect
  cases effect with
  | start t =>
    apply allowance_mono
    unfold awaited
    rw [tally_append, tally_cons, tally_nil]
    have := first_readies t c.state j
    simp only at *
    omega
  | quiet => exact Nat.le_refl _
  | move at_ hm =>
    obtain ⟨a, allowed, eq⟩ := hm
    rw [eq]
    exact redispatches_move base.1 inv at_ allowed
  | @finish i t τ at_ =>
    apply allowance_mono
    change awaited c.state.view (toks.set i (t, τ.retire)) j ≤ _
    have := awaited_set c.state.view at_ c.state.view τ.retire j
    have := retire_readies τ j
    omega
  | crash again =>
    cases again
    exact redispatches_restart base.1

theorem takes_spends (base : Base c.state.view toks) (inv : Recounts c.state.view toks)
    (effect : Plan.Effect (plan cfg) c.state toks l c'.state toks') (mark : Takes j c l c') :
    redispatches c'.state.view toks' j < redispatches c.state.view toks j := by
  obtain ⟨before, after⟩ := mark
  have before : c.state.view.processing ≠ some j := before
  have after : c'.state.view.processing = some j := after
  generalize c'.state = w' at effect after
  cases effect with
  | start | quiet | finish => exact absurd after before
  | crash again =>
    cases again
    cases after
  | @move i t τ τ' _ at_ hm =>
    obtain ⟨a, allowed, eq⟩ := hm
    have mem := List.mem_of_getElem? at_
    have sums := awaited_set c.state.view at_ w'.view τ' j
    rw [eq] at after sums ⊢
    cases allowed with
    | @fetch _ k head =>
      obtain rfl : k = j := Option.some.inj after
      obtain ⟨rest, queue⟩ := List.head?_eq_some_iff.mp head
      obtain ⟨core, here⟩ := base.1.queued (List.mem_of_mem_head? head)
      have serving : c.state.view.phase = .serving := base.1.phased mem
      have fewer : awaited (Act.apply (.dequeue k) c.state.view) (toks.set i (t, .works k .opened)) k <
          awaited c.state.view toks k := by
        have left : (Act.apply (.dequeue k) c.state.view).queue.count k + 1 =
            c.state.view.queue.count k := by
          simp only [Act.apply, queue, List.tail_cons, List.count_cons_self]
        simp only [Tok.readies] at sums
        omega
      change allowance (c.state.view.row k) (c.state.view.core k) _ _ < _
      unfold redispatches
      rw [here]
      cases row : c.state.view.row k with
      | none =>
        simp only [allowance]
        omega
      | some r =>
        -- the loop runs only when the counts are stored
        have level := inv.level (fun starting => by simp [serving] at starting) here row
        simp only [allowance, level, Nat.le_refl, if_true]
        omega
    | release => cases after
    | _ => exact absurd after before

/-- How often the worker loop takes a job that the database knows, or does not know any more, or
that has still to be made. -/
structure Limited (cfg : Settings) (w : World) (j : JobId) : Prop where
  stored : ∀ {n c} {row : Job}, Counted (orchestrator cfg) (Anyhow cfg) (Takes j) (.boot _ w) n c →
    w.row? j = some row → n + row.recoveryDispatchCount ≤ maxRecoveryDispatches
  lost : ∀ {n c}, Counted (orchestrator cfg) (Anyhow cfg) (Takes j) (.boot _ w) n c →
    j ∈ w.issued → w.row? j = none → n = 0
  new : ∀ {n c}, Counted (orchestrator cfg) (Anyhow cfg) (Takes j) (.boot _ w) n c →
    j ∉ w.issued → n ≤ maxRecoveryDispatches + 1

/-- What a process starts with: nothing, or what the last one stored. -/
theorem boots_row {w : World} (boots : Boots cfg w) {core : Core} (h : w.view.core j = some core) :
    w.view.row j = some core := by
  obtain ⟨persistent, run⟩ := boots
  generalize eq : Config.boot (orchestrator cfg) w = c at run
  have idle : c.threads = [] := eq ▸ rfl
  cases run with
  | refl =>
    cases eq
    cases h
  | step _ _ next =>
    cases next with
    | start => simp at idle
    | crash again =>
      cases again
      cases eq
      rw [restart_row]
      exact restart_core h
    | get run at_ | set run at_ | answer run at_ | resume run at_ =>
      have := (List.getElem?_eq_some_iff.mp at_).1
      have := congrArg List.length idle
      simp only [List.length_set, List.length_nil] at this
      omega
    | park run at_ | finish run at_ =>
      have := (List.getElem?_eq_some_iff.mp at_).1
      have := congrArg List.length idle
      simp only [List.length_nil] at this
      omega

/-- From any restart on, over any number of further crashes, the pipeline is run for a job at most
as often as its stored count leaves below the maximum. -/
theorem redispatch_bounded {w : World} (boots : Boots cfg w) (j : JobId) : Limited cfg w j := by
  have origin := boots
  obtain ⟨persistent, run⟩ := origin
  have initial : Recounts (World.initial persistent).view [] := by
    constructor
    case core => exact fun h => by cases h
    case row => exact fun h => absurd h initial_row
    case ahead => exact fun h => by cases h
    case level => exact fun _ _ _ _ h => by cases h
    case pending => exact fun h => by cases h
  obtain ⟨toks, tracks, known, inv⟩ := Invariant.reach (Drnt.Orchestrator.base cfg) (recounts cfg)
    (Plan.tracks_boot _) (base_initial persistent) initial run
  obtain rfl : toks = [] := List.length_eq_zero_iff.mp tracks.length
  have bound {n : Nat} {c : Run cfg}
      (counted : Counted (orchestrator cfg) (Anyhow cfg) (Takes j) (.boot _ w) n c) :
      n ≤ redispatches w.view [] j := by
    refine Invariant.counted (Drnt.Orchestrator.base cfg) (recounts cfg)
      (fun v toks => redispatches v toks j) ?_ tracks known inv counted
    intro c c' l toks toks' tracks base inv _ next tracks' inv' effect
    exact ⟨redispatches_kept base inv effect, takes_spends base inv effect⟩
  have asleep : w.view.queue = [] := known.1.asleep (Boots.stopped ⟨persistent, run⟩)
  have zero : awaited w.view [] j = 0 := by simp [awaited, asleep]
  have absent (row : w.view.row j = none) : w.view.core j = none := by
    by_contra some_
    obtain ⟨core, here⟩ := Option.ne_none_iff_exists'.mp some_
    cases row.symm.trans (boots_row boots here)
  constructor
  case stored =>
    intro n c row counted here
    have row_ : w.view.row j = some row.core := by simp [view_row, here]
    have most := inv.row row_
    have same : row.core.recoveryDispatchCount = row.recoveryDispatchCount := rfl
    have spent := bound counted
    rw [redispatches, row_, zero, allowance_loaded _ fun core here => Option.some.inj ((boots_row boots here).symm.trans row_)] at spent
    omega
  case lost =>
    intro n c counted issued gone
    have row : w.view.row j = none := by simp [view_row, gone]
    have issued : j ∈ w.view.issued := issued
    have spent := bound counted
    rw [redispatches, row, absent row, zero] at spent
    simpa [issued, allowance] using spent
  case new =>
    intro n c counted fresh
    have row : w.view.row j = none := by
      by_contra some_
      obtain ⟨r, row⟩ := Option.ne_none_iff_exists'.mp some_
      exact fresh (known.1.rows row)
    have fresh : j ∉ w.view.issued := fresh
    have spent := bound counted
    rw [redispatches, row, absent row] at spent
    simpa [fresh, allowance] using spent

/-- A job whose first run was cut short by a crash has two runs left, and one after another crash. -/
theorem redispatch_bounded_after : ∃ w : World, Boots plain w ∧
    (w.row? (uuid 1)).map (·.recoveryDispatchCount) = some 1 ∧ Limited plain w (uuid 1) := by
  obtain ⟨c, run, seen⟩ := reached (guards_anyhow plain) (fresh plain true)
    [.start .startup, .finish 0, .start (.submit (request (some "k"))), .finish 1, .crash,
      .start .startup, .finish 0, .crash]
    (fun c => decide ((c.state.row? (uuid 1)).map (·.recoveryDispatchCount) = some 1 ∧
      c.running = none) && c.threads.isEmpty) (by decide +kernel)
  obtain ⟨counted, stopped⟩ := Bool.and_eq_true_iff.mp seen
  obtain ⟨counted, idle⟩ := of_decide_eq_true counted
  obtain ⟨w, running, threads⟩ := c
  obtain rfl : running = none := idle
  obtain rfl : threads = [] := List.isEmpty_iff.mp stopped
  exact ⟨w, ⟨true, run⟩, counted, redispatch_bounded ⟨true, run⟩ (uuid 1)⟩

end Bound

end Drnt.Orchestrator
