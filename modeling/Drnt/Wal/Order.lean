import Drnt.Wal.Conduct
import Drnt.Lib.Tally

/-! What holds in every run: one startup at a time, in the phase that it has brought about, and
every event in flight is that of one emit. -/
namespace Drnt.Wal

open Lib Lib.Coop

abbrev Toks := List (Tag × Tok)

section Weights

def Tag.isStartup : Tag → Bool
  | .startup _ => true
  | _ => false

def Tag.isModelChange : Tag → Bool
  | .modelChange .. => true
  | _ => false

def busy (tok : Tag × Tok) : Nat :=
  match tok.2.base with
  | .call | .model => 0
  | .loading _ | .reconciling | .settled => 1

def Stage.flies (e : Event) : Stage → Nat
  | .flying e' _ => if e' = e then 1 else 0
  | _ => 0

def Stage.unlogged (e : Event) : Stage → Nat
  | .flying e' false => if e' = e then 1 else 0
  | _ => 0

def flies (e : Event) (tok : Tag × Tok) : Nat := tok.2.stage.flies e

def unlogged (e : Event) (tok : Tag × Tok) : Nat := tok.2.stage.unlogged e

/-- Before the process is up, only the startup does anything. -/
def Placed (s : World) (t : Tag) (τ : Tok) : Prop :=
  match τ.base with
  | .call => s.phase = .up ∨ τ.stage = .idle
  | .model => (s.phase = .up ∨ τ.stage = .idle) ∧ t.isModelChange
  | .loading _ => s.phase = .down ∧ t.isStartup
  | .reconciling => s.phase = .reconciling ∧ t.isStartup
  | .settled => s.phase = .starting ∧ t.isStartup

/-- A promotion whose level is written. -/
def Raises (s : World) : Stage → Prop
  | .raised cap t => 0 ≤ t ∧ ∃ e, s.entryAt? cap = some e ∧ e.effectiveWalLevel = t
  | _ => True

structure Orderly (s : World) (toks : Toks) : Prop where
  alone : tally busy toks ≤ 1
  placed : ∀ {i : Nat} {t : Tag} {τ : Tok}, toks[i]? = some (t, τ) → Placed s t τ
  flying : ∀ e, s.inFlight.count e = tally (flies e) toks
  waiting : ∀ e, s.unlogged.count e = tally (unlogged e) toks
  raised : ∀ {i : Nat} {t : Tag} {τ : Tok}, toks[i]? = some (t, τ) → Raises s τ.stage
  fresh : s.saved = false → ∀ cap, s.entryAt? cap = none

end Weights

section Preserved

variable {acked : Prop} {s s' : World} {toks : Toks} {i : Nat} {t : Tag} {τ τ' : Tok}

theorem not_both_busy (inv : Orderly s toks) {k : Nat} {t' : Tag} {τ₁ : Tok}
    (at_ : toks[i]? = some (t, τ)) (other : toks[k]? = some (t', τ₁)) (ne : i ≠ k)
    (mine : busy (t, τ) = 1) : busy (t', τ₁) = 0 := by
  have both := add_le_tally (f := busy) ne at_ other
  have := inv.alone
  omega

theorem Placed.not_up (h : Placed s t τ) (mine : busy (t, τ) = 1) : s.phase ≠ .up := by
  intro up
  unfold Placed at h
  unfold busy at mine
  cases base : τ.base with
  | call | model => simp [base] at mine
  | loading | reconciling | settled =>
    rw [base] at h
    cases h.1.symm.trans up

/-- The one startup moves on. -/
theorem placed_other (inv : Orderly s toks) {k : Nat} {t' : Tag} {τ₁ : Tok}
    (at_ : toks[i]? = some (t, τ)) (other : toks[k]? = some (t', τ₁)) (ne : i ≠ k)
    (mine : busy (t, τ) = 1) : Placed s' t' τ₁ := by
  have idle := not_both_busy inv at_ other ne mine
  have placed := inv.placed other
  have notUp := (inv.placed at_).not_up mine
  unfold busy at idle
  unfold Placed at placed ⊢
  cases base : τ₁.base with
  | call =>
    rw [base] at placed
    exact .inr (placed.resolve_left notUp)
  | model =>
    rw [base] at placed
    exact ⟨.inr (placed.1.resolve_left notUp), placed.2⟩
  | loading | reconciling | settled => simp [base] at idle

theorem Placed.moved {b : Base} {σ σ' : Stage} (h : Placed s t ⟨b, σ⟩) (phase : s'.phase = s.phase)
    (on : σ ≠ .idle ∨ Serving b s ∨ σ' = .idle) : Placed s' t ⟨b, σ'⟩ := by
  have up (serving : Serving b s → s.phase = .up) (h : s.phase = .up ∨ σ = .idle) :
      s'.phase = .up ∨ σ' = .idle := by
    rcases on with busy | served | idle
    · exact .inl (phase.trans (h.resolve_right busy))
    · exact .inl (phase.trans (serving served))
    · exact .inr idle
  cases b with
  | call => exact up id h
  | model => exact ⟨up id h.1, h.2⟩
  | loading | reconciling | settled => exact ⟨phase.trans h.1, h.2⟩

theorem parked_raises (parked : Plan.Parked (conduct acked) toks (some i)) {k : Nat} {t' : Tag}
    {τ₁ : Tok} (other : toks[k]? = some (t', τ₁)) (ne : i ≠ k) : Raises s τ₁.stage := by
  rcases (parked (by simpa using ne) other).2 with ⟨e, logged, stage⟩ | stage
  all_goals
    change τ₁.stage = _ at stage
    rw [stage]
    trivial

theorem get_set_cases {k : Nat} {tok : Tag × Tok} {new : Tag × Tok}
    (h : (toks.set i new)[k]? = some tok) : (i = k ∧ tok = new) ∨ (i ≠ k ∧ toks[k]? = some tok) := by
  by_cases same : i = k
  · subst same
    have bound : i < toks.length := by
      have := (List.getElem?_eq_some_iff.mp h).1
      rwa [List.length_set] at this
    rw [List.getElem?_set_self bound] at h
    exact .inl ⟨rfl, (Option.some.inj h).symm⟩
  · rw [List.getElem?_set_ne same] at h
    exact .inr ⟨same, h⟩

/-- What has to be looked at when one token moves. -/
theorem orderly_set (inv : Orderly s toks) (at_ : toks[i]? = some (t, τ))
    (parked : Plan.Parked (conduct acked) toks (some i))
    (busy_ : busy (t, τ') ≤ busy (t, τ)) (placed : Placed s' t τ')
    (others : s'.phase = s.phase ∨ busy (t, τ) = 1)
    (flying : ∀ e, s'.inFlight.count e + τ.stage.flies e = s.inFlight.count e + τ'.stage.flies e)
    (waiting : ∀ e, s'.unlogged.count e + τ.stage.unlogged e =
      s.unlogged.count e + τ'.stage.unlogged e)
    (raised : Raises s' τ'.stage) (fresh : s'.saved = false → ∀ cap, s'.entryAt? cap = none) :
    Orderly s' (toks.set i (t, τ')) := by
  refine ⟨?_, ?_, ?_, ?_, ?_, fresh⟩
  · have := tally_set (f := busy) at_ (t, τ')
    have := inv.alone
    omega
  · intro k t₁ τ₁ h
    rcases get_set_cases h with ⟨rfl, eq⟩ | ⟨ne, other⟩
    · cases eq
      exact placed
    · rcases others with phase | mine
      · have was := inv.placed other
        unfold Placed at was ⊢
        rw [phase]
        exact was
      · exact placed_other inv at_ other ne mine
  · intro e
    have set := tally_set (f := flies e) at_ (t, τ')
    have known := inv.flying e
    have change := flying e
    change _ + τ.stage.flies e = _ + τ'.stage.flies e at set
    omega
  · intro e
    have set := tally_set (f := unlogged e) at_ (t, τ')
    have known := inv.waiting e
    have change := waiting e
    change _ + τ.stage.unlogged e = _ + τ'.stage.unlogged e at set
    omega
  · intro k t₁ τ₁ h
    rcases get_set_cases h with ⟨rfl, eq⟩ | ⟨ne, other⟩
    · cases eq
      exact raised
    · exact parked_raises parked other ne

/-- A move that sends and receives nothing. -/
theorem orderly_quiet (inv : Orderly s toks) (at_ : toks[i]? = some (t, τ))
    (parked : Plan.Parked (conduct acked) toks (some i))
    (busy_ : busy (t, τ') ≤ busy (t, τ)) (placed : Placed s' t τ')
    (others : s'.phase = s.phase ∨ busy (t, τ) = 1)
    (same : s'.inFlight = s.inFlight ∧ s'.unlogged = s.unlogged)
    (still : (∀ e, τ'.stage.flies e = τ.stage.flies e) ∧
      ∀ e, τ'.stage.unlogged e = τ.stage.unlogged e)
    (raised : Raises s' τ'.stage) (fresh : s'.saved = false → ∀ cap, s'.entryAt? cap = none) :
    Orderly s' (toks.set i (t, τ')) :=
  orderly_set inv at_ parked busy_ placed others
    (fun e => by rw [same.1, still.1])
    (fun e => by rw [same.2, still.2]) raised fresh

theorem landed_flies (b : Body) (e : Event) :
    (landed b).flies e = 0 ∧ (landed b).unlogged e = 0 := by
  unfold landed
  split <;> exact ⟨rfl, rfl⟩

theorem count_erase_add {l : List Event} {e e' : Event} (h : (if e = e' then 1 else 0) ≤ l.count e') :
    (l.erase e).count e' + (if e = e' then 1 else 0) = l.count e' := by
  rw [List.count_erase]
  by_cases same : e = e'
  · subst same
    simp only [if_pos, beq_self_eq_true] at h ⊢
    omega
  · simp [same]

/-- What a call is at when it sends an event. -/
theorem sends_stage {b : Base} {σ : Stage} {body : Body} (may : Sends b σ s body) :
    σ = .idle ∨ ∃ cap f t, σ = .owing cap f t := by
  cases body with
  | promoted => exact .inl may.2.1
  | demoted cap name f t trigger ref =>
    by_cases manual : trigger = .manual
    · rw [Sends, if_pos manual] at may
      exact .inl may.2.1
    · rw [Sends, if_neg manual] at may
      exact .inr ⟨cap, f, t, may⟩
  | decayed => exact .inl may.2.1
  | jobOverridden => exact .inl may.2
  | promotionRecommended => exact .inl may.2.1
  | configChange | modelChange | startup => exact .inl may

theorem sends_still {b : Base} {σ : Stage} {body : Body} (may : Sends b σ s body) (e : Event) :
    σ.flies e = 0 ∧ σ.unlogged e = 0 := by
  rcases sends_stage may with rfl | ⟨cap, f, t, rfl⟩ <;> exact ⟨rfl, rfl⟩

theorem fresh_edit (fresh : s.saved = false → ∀ cap, s.entryAt? cap = none) (cap : PyStr)
    (f : Entry → Entry) : (s.edit cap f).saved = false → ∀ c, (s.edit cap f).entryAt? c = none := by
  intro new c
  rw [entryAt?_edit, fresh new cap, fresh new c]
  split <;> rfl

theorem raises_counters {σ : Stage} (h : Raises s σ) (cap : PyStr) (g : Counters → Counters) :
    Raises (s.edit cap (·.withCounters g)) σ := by
  cases σ with
  | raised c t =>
    obtain ⟨floor, e, at_, level⟩ := h
    refine ⟨floor, ?_⟩
    by_cases same : c = cap
    · subst same
      exact ⟨e.withCounters g, by rw [entryAt?_edit_self, at_]; rfl, level⟩
    · exact ⟨e, by rw [entryAt?_edit_ne same]; exact at_, level⟩
  | _ => trivial

theorem enter_phase {phase : Phase} (h : s.phase.rank < phase.rank) :
    (s.enter phase).phase = phase := by
  rw [World.enter, if_pos h]

/-- The startup enters its next phase. -/
theorem orderly_entered {phase : Phase} {b b' : Base} (inv : Orderly s toks)
    (at_ : toks[i]? = some (t, ⟨b, .idle⟩)) (parked : Plan.Parked (conduct acked) toks (some i))
    (busy_ : busy (t, ⟨b', .idle⟩) ≤ busy (t, ⟨b, .idle⟩)) (placed : Placed (s.enter phase) t ⟨b', .idle⟩)
    (mine : busy (t, (⟨b, .idle⟩ : Tok)) = 1) :
    Orderly (s.enter phase) (toks.set i (t, ⟨b', .idle⟩)) := by
  obtain ⟨p, eq⟩ := enter_eq s phase
  refine orderly_quiet inv at_ parked busy_ placed (.inr mine) ?_ ⟨fun _ => rfl, fun _ => rfl⟩
    trivial ?_
  · rw [eq]
    exact ⟨rfl, rfl⟩
  · rw [eq]
    exact inv.fresh

theorem orderly_move (inv : Orderly s toks) (at_ : toks[i]? = some (t, τ))
    (parked : Plan.Parked (conduct acked) toks (some i)) (move : Move acked τ s τ' s') :
    Orderly s' (toks.set i (t, τ')) := by
  have here := inv.placed at_
  cases move with
  | @send b σ _ e serving may =>
    have idle := sends_still may
    refine orderly_set inv at_ parked le_rfl (here.moved rfl (.inr (.inl serving))) (.inl rfl) ?_ ?_
      trivial inv.fresh
    · intro e'
      have := (idle e').1
      simp only [World.send, List.count_append, List.count_singleton, Stage.flies, beq_iff_eq] at this ⊢
      omega
    · intro e'
      have := (idle e').2
      simp only [World.send, List.count_append, List.count_singleton, Stage.unlogged,
        beq_iff_eq] at this ⊢
      omega
  | @record b _ e =>
    refine orderly_set inv at_ parked le_rfl (here.moved rfl (.inl (by simp))) (.inl rfl)
      (fun _ => rfl) ?_ trivial inv.fresh
    intro e'
    have own := le_tally (f := unlogged e') at_
    rw [← inv.waiting e'] at own
    exact count_erase_add own
  | @arrive b _ e logged =>
    have down := landed_flies e.body
    refine orderly_set inv at_ parked le_rfl (here.moved rfl (.inl (by simp))) (.inl rfl) ?_ ?_ ?_
      inv.fresh
    · intro e'
      have own := le_tally (f := flies e') at_
      rw [← inv.flying e'] at own
      rw [(down e').1]
      exact count_erase_add own
    · intro e'
      have own := le_tally (f := unlogged e') at_
      rw [← inv.waiting e'] at own
      rw [(down e').2]
      cases logged with
      | true => rfl
      | false => exact count_erase_add own
    · simp only [landed]
      split <;> trivial
  | @lower b σ _ cap f t serving _ from_ =>
    refine orderly_quiet inv at_ parked le_rfl (here.moved rfl (.inr (.inl serving))) (.inl rfl)
      ⟨rfl, rfl⟩ ?_ trivial (fresh_edit inv.fresh _ _)
    rcases from_ with rfl | ⟨ex, rfl⟩
    · exact ⟨fun _ => rfl, fun _ => rfl⟩
    · exact ⟨fun _ => rfl, fun _ => rfl⟩
  | decay | bring | activate =>
    exact orderly_quiet inv at_ parked le_rfl (here.moved rfl (.inl (by simp))) (.inl rfl) ⟨rfl, rfl⟩
      ⟨fun _ => rfl, fun _ => rfl⟩ trivial (fresh_edit inv.fresh _ _)
  | @reset b _ cap f t tell =>
    cases tell with
    | true | false =>
      exact orderly_quiet inv at_ parked le_rfl (here.moved rfl (.inl (by simp))) (.inl rfl) ⟨rfl, rfl⟩
        ⟨fun _ => rfl, fun _ => rfl⟩ trivial (fresh_edit inv.fresh _ _)
  | @raise _ e b cap f t config found told up known wants =>
    by_cases floor : f = -1
    · rw [if_pos floor]
      refine orderly_quiet inv at_ parked le_rfl (here.moved rfl (.inl (by simp))) (.inl rfl) ⟨rfl, rfl⟩
        ⟨fun _ => rfl, fun _ => rfl⟩ ⟨?_, e.setLevel t, ?_, rfl⟩ (fresh_edit inv.fresh _ _)
      · exact wants ▸ config.desired_nonneg
      · rw [entryAt?_edit_self, found]
        rfl
    · rw [if_neg floor]
      exact orderly_quiet inv at_ parked le_rfl (here.moved rfl (.inl (by simp))) (.inl rfl) ⟨rfl, rfl⟩
        ⟨fun _ => rfl, fun _ => rfl⟩ trivial (fresh_edit inv.fresh _ _)
  | outcome =>
    exact orderly_quiet inv at_ parked le_rfl here (.inl rfl) ⟨rfl, rfl⟩
      ⟨fun _ => rfl, fun _ => rfl⟩ trivial (fresh_edit inv.fresh _ _)
  | counters =>
    exact orderly_quiet inv at_ parked le_rfl here (.inl rfl) ⟨rfl, rfl⟩
      ⟨fun _ => rfl, fun _ => rfl⟩ (raises_counters (inv.raised at_) ..) (fresh_edit inv.fresh _ _)
  | override serving =>
    exact orderly_quiet inv at_ parked le_rfl (here.moved rfl (.inr (.inl serving))) (.inl rfl)
      ⟨rfl, rfl⟩ ⟨fun _ => rfl, fun _ => rfl⟩ trivial inv.fresh
  | tick | load =>
    exact orderly_quiet inv at_ parked le_rfl here (.inl rfl) ⟨rfl, rfl⟩
      ⟨fun _ => rfl, fun _ => rfl⟩ trivial inv.fresh
  | init | updateMeta =>
    exact orderly_quiet inv at_ parked le_rfl here (.inl rfl) ⟨rfl, rfl⟩
      ⟨fun _ => rfl, fun _ => rfl⟩ trivial (fun new => by cases new)
  | begin down saved =>
    have phase : (s.enter .reconciling).phase = .reconciling :=
      enter_phase (by rw [down]; decide)
    exact orderly_entered inv at_ parked le_rfl ⟨phase, here.2⟩ rfl
  | keep down saved same =>
    have phase : (s.enter .starting).phase = .starting := enter_phase (by rw [down]; decide)
    exact orderly_entered inv at_ parked le_rfl ⟨phase, here.2⟩ rfl
  | configured =>
    have phase : (s.enter .starting).phase = .starting := enter_phase (by rw [here.1]; decide)
    exact orderly_entered inv at_ parked le_rfl ⟨phase, here.2⟩ rfl
  | up => exact orderly_entered inv at_ parked (Nat.zero_le _) (.inr rfl) rfl

theorem first_stage (t : Tag) : (first t).stage = .idle := by
  cases t <;> rfl

theorem orderly_start (inv : Orderly s toks) (parked : Plan.Parked (conduct acked) toks none)
    (may : t.Starts s) : Orderly s (toks ++ [(t, first t)]) := by
  have idle := first_stage t
  have last {k : Nat} {tok : Tag × Tok} (h : (toks ++ [(t, first t)])[k]? = some tok) :
      toks[k]? = some tok ∨ tok = (t, first t) := by
    rcases List.mem_append.mp (List.mem_of_getElem? h) with old | new
    · rw [List.getElem?_append] at h
      split at h
      · exact .inl h
      · have mem := List.mem_of_getElem? h
        exact .inr (List.mem_singleton.mp mem)
    · exact .inr (List.mem_singleton.mp new)
  refine ⟨?_, ?_, ?_, ?_, ?_, inv.fresh⟩
  · rw [tally_append, tally_cons, tally_nil]
    have one := inv.alone
    by_cases startup : t.isStartup = true
    · have down : s.phase = .down := by
        cases t with
        | startup => exact may
        | _ => cases startup
      have none_ : tally busy toks = 0 := by
        by_contra some_
        obtain ⟨k, ⟨t', τ'⟩, other, is⟩ := exists_of_tally_pos (Nat.pos_of_ne_zero some_)
        have placed := inv.placed other
        unfold busy at is
        cases base : τ'.base with
        | call | model => simp [base] at is
        | loading =>
          have begun := (parked (by simp) other).1
          change τ'.base.isLoading = _ at begun
          rw [base] at begun
          cases begun
        | reconciling | settled =>
          rw [Placed, base] at placed
          cases placed.1.symm.trans down
      have le : busy (t, first t) ≤ 1 := by
        unfold busy
        split <;> omega
      omega
    · have zero : busy (t, first t) = 0 := by
        cases t with
        | startup => exact absurd rfl startup
        | _ => rfl
      omega
  · intro k t' τ' h
    rcases last h with old | new
    · exact inv.placed old
    · cases new
      cases t with
      | startup => exact ⟨may, rfl⟩
      | modelChange => exact ⟨.inr rfl, rfl⟩
      | _ => exact .inr rfl
  · intro e
    have zero : flies e (t, first t) = 0 := by rw [flies, idle]; rfl
    rw [tally_append, tally_cons, tally_nil, zero]
    exact inv.flying e
  · intro e
    have zero : unlogged e (t, first t) = 0 := by rw [unlogged, idle]; rfl
    rw [tally_append, tally_cons, tally_nil, zero]
    exact inv.waiting e
  · intro k t' τ' h
    rcases last h with old | new
    · exact inv.raised old
    · cases new
      rw [idle]
      trivial

theorem ends_still (ends : Ends acked s τ.stage) (e : Event) :
    τ.stage.flies e = 0 ∧ τ.stage.unlogged e = 0 := by
  cases stage : τ.stage with
  | idle | due | overriding => exact ⟨rfl, rfl⟩
  | flying | lowered | owing | raised =>
    rw [stage] at ends
    exact ends.elim

theorem orderly_finish (inv : Orderly s toks) (at_ : toks[i]? = some (t, τ))
    (ends : Ends acked s τ.stage) : Orderly s (toks.set i (t, ⟨.call, .idle⟩)) := by
  have still := ends_still ends
  refine ⟨?_, ?_, ?_, ?_, ?_, inv.fresh⟩
  · have set := tally_set (f := busy) at_ (t, ⟨.call, .idle⟩)
    have := inv.alone
    have zero : busy (t, (⟨.call, .idle⟩ : Tok)) = 0 := rfl
    omega
  · intro k t' τ' h
    rcases get_set_cases h with ⟨-, eq⟩ | ⟨-, other⟩
    · cases eq
      exact .inr rfl
    · exact inv.placed other
  · intro e
    have set := tally_set (f := flies e) at_ (t, ⟨.call, .idle⟩)
    have zero : flies e (t, (⟨.call, .idle⟩ : Tok)) = 0 := rfl
    have was : flies e (t, τ) = 0 := (still e).1
    have := inv.flying e
    omega
  · intro e
    have set := tally_set (f := unlogged e) at_ (t, ⟨.call, .idle⟩)
    have zero : unlogged e (t, (⟨.call, .idle⟩ : Tok)) = 0 := rfl
    have was : unlogged e (t, τ) = 0 := (still e).2
    have := inv.waiting e
    omega
  · intro k t' τ' h
    rcases get_set_cases h with ⟨-, eq⟩ | ⟨-, other⟩
    · cases eq
      trivial
    · exact inv.raised other

theorem orderly_restart (inv : Orderly s toks) (late : List Event) :
    Orderly (s.restart late) [] :=
  ⟨Nat.zero_le _, nofun, fun _ => rfl, fun _ => rfl, nofun, inv.fresh⟩

/-- What holds in every run. -/
theorem orderly (acked : Prop) (ok : Config machine → Label machine → Prop) :
    (conduct acked).Preserves ok Orderly where
  start _ _ inv parked _ _ may := orderly_start inv parked may
  move _ inv _ _ at_ parked move := orderly_move inv at_ parked move
  finish _ inv _ _ _ at_ ends := orderly_finish inv at_ ends
  crash _ _ inv _ again := by
    obtain ⟨late, -, rfl⟩ := again
    exact orderly_restart inv late

theorem orderly_initial : Orderly initial.state [] :=
  ⟨Nat.zero_le _, nofun, fun _ => rfl, fun _ => rfl, nofun, fun _ _ => rfl⟩

end Preserved

section Writes

/-- The decay that a call has announced and has yet to make. -/
def Stage.decay? : Stage → Option (PyStr × Int)
  | .flying e _ => e.body.decay?
  | .due b => b.decay?
  | .idle | .lowered .. | .owing .. | .raised .. | .overriding .. => none

/-- What a write may make of the entry of a capability. -/
inductive Becomes (τ : Tok) (s : World) (cap : PyStr) : Entry → Prop
  | kept {e : Entry} (at_ : s.entryAt? cap = some e) : Becomes τ s cap e
  | counted {e : Entry} {g : Counters → Counters} (at_ : s.entryAt? cap = some e) :
      Becomes τ s cap (e.withCounters g)
  | lowered {e : Entry} {t : Int} (at_ : s.entryAt? cap = some e) (serving : Serving τ.base s)
      (other : τ.base ≠ .reconciling) (way : Lowers τ.base e.effective t) :
      Becomes τ s cap (e.demote t)
  | decayed {e : Entry} {f : Int} (at_ : s.entryAt? cap = some e) (call : τ.base = .call)
      (told : τ.stage.decay? = some (cap, f)) (floor : 1 ≤ f) : Becomes τ s cap (e.demote (f - 1))
  | brought {e : Entry} {config : Capability} (at_ : s.entryAt? cap = some e)
      (base : τ.base = .reconciling) (known : s.registry.get? cap = some config) :
      Becomes τ s cap (e.demote config.desiredWalLevel)
  | raised {e : Entry} {config : Capability} (at_ : s.entryAt? cap = some e)
      (base : τ.base = .reconciling) (known : s.registry.get? cap = some config) :
      Becomes τ s cap (e.setLevel config.desiredWalLevel)
  | activated {e : Entry} (at_ : s.entryAt? cap = some e) (base : τ.base = .reconciling)
      (floor : 0 ≤ e.effectiveWalLevel) : Becomes τ s cap e.activate
  | new (base : τ.base.isLoading = true) (saved : s.saved = false) : Becomes τ s cap {}

variable {acked : Prop} {s s' : World} {τ τ' : Tok} {cap c : PyStr} {f : Entry → Entry} {e' : Entry}

/-- An edit leaves the other capabilities alone. -/
theorem becomes_edit (edited : ∀ e, s.entryAt? cap = some e → Becomes τ s cap (f e))
    (at' : (s.edit cap f).entryAt? c = some e') : Becomes τ s c e' := by
  by_cases same : c = cap
  · subst same
    rw [entryAt?_edit_self] at at'
    obtain ⟨e, at_, rfl⟩ := Option.map_eq_some_iff.mp at'
    exact edited e at_
  · rw [entryAt?_edit_ne same] at at'
    exact .kept at'

theorem initialized (keys : List PyStr) (d : Dict PyStr Entry)
    (h : (keys.foldl (fun d cap => d.set cap {}) d).get? cap = some e') :
    e' = {} ∨ d.get? cap = some e' := by
  induction keys generalizing d with
  | nil => exact .inr h
  | cons key rest ih =>
    rcases ih _ h with new | old
    · exact .inl new
    · rw [Dict.get?_set] at old
      split at old
      · exact .inl (Option.some.inj old).symm
      · exact .inr old

theorem Move.becomes (move : Move acked τ s τ' s') (raises : Raises s τ.stage)
    (at' : s'.entryAt? cap = some e') : Becomes τ s cap e' := by
  cases move with
  | send | record | arrive | override | load | tick => exact .kept at'
  | begin | keep | configured | up =>
    rw [World.entryAt?, state_enter] at at'
    exact .kept at'
  | lower serving other from_ level way =>
    refine becomes_edit (fun e at_ => ?_) at'
    rw [World.level?, at_] at level
    cases level
    exact .lowered at_ serving other way
  | decay serving _ told floor =>
    exact becomes_edit (fun e at_ => .decayed at_ rfl told floor) at'
  | bring _ told known wants =>
    subst wants
    exact becomes_edit (fun e at_ => .brought at_ rfl known) at'
  | raise _ told up known wants =>
    subst wants
    exact becomes_edit (fun e at_ => .raised at_ rfl known) at'
  | activate =>
    obtain ⟨floor, e, at_, rfl⟩ := raises
    refine becomes_edit (fun e₁ at₁ => ?_) at'
    cases at_.symm.trans at₁
    exact .activated at_ rfl floor
  | reset | counters => exact becomes_edit (fun e at_ => .counted at_) at'
  | outcome => exact becomes_edit (s := s) (fun e at_ => .counted at_) at'
  | init down new =>
    rcases initialized s.registry.keys ∅ at' with rfl | old
    · exact .new rfl new
    · cases old
  | updateMeta =>
    by_cases key : cap = metaKey
    · subst key
      have gone := Dict.get?_erase_self s.state.entries metaKey
      cases gone.symm.trans at'
    · have same := Dict.get?_erase_ne s.state.entries key
      exact .kept (same.symm.trans at')

end Writes

end Drnt.Wal
