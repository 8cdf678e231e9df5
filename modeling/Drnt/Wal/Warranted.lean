import Drnt.Wal.Decay
import Mathlib.Order.Bounds.Basic

/-! Where a capability ends at startup, against the level that its recorded outcomes warrant. -/
namespace Drnt.Wal.Decay

open Lib Lib.Coop

section Levels

/-- What the ring buffer keeps of the outcomes recorded. -/
def kept (recorded : List Outcome) : List Outcome :=
  recorded.drop (recorded.length - evaluableOutcomesMax)

/-- Level 0, a level without a policy, and one whose policy asks for no more than there is. -/
def Suffices (config : DecayConfig) (now : Int) (cap : PyStr) (recorded : List Outcome)
    (l : Int) : Prop :=
  l = 0 ∨ config.policy? cap l = none ∨
    ∃ p, config.policy? cap l = some p ∧ p.minOutcomes ≤ countWithin now p recorded

/-- The highest level, from some level down, that suffices. -/
def Warranted (config : DecayConfig) (now : Int) (cap : PyStr) (recorded : List Outcome)
    (top l : Int) : Prop :=
  IsGreatest {k | k ≤ top ∧ Suffices config now cap recorded k} l

/-- The buffers hold what was recorded last. -/
def Recorded (recorded : PyStr → List Outcome) (s : World) : Prop :=
  ∀ c e, s.entryAt? c = some e → e.counters.evaluableOutcomes = kept (recorded c)

/-- The clock stands still. -/
def still (x y : Int) : Prop := y = x

/-- The startup comes to an end, and what was at level 1 or above is where it should be. -/
structure Reaches (recorded : PyStr → List Outcome) (config : DecayConfig) (s : World)
    (r : Except Error (List DecayAction)) (s' : World) : Prop where
  returns : ∃ actions, r = .ok actions
  warranted : ∀ c e, s.entryAt? c = some e → 1 ≤ e.effectiveWalLevel →
    ∃ e', s'.entryAt? c = some e' ∧
      Warranted config s.clock c (recorded c) e.effectiveWalLevel e'.effectiveWalLevel

/-- Nothing raises, and a capability that is lowered would not have been enough on any level, from
its own down, to which policies lead. -/
structure Unearned (recorded : PyStr → List Outcome) (config : DecayConfig) (s : World) : Prop where
  covered : ∀ c e, s.entryAt? c = some e → Covered config s.clock c e
  lower : ∀ c e, s.entryAt? c = some e → Lacks config s.clock c e → ∀ l p,
    Below config c e.effectiveWalLevel l → config.policy? c l = some p →
      (countWithin s.clock p (recorded c) : Int) < p.minOutcomes

variable {config : DecayConfig} {now : Int} {cap : PyStr} {e e' : Entry} {recorded : List Outcome}
  {p : DecayPolicy}

theorem count_kept : countWithin now p (kept recorded) ≤ countWithin now p recorded :=
  (List.drop_sublist ..).countP_le

theorem warranted_kept (high : 1 ≤ e.effectiveWalLevel)
    (held : e.counters.evaluableOutcomes = kept recorded) (enough : ¬ Lacks config now cap e) :
    Warranted config now cap recorded e.effectiveWalLevel e.effectiveWalLevel := by
  refine ⟨⟨le_rfl, ?_⟩, fun k mem => mem.1⟩
  cases at_ : config.policy? cap e.effectiveWalLevel with
  | none => exact .inr (.inl at_)
  | some p =>
    refine .inr (.inr ⟨p, at_, ?_⟩)
    by_contra few
    refine enough ⟨high, p, at_, ?_⟩
    have := @count_kept now recorded p
    rw [held]
    omega

/-- From a level without enough outcomes, where a capability lands is warranted just if it would
not have been enough on the levels between. -/
theorem warranted_lands {top l : Int} (lands : Lands config cap top l) :
    Warranted config now cap recorded top l ↔ ∀ k p, Below config cap top k →
      config.policy? cap k = some p → (countWithin now p recorded : Int) < p.minOutcomes := by
  constructor
  · intro warranted k p below at_
    by_contra enough
    have le : k ≤ l := warranted.2 ⟨below.le, .inr (.inr ⟨p, at_, by omega⟩)⟩
    obtain zero | none_ := lands.stop
    · have := below.pos
      omega
    · exact below.policies l le (by have := lands.lt; omega) none_
  · intro few
    refine ⟨⟨by have := lands.lt; omega, lands.stop.imp_right .inl⟩, ?_⟩
    rintro k ⟨le, enough⟩
    by_contra higher
    rw [not_le] at higher
    have policies (j : Int) (low : k ≤ j) (high : j ≤ top) : config.policy? cap j ≠ none :=
      lands.policies j (by omega) high
    have below : Below config cap top k := ⟨by have := lands.nonneg; omega, le, policies⟩
    obtain zero | none_ | ⟨p, at_, enough⟩ := enough
    · have := below.pos
      omega
    · exact policies k le_rfl le none_
    · have := few k p below at_
      omega

end Levels

section Runs

variable {data : ConfigData} {config : DecayConfig} {s s' : World} {passes : Nat}
  {recorded : PyStr → List Outcome} {r : Except Error (List DecayAction)}

theorem still_trans : ∀ x y z, still x y → still y z → still x z := by
  intro x y z first second
  exact Eq.trans second first

theorem still_forward : ∀ x y, still x y → x ≤ y := by
  intro x y h
  exact le_of_eq h.symm

theorem still_goes (x : Int) : ∃ d : Nat, still x (x + d) := by
  refine ⟨0, ?_⟩
  unfold still
  omega

theorem reaches_of_unearned (accepted : Accepted config) (held : Recorded recorded s)
    (unearned : Unearned recorded config s) (enough : levels s < passes)
    (run : Runs still (evaluateStartup config passes) s r s') :
    Reaches recorded config s r s' := by
  have sound : Sound still config s := by
    refine ⟨unearned.covered, ?_⟩
    intro _ t same
    unfold still at same
    rw [same]
    exact unearned.covered
  have settled := startup_settles accepted still_trans still_forward sound enough run
  obtain ⟨actions, rfl⟩ := settled.returns
  refine ⟨⟨actions, rfl⟩, ?_⟩
  intro c e at_ high
  obtain ⟨-, e', at', ends⟩ := ends_of_returns accepted still_trans (fun y h => h) enough run c e at_
  refine ⟨e', at', ?_⟩
  cases ends with
  | kept few => exact warranted_kept high (held c e at_) few
  | lowered lacks lands =>
    exact (warranted_lands lands).mpr fun k p => unearned.lower c e at_ lacks k p

/-- Every capability ends at the level that is warranted exactly if nothing raises and no outcomes
that would be enough further down are dropped on the way. -/
theorem startup_reaches_iff (loaded : loadDecayConfig data = .ok config)
    (held : Recorded recorded s) :
    (∀ passes, levels s < passes → ∀ r s', Runs still (evaluateStartup config passes) s r s' →
      Reaches recorded config s r s') ↔ Unearned recorded config s := by
  have accepted := loadDecayConfig_accepted loaded
  constructor
  · intro h
    obtain ⟨r, s', run⟩ := exists_runs still_goes (evaluateStartup config (levels s + 1)) s
    have reaches := h (levels s + 1) (by omega) r s' run
    obtain ⟨actions, rfl⟩ := reaches.returns
    have ends := ends_of_returns accepted still_trans (fun y h => h) (by omega) run
    refine ⟨fun c e at_ => (ends c e at_).1, ?_⟩
    intro c e at_ lacks
    obtain ⟨-, e', at', ends⟩ := ends c e at_
    obtain ⟨e₁, at₁, warranted⟩ := reaches.warranted c e at_ lacks.1
    rw [at'] at at₁
    cases at₁
    cases ends with
    | kept enough => exact absurd lacks enough
    | lowered _ lands => exact (warranted_lands lands).mp warranted
  · intro unearned passes enough r s' run
    exact reaches_of_unearned accepted held unearned enough run

end Runs

section Sample

/-- An outcome of the day before. -/
def recent : Outcome := ⟨py "accepted", some (.aware (1767225600 * 1000000 - day))⟩

def records (outcomes : List Outcome) : PyStr → List Outcome := fun _ => outcomes

theorem recorded_oneAt (level : Int) (outcomes : List Outcome) (few : kept outcomes = outcomes) :
    Recorded (records outcomes) (oneAt level outcomes) := by
  intro c e at_
  by_cases same : c = py "a"
  · rw [World.entryAt?, oneAt, same, Dict.get?_set_self] at at_
    cases at_
    exact few.symm
  · rw [World.entryAt?, oneAt, Dict.get?_set_ne _ same] at at_
    cases at_

theorem startup_reaches_iff_monthly :
    loadDecayConfig monthly = .ok (systemWide ⟨90, 10⟩ ⟨30, 25⟩) ∧
    Recorded (records [recent]) (oneAt 2 [recent]) ∧
    ((∀ passes, levels (oneAt 2 [recent]) < passes → ∀ r s',
      Runs still (evaluateStartup (systemWide ⟨90, 10⟩ ⟨30, 25⟩) passes) (oneAt 2 [recent]) r s' →
        Reaches (records [recent]) (systemWide ⟨90, 10⟩ ⟨30, 25⟩) (oneAt 2 [recent]) r s') ↔
      Unearned (records [recent]) (systemWide ⟨90, 10⟩ ⟨30, 25⟩) (oneAt 2 [recent])) :=
  ⟨monthly_loads, recorded_oneAt 2 [recent] rfl,
    startup_reaches_iff monthly_loads (recorded_oneAt 2 [recent] rfl)⟩

/-- One outcome in 90 days is enough for level 1. -/
def lenient : ConfigData where
  decayPolicy := some (policies ⟨some 90, some 1⟩ ⟨some 30, some 25⟩)

theorem lenient_loads : loadDecayConfig lenient = .ok (systemWide ⟨90, 1⟩ ⟨30, 25⟩) := by
  rfl

def isReturned : Except Error (List DecayAction) → Bool
  | .ok _ => true
  | .error _ => false

/-- From level 2 the capability falls to 0, for the outcome does not outlive the first step. -/
theorem startup_passes_over :
    loadDecayConfig lenient = .ok (systemWide ⟨90, 1⟩ ⟨30, 25⟩) ∧
    Recorded (records [recent]) (oneAt 2 [recent]) ∧ levels (oneAt 2 [recent]) < 3 ∧
    ∃ r s', isReturned r = true ∧
      Runs still (evaluateStartup (systemWide ⟨90, 1⟩ ⟨30, 25⟩) 3) (oneAt 2 [recent]) r s' ∧
      ((s'.entryAt? (py "a")).map (·.effectiveWalLevel)) = some 0 ∧
      Suffices (systemWide ⟨90, 1⟩ ⟨30, 25⟩) (oneAt 2 [recent]).clock (py "a") [recent] 1 ∧
      ¬ Reaches (records [recent]) (systemWide ⟨90, 1⟩ ⟨30, 25⟩) (oneAt 2 [recent]) r s' := by
  have refl (x : Int) : still x x := rfl
  have run := runs_calm refl (evaluateStartup (systemWide ⟨90, 1⟩ ⟨30, 25⟩) 3) (oneAt 2 [recent])
  have bottom : (((evaluateStartup (systemWide ⟨90, 1⟩ ⟨30, 25⟩) 3).exec calm
      (oneAt 2 [recent])).2.2.entryAt? (py "a")).map (·.effectiveWalLevel) = some 0 := by
    decide +kernel
  have enough : Suffices (systemWide ⟨90, 1⟩ ⟨30, 25⟩) (oneAt 2 [recent]).clock (py "a")
      [recent] 1 := by
    exact .inr (.inr ⟨⟨90, 1⟩, rfl, by decide +kernel⟩)
  refine ⟨lenient_loads, recorded_oneAt 2 [recent] rfl, by decide +kernel, _, _,
    by decide +kernel, run, bottom, enough, ?_⟩
  intro reaches
  have here : (oneAt 2 [recent]).entryAt? (py "a") = some (sampleEntry 2 [recent]) := by
    exact Dict.get?_set_self ..
  obtain ⟨e', at', warranted⟩ := reaches.warranted (py "a") _ here (by decide)
  rw [at'] at bottom
  have zero : e'.effectiveWalLevel = 0 := Option.some.inj bottom
  have le : 1 ≤ e'.effectiveWalLevel := warranted.2 ⟨by decide, enough⟩
  omega

end Sample

end Drnt.Wal.Decay
