import Drnt.Wal.Order
import Drnt.Lib.Drive

/-! Conditions on the steps of a run, and computed runs. -/
namespace Drnt.Wal

open Lib Lib.Coop

abbrev Run := Config machine

section Steps

/-- What the step is about to write, and the call that writes it. -/
def written (c : Run) : Label machine → Option (Tag × World)
  | .work i =>
    match c.threads[i]? with
    | some ⟨t, .set s _⟩ => some (t, s)
    | _ => none
  | _ => none

/-- The entries whose effective level is another one in the second world. -/
def relevelled (s s' : World) : List (PyStr × Entry × Entry) :=
  s.state.entries.entries.filterMap fun old =>
    (s'.entryAt? old.1).bind fun new =>
      if new.effective = old.2.effective then none else some (old.1, old.2, new)

def sent (s s' : World) : List Event := s'.inFlight.drop s.inFlight.length

theorem mem_relevelled {s s' : World} {cap : PyStr} {e e' : Entry} (at_ : s.entryAt? cap = some e)
    (at' : s'.entryAt? cap = some e') (ne : e'.effective ≠ e.effective) :
    (cap, e, e') ∈ relevelled s s' := by
  refine List.mem_filterMap.mpr ⟨(cap, e), Dict.get?_eq_some_iff.mp at_, ?_⟩
  rw [at']
  exact if_neg ne

theorem sent_send (s : World) (e : Event) : sent s (s.send e) = [e] := by
  simp [sent, World.send]

/-- A condition on runs as a test of every step. -/
abbrev Meets (check : Run → Label machine → Bool) (c : Run) (l : Label machine) : Prop :=
  check c l = true

/-- A condition on what is written. -/
def writing (test : World → Tag → World → Bool) (c : Run) (l : Label machine) : Bool :=
  (written c l).all fun w => test c.state w.1 w.2

theorem written_work {c : Run} {i : Nat} {t : Tag} {s : World} {k : Prog t.Res}
    (at_ : c.threads[i]? = some ⟨t, .set s k⟩) : written c (.work i) = some (t, s) := by
  simp only [written, at_]

theorem writing_work {test : World → Tag → World → Bool} {c : Run} {i : Nat} {t : Tag} {s : World}
    {k : Prog t.Res} (met : writing test c (.work i) = true)
    (at_ : c.threads[i]? = some ⟨t, .set s k⟩) : test c.state t s = true := by
  rw [writing, written_work at_] at met
  exact met

end Steps

namespace Trial

instance (s : World) : (t : Tag) → Decidable (t.Starts s)
  | .startup _ => inferInstanceAs (Decidable (s.phase = .down))
  | .tick _ => .isTrue trivial
  | .stripFailure _ | .jobFailure .. | .overrideDemotion .. | .modelChange .. | .approvalDecay _
  | .jobOverride .. | .evaluate _ | .evaluateStartup .. | .recordOutcome .. | .checkPromotion _
  | .checkAll => inferInstanceAs (Decidable (s.phase = .up))

def may (s : World) (t : Tag) : Bool := decide (t.Starts s)

theorem may_starts {s : World} {t : Tag} (h : may s t = true) : t.Starts s := of_decide_eq_true h

/-- Every emit is acknowledged, and the model stays the same. -/
def usual : (q : Req) → Req.Ans q
  | .deliver _ => Delivery.accepted
  | .acknowledge _ => true
  | .ollamaModelInfo => (some (py "llama"), some (py "digest"))
  | .uuid7 => py "id"

def driver : Driver machine where
  answer _ q := usual q
  may := may
  accepts _ _ _ := true
  restart := World.restart []
  may_sound := may_starts
  accepts_sound _ := trivial
  restart_sound _ := ⟨[], nofun, rfl⟩

def capability (desired max : Nat) (nonneg : desired ≤ max := by decide) (le : max ≤ 3 := by decide) :
    Capability where
  capabilityName := py "capability"
  desiredWalLevel := desired
  maxWal := max
  desired_nonneg := Int.natCast_nonneg _
  desired_le_max := by omega
  max_le := by omega

/-- A capability that may reach WAL-1. -/
def supervised : Capability := capability 1 1

/-- The same, that starts at WAL-0. -/
def unsupervised : Capability := capability 0 1

def file (hash : String) (caps : List (String × Capability)) : Files where
  config := some ⟨py hash, caps.foldl (fun d c => d.set (py c.1) c.2) ∅⟩

/-- Decay at WAL-2 after thirty days without an outcome. -/
def monthly : DecayConfig := { systemDefaults := (∅ : Dict Int DecayPolicy).set 2 ⟨30, 1⟩ }

def run (check : Run → Label machine → Bool) (script : List (Command machine)) (c : Run) :
    Option Run := driver.run check 1000 script c

variable {ok : Run → Label machine → Prop} {check : Run → Label machine → Bool}

/-- A property of the state after a script holds in a state that is reached. -/
theorem reached (g : Driver.Guards ok check) (script : List (Command machine)) (test : Run → Bool)
    (h : (run check script initial).any test = true) :
    ∃ c, Reach machine ok initial c ∧ test c = true := by
  obtain ⟨c, eq, holds⟩ := (Option.any_eq_true test _).mp h
  exact ⟨c, Driver.run_reach g eq, holds⟩

/-- The next step of a computed run, if it passes a test. -/
theorem step_of_tick {c : Run} (test : Label machine → Run → Bool)
    (h : (driver.tick c).any (fun r => test r.1 r.2) = true) :
    ∃ l c', Step machine c l c' ∧ test l c' = true := by
  obtain ⟨⟨l, c'⟩, next, holds⟩ := (Option.any_eq_true _ _).mp h
  exact ⟨l, c', Driver.tick_step next, holds⟩

/-- A step that takes a capability from one level to another. -/
def takes (cap : PyStr) (before after : Int) (c c' : Run) : Bool :=
  c.state.level? cap = some before && c'.state.level? cap = some after

theorem guards (check : Run → Label machine → Bool) : Driver.Guards (Meets check) check :=
  fun _ _ => id

/-- No condition on the steps. -/
abbrev Anyhow : Run → Label machine → Prop := fun _ _ => True

theorem guards_anyhow : Driver.Guards Anyhow fun _ _ => true := fun _ _ _ => trivial

end Trial

end Drnt.Wal
