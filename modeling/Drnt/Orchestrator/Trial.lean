import Drnt.Orchestrator.Execution
import Drnt.Lib.Drive

/-! Computed runs of the orchestrator: what its surroundings usually answer. -/
namespace Drnt.Orchestrator

open Lib Lib.Coop

instance (w : World) : DecidablePred (mayStart w)
  | .startup => inferInstanceAs (Decidable (w.phase = .stopped))
  | .worker j => inferInstanceAs
      (Decidable (w.phase = .serving ∧ w.processing = none ∧ w.queue.head? = some j))
  | .autoAccept => inferInstanceAs (Decidable (w.phase = .serving ∧ w.polling = false))
  | .configure _ _ _ => .isTrue trivial
  | .submit _ | .override _ _ | .review _ _ _ | .checkPermission _ _ _ _ | .setHub _ _ =>
      inferInstanceAs (Decidable (w.phase = .serving))

instance {α : Type} : DecidablePred fun a : Except Exc α => a = .error .cancelled
  | .ok _ => .isFalse nofun
  | .error x => decidable_of_iff (x = .cancelled) (by simp)

instance : DecidablePred fun a : Except Exc Unit => a = .ok ()
  | .ok () => .isTrue rfl
  | .error _ => .isFalse nofun

instance (w : World) (q : Req) : DecidablePred (mayAnswer w q) := fun a =>
  match q, a with
  | .uuid7, (u : Uuid7) =>
      inferInstanceAs (Decidable (u ∉ w.issued ∧ w.records.get? u.text = none))
  | .sourceLock key, (a : Except Exc Unit) =>
      inferInstanceAs (Decidable
        (a = .ok () ∧ key ∉ w.sourceEventLocks ∨ a = .error .cancelled))
  | .sleep, (a : Except Exc Unit) | .emitBestEffort _, (a : Except Exc Unit) =>
      inferInstanceAs (Decidable (a = .ok () ∨ a = .error .cancelled))
  | .emitDurable e, (a : Except Exc Bool) =>
      inferInstanceAs (Decidable (isCancelled a = true → e.eventType ∈ submissionTypes))
  | .classify _, (a : Except Exc Classification) =>
      inferInstanceAs (Decidable (isCancelled a = false))
  | .generate _, (a : Except Exc LocalResponse) =>
      inferInstanceAs (Decidable (isCancelled a = false))
  | .execute _ _ _, (a : Except Exc WorkerResult) =>
      inferInstanceAs (Decidable (isCancelled a = false))
  | .dispatch _, (a : Except Exc HttpReply) =>
      inferInstanceAs (Decidable (isCancelled a = false))
  | .writeFile _, (a : Except Exc Unit) => inferInstanceAs (Decidable (isCancelled a = false))
  | .storeContext _, (a : Except Exc String) =>
      inferInstanceAs (Decidable (isCancelled a = false))
  | .hubActive, _ => inferInstanceAs (Decidable (w.hub = .active))
  | .now, _ | .workerId, _ | .manifest _, _ | .blueprint _, _ | .teardownReport _, _
  | .recentHeartbeat, _ => .isTrue trivial

namespace Trial

def noon : UtcTime := 
  ⟨2026, 1, 1, 12, 0, 0, 0, UtcTime.year_2026, UtcTime.january, UtcTime.first_january, by decide⟩

def uuid (n : Nat) : Uuid7 := ⟨Fin.ofNat _ n, 0, 0⟩

/-- Ids are counted, the clock stands still, and every other party does its part. -/
def usual (w : World) : (q : Req) → Ans q
  | .uuid7 => uuid w.issued.length
  | .now => noon
  | .workerId => "worker"
  | .manifest _ => (⟨"manifest", "local", true, [], "[]", []⟩ : ManifestReport)
  | .blueprint _ => (.ok ⟨"blueprint", "none", 0, 0, "1g", "image"⟩ : Except String Blueprint)
  | .teardownReport _ => (⟨0, 0, ⟨"0.0"⟩⟩ : TeardownReport)
  | .recentHeartbeat => true
  | .writeFile _ => (.ok () : Except Exc Unit)
  | .storeContext _ => (.ok "hash" : Except Exc String)
  | .emitDurable _ => (.ok true : Except Exc Bool)
  | .emitBestEffort _ | .sleep | .sourceLock _ => (.ok () : Except Exc Unit)
  | .hubActive => ()
  | .classify _ => (.ok ⟨"chat", true, "local", .localModel, ⟨"0.9"⟩⟩ : Except Exc Classification)
  | .generate _ => (.ok ⟨.text "answer", .int 1, .int 1, 1⟩ : Except Exc LocalResponse)
  | .execute _ _ _ =>
      (.ok ⟨true, .text "answer", .int 1, .int 1, .int 1, 0, none, none⟩ : Except Exc WorkerResult)
  | .dispatch _ => (.ok ⟨200, some (.obj [])⟩ : Except Exc HttpReply)

/-- The same, but for what becomes of durable events. -/
def audited (answer : Except Exc Bool) (w : World) : (q : Req) → Ans q
  | .emitDurable _ => answer
  | q => usual w q

def driver (cfg : Settings) : Driver (orchestrator cfg) where
  answer := usual
  may w t := decide (mayStart w t)
  accepts w q a := decide (mayAnswer w q a)
  restart := World.restart
  may_sound h := of_decide_eq_true h
  accepts_sound h := of_decide_eq_true h
  restart_sound _ := rfl

/-- A deployment without workers, packager or egress; hashes are abbreviated. -/
def plain : Settings where
  permissionChecker := false
  demotionEngine := false
  connectivityMonitor := false
  workerLifecycle := none
  packager := none
  egressRegistry := none
  sha256 s := s
  intentHash s _ := s
  autoAcceptWindowSeconds := 86400
  staleThresholdSeconds := 300
  hostname := "hub"

/-- A deployment whose dispatches are checked. -/
def checked : Settings := { plain with permissionChecker := true }

/-- A dispatch on this machine is allowed at level 0 under a review gate. -/
def grant (gate : String) : Call :=
  .configure (Dict.empty.set "route.local" ⟨"route.local", Dict.empty.set "0"
      (Dict.empty.set "dispatch_local" (.gates ⟨none, gate⟩))⟩)
    (Dict.empty.set "route.local" ⟨0, "active"⟩) []

def request (key : Option String) : Submission where
  rawInput := "question"
  inputModality := "text"
  device := "phone"
  idempotencyKey := key
  clientSource := none
  clientSourceEventId := none
  clientTimestamp := none

variable {cfg : Settings} {ok : Config (orchestrator cfg) → Label (orchestrator cfg) → Prop}
  {check : Config (orchestrator cfg) → Label (orchestrator cfg) → Bool}

def run (cfg : Settings) (check : Run cfg → Label (orchestrator cfg) → Bool)
    (script : List (Command (orchestrator cfg))) (c : Run cfg) : Option (Run cfg) :=
  (driver cfg).run check 1000 script c

def fresh (cfg : Settings) (persistent : Bool) : Run cfg := .boot _ (World.initial persistent)

/-- A property of the state after a script holds in a state that is reached. -/
theorem reached (g : Driver.Guards ok check) (c₀ : Run cfg)
    (script : List (Command (orchestrator cfg))) (test : Run cfg → Bool)
    (h : (run cfg check script c₀).any test = true) :
    ∃ c, Reach (orchestrator cfg) ok c₀ c ∧ test c = true := by
  obtain ⟨c, eq, holds⟩ := (Option.any_eq_true test _).mp h
  exact ⟨c, Driver.run_reach g eq, holds⟩

/-- The same with a second script from there. -/
theorem reached_on (g : Driver.Guards ok check) (c₀ : Run cfg)
    (first second : List (Command (orchestrator cfg))) (test : Run cfg → Run cfg → Bool)
    (h : ((run cfg check first c₀).any fun c => (run cfg check second c).any (test c)) = true) :
    ∃ c c', Reach (orchestrator cfg) ok c₀ c ∧ Reach (orchestrator cfg) ok c c' ∧
      test c c' = true := by
  obtain ⟨c, reach, onward⟩ := reached g c₀ first _ h
  obtain ⟨c', reach', holds⟩ := reached g c second _ onward
  exact ⟨c, c', reach, reach', holds⟩

end Trial

/-- A condition on runs as a test of every step. -/
abbrev Meets {cfg : Settings} (check : Run cfg → Label (orchestrator cfg) → Bool) (c : Run cfg)
    (l : Label (orchestrator cfg)) : Prop := check c l = true

/-- A test of what is started, in one lifetime of the process. -/
def starting {cfg : Settings} (test : Run cfg → Call → Bool) (c : Run cfg) :
    Label (orchestrator cfg) → Bool
  | .start t => test c t
  | .crash => false
  | .answer _ _ _ | .work _ => true

/-- One lifetime of the process. -/
abbrev NoCrash (cfg : Settings) : Run cfg → Label (orchestrator cfg) → Prop :=
  Meets (starting fun _ _ => true)

/-- No condition on the steps: the process may crash. -/
abbrev Anyhow (cfg : Settings) : Run cfg → Label (orchestrator cfg) → Prop := fun _ _ => True

theorem Trial.guards_anyhow (cfg : Settings) : Driver.Guards (Anyhow cfg) fun _ _ => true :=
  fun _ _ _ => trivial

theorem Trial.guards_meets {cfg : Settings} (check : Run cfg → Label (orchestrator cfg) → Bool) :
    Driver.Guards (Meets check) check := fun _ _ => id

theorem Trial.guards {cfg : Settings} (test : Run cfg → Call → Bool) :
    Driver.Guards (Meets (starting test)) (starting test) := guards_meets _

end Drnt.Orchestrator
