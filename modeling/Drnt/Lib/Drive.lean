import Drnt.Lib.EventLoop

/-! Computed runs: a script of calls, resumptions and crashes, with a default answer for
every request, determines a run of a machine, and every step of it is checked. -/
namespace Lib.Coop

variable {S : Sig}

/-- What a computed run takes from outside: the answers, and decision procedures for what
the machine admits. -/
structure Driver (M : Machine S) where
  answer : S.State → (q : S.Req) → S.Ans q
  may : S.State → M.Tag → Bool
  accepts : S.State → (q : S.Req) → S.Ans q → Bool
  restart : S.State → S.State
  may_sound : ∀ {s t}, may s t = true → M.starts s t
  accepts_sound : ∀ {s q a}, accepts s q a = true → M.answers s q a
  restart_sound : ∀ s, M.reboot s (restart s)

inductive Command (M : Machine S)
  | start (t : M.Tag)
  /-- The request of a thread is answered by default. -/
  | resume (i : Nat)
  | resumeWith (i : Nat) (answer : (q : S.Req) → S.Ans q)
  /-- A thread is resumed by default until it ends. -/
  | finish (i : Nat)
  | crash
  /-- A thread is resumed by default, for a number of steps. -/
  | pause (i steps : Nat)

namespace Driver

variable {M : Machine S} (D : Driver M)

/-- The next step of the thread that runs, with the default answer. -/
def tick (c : Config M) : Option (Label M × Config M) :=
  match c.running with
  | none => none
  | some i =>
    match c.threads[i]? with
    | none => none
    | some ⟨t, .get k⟩ => some (.work i, { c with threads := c.threads.set i ⟨t, k c.state⟩ })
    | some ⟨t, .set s k⟩ =>
      some (.work i, { c with state := s, threads := c.threads.set i ⟨t, k⟩ })
    | some ⟨t, .call q k⟩ =>
      if S.suspends q then some (.work i, { c with running := none })
      else if D.accepts c.state q (D.answer c.state q) then
        some (.answer i q (D.answer c.state q),
          { c with threads := c.threads.set i ⟨t, k (D.answer c.state q)⟩ })
      else none
    | some ⟨_, .ret _⟩ | some ⟨_, .raise _⟩ => some (.work i, { c with running := none })

variable (check : Config M → Label M → Bool)

/-- One step, if it passes the check. -/
def advance (c : Config M) : Option (Config M) :=
  (D.tick c).bind fun r => if check c r.1 then some r.2 else none

/-- A number of steps. -/
def walk : Nat → Config M → Option (Config M)
  | 0, c => some c
  | steps + 1, c => (D.advance check c).bind (walk steps)

/-- Steps until no thread runs. -/
def settle : Nat → Config M → Option (Config M)
  | 0, _ => none
  | n + 1, c => if c.running = none then some c else (D.advance check c).bind (settle n)

/-- A suspended thread is answered and runs. -/
def wake (i : Nat) (answer : (q : S.Req) → S.Ans q) (c : Config M) : Option (Config M) :=
  match c.running, c.threads[i]? with
  | none, some ⟨t, .call q k⟩ =>
    if S.suspends q ∧ D.accepts c.state q (answer q) ∧ check c (.answer i q (answer q)) then
      some { c with running := some i, threads := c.threads.set i ⟨t, k (answer q)⟩ }
    else none
  | _, _ => none

def resume (n i : Nat) (answer : (q : S.Req) → S.Ans q) (c : Config M) : Option (Config M) :=
  (D.wake check i answer c).bind (D.settle check n)

def finish (n i : Nat) : Nat → Config M → Option (Config M)
  | 0, _ => none
  | m + 1, c =>
    match c.threads[i]? with
    | none => none
    | some th =>
      if th.2.Finished then some c
      else (D.resume check n i (D.answer c.state) c).bind (finish n i m)

def obey (n : Nat) (c : Config M) : Command M → Option (Config M)
  | .start t =>
    if c.running = none ∧ D.may c.state t ∧ check c (.start t) then
      D.settle check n ⟨c.state, some c.threads.length, c.threads ++ [⟨t, M.body t⟩]⟩
    else none
  | .resume i => D.resume check n i (D.answer c.state) c
  | .resumeWith i answer => D.resume check n i answer c
  | .finish i => D.finish check n i n c
  | .crash => if check c .crash then some (Config.boot M (D.restart c.state)) else none
  | .pause i steps => (D.wake check i (D.answer c.state) c).bind (D.walk check steps)

def run (n : Nat) : List (Command M) → Config M → Option (Config M)
  | [], c => some c
  | command :: rest, c => (D.obey check n c command).bind (run n rest)

section Soundness

variable {D} {check}

theorem tick_step {c c' : Config M} {l : Label M} (h : D.tick c = some (l, c')) :
    Step M c l c' := by
  unfold tick at h
  split at h
  · cases h
  rename_i i running
  split at h
  · cases h
  · cases h
    exact .get running ‹_›
  · cases h
    exact .set running ‹_›
  · rename_i t q k at_
    split at h
    · cases h
      exact .park running at_ ‹_›
    split at h
    · cases h
      exact .answer running at_ (by simpa using ‹¬ S.suspends q = true›) (D.accepts_sound ‹_›)
    · cases h
  · rename_i at_
    cases h
    exact .finish running at_ trivial
  · rename_i at_
    cases h
    exact .finish running at_ trivial

variable {ok : Config M → Label M → Prop} {n : Nat} {c c' : Config M}

/-- A check of steps that ensures a condition on runs. -/
def Guards (ok : Config M → Label M → Prop) (check : Config M → Label M → Bool) : Prop :=
  ∀ c l, check c l = true → ok c l

variable (g : Guards ok check)
include g

theorem advance_reach (h : D.advance check c = some c') : Reach M ok c c' := by
  obtain ⟨⟨l, c₁⟩, next, checked⟩ := Option.bind_eq_some_iff.mp h
  split at checked
  · cases checked
    exact .step .refl (g _ _ ‹_›) (tick_step next)
  · cases checked

theorem walk_reach {steps : Nat} (h : D.walk check steps c = some c') : Reach M ok c c' := by
  induction steps generalizing c with
  | zero =>
    cases h
    exact .refl
  | succ steps ih =>
    obtain ⟨c₁, h₁, h₂⟩ := Option.bind_eq_some_iff.mp h
    exact (advance_reach g h₁).trans (ih h₂)

theorem settle_reach (h : D.settle check n c = some c') : Reach M ok c c' := by
  induction n generalizing c with
  | zero => cases h
  | succ n ih =>
    simp only [settle] at h
    split at h
    · cases h
      exact .refl
    · obtain ⟨c₁, h₁, h₂⟩ := Option.bind_eq_some_iff.mp h
      exact (advance_reach g h₁).trans (ih h₂)

theorem wake_reach {i : Nat} {answer : (q : S.Req) → S.Ans q}
    (h : D.wake check i answer c = some c') : Reach M ok c c' := by
  unfold wake at h
  split at h
  · rename_i t q k running at_
    split at h
    · rename_i cond
      cases h
      exact .step .refl (g _ _ cond.2.2) (.resume running at_ cond.1 (D.accepts_sound cond.2.1))
    · cases h
  · cases h

theorem resume_reach {i : Nat} {answer : (q : S.Req) → S.Ans q}
    (h : D.resume check n i answer c = some c') : Reach M ok c c' := by
  obtain ⟨c₁, h₁, h₂⟩ := Option.bind_eq_some_iff.mp h
  exact (wake_reach g h₁).trans (settle_reach g h₂)

theorem finish_reach {i m : Nat} (h : D.finish check n i m c = some c') : Reach M ok c c' := by
  induction m generalizing c with
  | zero => cases h
  | succ m ih =>
    simp only [finish] at h
    split at h
    · cases h
    split at h
    · cases h
      exact .refl
    · obtain ⟨c₁, h₁, h₂⟩ := Option.bind_eq_some_iff.mp h
      exact (resume_reach g h₁).trans (ih h₂)

theorem obey_reach {command : Command M} (h : D.obey check n c command = some c') :
    Reach M ok c c' := by
  cases command with
  | start t =>
    simp only [obey] at h
    split at h
    · rename_i cond
      exact Reach.trans (.step .refl (g _ _ cond.2.2) (.start cond.1 (D.may_sound cond.2.1)))
        (settle_reach g h)
    · cases h
  | pause i steps =>
    obtain ⟨c₁, h₁, h₂⟩ := Option.bind_eq_some_iff.mp h
    exact (wake_reach g h₁).trans (walk_reach g h₂)
  | resume i => exact resume_reach g h
  | resumeWith i answer => exact resume_reach g h
  | finish i => exact finish_reach g h
  | crash =>
    simp only [obey] at h
    split at h
    · cases h
      exact .step .refl (g _ _ ‹_›) (.crash (D.restart_sound _))
    · cases h

/-- Every computed run is a run. -/
theorem run_reach {script : List (Command M)} (h : D.run check n script c = some c') :
    Reach M ok c c' := by
  induction script generalizing c with
  | nil =>
    cases h
    exact .refl
  | cons command rest ih =>
    obtain ⟨c₁, h₁, h₂⟩ := Option.bind_eq_some_iff.mp h
    exact (obey_reach g h₁).trans (ih h₂)

end Soundness

end Driver

end Lib.Coop
