import Drnt.Lib.Coroutine

/-! The event loop that interleaves coroutines at their suspensions. -/
namespace Lib.Coop

/-- A system of coroutines: when a call may start, what it runs, which answers its
requests can get, and what a crash leaves for the next process. -/
structure Machine (S : Sig) where
  Tag : Type
  Res : Tag → Type
  body : (t : Tag) → Co S (Res t)
  starts : S.State → Tag → Prop
  answers : S.State → (q : S.Req) → S.Ans q → Prop
  reboot : S.State → S.State → Prop

variable {S : Sig}

abbrev Thread (M : Machine S) := (t : M.Tag) × Co S (M.Res t)

/-- Threads stay in the list when they finish: their results are part of the run. -/
structure Config (M : Machine S) where
  state : S.State
  running : Option Nat
  threads : List (Thread M)

inductive Label (M : Machine S)
  | start (t : M.Tag)
  | answer (i : Nat) (q : S.Req) (a : S.Ans q)
  | work (i : Nat)
  | crash

namespace Config

variable {M : Machine S}

def boot (M : Machine S) (s : S.State) : Config M := ⟨s, none, []⟩

/-- A thread of the call `t` that has not finished. -/
def InFlight (c : Config M) (t : M.Tag) : Prop :=
  ∃ (i : Nat) (p : Co S (M.Res t)), c.threads[i]? = some ⟨t, p⟩ ∧ ¬ p.Finished

/-- A finished thread of the call `t`, with what it returned or raised. -/
def Ended (c : Config M) (t : M.Tag) (r : Except S.Exc (M.Res t)) : Prop :=
  ∃ (i : Nat) (p : Co S (M.Res t)), c.threads[i]? = some ⟨t, p⟩ ∧ p.result = some r

/-- No call is under way. -/
def Quiet (c : Config M) : Prop := c.running = none ∧ ∀ th ∈ c.threads, th.2.Finished

end Config

inductive Step (M : Machine S) : Config M → Label M → Config M → Prop
  | start {c : Config M} {t : M.Tag} (idle : c.running = none) (may : M.starts c.state t) :
      Step M c (.start t)
        ⟨c.state, some c.threads.length, c.threads ++ [⟨t, M.body t⟩]⟩
  | get {c : Config M} {i : Nat} {t : M.Tag} {k : S.State → Co S (M.Res t)}
      (run : c.running = some i) (at_ : c.threads[i]? = some ⟨t, .get k⟩) :
      Step M c (.work i) { c with threads := c.threads.set i ⟨t, k c.state⟩ }
  | set {c : Config M} {i : Nat} {t : M.Tag} {s : S.State} {k : Co S (M.Res t)}
      (run : c.running = some i) (at_ : c.threads[i]? = some ⟨t, .set s k⟩) :
      Step M c (.work i) { c with state := s, threads := c.threads.set i ⟨t, k⟩ }
  | answer {c : Config M} {i : Nat} {t : M.Tag} {q : S.Req} {k : S.Ans q → Co S (M.Res t)}
      {a : S.Ans q} (run : c.running = some i) (at_ : c.threads[i]? = some ⟨t, .call q k⟩)
      (quick : S.suspends q = false) (ans : M.answers c.state q a) :
      Step M c (.answer i q a) { c with threads := c.threads.set i ⟨t, k a⟩ }
  | park {c : Config M} {i : Nat} {t : M.Tag} {q : S.Req} {k : S.Ans q → Co S (M.Res t)}
      (run : c.running = some i) (at_ : c.threads[i]? = some ⟨t, .call q k⟩)
      (slow : S.suspends q = true) :
      Step M c (.work i) { c with running := none }
  | resume {c : Config M} {i : Nat} {t : M.Tag} {q : S.Req} {k : S.Ans q → Co S (M.Res t)}
      {a : S.Ans q} (idle : c.running = none) (at_ : c.threads[i]? = some ⟨t, .call q k⟩)
      (slow : S.suspends q = true) (ans : M.answers c.state q a) :
      Step M c (.answer i q a)
        { c with running := some i, threads := c.threads.set i ⟨t, k a⟩ }
  | finish {c : Config M} {i : Nat} {th : Thread M} (run : c.running = some i)
      (at_ : c.threads[i]? = some th) (done : th.2.Finished) :
      Step M c (.work i) { c with running := none }
  | crash {c : Config M} {s : S.State} (again : M.reboot c.state s) :
      Step M c .crash (Config.boot M s)

/-- Configurations reached by runs all of whose steps meet a condition. -/
inductive Reach (M : Machine S) (ok : Config M → Label M → Prop) (c₀ : Config M) :
    Config M → Prop
  | refl : Reach M ok c₀ c₀
  | step {c c' : Config M} {l : Label M} (run : Reach M ok c₀ c) (meets : ok c l)
      (next : Step M c l c') : Reach M ok c₀ c'

/-- Every step of every run that meets a condition is as `P` says. -/
def Always (M : Machine S) (ok : Config M → Label M → Prop) (c₀ : Config M)
    (P : Config M → Label M → Config M → Prop) : Prop :=
  ∀ {c l c'}, Reach M ok c₀ c → ok c l → Step M c l c' → P c l c'

/-- Runs all of whose steps meet a condition, with how many of their steps are marked. -/
inductive Counted (M : Machine S) (ok : Config M → Label M → Prop)
    (mark : Config M → Label M → Config M → Prop) (c₀ : Config M) : Nat → Config M → Prop
  | refl : Counted M ok mark c₀ 0 c₀
  | marked {n : Nat} {c c' : Config M} {l : Label M} (run : Counted M ok mark c₀ n c)
      (meets : ok c l) (next : Step M c l c') (is : mark c l c') : Counted M ok mark c₀ (n + 1) c'
  | other {n : Nat} {c c' : Config M} {l : Label M} (run : Counted M ok mark c₀ n c)
      (meets : ok c l) (next : Step M c l c') (isnt : ¬ mark c l c') : Counted M ok mark c₀ n c'

/-- In no run that meets a condition is more than one step marked. -/
def AtMostOnce (M : Machine S) (ok : Config M → Label M → Prop) (c₀ : Config M)
    (mark : Config M → Label M → Config M → Prop) : Prop :=
  ∀ {n c}, Counted M ok mark c₀ n c → n ≤ 1

theorem Counted.reach {M : Machine S} {ok : Config M → Label M → Prop}
    {mark : Config M → Label M → Config M → Prop} {c₀ c : Config M} {n : Nat}
    (h : Counted M ok mark c₀ n c) : Reach M ok c₀ c := by
  induction h with
  | refl => exact .refl
  | marked _ meets next _ ih => exact .step ih meets next
  | other _ meets next _ ih => exact .step ih meets next

theorem Reach.trans {M : Machine S} {ok : Config M → Label M → Prop} {c₀ c₁ c₂ : Config M}
    (h₁ : Reach M ok c₀ c₁) (h₂ : Reach M ok c₁ c₂) : Reach M ok c₀ c₂ := by
  induction h₂ with
  | refl => exact h₁
  | step _ ok next ih => exact .step ih ok next

/-- What holds in every configuration reached can be taken as part of the condition. -/
theorem Reach.knowing {M : Machine S} {ok : Config M → Label M → Prop} {c₀ c : Config M}
    {Q : Config M → Prop} (always : ∀ {c}, Reach M ok c₀ c → Q c) (h : Reach M ok c₀ c) :
    Reach M (fun c l => ok c l ∧ Q c) c₀ c := by
  induction h with
  | refl => exact .refl
  | step run met next ih => exact .step ih ⟨met, always run⟩ next

theorem Reach.mono {M : Machine S} {ok ok' : Config M → Label M → Prop} {c₀ c : Config M}
    (weaker : ∀ c l, ok c l → ok' c l) (h : Reach M ok c₀ c) : Reach M ok' c₀ c := by
  induction h with
  | refl => exact .refl
  | step _ ok next ih => exact .step ih (weaker _ _ ok) next

end Lib.Coop
