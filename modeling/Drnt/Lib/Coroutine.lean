import Mathlib.Logic.Basic

/-! Coroutines of a single-threaded event loop. Between two suspensions a coroutine
reads and writes the shared state without interference; at a suspension every other
coroutine may run. -/
namespace Lib.Coop

/-- What coroutines act on: a shared state, requests with typed answers (an await is a
request that suspends), exceptions. -/
structure Sig where
  State : Type
  Req : Type
  Ans : Req → Type
  suspends : Req → Bool
  Exc : Type

inductive Co (S : Sig) (α : Type) : Type
  | ret (a : α)
  | raise (e : S.Exc)
  | get (k : S.State → Co S α)
  | set (s : S.State) (k : Co S α)
  | call (q : S.Req) (k : S.Ans q → Co S α)

namespace Co

variable {S : Sig} {α β γ : Type}

def bind : Co S α → (α → Co S β) → Co S β
  | ret a, f => f a
  | raise e, _ => raise e
  | get k, f => get fun s => (k s).bind f
  | set s k, f => set s (k.bind f)
  | call q k, f => call q fun a => (k a).bind f

def tryCatch : Co S α → (S.Exc → Co S α) → Co S α
  | ret a, _ => ret a
  | raise e, h => h e
  | get k, h => get fun s => (k s).tryCatch h
  | set s k, h => set s (k.tryCatch h)
  | call q k, h => call q fun a => (k a).tryCatch h

instance : Monad (Co S) where
  pure := ret
  bind := bind

instance : MonadExceptOf S.Exc (Co S) where
  throw := raise
  tryCatch := tryCatch

def read : Co S S.State := get ret

def modify (f : S.State → S.State) : Co S Unit := get fun s => set (f s) (ret ())

def perform (q : S.Req) : Co S (S.Ans q) := call q ret

/-- Run a loop body over the elements of a list, in order. -/
def each : List β → (β → Co S Unit) → Co S Unit
  | [], _ => ret ()
  | b :: bs, f => (f b).bind fun _ => each bs f

@[simp] theorem pure_eq (a : α) : (pure a : Co S α) = ret a := rfl

@[simp] theorem bind_eq (x : Co S α) (f : α → Co S β) : (x >>= f) = x.bind f := rfl

@[simp] theorem throw_eq (e : S.Exc) : (throw e : Co S α) = raise e := rfl

@[simp] theorem tryCatch_eq (x : Co S α) (h : S.Exc → Co S α) :
    (MonadExcept.tryCatch x h : Co S α) = x.tryCatch h := rfl

@[simp] theorem tryCatchThe_eq (x : Co S α) (h : S.Exc → Co S α) :
    (tryCatchThe S.Exc x h : Co S α) = x.tryCatch h := rfl

theorem bind_assoc (x : Co S α) (f : α → Co S β) (g : β → Co S γ) :
    (x.bind f).bind g = x.bind fun a => (f a).bind g := by
  induction x with
  | ret => rfl
  | raise => rfl
  | get k ih => simp only [bind, ih]
  | set s k ih => simp only [bind, ih]
  | call q k ih => simp only [bind, ih]

/-- A coroutine that has returned or raised. -/
def Finished : Co S α → Prop
  | ret _ | raise _ => True
  | get _ | set _ _ | call _ _ => False

instance : DecidablePred (Finished (S := S) (α := α))
  | ret _ | raise _ => isTrue trivial
  | get _ | set _ _ | call _ _ => isFalse id

/-- What a finished coroutine has come to. -/
def result : Co S α → Option (Except S.Exc α)
  | ret a => some (.ok a)
  | raise e => some (.error e)
  | get _ | set _ _ | call _ _ => none

/-- The outcomes of a coroutine that runs without interference, whatever permitted
answers its requests get. -/
def Outcome (admits : S.State → (q : S.Req) → S.Ans q → Prop) :
    Co S α → S.State → Except S.Exc α → S.State → Prop
  | ret a, s, r, s' => r = .ok a ∧ s' = s
  | raise e, s, r, s' => r = .error e ∧ s' = s
  | get k, s, r, s' => (k s).Outcome admits s r s'
  | set s₁ k, _, r, s' => k.Outcome admits s₁ r s'
  | call q k, s, r, s' => ∃ a, admits s q a ∧ (k a).Outcome admits s r s'

variable {admits : S.State → (q : S.Req) → S.Ans q → Prop} {s s' : S.State}

theorem outcome_bind {x : Co S α} {f : α → Co S β} {r : Except S.Exc β} :
    (x.bind f).Outcome admits s r s' ↔
      (∃ a s₁, x.Outcome admits s (.ok a) s₁ ∧ (f a).Outcome admits s₁ r s') ∨
      (∃ e, x.Outcome admits s (.error e) s' ∧ r = .error e) := by
  induction x generalizing s with
  | ret a =>
    refine ⟨fun h => .inl ⟨a, s, ⟨rfl, rfl⟩, h⟩, ?_⟩
    rintro (⟨_, _, ⟨hr, rfl⟩, hf⟩ | ⟨_, ⟨hr, _⟩, _⟩)
    · cases hr; exact hf
    · cases hr
  | raise e =>
    refine ⟨fun ⟨hr, hs⟩ => .inr ⟨e, ⟨rfl, hs⟩, hr⟩, ?_⟩
    rintro (⟨_, _, ⟨hr, _⟩, _⟩ | ⟨_, ⟨hr, hs⟩, he⟩)
    · cases hr
    · cases hr; exact ⟨he, hs⟩
  | get k ih => simp only [bind, Outcome, ih]
  | set s₁ k ih => simp only [bind, Outcome, ih]
  | call q k ih =>
    simp only [bind, Outcome, ih]
    constructor
    · rintro ⟨a, ha, ⟨b, s₁, hx, hf⟩ | ⟨e, hx, hr⟩⟩
      · exact .inl ⟨b, s₁, ⟨a, ha, hx⟩, hf⟩
      · exact .inr ⟨e, ⟨a, ha, hx⟩, hr⟩
    · rintro (⟨b, s₁, ⟨a, ha, hx⟩, hf⟩ | ⟨e, ⟨a, ha, hx⟩, hr⟩)
      · exact ⟨a, ha, .inl ⟨b, s₁, hx, hf⟩⟩
      · exact ⟨a, ha, .inr ⟨e, hx, hr⟩⟩

/-- One way for a coroutine to go on. -/
theorem outcome_then {x : Co S α} {f : α → Co S β} {r : Except S.Exc β} {a : α} {s₁ : S.State}
    (first : x.Outcome admits s (.ok a) s₁) (rest : (f a).Outcome admits s₁ r s') :
    (x.bind f).Outcome admits s r s' := outcome_bind.mpr (.inl ⟨a, s₁, first, rest⟩)

theorem outcome_tryCatch {x : Co S α} {h : S.Exc → Co S α} {r : Except S.Exc α} :
    (x.tryCatch h).Outcome admits s r s' ↔
      (∃ a, x.Outcome admits s (.ok a) s' ∧ r = .ok a) ∨
      (∃ e s₁, x.Outcome admits s (.error e) s₁ ∧ (h e).Outcome admits s₁ r s') := by
  induction x generalizing s with
  | ret a =>
    refine ⟨fun ⟨hr, hs⟩ => .inl ⟨a, ⟨rfl, hs⟩, hr⟩, ?_⟩
    rintro (⟨_, ⟨hr, hs⟩, he⟩ | ⟨_, _, ⟨hr, _⟩, _⟩)
    · cases hr; exact ⟨he, hs⟩
    · cases hr
  | raise e =>
    refine ⟨fun hh => .inr ⟨e, s, ⟨rfl, rfl⟩, hh⟩, ?_⟩
    rintro (⟨_, ⟨hr, _⟩, _⟩ | ⟨_, _, ⟨hr, rfl⟩, hh⟩)
    · cases hr
    · cases hr; exact hh
  | get k ih => simp only [tryCatch, Outcome, ih]
  | set s₁ k ih => simp only [tryCatch, Outcome, ih]
  | call q k ih =>
    simp only [tryCatch, Outcome, ih]
    constructor
    · rintro ⟨a, ha, ⟨b, hx, hr⟩ | ⟨e, s₁, hx, hh⟩⟩
      · exact .inl ⟨b, ⟨a, ha, hx⟩, hr⟩
      · exact .inr ⟨e, s₁, ⟨a, ha, hx⟩, hh⟩
    · rintro (⟨b, ⟨a, ha, hx⟩, hr⟩ | ⟨e, s₁, ⟨a, ha, hx⟩, hh⟩)
      · exact ⟨a, ha, .inl ⟨b, hx, hr⟩⟩
      · exact ⟨a, ha, .inr ⟨e, s₁, hx, hh⟩⟩

/-- Whatever the coroutine returns is as `P` says. -/
def Returns (P : α → Prop) : Co S α → Prop
  | ret a => P a
  | raise _ => True
  | get k => ∀ s, (k s).Returns P
  | set _ k => k.Returns P
  | call _ k => ∀ a, (k a).Returns P

theorem returns_any (x : Co S α) : x.Returns fun _ => True := by
  induction x with
  | ret | raise => trivial
  | get _ ih | call _ _ ih => exact ih
  | set _ _ ih => exact ih

theorem returns_bind {P : α → Prop} {Q : β → Prop} {x : Co S α} {f : α → Co S β}
    (hx : x.Returns P) (hf : ∀ a, P a → (f a).Returns Q) : (x.bind f).Returns Q := by
  induction x with
  | ret a => exact hf a hx
  | raise => trivial
  | get k ih => exact fun s => ih s (hx s)
  | set s k ih => exact ih hx
  | call q k ih => exact fun a => ih a (hx a)

theorem Returns.outcome {P : α → Prop} {x : Co S α} {a : α} (h : x.Returns P)
    (out : x.Outcome admits s (.ok a) s') : P a := by
  induction x generalizing s with
  | ret b => cases out.1; exact h
  | raise => cases out.1
  | get k ih => exact ih s (h s) out
  | set s₁ k ih => exact ih h out
  | call q k ih =>
    obtain ⟨b, -, rest⟩ := out
    exact ih b (h b) rest

@[simp] theorem outcome_ret {a : α} {r : Except S.Exc α} :
    (ret a).Outcome admits s r s' ↔ r = .ok a ∧ s' = s := Iff.rfl

@[simp] theorem outcome_raise {e : S.Exc} {r : Except S.Exc α} :
    (raise e).Outcome admits s r s' ↔ r = .error e ∧ s' = s := Iff.rfl

@[simp] theorem outcome_read {r : Except S.Exc S.State} :
    read.Outcome admits s r s' ↔ r = .ok s ∧ s' = s := Iff.rfl

@[simp] theorem outcome_modify {f : S.State → S.State} {r : Except S.Exc Unit} :
    (modify f).Outcome admits s r s' ↔ r = .ok () ∧ s' = f s := Iff.rfl

@[simp] theorem outcome_perform {q : S.Req} {r : Except S.Exc (S.Ans q)} :
    (perform q).Outcome admits s r s' ↔ ∃ a, admits s q a ∧ r = .ok a ∧ s' = s := Iff.rfl

section Ensures

/-- Every run without interference, whatever its requests are answered, relates the state it
starts in to the state it ends in. -/
def Ensures (R : S.State → S.State → Prop) (x : Co S α) : Prop :=
  ∀ (admits : S.State → (q : S.Req) → S.Ans q → Prop) (s : S.State) (r : Except S.Exc α)
    (s' : S.State), x.Outcome admits s r s' → R s s'

variable {R : S.State → S.State → Prop}

theorem Ensures.mono {R' : S.State → S.State → Prop} {x : Co S α} (h : x.Ensures R)
    (weaker : ∀ s s', R s s' → R' s s') : x.Ensures R' := fun _ _ _ _ out => weaker _ _ (h _ _ _ _ out)

theorem ensures_ret (refl : ∀ s, R s s) (a : α) : (ret a : Co S α).Ensures R := by
  rintro _ _ _ _ ⟨-, rfl⟩
  exact refl _

theorem ensures_raise (refl : ∀ s, R s s) (e : S.Exc) : (raise e : Co S α).Ensures R := by
  rintro _ _ _ _ ⟨-, rfl⟩
  exact refl _

theorem ensures_read {f : S.State → Co S α} (h : ∀ s, (f s).Ensures R) :
    ((read : Co S S.State).bind f).Ensures R := fun _ s _ _ out => h s _ _ _ _ out

theorem ensures_modify {f : S.State → S.State} (h : ∀ s, R s (f s)) :
    (modify f : Co S Unit).Ensures R := by
  rintro _ _ _ _ ⟨-, rfl⟩
  exact h _

theorem ensures_perform (refl : ∀ s, R s s) (q : S.Req) :
    (perform q : Co S (S.Ans q)).Ensures R := by
  rintro _ _ _ _ ⟨a, -, -, rfl⟩
  exact refl _

theorem ensures_bind (trans : ∀ a b c, R a b → R b c → R a c) {x : Co S α} {f : α → Co S β}
    (hx : x.Ensures R) (hf : ∀ a, (f a).Ensures R) : (x.bind f).Ensures R := by
  intro _ _ _ _ out
  rcases outcome_bind.mp out with ⟨a, s₁, first, rest⟩ | ⟨e, first, -⟩
  · exact trans _ _ _ (hx _ _ _ _ first) (hf a _ _ _ _ rest)
  · exact hx _ _ _ _ first

theorem ensures_tryCatch (trans : ∀ a b c, R a b → R b c → R a c) {x : Co S α}
    {h : S.Exc → Co S α} (hx : x.Ensures R) (hh : ∀ e, (h e).Ensures R) :
    (x.tryCatch h).Ensures R := by
  intro _ _ _ _ out
  rcases outcome_tryCatch.mp out with ⟨a, first, -⟩ | ⟨e, s₁, first, rest⟩
  · exact hx _ _ _ _ first
  · exact trans _ _ _ (hx _ _ _ _ first) (hh e _ _ _ _ rest)

theorem ensures_each (refl : ∀ s, R s s) (trans : ∀ a b c, R a b → R b c → R a c)
    {bs : List β} {f : β → Co S Unit} (h : ∀ b, (f b).Ensures R) : (each bs f).Ensures R := by
  induction bs with
  | nil => exact ensures_ret refl ()
  | cons b bs ih => exact ensures_bind trans (h b) fun _ => ih

/-- Every run without interference that returns ends in a state as `Q` says. -/
def Leaves (Q : S.State → Prop) (x : Co S α) : Prop :=
  ∀ (admits : S.State → (q : S.Req) → S.Ans q → Prop) (s : S.State) (a : α) (s' : S.State),
    x.Outcome admits s (.ok a) s' → Q s'

theorem leaves_bind {Q : S.State → Prop} {x : Co S α} {f : α → Co S β}
    (h : ∀ a, (f a).Leaves Q) : (x.bind f).Leaves Q := by
  intro _ _ _ _ out
  rcases outcome_bind.mp out with ⟨a, s₁, -, rest⟩ | ⟨e, -, eq⟩
  · exact h a _ _ _ _ rest
  · cases eq

/-- Where every request has an answer, every coroutine comes to an end. -/
theorem exists_outcome (answered : ∀ s q, ∃ a, admits s q a) (x : Co S α) (s : S.State) :
    ∃ r s', x.Outcome admits s r s' := by
  induction x generalizing s with
  | ret a => exact ⟨_, _, rfl, rfl⟩
  | raise e => exact ⟨_, _, rfl, rfl⟩
  | get k ih => exact ih s s
  | set s₁ k ih => exact ih s₁
  | call q k ih =>
    obtain ⟨a, ha⟩ := answered s q
    obtain ⟨r, s', out⟩ := ih a s
    exact ⟨r, s', a, ha, out⟩

end Ensures

end Co

end Lib.Coop
