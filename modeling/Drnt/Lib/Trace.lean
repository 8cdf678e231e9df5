import Drnt.Lib.Coroutine

/-! The calls that a coroutine makes, with their answers, in a run without interference, and the
runs in which the state changes while a call is under way. -/
namespace Lib.Coop

abbrev Sig.Call (S : Sig) : Type := (q : S.Req) × S.Ans q

namespace Co

variable {S : Sig} {α β : Type}

/-- The runs of a coroutine that nothing interferes with. -/
def Trace : Co S α → S.State → List S.Call → Except S.Exc α → S.State → Prop
  | ret a, s, calls, r, s' => calls = [] ∧ r = .ok a ∧ s' = s
  | raise e, s, calls, r, s' => calls = [] ∧ r = .error e ∧ s' = s
  | get k, s, calls, r, s' => (k s).Trace s calls r s'
  | set s₁ k, _, calls, r, s' => k.Trace s₁ calls r s'
  | call q k, s, calls, r, s' => ∃ a rest, calls = ⟨q, a⟩ :: rest ∧ (k a).Trace s rest r s'

variable {s s' : S.State} {calls : List S.Call}

theorem trace_bind {x : Co S α} {f : α → Co S β} {r : Except S.Exc β} :
    (x.bind f).Trace s calls r s' ↔
      (∃ a s₁ c₁ c₂, calls = c₁ ++ c₂ ∧ x.Trace s c₁ (.ok a) s₁ ∧ (f a).Trace s₁ c₂ r s') ∨
      (∃ e, x.Trace s calls (.error e) s' ∧ r = .error e) := by
  induction x generalizing s calls with
  | ret a =>
    refine ⟨fun h => .inl ⟨a, s, [], calls, rfl, ⟨rfl, rfl, rfl⟩, h⟩, ?_⟩
    rintro (⟨_, _, _, _, rfl, ⟨rfl, hr, rfl⟩, hf⟩ | ⟨_, ⟨_, hr, _⟩, _⟩)
    · cases hr; exact hf
    · cases hr
  | raise e =>
    refine ⟨fun ⟨hc, hr, hs⟩ => .inr ⟨e, ⟨hc, rfl, hs⟩, hr⟩, ?_⟩
    rintro (⟨_, _, _, _, _, ⟨_, hr, _⟩, _⟩ | ⟨_, ⟨hc, hr, hs⟩, he⟩)
    · cases hr
    · cases hr; exact ⟨hc, he, hs⟩
  | get k ih => simp only [bind, Trace, ih]
  | set s₁ k ih => simp only [bind, Trace, ih]
  | call q k ih =>
    simp only [bind, Trace, ih]
    constructor
    · rintro ⟨a, rest, rfl, ⟨b, s₁, c₁, c₂, rfl, hx, hf⟩ | ⟨e, hx, hr⟩⟩
      · exact .inl ⟨b, s₁, ⟨q, a⟩ :: c₁, c₂, rfl, ⟨a, c₁, rfl, hx⟩, hf⟩
      · exact .inr ⟨e, ⟨a, rest, rfl, hx⟩, hr⟩
    · rintro (⟨b, s₁, _, c₂, rfl, ⟨a, rest, rfl, hx⟩, hf⟩ | ⟨e, ⟨a, rest, rfl, hx⟩, hr⟩)
      · exact ⟨a, rest ++ c₂, rfl, .inl ⟨b, s₁, rest, c₂, rfl, hx, hf⟩⟩
      · exact ⟨a, rest, rfl, .inr ⟨e, hx, hr⟩⟩

/-- A run that returns has gone through both parts. -/
theorem Trace.split {x : Co S α} {f : α → Co S β} {b : β}
    (h : (x.bind f).Trace s calls (.ok b) s') : ∃ a s₁ c₁ c₂,
      calls = c₁ ++ c₂ ∧ x.Trace s c₁ (.ok a) s₁ ∧ (f a).Trace s₁ c₂ (.ok b) s' := by
  rcases trace_bind.mp h with parts | ⟨e, -, eq⟩
  · exact parts
  · cases eq

@[simp] theorem trace_read_bind {f : S.State → Co S β} {r : Except S.Exc β} :
    ((read : Co S S.State).bind f).Trace s calls r s' ↔ (f s).Trace s calls r s' := Iff.rfl

@[simp] theorem trace_modify_bind {g : S.State → S.State} {f : Unit → Co S β}
    {r : Except S.Exc β} :
    ((modify g : Co S Unit).bind f).Trace s calls r s' ↔ (f ()).Trace (g s) calls r s' := Iff.rfl

/-- The run in which every request gets the answer of a given function. -/
def exec (answer : (q : S.Req) → S.Ans q) :
    Co S α → S.State → List S.Call × Except S.Exc α × S.State
  | ret a, s => ([], .ok a, s)
  | raise e, s => ([], .error e, s)
  | get k, s => (k s).exec answer s
  | set s₁ k, _ => k.exec answer s₁
  | call q k, s =>
    let rest := (k (answer q)).exec answer s
    (⟨q, answer q⟩ :: rest.1, rest.2)

theorem trace_exec (answer : (q : S.Req) → S.Ans q) (x : Co S α) (s : S.State) :
    x.Trace s (x.exec answer s).1 (x.exec answer s).2.1 (x.exec answer s).2.2 := by
  induction x generalizing s with
  | ret | raise => exact ⟨rfl, rfl, rfl⟩
  | get k ih => exact ih s s
  | set s₁ k ih => exact ih s₁
  | call q k ih => exact ⟨_, _, rfl, ih _ s⟩

theorem exec_calls (answer : (q : S.Req) → S.Ans q) (x : Co S α) (s : S.State) :
    ∀ c ∈ (x.exec answer s).1, c.2 = answer c.1 := by
  induction x generalizing s with
  | ret | raise => nofun
  | get k ih => exact ih s s
  | set s₁ k ih => exact ih s₁
  | call q k ih =>
    intro c mem
    rcases List.mem_cons.mp mem with rfl | later
    · rfl
    · exact ih _ s c later

section Amid

/-- The runs in which, at each call, the environment changes the state as `env` says and the answer
is one that is admitted. -/
def Amid (env : S.State → S.State → Prop) (admits : (q : S.Req) → S.Ans q → Prop) :
    Co S α → S.State → Except S.Exc α → S.State → Prop
  | ret a, s, r, s' => r = .ok a ∧ s' = s
  | raise e, s, r, s' => r = .error e ∧ s' = s
  | get k, s, r, s' => (k s).Amid env admits s r s'
  | set s₁ k, _, r, s' => k.Amid env admits s₁ r s'
  | call q k, s, r, s' => ∃ a s₁, admits q a ∧ env s s₁ ∧ (k a).Amid env admits s₁ r s'

variable {env env' : S.State → S.State → Prop} {admits : (q : S.Req) → S.Ans q → Prop}

theorem amid_bind {x : Co S α} {f : α → Co S β} {r : Except S.Exc β} :
    (x.bind f).Amid env admits s r s' ↔
      (∃ a s₁, x.Amid env admits s (.ok a) s₁ ∧ (f a).Amid env admits s₁ r s') ∨
      (∃ e, x.Amid env admits s (.error e) s' ∧ r = .error e) := by
  induction x generalizing s with
  | ret a =>
    constructor
    · intro h
      exact .inl ⟨a, s, ⟨rfl, rfl⟩, h⟩
    · rintro (⟨_, _, ⟨hr, rfl⟩, hf⟩ | ⟨_, ⟨hr, _⟩, _⟩)
      · cases hr
        exact hf
      · cases hr
  | raise e =>
    constructor
    · intro h
      exact .inr ⟨e, ⟨rfl, h.2⟩, h.1⟩
    · rintro (⟨_, _, ⟨hr, _⟩, _⟩ | ⟨_, ⟨hr, hs⟩, he⟩)
      · cases hr
      · cases hr
        exact ⟨he, hs⟩
  | get k ih => simp only [bind, Amid, ih]
  | set s₁ k ih => simp only [bind, Amid, ih]
  | call q k ih =>
    simp only [bind, Amid, ih]
    constructor
    · rintro ⟨a, s₁, ha, step, ⟨b, s₂, hx, hf⟩ | ⟨e, hx, hr⟩⟩
      · exact .inl ⟨b, s₂, ⟨a, s₁, ha, step, hx⟩, hf⟩
      · exact .inr ⟨e, ⟨a, s₁, ha, step, hx⟩, hr⟩
    · rintro (⟨b, s₂, ⟨a, s₁, ha, step, hx⟩, hf⟩ | ⟨e, ⟨a, s₁, ha, step, hx⟩, hr⟩)
      · exact ⟨a, s₁, ha, step, .inl ⟨b, s₂, hx, hf⟩⟩
      · exact ⟨a, s₁, ha, step, .inr ⟨e, hx, hr⟩⟩

/-- Where the environment can always go on and every call has an answer, there is a run. -/
theorem Amid.mono (weaker : ∀ a b, env a b → env' a b) {x : Co S α} {r : Except S.Exc α}
    (run : x.Amid env admits s r s') : x.Amid env' admits s r s' := by
  induction x generalizing s with
  | ret | raise => exact run
  | get k ih => exact ih s run
  | set s₁ k ih => exact ih run
  | call q k ih =>
    obtain ⟨a, s₁, admitted, step, rest⟩ := run
    exact ⟨a, s₁, admitted, weaker s s₁ step, ih a rest⟩

theorem exists_amid (goes : ∀ a, ∃ b, env a b) (answered : ∀ q, ∃ a, admits q a) (x : Co S α)
    (s : S.State) : ∃ r s', x.Amid env admits s r s' := by
  induction x generalizing s with
  | ret a => exact ⟨_, _, rfl, rfl⟩
  | raise e => exact ⟨_, _, rfl, rfl⟩
  | get k ih => exact ih s s
  | set s₁ k ih => exact ih s₁
  | call q k ih =>
    obtain ⟨a, admitted⟩ := answered q
    obtain ⟨s₁, step⟩ := goes s
    obtain ⟨r, s', rest⟩ := ih a s₁
    exact ⟨r, s', a, s₁, admitted, step, rest⟩

/-- A run in which nothing changes. -/
theorem amid_exec {answer : (q : S.Req) → S.Ans q} (still : ∀ a, env a a)
    (admitted : ∀ q, admits q (answer q)) (x : Co S α) (s : S.State) :
    x.Amid env admits s (x.exec answer s).2.1 (x.exec answer s).2.2 := by
  induction x generalizing s with
  | ret | raise => exact ⟨rfl, rfl⟩
  | get k ih => exact ih s s
  | set s₁ k ih => exact ih s₁
  | call q k ih => exact ⟨answer q, s, admitted q, still s, ih _ s⟩

end Amid

end Co

end Lib.Coop
