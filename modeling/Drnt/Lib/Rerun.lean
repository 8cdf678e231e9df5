import Drnt.Lib.Trace

/-! A coroutine that runs again after one of its calls has failed: what a failed run leaves, whether
the next one succeeds, and whether it does what a first run would have done. -/
namespace Lib.Coop

namespace Co

variable {S : Sig} {α β : Type} {x y : Co S α} {f g : α → Co S β} {s t : S.State}

theorem Trace.outcome {calls : List S.Call} {r : Except S.Exc α} {s' : S.State}
    (h : x.Trace s calls r s') : x.Outcome (fun _ _ _ => True) s r s' := by
  induction x generalizing s calls with
  | ret | raise => exact h.2
  | get k ih => exact ih s h
  | set s₁ k ih => exact ih h
  | call q k ih =>
    obtain ⟨a, rest, -, h⟩ := h
    exact ⟨a, trivial, ih a h⟩

section Faults

variable (fault : S.Call → Prop)

/-- No run meets a fault. -/
def Harmless (x : Co S α) : Prop := ∀ s calls r s', x.Trace s calls r s' → ∀ c ∈ calls, ¬ fault c

/-- A run that returns has met no fault. -/
def Honest (x : Co S α) : Prop :=
  ∀ s calls a s', x.Trace s calls (.ok a) s' → ∀ c ∈ calls, ¬ fault c

/-- A run that has met a fault leaves a state as `R` says. -/
def Withstands (R : S.State → S.State → Prop) (x : Co S α) : Prop :=
  ∀ s calls r s', x.Trace s calls r s' → (∃ c ∈ calls, fault c) → R s s'

variable {fault}

theorem harmless_ret (a : α) : Harmless fault (ret a) := by
  rintro s calls r s' ⟨rfl, -, -⟩
  nofun

theorem harmless_raise (e : S.Exc) : Harmless fault (raise e : Co S α) := by
  rintro s calls r s' ⟨rfl, -, -⟩
  nofun

theorem harmless_modify (h : S.State → S.State) : Harmless fault (modify h) := by
  rintro s calls r s' ⟨rfl, -, -⟩
  nofun

theorem harmless_read {f : S.State → Co S β} (h : ∀ s, Harmless fault (f s)) :
    Harmless fault ((read : Co S S.State).bind f) := fun s calls r s' run => h s s calls r s' run

theorem harmless_perform {q : S.Req} (safe : ∀ a, ¬ fault ⟨q, a⟩) : Harmless fault (perform q) := by
  rintro s calls r s' ⟨a, rest, rfl, rfl, -, -⟩ c mem
  cases List.mem_singleton.mp mem
  exact safe a

theorem Harmless.bind (hx : Harmless fault x) (hf : ∀ a, Harmless fault (f a)) :
    Harmless fault (x.bind f) := by
  intro s calls r s' run c mem
  rcases trace_bind.mp run with ⟨a, s₁, c₁, c₂, rfl, first, rest⟩ | ⟨e, first, -⟩
  · rcases List.mem_append.mp mem with mem | mem
    · exact hx s c₁ _ s₁ first c mem
    · exact hf a s₁ c₂ r s' rest c mem
  · exact hx s calls _ s' first c mem

theorem Harmless.honest (h : Harmless fault x) : Honest fault x :=
  fun s calls a s' run => h s calls (.ok a) s' run

theorem Honest.bind (hx : Honest fault x) (hf : ∀ a, Honest fault (f a)) :
    Honest fault (x.bind f) := by
  intro s calls b s' run c mem
  obtain ⟨a, s₁, c₁, c₂, rfl, first, rest⟩ := Trace.split run
  rcases List.mem_append.mp mem with mem | mem
  · exact hx s c₁ a s₁ first c mem
  · exact hf a s₁ c₂ b s' rest c mem

variable {R : S.State → S.State → Prop}

/-- A part that is not the last: it does not go beyond `R` at all. -/
theorem Withstands.bind (trans : ∀ a b c, R a b → R b c → R a c) (hx : x.Ensures R)
    (honest : Honest fault x) (hf : ∀ a, Withstands fault R (f a)) :
    Withstands fault R (x.bind f) := by
  rintro s calls r s' run ⟨c, mem, bad⟩
  rcases trace_bind.mp run with ⟨a, s₁, c₁, c₂, rfl, first, rest⟩ | ⟨e, first, -⟩
  · rcases List.mem_append.mp mem with mem | mem
    · exact absurd bad (honest s c₁ a s₁ first c mem)
    · exact trans _ _ _ (hx _ _ _ _ first.outcome) (hf a s₁ c₂ r s' rest ⟨c, mem, bad⟩)
  · exact hx _ _ _ _ first.outcome

theorem Ensures.withstands (h : x.Ensures R) : Withstands fault R x :=
  fun s _ r s' run _ => h _ s r s' run.outcome

theorem Harmless.withstands (h : Harmless fault x) : Withstands fault R x := by
  rintro s calls r s' run ⟨c, mem, bad⟩
  exact absurd bad (h s calls r s' run c mem)

end Faults

section Calm

variable (calm : S.Call → Prop)

/-- Every run whose calls are answered well returns, as `Q` says. -/
def Succeeds (x : Co S α) (s : S.State) (Q : α → S.State → Prop) : Prop :=
  ∀ calls r s', x.Trace s calls r s' → (∀ c ∈ calls, calm c) → ∃ a, r = .ok a ∧ Q a s'

variable {calm} {Q : α → S.State → Prop} {P : β → S.State → Prop}

theorem succeeds_ret {a : α} (h : Q a s) : Succeeds calm (ret a) s Q := by
  rintro calls r s' ⟨-, rfl, rfl⟩ -
  exact ⟨a, rfl, h⟩

theorem succeeds_modify {h : S.State → S.State} {Q : Unit → S.State → Prop} (post : Q () (h s)) :
    Succeeds calm (modify h) s Q := by
  rintro calls r s' ⟨-, rfl, rfl⟩ -
  exact ⟨(), rfl, post⟩

theorem succeeds_read {f : S.State → Co S β} (h : Succeeds calm (f s) s P) :
    Succeeds calm ((read : Co S S.State).bind f) s P := h

theorem succeeds_perform {q : S.Req} {Q : S.Ans q → S.State → Prop}
    (h : ∀ a, calm ⟨q, a⟩ → Q a s) : Succeeds calm (perform q) s Q := by
  rintro calls r s' ⟨a, rest, rfl, rfl, rfl, rfl⟩ well
  exact ⟨a, rfl, h a (well _ (List.mem_cons_self ..))⟩

theorem Succeeds.bind (hx : Succeeds calm x s Q) (hf : ∀ a s₁, Q a s₁ → Succeeds calm (f a) s₁ P) :
    Succeeds calm (x.bind f) s P := by
  intro calls r s' run well
  rcases trace_bind.mp run with ⟨a, s₁, c₁, c₂, rfl, first, rest⟩ | ⟨e, first, -⟩
  · obtain ⟨a', eq, post⟩ := hx c₁ _ s₁ first fun c mem => well c (List.mem_append_left _ mem)
    cases eq
    exact hf a s₁ post c₂ r s' rest fun c mem => well c (List.mem_append_right _ mem)
  · obtain ⟨a, eq, -⟩ := hx calls _ s' first well
    cases eq

theorem Succeeds.mono {Q' : α → S.State → Prop} (h : Succeeds calm x s Q)
    (weaker : ∀ a s', Q a s' → Q' a s') : Succeeds calm x s Q' := by
  intro calls r s' run well
  obtain ⟨a, eq, post⟩ := h calls r s' run well
  exact ⟨a, eq, weaker a s' post⟩

end Calm

section Mirrors

variable (R : S.State → S.State → Prop)

/-- What the one coroutine does in its state the other can do in its own, call by call. -/
def Mirrors (x : Co S α) (s : S.State) (y : Co S α) (t : S.State) : Prop :=
  ∀ calls r s', x.Trace s calls r s' → ∃ t', y.Trace t calls r t' ∧ R s' t'

variable {R} {R' : S.State → S.State → Prop}

theorem mirrors_ret (h : R s t) (a : α) : Mirrors R (ret a) s (ret a) t := by
  rintro calls r s' ⟨rfl, rfl, rfl⟩
  exact ⟨t, ⟨rfl, rfl, rfl⟩, h⟩

theorem mirrors_raise (h : R s t) (e : S.Exc) : Mirrors R (raise e : Co S α) s (raise e) t := by
  rintro calls r s' ⟨rfl, rfl, rfl⟩
  exact ⟨t, ⟨rfl, rfl, rfl⟩, h⟩

theorem mirrors_modify {h k : S.State → S.State} (post : R (h s) (k t)) :
    Mirrors R (modify h) s (modify k) t := by
  rintro calls r s' ⟨rfl, rfl, rfl⟩
  exact ⟨k t, ⟨rfl, rfl, rfl⟩, post⟩

theorem mirrors_read {f g : S.State → Co S β} (h : Mirrors R (f s) s (g t) t) :
    Mirrors R ((read : Co S S.State).bind f) s ((read : Co S S.State).bind g) t := h

theorem mirrors_perform (h : R s t) (q : S.Req) : Mirrors R (perform q) s (perform q) t := by
  rintro calls r s' ⟨a, rest, rfl, rfl, rfl, rfl⟩
  exact ⟨t, ⟨a, [], rfl, rfl, rfl, rfl⟩, h⟩

theorem Mirrors.bind (first : Mirrors R x s y t)
    (rest : ∀ a s₁ t₁, R s₁ t₁ → Mirrors R (f a) s₁ (g a) t₁) :
    Mirrors R (x.bind f) s (y.bind g) t := by
  intro calls r s' run
  rcases trace_bind.mp run with ⟨a, s₁, c₁, c₂, rfl, begun, ended⟩ | ⟨e, begun, rfl⟩
  · obtain ⟨t₁, like, near⟩ := first c₁ _ s₁ begun
    obtain ⟨t', like', near'⟩ := rest a s₁ t₁ near c₂ r s' ended
    exact ⟨t', trace_bind.mpr (.inl ⟨a, t₁, c₁, c₂, rfl, like, like'⟩), near'⟩
  · obtain ⟨t', like, near⟩ := first calls _ s' begun
    exact ⟨t', trace_bind.mpr (.inr ⟨e, like, rfl⟩), near⟩

theorem Mirrors.mono (h : Mirrors R x s y t) (weaker : ∀ a b, R a b → R' a b) :
    Mirrors R' x s y t := by
  intro calls r s' run
  obtain ⟨t', like, near⟩ := h calls r s' run
  exact ⟨t', like, weaker _ _ near⟩

end Mirrors

end Co

end Lib.Coop
