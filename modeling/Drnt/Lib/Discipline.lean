import Drnt.Lib.EventLoop

/-! A discipline for coroutines: each carries a token, and each of its writes is a move of
the token. -/
namespace Lib.Coop

variable {S : Sig}

/-- How coroutines are kept in order. A token says how far a coroutine has come; `move`
says which writes it may make from there, and `parks` whether it may suspend there; `grows`
is what every write guarantees, and so what survives a suspension; `admits` bounds the
answers that the coroutine is prepared for. -/
structure Discipline (S : Sig) where
  Tok : Type
  move : Tok → S.State → Tok → S.State → Prop
  parks : Tok → Prop
  grows : S.State → S.State → Prop
  admits : S.State → (q : S.Req) → S.Ans q → Prop
  grows_refl : ∀ s, grows s s
  grows_trans : ∀ {s₁ s₂ s₃}, grows s₁ s₂ → grows s₂ s₃ → grows s₁ s₃
  move_grows : ∀ {τ s τ' s'}, move τ s τ' s' → grows s s'

variable {α β : Type}

/-- The coroutine keeps to the discipline from token `τ` and state `s` on, and ends with
a result, a token and a state as `Φ` says. -/
def Follows (D : Discipline S) : D.Tok → S.State → Co S α →
    (Except S.Exc α → D.Tok → S.State → Prop) → Prop
  | τ, s, .ret a, Φ => Φ (.ok a) τ s
  | τ, s, .raise e, Φ => Φ (.error e) τ s
  | τ, s, .get k, Φ => Follows D τ s (k s) Φ
  | τ, s, .set s' k, Φ => ∃ τ', D.move τ s τ' s' ∧ Follows D τ' s' k Φ
  | τ, s, .call q k, Φ =>
      (S.suspends q = true → D.parks τ) ∧
        ∀ s', (if S.suspends q then D.grows s s' else s' = s) →
          ∀ a, D.admits s' q a → Follows D τ s' (k a) Φ

section Rules

variable {D : Discipline S} {τ : D.Tok} {s : S.State}
  {Φ : Except S.Exc β → D.Tok → S.State → Prop}
  {Ψ : Except S.Exc α → D.Tok → S.State → Prop}

theorem Follows.mono {x : Co S α} {Ψ' : Except S.Exc α → D.Tok → S.State → Prop}
    (h : Follows D τ s x Ψ) (weaker : ∀ r τ' s', Ψ r τ' s' → Ψ' r τ' s') :
    Follows D τ s x Ψ' := by
  induction x generalizing τ s with
  | ret a => exact weaker _ _ _ h
  | raise e => exact weaker _ _ _ h
  | get k ih => exact ih s h
  | set s₁ k ih =>
    obtain ⟨τ', hm, hk⟩ := h
    exact ⟨τ', hm, ih hk⟩
  | call q k ih => exact ⟨h.1, fun s' hs a ha => ih a (h.2 s' hs a ha)⟩

theorem follows_bind {x : Co S α} {f : α → Co S β}
    (h : Follows D τ s x fun r τ' s' => match r with
      | .ok a => Follows D τ' s' (f a) Φ
      | .error e => Φ (.error e) τ' s') :
    Follows D τ s (x.bind f) Φ := by
  induction x generalizing τ s with
  | ret a => exact h
  | raise e => exact h
  | get k ih => exact ih s h
  | set s₁ k ih =>
    obtain ⟨τ', hm, hk⟩ := h
    exact ⟨τ', hm, ih hk⟩
  | call q k ih => exact ⟨h.1, fun s' hs a ha => ih a (h.2 s' hs a ha)⟩

theorem follows_tryCatch {x : Co S α} {handler : S.Exc → Co S α}
    (h : Follows D τ s x fun r τ' s' => match r with
      | .ok a => Ψ (.ok a) τ' s'
      | .error e => Follows D τ' s' (handler e) Ψ) :
    Follows D τ s (x.tryCatch handler) Ψ := by
  induction x generalizing τ s with
  | ret a => exact h
  | raise e => exact h
  | get k ih => exact ih s h
  | set s₁ k ih =>
    obtain ⟨τ', hm, hk⟩ := h
    exact ⟨τ', hm, ih hk⟩
  | call q k ih => exact ⟨h.1, fun s' hs a ha => ih a (h.2 s' hs a ha)⟩

/-- A loop whose body keeps the token between iterations. -/
theorem follows_each {bs : List α} {f : α → Co S Unit} {Ω : D.Tok → S.State → Prop}
    {Ξ : Except S.Exc Unit → D.Tok → S.State → Prop} (start : Ω τ s)
    (body : ∀ b ∈ bs, ∀ τ s, Ω τ s → Follows D τ s (f b) fun r τ' s' => match r with
      | .ok _ => Ω τ' s'
      | .error e => Ξ (.error e) τ' s')
    (done : ∀ τ s, Ω τ s → Ξ (.ok ()) τ s) :
    Follows D τ s (Co.each bs f) Ξ := by
  induction bs generalizing τ s with
  | nil => exact done τ s start
  | cons b bs ih =>
    refine follows_bind ((body b (by simp) τ s start).mono ?_)
    rintro (e | u) τ' s' h
    · exact h
    · exact ih h fun b hb => body b (by simp [hb])

end Rules

theorem Follows.growing {D : Discipline S} {τ : D.Tok} {s : S.State} {x : Co S α}
    {Φ : Except S.Exc α → D.Tok → S.State → Prop} (h : Follows D τ s x Φ) :
    Follows D τ s x fun r τ' s' => Φ r τ' s' ∧ D.grows s s' := by
  induction x generalizing τ s with
  | ret a => exact ⟨h, D.grows_refl s⟩
  | raise e => exact ⟨h, D.grows_refl s⟩
  | get k ih => exact ih s h
  | set s₁ k ih =>
    obtain ⟨τ', hm, hk⟩ := h
    exact ⟨τ', hm, (ih hk).mono fun _ _ _ h => ⟨h.1, D.grows_trans (D.move_grows hm) h.2⟩⟩
  | call q k ih =>
    refine ⟨h.1, fun s' hs a ha => (ih a (h.2 s' hs a ha)).mono fun _ _ _ h => ⟨h.1, ?_⟩⟩
    split at hs
    · exact D.grows_trans hs h.2
    · exact hs ▸ h.2

/-- From any state the coroutine keeps its token, and it raises only in some states. -/
def Keeps (D : Discipline S) (E : S.State → Prop) (τ : D.Tok) (x : Co S α) : Prop :=
  ∀ s, Follows D τ s x fun r τ' s' => τ' = τ ∧ ∀ e, r = .error e → E s'

section Keeping

variable {D : Discipline S} {E : S.State → Prop} {τ : D.Tok}

@[simp] theorem keeps_ret (a : α) : Keeps D E τ (Co.ret a : Co S α) := fun _ =>
  ⟨rfl, fun _ h => by cases h⟩

@[simp] theorem keeps_read : Keeps D E τ (Co.read : Co S S.State) := fun _ =>
  ⟨rfl, fun _ h => by cases h⟩

theorem keeps_raise {e : S.Exc} (h : ∀ s, E s) : Keeps D E τ (Co.raise e : Co S α) := fun s =>
  ⟨rfl, fun _ _ => h s⟩

theorem keeps_modify {f : S.State → S.State} (h : ∀ s, D.move τ s τ (f s)) :
    Keeps D E τ (Co.modify f : Co S Unit) := fun s =>
  ⟨τ, h s, rfl, fun _ h => by cases h⟩

theorem keeps_perform {q : S.Req} (h : S.suspends q = true → D.parks τ) :
    Keeps D E τ (Co.perform q : Co S (S.Ans q)) := fun _ =>
  ⟨h, fun _ _ _ _ => ⟨rfl, fun _ h => by cases h⟩⟩

theorem keeps_bind {x : Co S α} {f : α → Co S β} (hx : Keeps D E τ x)
    (hf : ∀ a, Keeps D E τ (f a)) : Keeps D E τ (x.bind f) := by
  refine fun s => follows_bind ((hx s).mono ?_)
  rintro (e | a) τ' s' ⟨rfl, raised⟩
  · exact ⟨rfl, fun _ _ => raised e rfl⟩
  · exact hf a s'

theorem keeps_tryCatch {x : Co S α} {h : S.Exc → Co S α} {F : S.State → Prop}
    (hx : Keeps D F τ x) (hh : ∀ e, Keeps D E τ (h e)) : Keeps D E τ (x.tryCatch h) := by
  refine fun s => follows_tryCatch ((hx s).mono ?_)
  rintro (e | a) τ' s' ⟨rfl, -⟩
  · exact hh e s'
  · exact ⟨rfl, fun _ h => by cases h⟩

theorem keeps_each {bs : List β} {f : β → Co S Unit} (hf : ∀ b, Keeps D E τ (f b)) :
    Keeps D E τ (Co.each bs f) := by
  induction bs with
  | nil => exact keeps_ret ()
  | cons b bs ih => exact keeps_bind (hf b) fun _ => ih

theorem Keeps.follows {x : Co S α} (h : Keeps D E τ x) {s : S.State}
    {Φ : Except S.Exc α → D.Tok → S.State → Prop}
    (ok : ∀ a s', D.grows s s' → Φ (.ok a) τ s')
    (error : ∀ e s', D.grows s s' → E s' → Φ (.error e) τ s') : Follows D τ s x Φ := by
  refine (h s).growing.mono ?_
  rintro (e | a) τ' s' ⟨⟨rfl, raised⟩, grows⟩
  · exact error e s' grows (raised e rfl)
  · exact ok a s' grows

end Keeping

end Lib.Coop
