import Drnt.Lib.EventLoop

/-! Work behind a gate. A coroutine that may still do such work without passing the gate is
under way with it; while the gate is shut no other coroutine comes to be. -/
namespace Lib.Coop

variable {S : Sig} {α : Type}

/-- The coroutine, running in a state, may go on to make a write that is work without waiting
at the gate first, whatever its requests are answered and whatever others do meanwhile. -/
def Co.May (work : S.State → S.State → Prop) (gate : S.Req → Prop) : Co S α → S.State → Prop
  | ret _, _ | raise _, _ => False
  | get k, s => (k s).May work gate s
  | set s' k, s => work s s' ∨ k.May work gate s'
  | call q k, s =>
      ¬ gate q ∧ ∃ s' a, (S.suspends q = true ∨ s' = s) ∧ (k a).May work gate s'

variable {M : Machine S} (work : S.State → S.State → Prop) (gate : S.Req → Prop)
  (worker : M.Tag → Prop) (shut : S.State → Prop)

/-- A gate for the calls that work: it opens to nobody while it is shut, and who starts then
has to wait at it. -/
structure Gate : Prop where
  waits : ∀ {s t}, shut s → worker t → M.starts s t → ¬ (M.body t).May work gate s
  opens : ∀ {s q a}, gate q → M.answers s q a → ¬ shut s

/-- No thread of a call that works may still do so. -/
def Config.Clear (c : Config M) : Prop :=
  ∀ th ∈ c.threads, worker th.1 → ∀ s, ¬ th.2.May work gate s

/-- The gate is shut only when no thread is under way with work. -/
def Config.ShutsClear (c : Config M) : Label M → Prop
  | .work i => ∀ t s k, c.threads[i]? = some ⟨t, .set s k⟩ → ¬ shut c.state → shut s →
      c.Clear work gate worker
  | .start _ | .answer _ _ _ | .crash => True

/-- While the gate is shut, a thread is under way with work at most in the state it has seen. -/
def Config.Held (c : Config M) : Prop :=
  shut c.state → ∀ {i th}, c.threads[i]? = some th → worker th.1 →
    ∀ s, (c.running = some i → s = c.state) → ¬ th.2.May work gate s

variable {work gate worker shut} {c c' : Config M} {l : Label M}

theorem held_step (g : Gate work gate worker shut) (held : c.Held work gate worker shut)
    (met : c.ShutsClear work gate worker shut l) (next : Step M c l c') :
    c'.Held work gate worker shut := by
  intro closed j th hth works s here may
  -- a thread that has not moved is as it was before the step
  have still {i : Nat} {th' : Thread M} (closed : shut c.state) (ne : i ≠ j)
      (idle : c.running ≠ some j)
      (at_ : (c.threads.set i th')[j]? = some th) : False := by
    rw [List.getElem?_set_ne ne] at at_
    exact held closed at_ works s (fun run => absurd run idle) may
  cases next with
  | @start t idle starts =>
    by_cases old : j < c.threads.length
    · rw [List.getElem?_append_left old] at hth
      exact held closed hth works s (fun run => by simp [idle] at run) may
    · have bound := (List.getElem?_eq_some_iff.mp hth).1
      have last : j = c.threads.length := by
        simp only [List.length_append, List.length_singleton] at bound
        omega
      subst last
      rw [List.getElem?_concat_length] at hth
      cases hth
      have same : s = c.state := here rfl
      exact g.waits closed works starts (same ▸ may)
  | @get i t k run at_ =>
    by_cases same : i = j
    · subst same
      rw [List.getElem?_set_self (List.getElem?_eq_some_iff.mp at_).1] at hth
      cases hth
      have now : s = c.state := here run
      exact held closed at_ works c.state (fun _ => rfl) (now ▸ may)
    · exact still closed same (by simp [run, same]) hth
  | @set i t s' k run at_ =>
    by_cases before : shut c.state
    · by_cases same : i = j
      · subst same
        rw [List.getElem?_set_self (List.getElem?_eq_some_iff.mp at_).1] at hth
        cases hth
        have now : s = s' := here run
        exact held before at_ works c.state (fun _ => rfl) (.inr (now ▸ may))
      · exact still before same (by simp [run, same]) hth
    · have clear := met t s' k at_ before closed
      by_cases same : i = j
      · subst same
        rw [List.getElem?_set_self (List.getElem?_eq_some_iff.mp at_).1] at hth
        cases hth
        have now : s = s' := here run
        exact clear _ (List.mem_of_getElem? at_) works c.state (.inr (now ▸ may))
      · rw [List.getElem?_set_ne same] at hth
        exact clear _ (List.mem_of_getElem? hth) works s may
  | @answer i t q k a run at_ quick ans =>
    by_cases same : i = j
    · subst same
      rw [List.getElem?_set_self (List.getElem?_eq_some_iff.mp at_).1] at hth
      cases hth
      have passed : ¬ gate q := fun isGate => g.opens isGate ans closed
      have now : s = c.state := here run
      exact held closed at_ works c.state (fun _ => rfl)
        ⟨passed, c.state, a, .inr rfl, now ▸ may⟩
    · exact still closed same (by simp [run, same]) hth
  | @park i t q k run at_ slow =>
    by_cases same : i = j
    · subst same
      cases at_.symm.trans hth
      obtain ⟨passed, s', a, -, may⟩ := may
      exact held closed at_ works c.state (fun _ => rfl) ⟨passed, s', a, .inl slow, may⟩
    · have idle : c.running ≠ some j := by simp [run, same]
      exact held closed hth works s (fun run => absurd run idle) may
  | @resume i t q k a idle at_ slow ans =>
    by_cases same : i = j
    · subst same
      rw [List.getElem?_set_self (List.getElem?_eq_some_iff.mp at_).1] at hth
      cases hth
      have passed : ¬ gate q := fun isGate => g.opens isGate ans closed
      exact held closed at_ works c.state (fun _ => rfl) ⟨passed, s, a, .inl slow, may⟩
    · exact still closed same (by simp [idle]) hth
  | @finish i th' run at_ done =>
    by_cases same : i = j
    · subst same
      cases at_.symm.trans hth
      obtain ⟨t, p⟩ := th
      cases p with
      | ret | raise => exact may
      | get | set | call => exact done
    · have idle : c.running ≠ some j := by
        rw [run]
        simpa using same
      exact held closed hth works s (fun run => absurd run idle) may
  | crash => simp [Config.boot] at hth

/-- In runs that shut the gate only when no thread is under way, a working thread that does
its work has found the gate open. -/
theorem held_reach {ok : Config M → Label M → Prop} (g : Gate work gate worker shut)
    (clear : ∀ {c l}, ok c l → c.ShutsClear work gate worker shut l) {s₀ : S.State}
    (h : Reach M ok (.boot M s₀) c) : c.Held work gate worker shut := by
  induction h with
  | refl => exact fun _ _ _ hth => by simp [Config.boot] at hth
  | step _ meets next ih => exact held_step g ih (clear meets) next

theorem open_of_work {t : M.Tag} {s : S.State} {k : Co S (M.Res t)} {i : Nat}
    (held : c.Held work gate worker shut)
    (at_ : c.threads[i]? = some ⟨t, .set s k⟩) (works : worker t) (does : work c.state s) :
    ¬ shut c.state := fun closed => held closed at_ works c.state (fun _ => rfl) (.inl does)

end Lib.Coop
