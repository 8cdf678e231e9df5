import Drnt.Lib.Discipline

/-! A discipline for a whole system, and its invariant rule: what is preserved by every move
of a token holds in every configuration reached. -/
namespace Lib.Coop

variable {S : Sig}

/-- A discipline for a whole machine: the token each call starts with, what holds when a
call ends, and the token that a finished call leaves behind. -/
structure Plan (M : Machine S) extends Discipline S where
  first : M.Tag → S.State → Tok
  ends : (t : M.Tag) → Except S.Exc (M.Res t) → Tok → S.State → Prop
  retire : Tok → Tok
  retire_parks : ∀ τ, parks (retire τ)

namespace Plan

variable {M : Machine S} (P : Plan M)

abbrev Toks := List (M.Tag × P.Tok)

/-- A running thread follows the plan from the present state. -/
def Runs (s : S.State) (th : Thread M) (τ : P.Tok) : Prop :=
  Follows P.toDiscipline τ s th.2 (P.ends th.1)

/-- A suspended thread follows the plan since the state in which it last ran. -/
def Waits (s : S.State) (th : Thread M) (τ : P.Tok) : Prop :=
  ∃ s₀, P.grows s₀ s ∧ P.Runs s₀ th τ ∧ ∃ q k, th.2 = .call q k ∧ S.suspends q = true

/-- A finished thread has ended as the plan says, and its token is retired. -/
def Done (s : S.State) (th : Thread M) (τ : P.Tok) : Prop :=
  ∃ r τ₀ s₀, th.2.result = some r ∧ P.ends th.1 r τ₀ s₀ ∧ P.grows s₀ s ∧ τ = P.retire τ₀

structure Tracks (c : Config M) (toks : P.Toks) : Prop where
  length : toks.length = c.threads.length
  tags : ∀ {i : Nat} {th : Thread M} {tok : M.Tag × P.Tok},
    c.threads[i]? = some th → toks[i]? = some tok → tok.1 = th.1
  runs : ∀ {i : Nat} {th : Thread M} {tok : M.Tag × P.Tok},
    c.threads[i]? = some th → toks[i]? = some tok → c.running = some i →
    P.Runs c.state th tok.2
  stopped : ∀ {i : Nat} {th : Thread M} {tok : M.Tag × P.Tok},
    c.threads[i]? = some th → toks[i]? = some tok → c.running ≠ some i →
    P.Waits c.state th tok.2 ∨ P.Done c.state th tok.2

/-- All threads but one are parked. -/
def Parked (toks : P.Toks) (but : Option Nat) : Prop :=
  ∀ {k : Nat} {tok : M.Tag × P.Tok}, but ≠ some k → toks[k]? = some tok → P.parks tok.2

/-- What has to be shown of an invariant over the state and the tokens of all threads, where
another one is known already. Only the thread that moves can hold a token that does not
park. -/
structure PreservesUnder (ok : Config M → Label M → Prop) (Known Inv : S.State → P.Toks → Prop) :
    Prop where
  start : ∀ {c toks t}, P.Tracks c toks → Known c.state toks → Inv c.state toks →
    P.Parked toks none → c.running = none → ok c (.start t) → M.starts c.state t →
    Inv c.state (toks ++ [(t, P.first t c.state)])
  move : ∀ {c s'} {toks : P.Toks} {i : Nat} {t k τ τ'}, Known c.state toks → Inv c.state toks →
    c.threads[i]? = some ⟨t, .set s' k⟩ → ok c (.work i) → toks[i]? = some (t, τ) →
    P.Parked toks (some i) → P.move τ c.state τ' s' → Inv s' (toks.set i (t, τ'))
  finish : ∀ {c} {toks : P.Toks} {i : Nat} {t p τ r}, Known c.state toks → Inv c.state toks →
    c.threads[i]? = some ⟨t, p⟩ → p.result = some r → ok c (.work i) → toks[i]? = some (t, τ) →
    P.ends t r τ c.state → Inv c.state (toks.set i (t, P.retire τ))
  crash : ∀ {c toks s'}, P.Tracks c toks → Known c.state toks → Inv c.state toks →
    ok c .crash → M.reboot c.state s' → Inv s' []

abbrev Preserves (ok : Config M → Label M → Prop) (Inv : S.State → P.Toks → Prop) : Prop :=
  P.PreservesUnder ok (fun _ _ => True) Inv

/-- The coroutines of a machine keep to a plan. -/
structure Sound : Prop where
  follows : ∀ {s t}, M.starts s t → Follows P.toDiscipline (P.first t s) s (M.body t) (P.ends t)
  answers : ∀ {s q a}, M.answers s q a → P.admits s q a

/-- They keep to it in runs whose steps meet a condition. -/
structure SoundUnder (ok : Config M → Label M → Prop) : Prop where
  follows : ∀ {c t}, ok c (.start t) → M.starts c.state t →
    Follows P.toDiscipline (P.first t c.state) c.state (M.body t) (P.ends t)
  answers : ∀ {c i q a}, ok c (.answer i q a) → M.answers c.state q a → P.admits c.state q a

variable {P}

theorem Sound.under {ok : Config M → Label M → Prop} (h : P.Sound) : P.SoundUnder ok where
  follows _ may := h.follows may
  answers _ ans := h.answers ans

theorem PreservesUnder.mono {ok ok' : Config M → Label M → Prop}
    {Known Inv : S.State → P.Toks → Prop} (h : P.PreservesUnder ok Known Inv)
    (stronger : ∀ c l, ok' c l → ok c l) : P.PreservesUnder ok' Known Inv where
  start tracks known inv parked idle meets := h.start tracks known inv parked idle (stronger _ _ meets)
  move known inv at_ meets := h.move known inv at_ (stronger _ _ meets)
  finish known inv at_ res meets := h.finish known inv at_ res (stronger _ _ meets)
  crash tracks known inv meets := h.crash tracks known inv (stronger _ _ meets)

/-- An invariant that is preserved under another is preserved with it. -/
theorem PreservesUnder.and {ok : Config M → Label M → Prop}
    {Known Inv : S.State → P.Toks → Prop} (h : P.Preserves ok Known)
    (h' : P.PreservesUnder ok Known Inv) :
    P.Preserves ok fun s toks => Known s toks ∧ Inv s toks where
  start tracks _ inv parked idle meets may :=
    ⟨h.start tracks trivial inv.1 parked idle meets may,
      h'.start tracks inv.1 inv.2 parked idle meets may⟩
  move _ inv at_ meets tok parked hm :=
    ⟨h.move trivial inv.1 at_ meets tok parked hm, h'.move inv.1 inv.2 at_ meets tok parked hm⟩
  finish _ inv at_ res meets tok ends :=
    ⟨h.finish trivial inv.1 at_ res meets tok ends, h'.finish inv.1 inv.2 at_ res meets tok ends⟩
  crash tracks _ inv meets again :=
    ⟨h.crash tracks trivial inv.1 meets again, h'.crash tracks inv.1 inv.2 meets again⟩

theorem Tracks.token {c : Config M} {toks : P.Toks} (h : P.Tracks c toks) {i : Nat}
    {th : Thread M} (at_ : c.threads[i]? = some th) : ∃ τ, toks[i]? = some (th.1, τ) := by
  have bound : i < toks.length := by
    rw [h.length]; exact (List.getElem?_eq_some_iff.mp at_).1
  have htok : toks[i]? = some toks[i] := List.getElem?_eq_getElem bound
  have tag := h.tags at_ htok
  exact ⟨toks[i].2, by rw [htok, ← tag]⟩

theorem Tracks.thread {c : Config M} {toks : P.Toks} (h : P.Tracks c toks) {i : Nat}
    {t : M.Tag} {τ : P.Tok} (at_ : toks[i]? = some (t, τ)) :
    ∃ p, c.threads[i]? = some ⟨t, p⟩ := by
  have bound : i < c.threads.length := by
    rw [← h.length]; exact (List.getElem?_eq_some_iff.mp at_).1
  obtain ⟨⟨t', p⟩, found⟩ : ∃ th, c.threads[i]? = some th :=
    ⟨_, List.getElem?_eq_getElem bound⟩
  cases h.tags found at_
  exact ⟨p, found⟩

theorem Waits.parks {s : S.State} {th : Thread M} {τ : P.Tok} (h : P.Waits s th τ) :
    P.parks τ := by
  obtain ⟨s₀, _, follows, q, k, call, slow⟩ := h
  rw [Runs, call] at follows
  exact follows.1 slow

theorem Tracks.parks {c : Config M} {toks : P.Toks} (h : P.Tracks c toks) {i : Nat}
    {tok : M.Tag × P.Tok} (at_ : toks[i]? = some tok) (idle : c.running ≠ some i) :
    P.parks tok.2 := by
  obtain ⟨t, τ⟩ := tok
  obtain ⟨p, found⟩ := h.thread at_
  rcases h.stopped found at_ idle with waits | ⟨_, τ₀, _, _, _, _, eq⟩
  · exact waits.parks
  · exact eq ▸ P.retire_parks τ₀

/-- What is known of a thread with a result: how it ended, and since then its token is that
of the end, or retired. -/
theorem Tracks.result {c : Config M} {toks : P.Toks} (h : P.Tracks c toks) {i : Nat}
    {t : M.Tag} {τ : P.Tok} {p : Co S (M.Res t)} {r : Except S.Exc (M.Res t)}
    (at_ : c.threads[i]? = some ⟨t, p⟩) (tok : toks[i]? = some (t, τ)) (fin : p.result = some r) :
    ∃ τ₀ s₀, P.ends t r τ₀ s₀ ∧ P.grows s₀ c.state ∧ (τ = τ₀ ∨ τ = P.retire τ₀) := by
  by_cases run : c.running = some i
  · have follows := h.runs at_ tok run
    cases p with
    | ret a => cases fin; exact ⟨τ, c.state, follows, P.grows_refl _, .inl rfl⟩
    | raise e => cases fin; exact ⟨τ, c.state, follows, P.grows_refl _, .inl rfl⟩
    | get | set | call => cases fin
  · rcases h.stopped at_ tok run with ⟨_, _, _, q, k, call, _⟩ | ⟨r', τ₀, s₀, res, ends, hg, eq⟩
    · change p = _ at call
      rw [call] at fin
      cases fin
    · cases fin.symm.trans res
      exact ⟨τ₀, s₀, ends, hg, .inr eq⟩

/-- A thread whose token is not one that a finished call leaves behind has not finished. -/
theorem Tracks.unfinished {c : Config M} {toks : P.Toks} (h : P.Tracks c toks) {i : Nat}
    {t : M.Tag} {τ : P.Tok} (tok : toks[i]? = some (t, τ)) (idle : c.running ≠ some i)
    (live : ∀ τ₀, τ ≠ P.retire τ₀) : c.InFlight t := by
  obtain ⟨p, at_⟩ := h.thread tok
  refine ⟨i, p, at_, fun done => ?_⟩
  rcases h.stopped at_ tok idle with ⟨_, _, _, q, k, call, _⟩ | ⟨_, τ₀, _, _, _, _, eq⟩
  · change p = _ at call
    rw [call] at done
    exact done
  · exact live τ₀ eq

theorem Waits.grown {s s' : S.State} {th : Thread M} {τ : P.Tok} (h : P.Waits s th τ)
    (grown : P.grows s s') : P.Waits s' th τ := by
  obtain ⟨s₀, hg, rest⟩ := h
  exact ⟨s₀, P.grows_trans hg grown, rest⟩

theorem Done.grown {s s' : S.State} {th : Thread M} {τ : P.Tok} (h : P.Done s th τ)
    (grown : P.grows s s') : P.Done s' th τ := by
  obtain ⟨r, τ₀, s₀, res, ends, hg, eq⟩ := h
  exact ⟨r, τ₀, s₀, res, ends, P.grows_trans hg grown, eq⟩

/-- Running one thread: its new program follows the plan from its new token, and the others
stay stopped. -/
theorem Tracks.advance {c : Config M} {toks : P.Toks} (h : P.Tracks c toks) {i : Nat}
    {t : M.Tag} {p : Co S (M.Res t)} (p' : Co S (M.Res t)) {τ' : P.Tok} {s' : S.State}
    (at_ : c.threads[i]? = some ⟨t, p⟩) (free : c.running = some i ∨ c.running = none)
    (grown : P.grows c.state s') (follows : P.Runs s' ⟨t, p'⟩ τ') :
    P.Tracks ⟨s', some i, c.threads.set i ⟨t, p'⟩⟩ (toks.set i (t, τ')) := by
  have bound : i < c.threads.length := (List.getElem?_eq_some_iff.mp at_).1
  have bound' : i < toks.length := by rw [h.length]; exact bound
  refine ⟨by simp [h.length], ?_, ?_, ?_⟩ <;> intro j th tok hth htok
  · by_cases hj : i = j
    · subst hj
      rw [List.getElem?_set_self bound] at hth
      rw [List.getElem?_set_self bound'] at htok
      cases hth; cases htok; rfl
    · rw [List.getElem?_set_ne hj] at hth htok
      exact h.tags hth htok
  · intro run
    cases run
    rw [List.getElem?_set_self bound] at hth
    rw [List.getElem?_set_self bound'] at htok
    cases hth; cases htok
    exact follows
  · intro idle
    have hj : i ≠ j := fun eq => idle (by rw [eq])
    rw [List.getElem?_set_ne hj] at hth htok
    have stopped : c.running ≠ some j := by
      rcases free with run | run <;> simp [run, hj]
    exact (h.stopped hth htok stopped).imp (·.grown grown) (·.grown grown)

/-- A thread that suspends keeps its token. -/
theorem Tracks.park {c : Config M} {toks : P.Toks} (h : P.Tracks c toks) {i : Nat}
    {th : Thread M} (run : c.running = some i) (at_ : c.threads[i]? = some th)
    (slow : ∃ q k, th.2 = .call q k ∧ S.suspends q = true) :
    P.Tracks { c with running := none } toks := by
  refine ⟨h.length, h.tags, (fun _ _ run' => by cases run'), ?_⟩
  intro j th' tok hth htok _
  by_cases hj : i = j
  · subst hj
    cases at_.symm.trans hth
    exact .inl ⟨c.state, P.grows_refl _, h.runs at_ htok run, slow⟩
  · exact h.stopped hth htok (by simpa [run] using hj)

/-- A thread that finishes retires its token. -/
theorem Tracks.finish {c : Config M} {toks : P.Toks} (h : P.Tracks c toks) {i : Nat}
    {th : Thread M} {τ : P.Tok} (run : c.running = some i) (at_ : c.threads[i]? = some th)
    (tok_ : toks[i]? = some (th.1, τ)) (done : th.2.Finished) :
    P.Tracks { c with running := none } (toks.set i (th.1, P.retire τ)) := by
  have bound : i < toks.length := (List.getElem?_eq_some_iff.mp tok_).1
  refine ⟨by simp [h.length], ?_, (fun _ _ run' => by cases run'), ?_⟩ <;>
    intro j th' tok hth htok
  · by_cases hj : i = j
    · subst hj
      rw [List.getElem?_set_self bound] at htok
      cases htok; cases at_.symm.trans hth; rfl
    · rw [List.getElem?_set_ne hj] at htok
      exact h.tags hth htok
  · intro _
    by_cases hj : i = j
    · subst hj
      rw [List.getElem?_set_self bound] at htok
      cases htok; cases at_.symm.trans hth
      have follows := h.runs at_ tok_ run
      obtain ⟨t, p⟩ := th
      refine .inr ?_
      cases p with
      | ret a => exact ⟨.ok a, τ, c.state, rfl, follows, P.grows_refl _, rfl⟩
      | raise e => exact ⟨.error e, τ, c.state, rfl, follows, P.grows_refl _, rfl⟩
      | get | set | call => exact done.elim
    · rw [List.getElem?_set_ne hj] at htok
      exact h.stopped hth htok (by simpa [run] using hj)

/-- What a step did to the state and the tokens. -/
inductive Effect (P : Plan M) (s : S.State) (toks : P.Toks) :
    Label M → S.State → P.Toks → Prop
  | start (t : M.Tag) : Effect P s toks (.start t) s (toks ++ [(t, P.first t s)])
  | quiet (l : Label M) : Effect P s toks l s toks
  | move {i : Nat} {t : M.Tag} {τ τ' : P.Tok} {s' : S.State}
      (at_ : toks[i]? = some (t, τ)) (move : P.move τ s τ' s') :
      Effect P s toks (.work i) s' (toks.set i (t, τ'))
  | finish {i : Nat} {t : M.Tag} {τ : P.Tok} (at_ : toks[i]? = some (t, τ)) :
      Effect P s toks (.work i) s (toks.set i (t, P.retire τ))
  | crash {s' : S.State} (again : M.reboot s s') : Effect P s toks .crash s' []

theorem set_self {α : Type} {l : List α} {i : Nat} {a : α} (h : l[i]? = some a) :
    l.set i a = l := by
  obtain ⟨bound, rfl⟩ := List.getElem?_eq_some_iff.mp h
  exact List.set_getElem_self bound

theorem Tracks.start {c : Config M} {toks : P.Toks} (h : P.Tracks c toks) {t : M.Tag}
    {τ : P.Tok} (idle : c.running = none) (follows : P.Runs c.state ⟨t, M.body t⟩ τ) :
    P.Tracks ⟨c.state, some c.threads.length, c.threads ++ [⟨t, M.body t⟩]⟩
      (toks ++ [(t, τ)]) := by
  have old {j : Nat} {th : Thread M} {tok : M.Tag × P.Tok} (hj : j < c.threads.length)
      (hth : (c.threads ++ [⟨t, M.body t⟩])[j]? = some th)
      (htok : (toks ++ [(t, τ)])[j]? = some tok) :
      c.threads[j]? = some th ∧ toks[j]? = some tok := by
    rw [List.getElem?_append_left hj] at hth
    rw [List.getElem?_append_left (by rw [h.length]; exact hj)] at htok
    exact ⟨hth, htok⟩
  have bound {j : Nat} {th : Thread M}
      (hth : (c.threads ++ [⟨t, M.body t⟩])[j]? = some th) : j ≤ c.threads.length := by
    have := (List.getElem?_eq_some_iff.mp hth).1
    simp only [List.length_append, List.length_singleton] at this
    omega
  have new {th : Thread M} {tok : M.Tag × P.Tok}
      (hth : (c.threads ++ [⟨t, M.body t⟩])[c.threads.length]? = some th)
      (htok : (toks ++ [(t, τ)])[c.threads.length]? = some tok) :
      th = ⟨t, M.body t⟩ ∧ tok = (t, τ) := by
    rw [List.getElem?_concat_length] at hth
    rw [← h.length, List.getElem?_concat_length] at htok
    exact ⟨(Option.some.inj hth).symm, (Option.some.inj htok).symm⟩
  refine ⟨by simp [h.length], ?_, ?_, ?_⟩ <;> intro j th tok hth htok
  · rcases Nat.lt_or_eq_of_le (bound hth) with hj | rfl
    · obtain ⟨hth, htok⟩ := old hj hth htok
      exact h.tags hth htok
    · obtain ⟨rfl, rfl⟩ := new hth htok
      rfl
  · intro run
    cases run
    obtain ⟨rfl, rfl⟩ := new hth htok
    exact follows
  · intro stop
    rcases Nat.lt_or_eq_of_le (bound hth) with hj | rfl
    · obtain ⟨hth, htok⟩ := old hj hth htok
      exact h.stopped hth htok (by simp [idle])
    · exact absurd rfl stop

theorem step_effect {ok : Config M → Label M → Prop} (sound : P.SoundUnder ok)
    {Inv : S.State → P.Toks → Prop} (hP : P.Preserves ok Inv) {c c' : Config M} {l : Label M}
    {toks : P.Toks} (tracks : P.Tracks c toks) (inv : Inv c.state toks) (meets : ok c l)
    (h : Step M c l c') :
    ∃ toks', P.Tracks c' toks' ∧ Inv c'.state toks' ∧ Effect P c.state toks l c'.state toks' := by
  cases h with
  | @start t idle may =>
    have inv' := hP.start tracks trivial inv
      (fun _ at_ => tracks.parks at_ (by simp [idle])) idle meets may
    exact ⟨_, tracks.start idle (sound.follows meets may), inv', .start t⟩
  | @get i t k run at_ =>
    obtain ⟨τ, htok⟩ := tracks.token at_
    have follows : P.Runs c.state ⟨t, .get k⟩ τ := tracks.runs at_ htok run
    have := tracks.advance (k c.state) at_ (.inl run) (P.grows_refl _) follows
    rw [set_self htok, ← run] at this
    exact ⟨toks, this, inv, .quiet _⟩
  | @set i t s k run at_ =>
    obtain ⟨τ, htok⟩ := tracks.token at_
    obtain ⟨τ', hm, hk⟩ := tracks.runs at_ htok run
    have := tracks.advance k at_ (.inl run) (P.move_grows hm) hk
    rw [← run] at this
    refine ⟨_, this, hP.move trivial inv at_ meets htok (fun hk at' => tracks.parks at' ?_) hm,
      .move htok hm⟩
    rwa [run]
  | @answer i t q k a run at_ quick ans =>
    obtain ⟨τ, htok⟩ := tracks.token at_
    have := tracks.advance (k a) at_ (.inl run) (P.grows_refl _)
      ((tracks.runs at_ htok run).2 _ (by simp [quick]) a (sound.answers meets ans))
    rw [set_self htok, ← run] at this
    exact ⟨toks, this, inv, .quiet _⟩
  | @park i t q k run at_ slow =>
    exact ⟨toks, tracks.park run at_ ⟨q, k, rfl, slow⟩, inv, .quiet _⟩
  | @resume i t q k a idle at_ slow ans =>
    obtain ⟨τ, htok⟩ := tracks.token at_
    rcases tracks.stopped at_ htok (by simp [idle]) with ⟨s₀, hg, hf, _⟩ | ⟨_, _, _, res, _⟩
    · have := tracks.advance (k a) at_ (.inr idle) (P.grows_refl _)
        (hf.2 _ (by simpa [slow] using hg) a (sound.answers meets ans))
      rw [set_self htok] at this
      exact ⟨toks, this, inv, .quiet _⟩
    · cases res
  | @finish i th run at_ done =>
    obtain ⟨τ, htok⟩ := tracks.token at_
    obtain ⟨t, p⟩ := th
    have ends : ∃ r, p.result = some r ∧ P.ends t r τ c.state := by
      have follows := tracks.runs at_ htok run
      cases p with
      | ret a => exact ⟨_, rfl, follows⟩
      | raise e => exact ⟨_, rfl, follows⟩
      | get | set | call => exact done.elim
    obtain ⟨r, res, ends⟩ := ends
    exact ⟨_, tracks.finish run at_ htok done, hP.finish (c := c) trivial inv at_ res meets htok ends,
      .finish htok⟩
  | @crash s again =>
    refine ⟨[], ⟨rfl, ?_, ?_, ?_⟩, hP.crash tracks trivial inv meets again, .crash again⟩ <;>
      exact fun at_ => by simp [Config.boot] at at_

theorem tracks_boot (s : S.State) : P.Tracks (Config.boot M s) [] := by
  refine ⟨rfl, ?_, ?_, ?_⟩ <;> exact fun at_ => by simp [Config.boot] at at_

/-- The invariant rule: what holds of a tracked configuration and is preserved holds of every
configuration reached from it, with tokens that track its threads. -/
theorem reach {ok : Config M → Label M → Prop} (sound : P.SoundUnder ok)
    {Inv : S.State → P.Toks → Prop} (hP : P.Preserves ok Inv) {c₀ c : Config M}
    {toks₀ : P.Toks} (tracks : P.Tracks c₀ toks₀) (init : Inv c₀.state toks₀)
    (h : Reach M ok c₀ c) : ∃ toks, P.Tracks c toks ∧ Inv c.state toks := by
  induction h with
  | refl => exact ⟨toks₀, tracks, init⟩
  | step _ meets next ih =>
    obtain ⟨toks, tracks, inv⟩ := ih
    obtain ⟨toks', tracks', inv', _⟩ := step_effect sound hP tracks inv meets next
    exact ⟨toks', tracks', inv'⟩

/-- A budget over the state and the tokens that no step raises, and that every marked step
spends from, bounds the number of marked steps. -/
theorem counted {ok : Config M → Label M → Prop} (sound : P.SoundUnder ok)
    {Inv : S.State → P.Toks → Prop} (hP : P.Preserves ok Inv)
    {mark : Config M → Label M → Config M → Prop} (budget : S.State → P.Toks → Nat)
    (pays : ∀ {c c' l} {toks toks' : P.Toks}, P.Tracks c toks → Inv c.state toks → ok c l →
      Step M c l c' → P.Tracks c' toks' → Inv c'.state toks' → Effect P c.state toks l c'.state toks' →
      budget c'.state toks' ≤ budget c.state toks ∧
        (mark c l c' → budget c'.state toks' < budget c.state toks))
    {c₀ c : Config M} {toks₀ : P.Toks} {n : Nat} (tracks : P.Tracks c₀ toks₀)
    (init : Inv c₀.state toks₀) (h : Counted M ok mark c₀ n c) :
    ∃ toks, P.Tracks c toks ∧ Inv c.state toks ∧
      n + budget c.state toks ≤ budget c₀.state toks₀ := by
  induction h with
  | refl => exact ⟨toks₀, tracks, init, by omega⟩
  | marked _ meets next is ih =>
    obtain ⟨toks, tracks, inv, paid⟩ := ih
    obtain ⟨toks', tracks', inv', effect⟩ := step_effect sound hP tracks inv meets next
    have spent := (pays tracks inv meets next tracks' inv' effect).2 is
    exact ⟨toks', tracks', inv', by omega⟩
  | other _ meets next _ ih =>
    obtain ⟨toks, tracks, inv, paid⟩ := ih
    obtain ⟨toks', tracks', inv', effect⟩ := step_effect sound hP tracks inv meets next
    have kept := (pays tracks inv meets next tracks' inv' effect).1
    exact ⟨toks', tracks', inv', by omega⟩

end Plan

end Lib.Coop
