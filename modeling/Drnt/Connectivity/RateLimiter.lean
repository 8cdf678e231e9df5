import Drnt.Lib.Dict
import Drnt.Lib.SlidingWindow
import Mathlib.Algebra.Order.Ring.Rat

/-! The limits on requests per minute: one of the orchestrator for each worker, one of the gateway
for each route. -/
namespace Drnt.Connectivity

open Lib Lib.SlidingWindow

section Limiters

def minute : Rat := 60

/-- The times of the allowed requests by key; a key that is not there has none. -/
abbrev Windows := Dict String (List Rat)

def Windows.times (w : Windows) (key : String) : List Rat := (w.get? key).getD []

/-- Whether a request is allowed now, after its key's window has been pruned. -/
def checkWindow (key : String) (rpmLimit : Int) (now : Rat) (w : Windows) : Bool × Windows :=
  let kept := recent minute now (w.times key)
  if rpmLimit ≤ kept.length then (false, w.set key kept)
  else (true, w.set key (kept ++ [now]))

def countWindow (key : String) (now : Rat) (w : Windows) : Nat × Windows :=
  let kept := recent minute now (w.times key)
  (kept.length, w.set key kept)

namespace EgressRateLimiter

def check (blueprintId : String) (rpmLimit : Int) (now : Rat) (w : Windows) : Bool × Windows :=
  checkWindow blueprintId rpmLimit now w

def currentCount (blueprintId : String) (now : Rat) (w : Windows) : Nat × Windows :=
  countWindow blueprintId now w

end EgressRateLimiter

namespace SlidingWindowRateLimiter

def check (routeId : String) (rpmLimit : Int) (now : Rat) (w : Windows) : Bool × Windows :=
  checkWindow routeId rpmLimit now w

def currentCount (routeId : String) (now : Rat) (w : Windows) : Nat × Windows :=
  countWindow routeId now w

end SlidingWindowRateLimiter

end Limiters

section Calls

/-- The two methods of a limiter. -/
structure Limiter where
  check : String → Int → Rat → Windows → Bool × Windows
  currentCount : String → Rat → Windows → Nat × Windows

def egressRateLimiter : Limiter := ⟨EgressRateLimiter.check, EgressRateLimiter.currentCount⟩

def slidingWindowRateLimiter : Limiter :=
  ⟨SlidingWindowRateLimiter.check, SlidingWindowRateLimiter.currentCount⟩

inductive Method | check | currentCount
  deriving DecidableEq

structure Call where
  key : String
  now : Rat
  method : Method
  deriving DecidableEq

inductive Answer
  | allowed (yes : Bool)
  | counted (n : Nat)
  deriving DecidableEq

abbrev Log := List (Call × Answer)

variable (l : Limiter) (limit : String → Int)

def Limiter.serve (w : Windows) (c : Call) : Answer × Windows :=
  match c.method with
  | .check => (l.check c.key (limit c.key) c.now w).map .allowed id
  | .currentCount => (l.currentCount c.key c.now w).map .counted id

/-- The calls in order, with their answers. -/
def Limiter.run (w : Windows) : List Call → Log
  | [] => []
  | c :: rest =>
    let served := l.serve limit w c
    (c, served.1) :: Limiter.run served.2 rest

/-- The times of the allowed checks of a key. -/
def granted (key : String) (log : Log) : List Rat :=
  log.filterMap fun e => if e.1.key = key ∧ e.2 = .allowed true then some e.1.now else none

/-- No window of a minute holds more allowed checks of a key than its limit, a check is refused
only where the limit is used up, and the keys do not meet. -/
structure Enforces (calls : List Call) : Prop where
  bounded : ∀ key x,
    ((within minute x (granted key (l.run limit ∅ calls))).length : Int) ≤ max (limit key) 0
  refused : ∀ before c after, l.run limit ∅ calls = before ++ (c, .allowed false) :: after →
    0 ≤ limit c.key →
      ((within minute c.now (granted c.key before)).length : Int) = limit c.key
  separate : ∀ key, (l.run limit ∅ calls).filter (·.1.key = key) =
    l.run limit ∅ (calls.filter (·.key = key))

end Calls

section Windows

variable {key other : String} {now : Rat} {w w' : Windows} {r : Int}

@[simp] theorem times_set_self (w : Windows) (key : String) (ts : List Rat) :
    Windows.times (w.set key ts) key = ts := by
  simp [Windows.times]

theorem times_set_ne (w : Windows) (ts : List Rat) (h : other ≠ key) :
    Windows.times (w.set key ts) other = w.times other := by
  simp [Windows.times, Dict.get?_set_ne _ h]

end Windows

section Steps

variable {l : Limiter} {limit : String → Int} {w w' : Windows} {log : Log} {last : Rat} {c : Call}
  {key : String}

theorem granted_append (key : String) (a b : Log) :
    granted key (a ++ b) = granted key a ++ granted key b := List.filterMap_append ..

/-- Both limiters are these two methods. -/
structure Limiter.Windowed (l : Limiter) : Prop where
  check : l.check = checkWindow
  currentCount : l.currentCount = countWindow

theorem egress_windowed : egressRateLimiter.Windowed := ⟨rfl, rfl⟩

theorem sliding_windowed : slidingWindowRateLimiter.Windowed := ⟨rfl, rfl⟩

variable (limit w c) in
/-- What one call does: it prunes the window of its key, and an allowed check adds its time. -/
theorem Limiter.Windowed.serve (windowed : l.Windowed) :
    let kept := recent minute c.now (w.times c.key)
    (∃ n, l.serve limit w c = (.counted n, w.set c.key kept)) ∨
      (limit c.key ≤ kept.length ∧ l.serve limit w c = (.allowed false, w.set c.key kept)) ∨
      ((kept.length : Int) < limit c.key ∧
        l.serve limit w c = (.allowed true, w.set c.key (kept ++ [c.now]))) := by
  intro kept
  unfold Limiter.serve
  cases c.method with
  | currentCount =>
    rw [windowed.currentCount]
    exact .inl ⟨_, rfl⟩
  | check =>
    rw [windowed.check]
    dsimp only
    unfold checkWindow
    by_cases full : limit c.key ≤ kept.length
    · rw [if_pos full]
      exact .inr (.inl ⟨full, rfl⟩)
    · rw [if_neg full]
      exact .inr (.inr ⟨by omega, rfl⟩)

/-- After the calls of a log, the last of which came at `last`. -/
structure Kept (limit : String → Int) (log : Log) (last : Rat) (w : Windows) : Prop where
  past : ∀ key, ∀ t ∈ granted key log, t ≤ last
  tracks : ∀ key, Tracks minute (granted key log) last (w.times key)
  bounded : ∀ key, Bounded minute (limit key) (granted key log)
  refused : ∀ before c after, log = before ++ (c, .allowed false) :: after → 0 ≤ limit c.key →
    ((within minute c.now (granted c.key before)).length : Int) = limit c.key

theorem kept_nil (limit : String → Int) (last : Rat) : Kept limit [] last ∅ where
  past _ := nofun
  tracks _ := tracks_nil last
  bounded _ := bounded_nil
  refused before c after eq := by simp at eq

/-- A call that grants nothing. -/
theorem Kept.pass {a : Answer} (kept : Kept limit log last w) (later : last ≤ c.now)
    (other : a ≠ .allowed true)
    (full : a = .allowed false → limit c.key ≤ (recent minute c.now (w.times c.key)).length) :
    Kept limit (log ++ [(c, a)]) c.now (w.set c.key (recent minute c.now (w.times c.key))) := by
  have same (key : String) : granted key (log ++ [(c, a)]) = granted key log := by
    rw [granted_append]
    simp [granted, other]
  constructor
  case past =>
    intro key t mem
    rw [same] at mem
    exact (kept.past key t mem).trans later
  case tracks =>
    intro key
    rw [same]
    by_cases own : key = c.key
    · subst own
      rw [times_set_self]
      exact (kept.tracks c.key).prune later
    · rw [times_set_ne _ _ own]
      exact (kept.tracks key).later later
  case bounded =>
    intro key
    rw [same]
    exact kept.bounded key
  case refused =>
    intro before c' after eq some_
    rcases List.eq_nil_or_concat' after with rfl | ⟨front, e, rfl⟩
    · obtain ⟨rfl, last⟩ := List.append_inj' eq rfl
      cases last
      -- the limit is reached, and no window holds more
      have reached := full rfl
      have most := kept.bounded c.key c.now
      have past : ∀ t ∈ granted c.key log, t ≤ c.now := fun t mem =>
        (kept.past c.key t mem).trans later
      rw [kept.tracks c.key c.now later] at reached
      rw [within_eq_recent past] at most ⊢
      omega
    · rw [← List.cons_append, ← List.append_assoc] at eq
      exact kept.refused before c' front (List.append_inj_left' eq rfl) some_

/-- A check that is allowed. -/
theorem Kept.grant (kept : Kept limit log last w) (later : last ≤ c.now)
    (room : ((recent minute c.now (w.times c.key)).length : Int) < limit c.key) :
    Kept limit (log ++ [(c, .allowed true)]) c.now
      (w.set c.key (recent minute c.now (w.times c.key) ++ [c.now])) := by
  have own : granted c.key (log ++ [(c, .allowed true)]) = granted c.key log ++ [c.now] := by
    rw [granted_append]
    simp [granted]
  have others {key : String} (other : key ≠ c.key) :
      granted key (log ++ [(c, .allowed true)]) = granted key log := by
    rw [granted_append]
    simp [granted, other.symm]
  constructor
  case past =>
    intro key t mem
    by_cases at_ : key = c.key
    · subst at_
      rw [own] at mem
      rcases List.mem_append.mp mem with old | new
      · exact (kept.past c.key t old).trans later
      · exact le_of_eq (List.mem_singleton.mp new)
    · rw [others at_] at mem
      exact (kept.past key t mem).trans later
  case tracks =>
    intro key
    by_cases at_ : key = c.key
    · subst at_
      rw [own, times_set_self]
      exact ((kept.tracks c.key).prune later).grant
    · rw [others at_, times_set_ne _ _ at_]
      exact (kept.tracks key).later later
  case bounded =>
    intro key
    by_cases at_ : key = c.key
    · subst at_
      rw [own]
      rw [kept.tracks c.key c.now later] at room
      exact (kept.bounded c.key).grant room
    · rw [others at_]
      exact kept.bounded key
  case refused =>
    intro before c' after eq some_
    rcases List.eq_nil_or_concat' after with rfl | ⟨front, e, rfl⟩
    · obtain ⟨-, last⟩ := List.append_inj' eq rfl
      cases last
    · rw [← List.cons_append, ← List.append_assoc] at eq
      exact kept.refused before c' front (List.append_inj_left' eq rfl) some_

theorem Kept.serve (windowed : l.Windowed) (kept : Kept limit log last w) (later : last ≤ c.now) :
    Kept limit (log ++ [(c, (l.serve limit w c).1)]) c.now (l.serve limit w c).2 := by
  rcases windowed.serve limit w c with ⟨n, eq⟩ | ⟨full, eq⟩ | ⟨room, eq⟩
  · rw [eq]
    exact kept.pass later nofun nofun
  · rw [eq]
    exact kept.pass later nofun fun _ => full
  · rw [eq]
    exact kept.grant later room

theorem Kept.run (windowed : l.Windowed) {calls : List Call} (kept : Kept limit log last w)
    (later : ∀ c ∈ calls, last ≤ c.now) (ordered : calls.Pairwise (·.now ≤ ·.now)) :
    ∃ last w', Kept limit (log ++ l.run limit w calls) last w' := by
  induction calls generalizing log last w with
  | nil => exact ⟨last, w, by rwa [Limiter.run, List.append_nil]⟩
  | cons c rest ih =>
    obtain ⟨first, ordered⟩ := List.pairwise_cons.mp ordered
    have next := kept.serve windowed (later c (List.mem_cons_self ..))
    obtain ⟨last, w', done⟩ := ih next first ordered
    refine ⟨last, w', ?_⟩
    rw [Limiter.run, List.append_cons]
    exact done

variable (limit) in
/-- The answer and the window of a key depend on its window alone. -/
theorem Limiter.Windowed.serve_own (windowed : l.Windowed) (same : w.times c.key = w'.times c.key) :
    (l.serve limit w c).1 = (l.serve limit w' c).1 ∧
      (l.serve limit w c).2.times c.key = (l.serve limit w' c).2.times c.key := by
  unfold Limiter.serve
  cases c.method with
  | check =>
    rw [windowed.check]
    simp only [checkWindow, same]
    by_cases full : limit c.key ≤ (recent minute c.now (w'.times c.key)).length
    · simp [full]
    · simp [full]
  | currentCount =>
    rw [windowed.currentCount]
    simp [countWindow, same]

theorem Limiter.Windowed.serve_other (windowed : l.Windowed) (other : key ≠ c.key) :
    (l.serve limit w c).2.times key = w.times key := by
  rcases windowed.serve limit w c with ⟨n, eq⟩ | ⟨-, eq⟩ | ⟨-, eq⟩
  all_goals
    rw [eq]
    exact times_set_ne _ _ other

theorem Limiter.Windowed.separate (windowed : l.Windowed) (calls : List Call)
    (same : w.times key = w'.times key) : (l.run limit w calls).filter (·.1.key = key) =
      l.run limit w' (calls.filter (·.key = key)) := by
  induction calls generalizing w w' with
  | nil => rfl
  | cons c rest ih =>
    rw [Limiter.run]
    by_cases own : c.key = key
    · subst own
      obtain ⟨answer, times⟩ := windowed.serve_own limit same
      rw [List.filter_cons_of_pos (by simp), List.filter_cons_of_pos (by simp), Limiter.run, answer,
        ih times]
    · rw [List.filter_cons_of_neg (by simpa using own), List.filter_cons_of_neg (by simpa using own)]
      exact ih ((windowed.serve_other fun eq => own eq.symm).trans same)

theorem Limiter.Windowed.enforces (windowed : l.Windowed) {calls : List Call}
    (ordered : calls.Pairwise (·.now ≤ ·.now)) : Enforces l limit calls := by
  have start : ∃ last : Rat, ∀ c ∈ calls, last ≤ c.now := by
    cases calls with
    | nil => exact ⟨0, nofun⟩
    | cons c rest =>
      have first := (List.pairwise_cons.mp ordered).1
      exact ⟨c.now, List.forall_mem_cons.mpr ⟨le_rfl, first⟩⟩
  obtain ⟨first, later⟩ := start
  obtain ⟨last, w', kept⟩ := (kept_nil limit first).run windowed later ordered
  rw [List.nil_append] at kept
  exact ⟨fun key x => kept.bounded key x, kept.refused, fun key => windowed.separate calls rfl⟩

end Steps

section Limits

/-- Both limiters enforce every limit, over every window of a minute. -/
theorem limiters_enforce (limit : String → Int) (calls : List Call)
    (ordered : calls.Pairwise (·.now ≤ ·.now)) :
    Enforces egressRateLimiter limit calls ∧ Enforces slidingWindowRateLimiter limit calls :=
  ⟨egress_windowed.enforces ordered, sliding_windowed.enforces ordered⟩

/-- One request a minute: the second one has to wait until the first is a minute old. -/
def threeChecks : List Call :=
  [⟨"claude-sonnet-default", 0, .check⟩, ⟨"claude-sonnet-default", 30, .check⟩,
    ⟨"claude-sonnet-default", 60, .check⟩]

example : (slidingWindowRateLimiter.run (fun _ => 1) ∅ threeChecks).map (·.2) =
    [.allowed true, .allowed false, .allowed true] := by decide +kernel

theorem limiters_enforce_witness : Enforces egressRateLimiter (fun _ => 1) threeChecks ∧
    Enforces slidingWindowRateLimiter (fun _ => 1) threeChecks :=
  limiters_enforce (fun _ => 1) threeChecks (by decide +kernel)

/-- A limit below 0 allows nothing, and that is still more than the limit. -/
theorem negative_limit_exceeded :
    let allowed (l : Limiter) := granted "claude-sonnet-default" (l.run (fun _ => -1) ∅ threeChecks)
    (-1 : Int) < (within minute 60 (allowed egressRateLimiter)).length ∧
      (-1 : Int) < (within minute 60 (allowed slidingWindowRateLimiter)).length := by
  decide +kernel

end Limits

end Drnt.Connectivity
