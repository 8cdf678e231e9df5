import Drnt.Lib.Framing
import Drnt.Lib.Loads

/-! The orchestrator's client of the audit log writer. -/
namespace Drnt.Audit

open Lib Lib.Framing

section Attempts

inductive ConnectFault | refused | silent
  deriving DecidableEq

/-- How `drain` ends, which has no timeout: a peer that does not read keeps it for ever. -/
inductive Drain | done | reset | stuck
  deriving DecidableEq

/-- What a fresh connection is met with: whether it is made, whether the request can be written,
what comes for an answer, and whether `wait_closed`, which has no timeout either, ever returns. -/
structure Attempt where
  connect : Option ConnectFault
  drain : Drain
  reply : Chunks
  ending : Ending
  closed : Bool

inductive ClientError
  | connectionRefused
  | timeout
  | connectionReset
  | incompleteRead
  | unicodeDecode
  | jsonDecode
  | value
  | recursion
  | attribute
  deriving DecidableEq

/-- OSError, of which ConnectionError and asyncio's TimeoutError are subclasses. -/
def ClientError.caught : ClientError → Bool
  | .connectionRefused | .timeout | .connectionReset => true
  | .incompleteRead | .unicodeDecode | .jsonDecode | .value | .recursion | .attribute => false

def connectError : ConnectFault → ClientError
  | .refused => .connectionRefused
  | .silent => .timeout

def endingError : Ending → ClientError
  | .eof => .incompleteRead
  | .silent => .timeout
  | .reset => .connectionReset

def faultError : Loads.Fault → ClientError
  | .decode => .jsonDecode
  | .value => .value
  | .recursion => .recursion

variable (py : Python)

def parseReply (body : Bytes) : Except ClientError Json :=
  match Utf8.decode body with
  | none => .error .unicodeDecode
  | some text => (Loads.loads py text).mapError faultError

/-- The answer on a stream: its length, then as many bytes. -/
def receive (r : Reader) : Except ClientError (Json × Reader) := do
  let (head, r) ← (r.readexactly 4).mapError endingError
  let (body, r) ← (r.readexactly (unpack head)).mapError endingError
  return (← parseReply py body, r)

/-- The body of the `try`, nothing where `drain` never returns. -/
def converse (a : Attempt) : Option (Except ClientError Json) :=
  match a.drain with
  | .stuck => none
  | .reset => some (.error .connectionReset)
  | .done => some ((receive py ⟨[], a.reply, a.ending⟩).map Prod.fst)

/-- `_send_and_receive`, once the event is encoded: nothing where it never returns. -/
def sendAndReceive (a : Attempt) : Option (Except ClientError Json) :=
  match a.connect with
  | some fault => some (.error (connectError fault))
  -- `finally` awaits the end of the connection, whatever the body came to
  | none => (converse py a).bind fun result => if a.closed then some result else none

end Attempts

section Retrying

def maxRetries : Nat := 3

def reconnectInitialMs : Nat := 100

def reconnectMaxMs : Nat := 5000

inductive Outcome
  | returned (accepted : Bool)
  | timedOut (last : Option ClientError)
  | raised (e : ClientError)
  | hangs
  deriving DecidableEq

/-- What comes of an emit, the attempts it took and the delays between them. -/
structure Emission where
  outcome : Outcome
  attempts : Nat
  slept : List Nat := []
  deriving DecidableEq

/-- The status of a reply; `get` of what is no dict raises. -/
def statusAccepted (reply : Json) : Except ClientError Bool :=
  match reply with
  | .obj fields =>
    let status := Json.field? (Lib.py "status") fields
    .ok (status = some (.text "ok") ∨ status = some (.text "duplicate"))
  | _ => .error .attribute

variable (py : Python) (attempts : Nat → Attempt)

/-- What an attempt comes to for the loop. -/
def answer (a : Attempt) : Option (Except ClientError Bool) :=
  (sendAndReceive py a).map (· >>= statusAccepted)

/-- The loop of `emit_durable` with so many attempts left. -/
def emitLoop : Nat → Nat → Nat → Option ClientError → Emission
  | 0, k, _, last => { outcome := .timedOut last, attempts := k }
  | left + 1, k, delayMs, _ =>
    match answer py (attempts k) with
    | none => { outcome := .hangs, attempts := k + 1 }
    | some (.ok yes) => { outcome := .returned yes, attempts := k + 1 }
    | some (.error e) =>
      if e.caught then
        if k < maxRetries - 1 then
          let rest := emitLoop left (k + 1) (min (delayMs * 2) reconnectMaxMs) (some e)
          { rest with slept := delayMs :: rest.slept }
        else emitLoop left (k + 1) delayMs (some e)
      else { outcome := .raised e, attempts := k + 1 }

def emitDurable : Emission := emitLoop py attempts maxRetries 0 reconnectInitialMs none

end Retrying

section Law

variable (py : Python)

/-- A well-formed reply has been received: a JSON object. -/
def Replied (a : Attempt) (fields : List (PyStr × Json)) : Prop :=
  sendAndReceive py a = some (.ok (.obj fields))

def Accepts (a : Attempt) : Prop :=
  ∃ fields, Replied py a fields ∧ statusAccepted (.obj fields) = .ok true

def Refuses (a : Attempt) : Prop :=
  ∃ fields, Replied py a fields ∧ statusAccepted (.obj fields) = .ok false

/-- No reply was received. -/
def Fails (a : Attempt) : Prop := ∀ fields, ¬ Replied py a fields

structure Lawful (attempts : Nat → Attempt) (e : Emission) : Prop where
  accepted : e.outcome = .returned true ↔
    ∃ k < maxRetries, Accepts py (attempts k) ∧ ∀ j < k, Fails py (attempts j)
  refused : e.outcome = .returned false ↔
    ∃ k < maxRetries, Refuses py (attempts k) ∧ ∀ j < k, Fails py (attempts j)
  timedOut : (∃ last, e.outcome = .timedOut last) ↔ ∀ k < maxRetries, Fails py (attempts k)
  nothingElse : ∀ error, e.outcome ≠ .raised error
  returns : e.outcome ≠ .hangs
  retries : ∀ k < e.attempts, Fails py (attempts k) → k + 1 < maxRetries → k + 1 < e.attempts

end Law

section Conditions

variable (py : Python)

/-- The connection is made, the request written and the connection closed in the end. -/
def Attempt.connects (a : Attempt) : Prop :=
  a.connect = none ∧ a.drain = .done ∧ a.closed = true

/-- The peer keeps `drain` or `wait_closed` for ever. -/
def Attempt.Hangs (a : Attempt) : Prop :=
  a.connect = none ∧ (a.drain = .stuck ∨ a.closed = false)

/-- The bytes of the answer, if all have come. -/
def Attempt.body? (a : Attempt) : Option Bytes :=
  let all := a.reply.flatten
  let n := unpack (all.take 4)
  if 4 ≤ all.length ∧ n ≤ (all.drop 4).length then some ((all.drop 4).take n) else none

/-- A failure that is an OSError: no connection, a timeout or a reset. -/
def Attempt.Drops (a : Attempt) : Prop :=
  ¬ a.Hangs ∧ (¬ a.connects ∨ (a.body? = none ∧ a.ending ≠ .eof))

/-- The peer closes the connection before its answer is complete. -/
def Attempt.ClosesEarly (a : Attempt) : Prop :=
  a.connects ∧ a.body? = none ∧ a.ending = .eof

/-- The answer is complete and no JSON object in UTF-8. -/
def Attempt.Garbles (a : Attempt) : Prop :=
  a.connects ∧ ∃ body, a.body? = some body ∧ ∀ fields, parseReply py body ≠ .ok (.obj fields)

variable {py} {a : Attempt}

theorem Attempt.connects.steady (h : a.connects) : ¬ a.Hangs := by
  obtain ⟨-, done, closed⟩ := h
  rintro ⟨-, stuck | open_⟩
  · cases done.symm.trans stuck
  · cases closed.symm.trans open_

variable (py) in
theorem sendAndReceive_hangs : sendAndReceive py a = none ↔ a.Hangs := by
  unfold sendAndReceive converse Attempt.Hangs
  cases a.connect with
  | some fault => simp
  | none => cases a.drain <;> cases a.closed <;> simp

variable (py) in
theorem sendAndReceive_unconnected (steady : ¬ a.Hangs) (h : ¬ a.connects) :
    ∃ e, sendAndReceive py a = some (.error e) ∧ e.caught = true := by
  unfold sendAndReceive
  cases connect : a.connect with
  | some fault => cases fault <;> exact ⟨_, rfl, rfl⟩
  | none =>
    have closed : a.closed = true := by
      by_contra open_
      exact steady ⟨connect, .inr (Bool.not_eq_true _ ▸ open_)⟩
    cases drain : a.drain with
    | done => exact absurd ⟨connect, drain, closed⟩ h
    | reset => exact ⟨.connectionReset, by simp [converse, drain, closed], rfl⟩
    | stuck => exact absurd ⟨connect, .inl drain⟩ steady

theorem receive_short {r : Reader} (h : ¬ (4 ≤ r.all.length ∧
    unpack (r.all.take 4) ≤ (r.all.drop 4).length)) : receive py r = .error (endingError r.ending) := by
  unfold receive
  by_cases head : 4 ≤ r.all.length
  · obtain ⟨r', read, all, ending⟩ := Reader.readexactly_ok head
    have short : r'.all.length < unpack (r.all.take 4) := by
      rw [all]
      by_contra enough
      exact h ⟨head, Nat.not_lt.mp enough⟩
    rw [read]
    change (Except.mapError endingError (r'.readexactly _) >>= _) = _
    rw [Reader.readexactly_short short, ending]
    rfl
  · rw [Reader.readexactly_short (Nat.not_le.mp head)]
    rfl

variable (py) in
/-- A complete answer is read, and nothing behind it. -/
theorem receive_whole {r : Reader} (head : 4 ≤ r.all.length)
    (enough : unpack (r.all.take 4) ≤ (r.all.drop 4).length) : ∃ r' : Reader,
    receive py r = (parseReply py ((r.all.drop 4).take (unpack (r.all.take 4)))).map (·, r') ∧
      r'.all = (r.all.drop 4).drop (unpack (r.all.take 4)) := by
  obtain ⟨r₁, read, all, ending⟩ := Reader.readexactly_ok head
  rw [← all] at enough ⊢
  obtain ⟨r₂, read₂, all₂, -⟩ := Reader.readexactly_ok enough
  refine ⟨r₂, ?_, all₂⟩
  unfold receive
  rw [read]
  change (Except.mapError endingError (r₁.readexactly _) >>= _) = _
  rw [read₂]
  change (parseReply py _ >>= fun x => Except.ok (x, r₂)) = _
  cases parseReply py (r₁.all.take (unpack (r.all.take 4))) <;> rfl

theorem sendAndReceive_connected (connects : a.connects) : sendAndReceive py a =
    some ((receive py ⟨[], a.reply, a.ending⟩).map Prod.fst) := by
  obtain ⟨connect, done, closed⟩ := connects
  simp only [sendAndReceive, converse, connect, done, closed, Option.bind_some, if_true]

theorem sendAndReceive_short (connects : a.connects) (short : a.body? = none) :
    sendAndReceive py a = some (.error (endingError a.ending)) := by
  have incomplete : ¬ (4 ≤ (Reader.all ⟨[], a.reply, a.ending⟩).length ∧
      unpack ((Reader.all ⟨[], a.reply, a.ending⟩).take 4) ≤
        ((Reader.all ⟨[], a.reply, a.ending⟩).drop 4).length) := by
    intro complete
    have some_ : a.body? = some _ := if_pos complete
    cases some_.symm.trans short
  rw [sendAndReceive_connected connects, receive_short incomplete]
  rfl

theorem sendAndReceive_whole (connects : a.connects) {body : Bytes} (whole : a.body? = some body) :
    sendAndReceive py a = some (parseReply py body) := by
  unfold Attempt.body? at whole
  dsimp only at whole
  split at whole
  · rename_i complete
    obtain ⟨r, read, -⟩ := receive_whole py (r := ⟨[], a.reply, a.ending⟩) complete.1 complete.2
    have same (x : Except ClientError Json) : (x.map (·, r)).map Prod.fst = x := by cases x <;> rfl
    rw [sendAndReceive_connected connects, read, same]
    cases whole
    rfl
  · cases whole

theorem answer_replied {fields : List (PyStr × Json)} (h : Replied py a fields) :
    answer py a = some (statusAccepted (.obj fields)) := by
  rw [answer, h]
  rfl

variable (py) in
theorem answer_hangs : answer py a = none ↔ a.Hangs := by
  rw [answer, Option.map_eq_none_iff, sendAndReceive_hangs]

variable (py) in
theorem answer_drops (h : a.Drops) : ∃ e, answer py a = some (.error e) ∧ e.caught = true := by
  obtain ⟨steady, unconnected | ⟨short, ending⟩⟩ := h
  · obtain ⟨e, eq, caught⟩ := sendAndReceive_unconnected py steady unconnected
    exact ⟨e, by rw [answer, eq]; rfl, caught⟩
  · by_cases connects : a.connects
    · refine ⟨endingError a.ending, by rw [answer, sendAndReceive_short connects short]; rfl, ?_⟩
      cases end_ : a.ending with
      | eof => exact absurd end_ ending
      | silent | reset => rfl
    · obtain ⟨e, eq, caught⟩ := sendAndReceive_unconnected py steady connects
      exact ⟨e, by rw [answer, eq]; rfl, caught⟩

theorem parseReply_error {body : Bytes} {e : ClientError} (h : parseReply py body = .error e) :
    e.caught = false := by
  unfold parseReply at h
  split at h
  · cases h
    rfl
  · rename_i text _
    cases loaded : Loads.loads py text with
    | ok v =>
      rw [loaded] at h
      cases h
    | error fault =>
      rw [loaded] at h
      cases h
      cases fault <;> rfl

theorem answer_breaks (h : a.ClosesEarly ∨ a.Garbles py) :
    ∃ e, answer py a = some (.error e) ∧ e.caught = false := by
  rcases h with ⟨connects, short, ending⟩ | ⟨connects, body, whole, garbled⟩
  · refine ⟨.incompleteRead, ?_, rfl⟩
    rw [answer, sendAndReceive_short connects short, ending]
    rfl
  · rw [answer, sendAndReceive_whole connects whole]
    cases parsed : parseReply py body with
    | error e => exact ⟨e, rfl, parseReply_error parsed⟩
    | ok v =>
      cases v with
      | obj fields => exact absurd parsed (garbled fields)
      | _ => exact ⟨.attribute, rfl, rfl⟩

/-- An attempt gets a reply, fails as the loop expects, never ends, or fails in another way. -/
theorem attempt_cases (py : Python) (a : Attempt) :
    (∃ fields, Replied py a fields) ∨ a.Drops ∨ a.Hangs ∨ a.ClosesEarly ∨ a.Garbles py := by
  by_cases connects : a.connects
  · cases whole : a.body? with
    | none =>
      by_cases ending : a.ending = .eof
      · exact .inr (.inr (.inr (.inl ⟨connects, whole, ending⟩)))
      · exact .inr (.inl ⟨connects.steady, .inr ⟨whole, ending⟩⟩)
    | some body =>
      by_cases parsed : ∃ fields, parseReply py body = .ok (.obj fields)
      · obtain ⟨fields, parsed⟩ := parsed
        exact .inl ⟨fields, (sendAndReceive_whole connects whole).trans (congrArg some parsed)⟩
      · exact .inr (.inr (.inr (.inr ⟨connects, body, whole, not_exists.mp parsed⟩)))
  · by_cases hangs : a.Hangs
    · exact .inr (.inr (.inl hangs))
    · exact .inr (.inl ⟨hangs, .inl connects⟩)

theorem replied_of_answer {yes : Bool} (h : answer py a = some (.ok yes)) :
    ∃ fields, Replied py a fields ∧ statusAccepted (.obj fields) = .ok yes := by
  rcases attempt_cases py a with ⟨fields, replied⟩ | drops | hangs | breaks
  · exact ⟨fields, replied, Option.some.inj (answer_replied replied ▸ h)⟩
  · obtain ⟨e, eq, -⟩ := answer_drops py drops
    cases eq.symm.trans h
  · cases ((answer_hangs py).mpr hangs).symm.trans h
  · obtain ⟨e, eq, -⟩ := answer_breaks breaks
    cases eq.symm.trans h

theorem accepts_iff_answer : Accepts py a ↔ answer py a = some (.ok true) := by
  refine ⟨?_, replied_of_answer⟩
  rintro ⟨fields, replied, yes⟩
  rw [answer_replied replied, yes]

theorem refuses_iff_answer : Refuses py a ↔ answer py a = some (.ok false) := by
  refine ⟨?_, replied_of_answer⟩
  rintro ⟨fields, replied, no⟩
  rw [answer_replied replied, no]

theorem fails_iff_answer : Fails py a ↔ ∀ yes, answer py a ≠ some (.ok yes) := by
  constructor
  · intro fails yes eq
    obtain ⟨fields, replied, -⟩ := replied_of_answer eq
    exact fails fields replied
  · intro never fields replied
    exact never _ (answer_replied replied)

theorem fails_of_error {e : ClientError} (h : answer py a = some (.error e)) : Fails py a := by
  refine fails_iff_answer.mpr fun yes eq => ?_
  cases h.symm.trans eq

theorem drops_of_caught {e : ClientError} (h : answer py a = some (.error e))
    (caught : e.caught = true) : a.Drops := by
  rcases attempt_cases py a with ⟨fields, replied⟩ | drops | hangs | breaks
  · rw [answer_replied replied] at h
    cases h
  · exact drops
  · cases ((answer_hangs py).mpr hangs).symm.trans h
  · obtain ⟨e', eq, uncaught⟩ := answer_breaks breaks
    cases eq.symm.trans h
    cases caught.symm.trans uncaught

theorem breaks_of_uncaught {e : ClientError} (h : answer py a = some (.error e))
    (uncaught : e.caught = false) : a.ClosesEarly ∨ a.Garbles py := by
  rcases attempt_cases py a with ⟨fields, replied⟩ | drops | hangs | breaks
  · rw [answer_replied replied] at h
    cases h
  · obtain ⟨e', eq, caught⟩ := answer_drops py drops
    cases eq.symm.trans h
    cases caught.symm.trans uncaught
  · cases ((answer_hangs py).mpr hangs).symm.trans h
  · exact breaks

/-- What an attempt meets that the loop does not expect. -/
abbrev Attempt.Breaks (py : Python) (a : Attempt) : Prop :=
  a.Hangs ∨ a.ClosesEarly ∨ a.Garbles py

theorem Attempt.Drops.regular (h : a.Drops) : ¬ a.Breaks py := by
  obtain ⟨e, eq, caught⟩ := answer_drops py h
  rintro (hangs | breaks)
  · exact h.1 hangs
  · obtain ⟨e', eq', uncaught⟩ := answer_breaks breaks
    cases eq.symm.trans eq'
    cases caught.symm.trans uncaught

theorem Replied.regular {fields : List (PyStr × Json)} (h : Replied py a fields) :
    ¬ a.Breaks py := by
  have eq := answer_replied h
  rintro (hangs | breaks)
  · cases eq.symm.trans ((answer_hangs py).mpr hangs)
  · obtain ⟨e, eq', -⟩ := answer_breaks breaks
    have status := Option.some.inj (eq.symm.trans eq')
    cases status

end Conditions

section Loop

variable {py : Python} {attempts : Nat → Attempt}

/-- The attempts from `k` on up to `j` fail as the loop expects. -/
def Retried (py : Python) (attempts : Nat → Attempt) (k j : Nat) : Prop :=
  ∀ i, k ≤ i → i < j → ∃ e, answer py (attempts i) = some (.error e) ∧ e.caught = true

/-- What the loop comes to from attempt `k` on. -/
inductive Ended (py : Python) (attempts : Nat → Attempt) (k : Nat) (e : Emission) : Prop
  | replied (j : Nat) (yes : Bool) (from_ : k ≤ j) (bound : j < maxRetries)
      (retried : Retried py attempts k j) (answered : answer py (attempts j) = some (.ok yes))
      (outcome : e.outcome = .returned yes) (count : e.attempts = j + 1)
  | raised (j : Nat) (error : ClientError) (from_ : k ≤ j) (bound : j < maxRetries)
      (retried : Retried py attempts k j) (answered : answer py (attempts j) = some (.error error))
      (uncaught : error.caught = false) (outcome : e.outcome = .raised error)
  | hung (j : Nat) (from_ : k ≤ j) (bound : j < maxRetries) (retried : Retried py attempts k j)
      (stuck : (attempts j).Hangs) (outcome : e.outcome = .hangs)
  | exhausted (last : Option ClientError) (retried : Retried py attempts k maxRetries)
      (outcome : e.outcome = .timedOut last) (count : e.attempts = maxRetries)

theorem Retried.cons {k j : Nat} {e : ClientError}
    (here : answer py (attempts k) = some (.error e)) (caught : e.caught = true)
    (rest : Retried py attempts (k + 1) j) : Retried py attempts k j := by
  intro i from_ bound
  by_cases first : i = k
  · exact ⟨e, first ▸ here, caught⟩
  · exact rest i (by omega) bound

/-- After an attempt that has failed as expected, the loop goes on. -/
theorem Ended.retry {k : Nat} {e e' : Emission} {error : ClientError}
    (here : answer py (attempts k) = some (.error error)) (caught : error.caught = true)
    (outcome : e'.outcome = e.outcome) (count : e'.attempts = e.attempts)
    (rest : Ended py attempts (k + 1) e) : Ended py attempts k e' := by
  cases rest with
  | replied j yes from_ bound retried answered result number =>
    exact .replied j yes (by omega) bound (retried.cons here caught) answered
      (outcome.trans result) (count.trans number)
  | raised j error from_ bound retried answered uncaught result =>
    exact .raised j error (by omega) bound (retried.cons here caught) answered uncaught
      (outcome.trans result)
  | hung j from_ bound retried stuck result =>
    exact .hung j (by omega) bound (retried.cons here caught) stuck (outcome.trans result)
  | exhausted last retried result number =>
    exact .exhausted last (retried.cons here caught) (outcome.trans result) (count.trans number)

theorem emitLoop_ended {left k : Nat} (total : k + left = maxRetries) (delay : Nat)
    (last : Option ClientError) : Ended py attempts k (emitLoop py attempts left k delay last) := by
  induction left generalizing k delay last with
  | zero =>
    obtain rfl : k = maxRetries := total
    exact .exhausted last (fun i from_ bound => by omega) rfl rfl
  | succ left ih =>
    have rest := fun delay last => ih (k := k + 1) (by omega) delay last
    have none_before : Retried py attempts k k := fun i from_ bound => by omega
    rw [emitLoop]
    cases answered : answer py (attempts k) with
    | none =>
      exact .hung k (Nat.le_refl k) (by omega) none_before ((answer_hangs py).mp answered) rfl
    | some result =>
      cases result with
      | ok yes => exact .replied k yes (Nat.le_refl k) (by omega) none_before answered rfl rfl
      | error e =>
        cases caught : e.caught with
        | false =>
          refine .raised k e (Nat.le_refl k) (by omega) none_before answered caught ?_
          simp [caught]
        | true =>
          dsimp only
          rw [if_pos caught]
          split
          · exact .retry (e := emitLoop py attempts left (k + 1) _ _) answered caught rfl rfl
              (rest _ _)
          · exact .retry answered caught rfl rfl (rest _ _)

end Loop

section Retry

variable (py : Python) (attempts : Nat → Attempt)

/-- No attempt that is made meets a peer that keeps an await without a timeout for ever, closes
early or answers what is no JSON object. -/
def Regularly : Prop :=
  ∀ k < maxRetries, (∀ j < k, (attempts j).Drops) →
    ¬ (attempts k).Breaks py

variable {py attempts}

theorem Retried.fails {j i : Nat} (h : Retried py attempts 0 j) (bound : i < j) :
    Fails py (attempts i) := by
  obtain ⟨e, eq, -⟩ := h i (Nat.zero_le i) bound
  exact fails_of_error eq

theorem Retried.drops {j i : Nat} (h : Retried py attempts 0 j) (bound : i < j) :
    (attempts i).Drops := by
  obtain ⟨e, eq, caught⟩ := h i (Nat.zero_le i) bound
  exact drops_of_caught eq caught

/-- The first reply is the only one. -/
theorem first_reply {j k : Nat} {yes yes' : Bool} (here : answer py (attempts j) = some (.ok yes))
    (before : ∀ i < j, Fails py (attempts i)) (here' : answer py (attempts k) = some (.ok yes'))
    (before' : ∀ i < k, Fails py (attempts i)) : yes = yes' := by
  rcases Nat.lt_trichotomy j k with lt | rfl | lt
  · exact absurd here (fails_iff_answer.mp (before' j lt) yes)
  · exact Except.ok.inj (Option.some.inj (here.symm.trans here'))
  · exact absurd here' (fails_iff_answer.mp (before k lt) yes')

theorem lawful_replied {j : Nat} {yes : Bool} {e : Emission} (bound : j < maxRetries)
    (retried : Retried py attempts 0 j) (answered : answer py (attempts j) = some (.ok yes))
    (outcome : e.outcome = .returned yes) (count : e.attempts = j + 1) : Lawful py attempts e := by
  have before : ∀ i < j, Fails py (attempts i) := fun i => retried.fails
  have iff_ (b : Bool) : e.outcome = .returned b ↔
      ∃ k < maxRetries, answer py (attempts k) = some (.ok b) ∧ ∀ i < k, Fails py (attempts i) := by
    rw [outcome]
    constructor
    · intro eq
      cases eq
      exact ⟨j, bound, answered, before⟩
    · rintro ⟨k, -, here, earlier⟩
      rw [first_reply answered before here earlier]
  refine ⟨?_, ?_, ?_, ?_, by simp [outcome], ?_⟩
  · simpa only [accepts_iff_answer] using iff_ true
  · simpa only [refuses_iff_answer] using iff_ false
  · rw [outcome]
    refine ⟨fun ⟨_, eq⟩ => (nomatch eq), fun all => ?_⟩
    exact absurd answered (fails_iff_answer.mp (all j bound) yes)
  · simp [outcome]
  · intro k made fails more
    by_cases last : k = j
    · subst last
      exact absurd answered (fails_iff_answer.mp fails yes)
    · omega

theorem lawful_exhausted {last : Option ClientError} {e : Emission}
    (retried : Retried py attempts 0 maxRetries) (outcome : e.outcome = .timedOut last)
    (count : e.attempts = maxRetries) : Lawful py attempts e := by
  have never {k : Nat} {b : Bool} (bound : k < maxRetries) : answer py (attempts k) ≠ some (.ok b) := by
    intro eq
    obtain ⟨error, eq', -⟩ := retried k (Nat.zero_le k) bound
    cases eq.symm.trans eq'
  refine ⟨?_, ?_, ?_, ?_, by simp [outcome], fun k _ _ more => count ▸ more⟩
  · rw [outcome]
    refine ⟨nofun, ?_⟩
    rintro ⟨k, bound, here, -⟩
    exact absurd (accepts_iff_answer.mp here) (never bound)
  · rw [outcome]
    refine ⟨nofun, ?_⟩
    rintro ⟨k, bound, here, -⟩
    exact absurd (refuses_iff_answer.mp here) (never bound)
  · exact ⟨fun _ k => retried.fails, fun _ => ⟨last, outcome⟩⟩
  · simp [outcome]

theorem emitDurable_ended (py : Python) (attempts : Nat → Attempt) :
    Ended py attempts 0 (emitDurable py attempts) := emitLoop_ended rfl _ _

theorem lawful_iff (py : Python) (attempts : Nat → Attempt) :
    Lawful py attempts (emitDurable py attempts) ↔ Regularly py attempts := by
  have ended := emitDurable_ended py attempts
  constructor
  · intro lawful k bound dropped breaks
    -- attempt k is the first that does not fail as expected, so the loop ends there
    have stops {j : Nat} (retried : Retried py attempts 0 j) : j ≤ k := by
      by_contra later
      obtain ⟨e, eq, caught⟩ := retried k (Nat.zero_le k) (by omega)
      exact Attempt.Drops.regular (drops_of_caught eq caught) breaks
    cases ended with
    | replied j yes _ _ retried answered =>
      rcases Nat.lt_or_eq_of_le (stops retried) with lt | rfl
      · obtain ⟨e, eq, -⟩ := answer_drops py (dropped j lt)
        cases eq.symm.trans answered
      · obtain ⟨fields, replied, -⟩ := replied_of_answer answered
        exact Replied.regular replied breaks
    | raised j error _ _ _ _ _ outcome => exact lawful.nothingElse error outcome
    | hung j _ _ _ _ outcome => exact lawful.returns outcome
    | exhausted last retried => exact absurd (stops retried) (by omega)
  · intro regular
    cases ended with
    | replied j yes _ bound retried answered outcome count =>
      exact lawful_replied bound retried answered outcome count
    | raised j error _ bound retried answered uncaught =>
      exact absurd (.inr (breaks_of_uncaught answered uncaught))
        (regular j bound fun i before => retried.drops before)
    | hung j _ bound retried stuck =>
      exact absurd (.inl stuck) (regular j bound fun i before => retried.drops before)
    | exhausted last retried outcome count => exact lawful_exhausted retried outcome count

/-- A peer that closes the connection without an answer. -/
def hangsUp : Attempt :=
  { connect := none, drain := .done, reply := [], ending := .eof, closed := true }

def barePython : Python := ⟨1000, fun _ => ⟨"0.0"⟩, fun _ => []⟩

/-- The first connection is closed before the reply: there is no second attempt. -/
theorem hang_up_raises :
    ¬ Lawful barePython (fun _ => hangsUp) (emitDurable barePython fun _ => hangsUp) :=
  fun lawful => lawful.nothingElse .incompleteRead rfl

/-- A peer that neither reads nor answers: the read times out, and `wait_closed` waits for the
bytes that are left. -/
example : (emitDurable barePython fun _ =>
    { connect := none, drain := .done, reply := [], ending := .silent, closed := false }).outcome =
      .hangs := rfl

end Retry

end Drnt.Audit
