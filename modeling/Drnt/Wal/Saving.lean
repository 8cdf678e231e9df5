import Drnt.Lib.Indented

/-! Saving the capability state: a temporary file takes the place of the old one. What stands at
the path when a call fails, writes a part only or is the last before a crash. -/
namespace Drnt.Wal.Saving

open Lib
open Loads (Readable Codecs loadsBytes loadsBytes_pretty)

section Files

inductive Call | makedirs | mkstemp | write | close | replace | getInheritable | unlink
  deriving DecidableEq, Repr

structure OSError where
  call : Call
  errno : Nat
  deriving DecidableEq, Repr

inductive Error
  | os (e : OSError)
  | unicodeEncode
  deriving DecidableEq, Repr

/-- The file at the state path, the temporary file, and whether its descriptor is open. -/
structure Disk where
  file : Bytes
  temp : Option Bytes := none
  opened : Bool := false
  deriving DecidableEq

inductive Written
  | wrote (n : Nat)
  | failed (errno : Nat)
  deriving DecidableEq

/-- A close that fails may have released the descriptor all the same. -/
inductive Closed
  | closed
  | failed (errno : Nat) (released : Bool)
  deriving DecidableEq

/-- How each call of `save` ends. The second close is the one of the handler; a call without an
errno succeeds. -/
structure Outcomes where
  makedirs : Option Nat := none
  mkstemp : Option Nat := none
  write : Written
  close : Closed := .closed
  replace : Option Nat := none
  closeAgain : Closed := .closed
  unlink : Option Nat := none
  deriving DecidableEq

/-- The disk with what it was before each call, the errors of the calls, and `_state_hash`. -/
structure Run where
  disk : Disk
  past : List Disk := []
  raised : List OSError := []
  stateHash : Option PyStr := none
  deriving DecidableEq

abbrev Save := ExceptT Error (StateM Run)

def change (f : Disk → Disk) : Save Unit :=
  modify fun r => { r with disk := f r.disk, past := r.past ++ [r.disk] }

def raise (call : Call) (errno : Nat) : Save Unit := do
  modify fun r => { r with raised := r.raised ++ [⟨call, errno⟩] }
  throw (.os ⟨call, errno⟩)

/-- A call that changes the disk or raises. -/
def effect (call : Call) (f : Disk → Disk) : Option Nat → Save Unit
  | none => change f
  | some errno => raise call errno

def makedirs : Option Nat → Save Unit := effect .makedirs id

def mkstemp : Option Nat → Save Unit :=
  effect .mkstemp fun d => { d with temp := some [], opened := true }

/-- The bytes that were written; the count is not used. -/
def write (data : Bytes) : Written → Save Unit
  | .wrote n => change fun d => { d with temp := some (data.take n) }
  | .failed errno => raise .write errno

def close : Closed → Save Unit
  | .closed => change fun d => { d with opened := false }
  | .failed errno released => do
    change fun d => { d with opened := !released }
    raise .close errno

def replace : Option Nat → Save Unit :=
  effect .replace fun d => { d with file := d.temp.getD d.file, temp := none }

def unlink : Option Nat → Save Unit := effect .unlink fun d => { d with temp := none }

def badDescriptor : Nat := 9

/-- A descriptor of mkstemp is not inheritable; one that is closed raises. -/
def getInheritable : Save Bool := do
  if (← get).disk.opened then return false
  raise .getInheritable badDescriptor
  return false

variable (py : Python) (o : Outcomes)

def body (serialized : Bytes) : Save Unit := do
  write serialized o.write
  close o.close
  replace o.replace

def handler (e : Error) : Save Unit := do
  if !(← getInheritable) then close o.closeAgain
  if (← get).disk.temp.isSome then unlink o.unlink
  throw e

def saveBytes (serialized : Bytes) : Save Unit := do
  modify fun r => { r with stateHash := some (py.sha256 serialized) }
  makedirs o.makedirs
  mkstemp o.mkstemp
  tryCatch (body o serialized) (handler o)

def save (state : Json) : Save Unit :=
  match Utf8.encode (Dumps.pretty 2 0 state) with
  | none => throw .unicodeEncode
  | some serialized => saveBytes py o serialized

end Files

section Property

/-- A dictionary json.loads can return. -/
structure StateDict (py : Python) where
  fields : List (PyStr × Json)
  readable : Readable py py.maxDepth (.obj fields)

def StateDict.json {py : Python} (d : StateDict py) : Json := .obj d.fields

variable (py : Python) (codecs : Codecs)

/-- What a call of `save` that started with the old state in the file has done: whatever call was
the last, the file holds a state; what was saved is there; an error of a call is the error of
`save`, and nothing is left over. -/
structure Atomic (old new : Json) (out : Except Error Unit × Run) : Prop where
  intact : ∀ d ∈ out.2.past ++ [out.2.disk],
    loadsBytes py codecs d.file = some old ∨ loadsBytes py codecs d.file = some new
  saved : out.1 = .ok () → loadsBytes py codecs out.2.disk.file = some new
  raised : ∀ e ∈ out.2.raised, out.1 = .error (.os e) ∧ out.2.disk.temp = none

/-- The handler closes the descriptor and removes the file. -/
def Outcomes.Cleared (o : Outcomes) : Prop := o.closeAgain = .closed ∧ o.unlink = none

/-- No temporary file comes to be, or the descriptor is still open at the first error and the
handler succeeds, or all is written. -/
def Outcomes.Benign (o : Outcomes) (size : Nat) : Prop :=
  o.makedirs ≠ none ∨ o.mkstemp ≠ none ∨
    match o.write, o.close, o.replace with
    | .failed _, _, _ => o.Cleared
    | .wrote _, .failed _ released, _ => released = false ∧ o.Cleared
    | .wrote _, .closed, some _ => False
    | .wrote n, .closed, none => size ≤ n

end Property

section Saving

variable {py : Python} {codecs : Codecs} {o : Outcomes} {old new : Json} {file serialized : Bytes}
  {out : Except Error Unit × Run}

/-- One call failed, and `save` passes its error on. -/
theorem atomic_of_error {e : OSError} (held : loadsBytes py codecs file = some old)
    (error : out.1 = .error (.os e)) (kept : ∀ d ∈ out.2.past ++ [out.2.disk], d.file = file)
    (only : out.2.raised = [e]) (gone : out.2.disk.temp = none) : Atomic py codecs old new out where
  intact d mem := by
    left
    rw [kept d mem]
    exact held
  saved ok := by
    rw [error] at ok
    cases ok
  raised e' mem := by
    rw [only, List.mem_singleton] at mem
    rw [mem]
    exact ⟨error, gone⟩

/-- A file is left over after an error. -/
theorem not_atomic_of_temp {e : OSError} (mem : e ∈ out.2.raised) (left_ : out.2.disk.temp ≠ none) :
    ¬ Atomic py codecs old new out := by
  intro atomic
  exact left_ (atomic.raised e mem).2

/-- Before the first call, and when the temporary file is open. -/
def start (file : Bytes) : Run := { disk := { file } }

def opened (py : Python) (file serialized : Bytes) : Run where
  disk := ⟨file, some [], true⟩
  past := [⟨file, none, false⟩, ⟨file, none, false⟩]
  stateHash := some (py.sha256 serialized)

theorem saveBytes_opened (made : o.makedirs = none) (temp : o.mkstemp = none) :
    saveBytes py o serialized (start file) =
      (tryCatch (body o serialized) (handler o) : Save Unit) (opened py file serialized) := by
  rw [saveBytes, made, temp]
  rfl

theorem tryCatch_run (x : Save Unit) (h : Error → Save Unit) (r : Run) :
    (tryCatch x h : Save Unit) r =
      (match x r with
      | (.ok a, r') => (.ok a, r')
      | (.error e, r') => h e r' : Except Error Unit × Run) := by
  change (ExceptT.tryCatch x h) r = _
  unfold ExceptT.tryCatch ExceptT.mk
  change (StateT.bind x _ : StateM Run (Except Error Unit)) r = _
  unfold StateT.bind
  change (match x r with | (a, r') => _ : Except Error Unit × Run) = _
  generalize x r = ended
  rcases ended with ⟨e | a, r'⟩
  · rfl
  · rfl

theorem caught {r r' : Run} {e : Error} (failed : body o serialized r = (.error e, r')) :
    (tryCatch (body o serialized) (handler o) : Save Unit) r = handler o e r' := by
  rw [tryCatch_run, failed]

theorem uncaught {r r' : Run} (done : body o serialized r = (.ok (), r')) :
    (tryCatch (body o serialized) (handler o) : Save Unit) r = (.ok (), r') := by
  rw [tryCatch_run, done]

/-- On a descriptor that is closed the handler fails before it removes the file. -/
theorem handler_released {r : Run} (e : Error) (released : r.disk.opened = false) :
    handler o e r = (.error (.os ⟨.getInheritable, badDescriptor⟩),
      { r with raised := r.raised ++ [⟨.getInheritable, badDescriptor⟩] }) := by
  obtain ⟨⟨file, temp, open_⟩, past, raised, hash⟩ := r
  cases released
  rfl

/-- On one that is open it closes, removes and raises again. -/
theorem handler_cleared {r : Run} (e : Error) (held : r.disk.opened = true)
    (temp : r.disk.temp.isSome = true) (cleared : o.Cleared) :
    handler o e r = (.error e, { r with
      disk := { r.disk with temp := none, opened := false }
      past := r.past ++ [r.disk] ++ [{ r.disk with opened := false }] }) := by
  obtain ⟨⟨file, temp_, open_⟩, past, raised, hash⟩ := r
  obtain ⟨again, removed⟩ := cleared
  cases held
  cases temp_ with
  | none => cases temp
  | some data =>
    rw [handler, again, removed]
    rfl

/-- Where it fails on one that is open, the file stays. -/
theorem handler_uncleared {r : Run} (e : Error) (held : r.disk.opened = true)
    (temp : r.disk.temp.isSome = true) (uncleared : ¬ o.Cleared) :
    (handler o e r).2.disk.temp ≠ none ∧ r.raised ⊆ (handler o e r).2.raised := by
  obtain ⟨⟨file, temp_, open_⟩, past, raised, hash⟩ := r
  cases held
  cases temp_ with
  | none => cases temp
  | some data =>
    cases again : o.closeAgain with
    | failed errno released =>
      rw [handler, again]
      exact ⟨Option.some_ne_none data, List.subset_append_left ..⟩
    | closed =>
      cases removed : o.unlink with
      | none => exact absurd ⟨again, removed⟩ uncleared
      | some errno =>
        rw [handler, again, removed]
        exact ⟨Option.some_ne_none data, List.subset_append_left ..⟩

/-- When write has raised, the descriptor is open. -/
def writeFailed (py : Python) (file serialized : Bytes) (errno : Nat) : Run :=
  { opened py file serialized with raised := [⟨.write, errno⟩] }

/-- When write has returned, and then when close has. -/
def written (py : Python) (file serialized : Bytes) (n : Nat) : Run where
  disk := ⟨file, some (serialized.take n), true⟩
  past := (opened py file serialized).past ++ [⟨file, some [], true⟩]
  stateHash := some (py.sha256 serialized)

def closeFailed (py : Python) (file serialized : Bytes) (n errno : Nat) (released : Bool) :
    Run where
  disk := ⟨file, some (serialized.take n), !released⟩
  past := (written py file serialized n).past ++ [(written py file serialized n).disk]
  raised := [⟨.close, errno⟩]
  stateHash := some (py.sha256 serialized)

def replaceFailed (py : Python) (file serialized : Bytes) (n errno : Nat) : Run where
  disk := ⟨file, some (serialized.take n), false⟩
  past := (written py file serialized n).past ++ [(written py file serialized n).disk]
  raised := [⟨.replace, errno⟩]
  stateHash := some (py.sha256 serialized)

def replaced (py : Python) (file serialized : Bytes) (n : Nat) : Run where
  disk := ⟨serialized.take n, none, false⟩
  past := (written py file serialized n).past ++
    [(written py file serialized n).disk, ⟨file, some (serialized.take n), false⟩]
  stateHash := some (py.sha256 serialized)

theorem body_writeFailed {errno : Nat} (failed : o.write = .failed errno) :
    body o serialized (opened py file serialized) =
      (.error (.os ⟨.write, errno⟩), writeFailed py file serialized errno) := by
  rw [body, failed]
  rfl

theorem body_closeFailed {n errno : Nat} {released : Bool} (wrote : o.write = .wrote n)
    (failed : o.close = .failed errno released) :
    body o serialized (opened py file serialized) =
      (.error (.os ⟨.close, errno⟩), closeFailed py file serialized n errno released) := by
  rw [body, wrote, failed]
  rfl

theorem body_replaceFailed {n errno : Nat} (wrote : o.write = .wrote n) (closed : o.close = .closed)
    (failed : o.replace = some errno) :
    body o serialized (opened py file serialized) =
      (.error (.os ⟨.replace, errno⟩), replaceFailed py file serialized n errno) := by
  rw [body, wrote, closed, failed]
  rfl

theorem body_replaced {n : Nat} (wrote : o.write = .wrote n) (closed : o.close = .closed)
    (done : o.replace = none) :
    body o serialized (opened py file serialized) = (.ok (), replaced py file serialized n) := by
  rw [body, wrote, closed, done]
  rfl

/-- With the descriptor open, all is well exactly if the handler succeeds. -/
theorem atomic_handler {r : Run} {e : OSError} (held : loadsBytes py codecs file = some old)
    (open_ : r.disk.opened = true) (temp : r.disk.temp.isSome = true)
    (kept : ∀ d ∈ r.past ++ [r.disk], d.file = file) (only : r.raised = [e]) :
    Atomic py codecs old new (handler o (.os e) r) ↔ o.Cleared := by
  constructor
  · intro atomic
    by_contra uncleared
    obtain ⟨left_, raised⟩ := handler_uncleared (.os e) open_ temp uncleared
    have mem : e ∈ (handler o (.os e) r).2.raised := by
      refine raised ?_
      rw [only]
      exact List.mem_singleton_self e
    exact not_atomic_of_temp mem left_ atomic
  · intro cleared
    rw [handler_cleared (.os e) open_ temp cleared]
    have here : r.disk.file = file := kept _ (List.mem_append_right _ (List.mem_singleton_self _))
    refine atomic_of_error held rfl ?_ only rfl
    intro d mem
    simp only [List.mem_append, List.mem_singleton] at mem
    obtain ((mem | rfl) | rfl) | rfl := mem
    · exact kept d (List.mem_append_left _ mem)
    · exact here
    · exact here
    · exact here

/-- With the descriptor closed, the handler leaves the file. -/
theorem not_atomic_released {r : Run} {e : OSError} (released : r.disk.opened = false)
    (temp : r.disk.temp ≠ none) (only : r.raised = [e]) :
    ¬ Atomic py codecs old new (handler o (.os e) r) := by
  rw [handler_released (.os e) released]
  refine not_atomic_of_temp (e := e) ?_ temp
  rw [only]
  exact List.mem_cons_self ..

/-- What replaces the file is what was written. -/
theorem atomic_replaced (held : loadsBytes py codecs file = some old)
    (whole : loadsBytes py codecs serialized = some new)
    (parts : ∀ n < serialized.length, loadsBytes py codecs (serialized.take n) = none) (n : Nat) :
    Atomic py codecs old new (.ok (), replaced py file serialized n) ↔ serialized.length ≤ n := by
  constructor
  · intro atomic
    by_contra short
    have there : loadsBytes py codecs (serialized.take n) = some new := atomic.saved rfl
    rw [parts n (by omega)] at there
    cases there
  · intro all
    have there : loadsBytes py codecs (serialized.take n) = some new := by
      rw [List.take_of_length_le all]
      exact whole
    have kept : ∀ d ∈ (replaced py file serialized n).past, d.file = file := by
      simp [replaced, written, opened]
    constructor
    · intro d mem
      obtain mem | mem := List.mem_append.mp mem
      · left
        rw [kept d mem]
        exact held
      · rw [List.mem_singleton.mp mem]
        exact .inr there
    · intro _
      exact there
    · intro e mem
      cases mem

theorem saveBytes_atomic_iff (held : loadsBytes py codecs file = some old)
    (whole : loadsBytes py codecs serialized = some new)
    (parts : ∀ n < serialized.length, loadsBytes py codecs (serialized.take n) = none) :
    Atomic py codecs old new (saveBytes py o serialized (start file)) ↔
      o.Benign serialized.length := by
  unfold Outcomes.Benign
  cases made : o.makedirs with
  | some errno =>
    rw [saveBytes, made]
    refine iff_of_true ?_ (.inl (by simp))
    refine atomic_of_error (e := ⟨.makedirs, errno⟩) held rfl ?_ rfl rfl
    intro d mem
    rw [List.mem_singleton.mp mem]
    rfl
  | none =>
  cases temp : o.mkstemp with
  | some errno =>
    rw [saveBytes, made, temp]
    refine iff_of_true ?_ (.inr (.inl (by simp)))
    refine atomic_of_error (e := ⟨.mkstemp, errno⟩) held rfl ?_ rfl rfl
    intro d mem
    obtain mem | mem := List.mem_append.mp mem
    · rw [List.mem_singleton.mp mem]
      rfl
    · rw [List.mem_singleton.mp mem]
      rfl
  | none =>
  rw [saveBytes_opened made temp]
  simp only [ne_eq, not_true_eq_false, false_or]
  cases wrote : o.write with
  | failed errno =>
    rw [caught (body_writeFailed wrote)]
    exact atomic_handler held rfl rfl (by simp [writeFailed, opened]) rfl
  | wrote n =>
  cases closed : o.close with
  | failed errno released =>
    rw [caught (body_closeFailed wrote closed)]
    cases released with
    | true =>
      refine iff_of_false (not_atomic_released rfl (Option.some_ne_none _) rfl) ?_
      simp
    | false =>
      simp only [true_and]
      exact atomic_handler held rfl rfl (by simp [closeFailed, written, opened]) rfl
  | closed =>
  cases moved : o.replace with
  | some errno =>
    rw [caught (body_replaceFailed wrote closed moved)]
    exact iff_of_false (not_atomic_released rfl (Option.some_ne_none _) rfl) not_false
  | none =>
    rw [uncaught (body_replaced wrote closed moved)]
    exact atomic_replaced held whole parts n

/-- Saving is atomic exactly if the write took all the bytes, or failed where the handler could
still close the descriptor, or did not come to be. -/
theorem save_atomic_iff (new : StateDict py) (held : loadsBytes py codecs file = some old) :
    Atomic py codecs old new.json (save py o new.json (start file)) ↔
      o.Benign (Dumps.pretty 2 0 new.json).length := by
  obtain ⟨serialized, encoded, length, whole, parts⟩ :=
    @Loads.loadsBytes_pretty py codecs 2 new.fields new.readable
  have run : save py o new.json = saveBytes py o serialized := by
    unfold save StateDict.json
    rw [encoded]
  rw [run, StateDict.json, ← length]
  exact saveBytes_atomic_iff held whole parts

end Saving

section Sample

def samplePython : Python := ⟨1000, fun s => ⟨(decode? s).getD ""⟩, fun _ => []⟩

def strictDecode (e : Loads.Encoding) (b : Bytes) : Option PyStr :=
  if e = .utf8 then Utf8.decode b else none

theorem strictDecode_utf8 (b : Bytes) (text : PyStr) (read : Utf8.decode b = some text) :
    strictDecode .utf8 b = some text := read

def strict : Codecs := ⟨strictDecode, strictDecode_utf8⟩

def sampleFields : List (PyStr × Json) := [(py "c1", .obj [(py "effective_wal_level", .int 1)])]

theorem readable_sample : Readable samplePython samplePython.maxDepth (.obj sampleFields) := by
  have level : Readable samplePython 998 (.int 1) := .int (by decide)
  have entry : Readable samplePython 999 (.obj [(py "effective_wal_level", .int 1)]) := by
    refine .obj (by decide) ?_ ?_
    · simp only [List.forall_mem_singleton]
      exact Loads.unpaired_of_encodable (by decide)
    · simp only [List.forall_mem_singleton]
      exact level
  refine .obj (by decide) ?_ ?_
  · simp only [sampleFields, List.forall_mem_singleton]
    exact Loads.unpaired_of_encodable (by decide)
  · simp only [sampleFields, List.forall_mem_singleton]
    exact entry

def sampleState : StateDict samplePython := ⟨sampleFields, readable_sample⟩

/-- The file of a state without capabilities. -/
def emptyFile : Bytes := [0x7B, 0x7D]

theorem held_empty : loadsBytes samplePython strict emptyFile = some (.obj []) := by
  rfl

theorem save_atomic_iff_sample :
    loadsBytes samplePython strict emptyFile = some (.obj []) ∧
    (Atomic samplePython strict (.obj []) sampleState.json
      (save samplePython { write := .failed 28 } sampleState.json (start emptyFile)) ↔
        Outcomes.Benign { write := .failed 28 } (Dumps.pretty 2 0 sampleState.json).length) :=
  ⟨held_empty, save_atomic_iff sampleState held_empty⟩

/-- A write that takes five bytes only: the old state is lost and no error is raised. -/
theorem save_truncates :
    loadsBytes samplePython strict emptyFile = some (.obj []) ∧
    (save samplePython { write := .wrote 5 } sampleState.json (start emptyFile)).1 = .ok () ∧
    ¬ Atomic samplePython strict (.obj []) sampleState.json
      (save samplePython { write := .wrote 5 } sampleState.json (start emptyFile)) := by
  have ok : (save samplePython { write := .wrote 5 } sampleState.json (start emptyFile)).1 =
      .ok () := by
    rfl
  refine ⟨held_empty, ok, ?_⟩
  intro atomic
  have lost : loadsBytes samplePython strict (save samplePython { write := .wrote 5 }
      sampleState.json (start emptyFile)).2.disk.file = none := by
    rfl
  have there := atomic.saved ok
  rw [lost] at there
  cases there

end Sample

end Drnt.Wal.Saving
