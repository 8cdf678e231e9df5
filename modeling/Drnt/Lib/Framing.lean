import Drnt.Lib.Utf8
import Mathlib.Algebra.Group.Nat.Defs

/-! Messages with their length in front, on streams that come in chunks. -/
namespace Lib.Framing

/-- What is still to come of a stream, in the pieces in which it will arrive. -/
abbrev Chunks := List Bytes

section Prefix

/-- struct.pack("!I", n), which raises from 2^32 on. -/
def pack (n : Nat) : Option Bytes :=
  if n < 2 ^ 32 then
    some [.ofNat (n / 2 ^ 24), .ofNat (n / 2 ^ 16), .ofNat (n / 2 ^ 8), .ofNat n]
  else none

def unpack (b : Bytes) : Nat := b.foldl (fun n x => 256 * n + x.toNat) 0

/-- A message with its length in front. -/
def frame (body : Bytes) : Option Bytes := (pack body.length).map (· ++ body)

theorem pack_spec {n : Nat} (h : n < 2 ^ 32) : ∃ b, pack n = some b ∧ b.length = 4 ∧ unpack b = n := by
  refine ⟨_, if_pos h, rfl, ?_⟩
  simp only [unpack, List.foldl_cons, List.foldl_nil, UInt8.toNat_ofNat']
  omega

theorem frame_some {body data : Bytes} (h : frame body = some data) :
    ∃ head, data = head ++ body ∧ head.length = 4 ∧ unpack head = body.length := by
  obtain ⟨head, packed, rfl⟩ := Option.map_eq_some_iff.mp h
  have small : body.length < 2 ^ 32 := by
    by_contra large
    rw [pack, if_neg large] at packed
    cases packed
  obtain ⟨b, eq, length, value⟩ := pack_spec small
  cases packed.symm.trans eq
  exact ⟨head, rfl, length, value⟩

end Prefix

section Sockets

/-- A read of at most `n` bytes; the empty one is the end of the stream. -/
def recv (n : Nat) : Chunks → Bytes × Chunks
  | [] => ([], [])
  | c :: rest => (c.take n, if c.length ≤ n then rest else c.drop n :: rest)

/-- The chunks are what arrives, so none is empty. -/
def Arriving (chunks : Chunks) : Prop := ∀ c ∈ chunks, c ≠ []

theorem recv_spec {n : Nat} {chunks : Chunks} (arriving : Arriving chunks) :
    (recv n chunks).1 ++ (recv n chunks).2.flatten = chunks.flatten ∧
    (recv n chunks).1.length ≤ n ∧ Arriving (recv n chunks).2 ∧
    (0 < n → chunks ≠ [] → (recv n chunks).1 ≠ []) := by
  cases chunks with
  | nil => exact ⟨rfl, Nat.zero_le _, arriving, fun _ other => absurd rfl other⟩
  | cons c rest =>
    obtain ⟨some_, arriving⟩ := List.forall_mem_cons.mp arriving
    refine ⟨?_, List.length_take_le .., ?_, fun positive _ none_ => ?_⟩
    · rw [recv]
      split
      · rename_i short
        rw [List.take_of_length_le short, List.flatten_cons]
      · rw [List.flatten_cons, ← List.append_assoc, List.take_append_drop, List.flatten_cons]
    · rw [recv]
      split
      · exact arriving
      · rename_i long
        refine List.forall_mem_cons.mpr ⟨?_, arriving⟩
        rw [Ne, List.drop_eq_nil_iff]
        exact long
    · rw [recv, List.take_eq_nil_iff] at none_
      rcases none_ with zero | none_
      · omega
      · exact some_ none_

/-- The loop that reads until there are `n` bytes; none when the stream ends before. -/
def recvExact (n : Nat) (data : Bytes) (chunks : Chunks) : Option (Bytes × Chunks) :=
  if data.length < n then
    match recv (n - data.length) chunks with
    | ([], _) => none
    | (x :: chunk, rest) => recvExact n (data ++ x :: chunk) rest
  else some (data, chunks)
termination_by n - data.length
decreasing_by
  simp only [List.length_append, List.length_cons]
  omega

/-- The bytes that are read are the first, and no others are taken from the stream. -/
theorem recvExact_spec {n : Nat} {data : Bytes} {chunks : Chunks} (arriving : Arriving chunks)
    (start : data.length ≤ n) :
    if n ≤ data.length + chunks.flatten.length then
      ∃ rest, recvExact n data chunks = some ((data ++ chunks.flatten).take n, rest) ∧
        rest.flatten = (data ++ chunks.flatten).drop n ∧ Arriving rest
    else recvExact n data chunks = none := by
  induction data, chunks using recvExact.induct n with
  | case1 data chunks short rest eq =>
    -- only a stream that has ended reads as nothing
    have ended : chunks = [] := by
      by_contra more
      obtain ⟨-, -, -, some_⟩ := recv_spec (n := n - data.length) arriving
      exact some_ (by omega) more (by rw [eq])
    subst ended
    rw [if_neg (by simpa using short), recvExact, if_pos short, eq]
  | case2 data chunks short x chunk rest eq ih =>
    obtain ⟨all, bound, arriving', -⟩ := recv_spec (n := n - data.length) arriving
    rw [eq] at all bound arriving'
    simp only [List.length_cons] at bound
    have total : data ++ chunks.flatten = data ++ x :: chunk ++ rest.flatten := by
      rw [← all, List.append_assoc]
    have lengths := congrArg List.length total
    rw [List.length_append, List.length_append] at lengths
    have step : recvExact n data chunks = recvExact n (data ++ x :: chunk) rest := by
      rw [recvExact, if_pos short, eq]
    rw [step, total, lengths]
    refine ih arriving' ?_
    rw [List.length_append, List.length_cons]
    omega
  | case3 data chunks full =>
    have whole : data.length = n := by omega
    rw [if_pos (by omega)]
    refine ⟨chunks, ?_, ?_, arriving⟩
    · rw [recvExact, if_neg full, List.take_append_of_le_length (by omega),
        List.take_of_length_le (by omega)]
    · rw [List.drop_append_of_le_length (by omega), List.drop_eq_nil_of_le (by omega), List.nil_append]

end Sockets

section Readers

/-- How a stream goes on when no more chunks come: it ends, it stays silent until the timeout, or
it is reset. -/
inductive Ending | eof | silent | reset
  deriving DecidableEq

/-- An asyncio StreamReader: what it has got, and what will come. -/
structure Reader where
  buffer : Bytes
  coming : Chunks
  ending : Ending

def Reader.all (r : Reader) : Bytes := r.buffer ++ r.coming.flatten

def readexactlyFrom (n : Nat) (ending : Ending) : Bytes → Chunks → Except Ending (Bytes × Reader)
  | buffer, [] =>
    if n ≤ buffer.length then .ok (buffer.take n, ⟨buffer.drop n, [], ending⟩) else .error ending
  | buffer, c :: rest =>
    if n ≤ buffer.length then .ok (buffer.take n, ⟨buffer.drop n, c :: rest, ending⟩)
    else readexactlyFrom n ending (buffer ++ c) rest

/-- `readexactly`, which waits for more until there are `n` bytes. -/
def Reader.readexactly (r : Reader) (n : Nat) : Except Ending (Bytes × Reader) :=
  readexactlyFrom n r.ending r.buffer r.coming

theorem readexactlyFrom_spec (n : Nat) (ending : Ending) (buffer : Bytes) (coming : Chunks) :
    if n ≤ (buffer ++ coming.flatten).length then
      ∃ r : Reader, readexactlyFrom n ending buffer coming = .ok ((buffer ++ coming.flatten).take n, r) ∧
        r.all = (buffer ++ coming.flatten).drop n ∧ r.ending = ending
    else readexactlyFrom n ending buffer coming = .error ending := by
  induction coming generalizing buffer with
  | nil =>
    rw [readexactlyFrom, List.flatten_nil, List.append_nil]
    split
    · exact ⟨_, rfl, List.append_nil _, rfl⟩
    · rfl
  | cons c rest ih =>
    rw [readexactlyFrom, List.flatten_cons]
    by_cases enough : n ≤ buffer.length
    · rw [if_pos enough, if_pos (by rw [List.length_append]; omega),
        List.take_append_of_le_length enough, List.drop_append_of_le_length enough]
      exact ⟨_, rfl, rfl, rfl⟩
    · rw [if_neg enough, ← List.append_assoc]
      exact ih (buffer ++ c)

theorem Reader.readexactly_ok {r : Reader} {n : Nat} (h : n ≤ r.all.length) :
    ∃ r' : Reader, r.readexactly n = .ok (r.all.take n, r') ∧ r'.all = r.all.drop n ∧
      r'.ending = r.ending := by
  have := readexactlyFrom_spec n r.ending r.buffer r.coming
  rwa [if_pos (show n ≤ (r.buffer ++ r.coming.flatten).length from h)] at this

theorem Reader.readexactly_short {r : Reader} {n : Nat} (h : r.all.length < n) :
    r.readexactly n = .error r.ending := by
  have := readexactlyFrom_spec n r.ending r.buffer r.coming
  rwa [if_neg (show ¬ n ≤ (r.buffer ++ r.coming.flatten).length from Nat.not_le.mpr h)] at this

end Readers

end Lib.Framing
