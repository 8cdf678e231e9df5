import Drnt.Audit.Tamper
import Drnt.Lib.TextMode

/-! The lines of a log file in text mode, and its records. -/
namespace Drnt.Audit

open Lib

section Text

/-- Exceptions that end a function: UnicodeDecodeError, UnicodeEncodeError, ValueError,
RecursionError, AttributeError and TypeError. -/
inductive Raised
  | unicodeDecode | unicodeEncode | value | recursion | attribute | type
  deriving DecidableEq, Repr

/-- A value that is a text. -/
def text? : Option Json → Option PyStr
  | some (.str s) => some s
  | _ => none

theorem text?_eq {v : Option Json} {s : PyStr} : text? v = some s ↔ v = some (.str s) := by
  unfold text?
  split
  case h_1 t => simp
  case h_2 other => exact ⟨nofun, fun eq => absurd eq (other s)⟩

variable (py : Python)

/-- A line comes from a file and so has no surrogates. -/
def computeHash (line : PyStr) : PyStr := py.sha256 ((Utf8.encode line).getD [])

/-- prev_hash of a line, where it is a text. -/
def linePrev? (line : PyStr) : Option PyStr :=
  match Loads.loads py line with
  | .ok (.obj fields) => text? (Json.field? (Lib.py "prev_hash") fields)
  | _ => none

end Text

section Bytes

variable {b : Bytes} {s : PyStr}

/-- An ASCII character of a text is a byte of it. -/
theorem ascii_mem (h : Utf8.decode b = some s) {c : CodePoint} (mem : c ∈ s)
    (ascii : c.val < 0x80) : UInt8.ofNat c.val ∈ b := by
  have encoded := Utf8.encode_of_decode h
  unfold Utf8.encode at encoded
  split at encoded
  case isFalse => cases encoded
  case isTrue =>
    cases encoded
    refine List.mem_flatMap.mpr ⟨c, mem, ?_⟩
    rw [Utf8.encodeChar, if_pos ascii]
    exact List.mem_singleton_self _

theorem lineFeed_notMem (h : Utf8.decode b = some s) (free : newline ∉ b) :
    TextMode.lineFeed ∉ s := fun mem => free (ascii_mem h mem (by decide))

theorem return_notMem (h : Utf8.decode b = some s) (free : carriageReturn ∉ b) :
    TextMode.carriageReturn ∉ s := fun mem => free (ascii_mem h mem (by decide))

/-- CR stands only in CRLF line ends. -/
def ReturnsInEnds (data : Bytes) : Prop :=
  ∀ a b, data = a ++ carriageReturn :: b → b.head? = some newline

end Bytes

section Lines

/-- The line that a text reader sees: the bytes less one CR at the end. -/
theorem read_line {raw : Bytes} {rest : Bytes} (free : newline ∉ raw)
    (returns : ReturnsInEnds (raw ++ newline :: rest)) :
    carriageReturn ∉ unreturned raw ∧ newline ∉ unreturned raw := by
  have inner (x y : Bytes) (eq : raw = x ++ carriageReturn :: y) : y = [] := by
    have next := returns x (y ++ newline :: rest) (by rw [eq]; simp)
    cases y with
    | nil => rfl
    | cons z y =>
      have : z = newline := by simpa using next
      exact absurd (eq ▸ by simp [this]) free
  constructor
  case left =>
    intro mem
    obtain ⟨x, y, eq⟩ := List.append_of_mem mem
    rcases unreturned_cases raw with same | longer
    · have empty := inner x y (same.trans eq)
      subst empty
      have last : raw.getLast? = some carriageReturn := by rw [same, eq]; simp
      unfold unreturned at eq
      rw [if_pos last] at eq
      have : raw = x ++ carriageReturn :: [carriageReturn] := by
        rw [← List.dropLast_append_getLast? _ last, eq]
        simp
      exact absurd (inner _ _ this) (by simp)
    · have : raw = x ++ carriageReturn :: (y ++ [carriageReturn]) := by
        rw [longer, eq]
        simp
      exact absurd (inner _ _ this) (by simp)
  case right =>
    intro mem
    rcases unreturned_cases raw with same | longer
    · exact free (same ▸ mem)
    · exact free (longer ▸ List.mem_append_left _ mem)

theorem unreturned_last {raw : Bytes} (returns : ReturnsInEnds raw) (free : newline ∉ raw) :
    carriageReturn ∉ raw := by
  intro mem
  obtain ⟨x, y, eq⟩ := List.append_of_mem mem
  have next := returns x y eq
  cases y with
  | nil => cases next
  | cons z y =>
    have : z = newline := by simpa using next
    exact free (eq ▸ by simp [this])

theorem unreturned_eq {raw : Bytes} (free : carriageReturn ∉ raw) : unreturned raw = raw := by
  unfold unreturned
  rw [if_neg fun last => free (List.mem_of_getLast? last)]

/-- The first line in text mode, and the text after it. -/
theorem read_uncons {raw rest : Bytes} {s : PyStr} (free : newline ∉ raw)
    (returns : ReturnsInEnds (raw ++ newline :: rest))
    (h : Utf8.decode (raw ++ newline :: rest) = some s) :
    ∃ w v, Utf8.decode (unreturned raw) = some w ∧ Utf8.decode rest = some v ∧
      TextMode.split (TextMode.universal s) = w :: TextMode.split (TextMode.universal v) := by
  obtain ⟨noReturn, noFeed⟩ := read_line free returns
  rw [Utf8.decode_append (by decide)] at h
  obtain ⟨u, hu, h⟩ := Option.bind_eq_some_iff.mp h
  obtain ⟨v, hv, rfl⟩ := Option.map_eq_some_iff.mp h
  have line {w : PyStr} (hw : Utf8.decode (unreturned raw) = some w) :
      TextMode.split (w ++ TextMode.lineFeed :: TextMode.universal v) =
        w :: TextMode.split (TextMode.universal v) ∧
      ∀ t, TextMode.universal (w ++ t) = w ++ TextMode.universal t := by
    refine ⟨TextMode.split_append (lineFeed_notMem hw noFeed) _, TextMode.universal_append ?_⟩
    intro c mem
    exact ⟨fun eq => lineFeed_notMem hw noFeed (eq ▸ mem),
      fun eq => return_notMem hw noReturn (eq ▸ mem)⟩
  rcases unreturned_cases raw with same | longer
  · rw [same] at hu
    obtain ⟨split, plain⟩ := line hu
    exact ⟨u, v, hu, hv, by rw [plain]; exact split⟩
  · rw [longer, Utf8.decode_append (by decide)] at hu
    obtain ⟨w, hw, hu⟩ := Option.bind_eq_some_iff.mp hu
    cases hu
    obtain ⟨split, plain⟩ := line hw
    exact ⟨w, v, hw, hv, by rw [List.append_assoc, plain]; exact split⟩

/-- In text mode a file has the lines that it has as bytes. -/
theorem read_eq {data : Bytes} {texts : List PyStr} (returns : ReturnsInEnds data)
    (h : TextMode.read data = some texts) :
    (splitLines data).map (fun l => Utf8.decode (unreturned l.raw)) = texts.map some := by
  obtain ⟨s, decoded, rfl⟩ := Option.map_eq_some_iff.mp h
  clear h
  generalize lines : splitLines data = ls
  induction ls generalizing data s with
  | nil =>
    have empty : data = [] := by rw [← bytes_splitLines data, lines]; rfl
    subst empty
    cases decoded
    rfl
  | cons l ls ih =>
    obtain ⟨free, last, tail⟩ := splitLines_uncons lines
    have whole : data = l.bytes ++ ls.flatMap Line.bytes := by
      rw [← bytes_splitLines data, lines, List.flatMap_cons]
    cases ended : l.ended with
    | true =>
      have split : data = l.raw ++ newline :: ls.flatMap Line.bytes := by
        rw [whole, Line.bytes, if_pos ended]
        simp
      subst split
      obtain ⟨w, v, hw, hv, eq⟩ := read_uncons free returns decoded
      have returns : ReturnsInEnds (ls.flatMap Line.bytes) := fun a b eq =>
        returns (l.raw ++ newline :: a) b (by rw [eq]; simp)
      rw [List.map_cons, hw, ih returns v hv tail, eq, List.map_cons]
    | false =>
      obtain ⟨rfl, some_⟩ := last ended
      have single : data = l.raw := by
        rw [whole, Line.bytes, if_neg (by simp [ended])]
        simp
      subst single
      have noReturn := unreturned_last returns free
      have text : s ≠ [] := by
        rintro rfl
        exact some_ (by simpa [Utf8.encode, Utf8.encodable] using (Utf8.encode_of_decode decoded).symm)
      have plain : ∀ c ∈ s, c ≠ TextMode.lineFeed ∧ c ≠ TextMode.carriageReturn := fun c mem =>
        ⟨fun eq => lineFeed_notMem decoded free (eq ▸ mem),
          fun eq => return_notMem decoded noReturn (eq ▸ mem)⟩
      have same : TextMode.universal s = s := by
        simpa [TextMode.universal, TextMode.universalFrom] using
          TextMode.universal_append plain []
      rw [same, TextMode.split_last (lineFeed_notMem decoded free) text, List.map_cons,
        unreturned_eq noReturn, decoded]
      rfl

end Lines

end Drnt.Audit
