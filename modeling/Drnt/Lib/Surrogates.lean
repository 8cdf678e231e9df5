import Drnt.Lib.RoundTrip
import Mathlib.Data.List.Chain

/-! Lone surrogates: json.loads never leaves a high one before a low one, and such texts are
read back as they were written. -/
namespace Lib

namespace Loads

open Dumps (dumps escapeUnit)

section Texts

/-- Not a high surrogate before a low one, which would be read as one character. -/
def Apart (c d : CodePoint) : Prop := ¬ (isHigh c.val = true ∧ isLow d.val = true)

def Unpaired (s : PyStr) : Prop := s.IsChain Apart

def endsHigh (s : PyStr) : Bool := s.getLast?.any fun c => isHigh c.val

theorem isHigh_small {n : Nat} (h : n < 0xD800) : isHigh n = false := by
  simp only [isHigh, Bool.and_eq_false_iff, decide_eq_false_iff_not]
  omega

theorem isLow_small {n : Nat} (h : n < 0xDC00) : isLow n = false := by
  simp only [isLow, Bool.and_eq_false_iff, decide_eq_false_iff_not]
  omega

theorem apart_of_not_low {c d : CodePoint} (h : isLow d.val = false) : Apart c d := by
  rintro ⟨-, low⟩
  cases h.symm.trans low

@[simp] theorem endsHigh_append (s : PyStr) (c : CodePoint) :
    endsHigh (s ++ [c]) = isHigh c.val := by
  simp [endsHigh]

theorem unpaired_nil : Unpaired [] := List.IsChain.nil

theorem unpaired_append {a b : PyStr} : Unpaired (a ++ b) ↔
    Unpaired a ∧ Unpaired b ∧ ∀ c ∈ a.getLast?, ∀ d ∈ b.head?, Apart c d := List.isChain_append

/-- A code point after a text. -/
theorem unpaired_snoc {s : PyStr} {c : CodePoint} (h : Unpaired s)
    (apart : ¬ (endsHigh s = true ∧ isLow c.val = true)) : Unpaired (s ++ [c]) := by
  refine unpaired_append.mpr ⟨h, List.isChain_singleton c, ?_⟩
  intro d last e first
  cases first
  rintro ⟨high, low⟩
  refine apart ⟨?_, low⟩
  rw [endsHigh, Option.mem_def.mp last]
  exact high

/-- A text without surrogates. -/
theorem unpaired_of_encodable {s : PyStr} (h : Utf8.encodable s = true) : Unpaired s := by
  induction s with
  | nil => exact unpaired_nil
  | cons c s ih =>
    simp only [Utf8.encodable, List.all_cons, Bool.and_eq_true, Bool.not_eq_true'] at h
    refine List.isChain_cons.mpr ⟨fun d _ => ?_, ih (by simpa [Utf8.encodable] using h.2)⟩
    rintro ⟨high, -⟩
    cases (isHigh_of_plain h.1).symm.trans high

/-- Texts that meet where the one before ends, or the other begins, without a surrogate. -/
theorem Unpaired.append {a b : PyStr} (ha : Unpaired a) (hb : Unpaired b)
    (plain : Utf8.encodable a = true ∨ Utf8.encodable b = true) : Unpaired (a ++ b) := by
  refine unpaired_append.mpr ⟨ha, hb, fun c last d first => ?_⟩
  rcases plain with plain | plain
  · rintro ⟨high, -⟩
    have := List.all_eq_true.mp plain c (List.mem_of_getLast? last)
    rw [Bool.not_eq_true'] at this
    cases (isHigh_of_plain this).symm.trans high
  · refine apart_of_not_low ?_
    have := List.all_eq_true.mp plain d (List.mem_of_head? first)
    rw [Bool.not_eq_true'] at this
    simp only [Utf8.isSurrogate, isLow, Bool.and_eq_false_iff, decide_eq_false_iff_not] at this ⊢
    omega

end Texts

section Reading

variable {py : Python} {asKey high : Bool} {read : PyStr} {stack : List Frame} {c : CodePoint}

theorem unit_apart {n : Nat} (apart : ¬ (high = true ∧ isLow n = true)) :
    unit asKey read high n = .text asKey (read ++ [Fin.ofNat _ n]) .plain (isHigh n) := by
  unfold unit
  split
  · rw [if_neg (by simpa using apart)]
  · rfl

theorem escaped_small {d : CodePoint} (h : escaped? d = some c) : c.val < 0x80 := by
  unfold escaped? at h
  split at h
  · rename_i mark
    cases h
    rcases mark with rfl | rfl | rfl <;> decide
  repeat' split at h
  all_goals cases h
  all_goals decide

/-- Only ASCII characters are written directly. -/
theorem direct_small (eq : Dumps.char true c = [c]) : c.val < 0x7F := by
  refine Nat.lt_of_not_le fun large => ?_
  have far : ¬ ((!true) = true ∨ c.val < 0x7F) := by
    rintro (wrong | small)
    · cases wrong
    · omega
  have other (d : CodePoint) (small : d.val < 0x7F) : c ≠ d := by
    rintro rfl
    omega
  rw [Dumps.char, if_neg (other (ch '"') (by decide)), if_neg (other (ch '\\') (by decide)),
    if_neg (other 10 (by decide)), if_neg (other 13 (by decide)), if_neg (other 9 (by decide)),
    if_neg (other 12 (by decide)), if_neg (other 8 (by decide)), if_neg (by omega), if_neg far] at eq
  have length := congrArg List.length eq
  split at length
  · cases length
  · cases length

/-- A character is read as itself, a surrogate too if no high one stands before a low one. -/
theorem run_apart (apart : ¬ (high = true ∧ isLow c.val = true)) :
    run py ⟨.text asKey read .plain high, stack⟩ (Dumps.char true c) =
      .ok ⟨.text asKey (read ++ [c]) .plain (isHigh c.val), stack⟩ := by
  cases written true c with
  | short d eq value other clean =>
    have first : step py ⟨.text asKey read .plain high, stack⟩ (ch '\\') =
        .ok ⟨.text asKey read .slash high, stack⟩ := rfl
    have second : step py ⟨.text asKey read .slash high, stack⟩ (ch d) =
        .ok ⟨.text asKey (read ++ [c]) .plain false, stack⟩ := by
      simp [step, stepText, other, value]
    have small := escaped_small value
    rw [eq, run_step first, run_step second, run_nil, isHigh_small (by omega)]
  | number eq low => rw [eq, run_escapeUnit low, unit_apart apart, ofNat_val]
  | direct eq quote slash control =>
    have small := direct_small eq
    have plain : isHigh c.val = false := isHigh_small (by omega)
    have here : step py ⟨.text asKey read .plain high, stack⟩ c =
        .ok ⟨.text asKey (read ++ [c]) .plain false, stack⟩ := by
      simp [step, stepText, quote, slash, Nat.not_lt.mpr control]
    rw [eq, run_step here, run_nil, plain]
  | pair eq wide =>
    have bound := c.isLt
    have lead : 0xD800 + (c.val - 0x10000) / 1024 < 0xDC00 := by omega
    have first : run py ⟨.text asKey read .plain high, stack⟩
        (escapeUnit (0xD800 + (c.val - 0x10000) / 1024)) =
        run py ⟨.text asKey read .plain false, stack⟩
          (escapeUnit (0xD800 + (c.val - 0x10000) / 1024)) := by
      have notLow : isLow (0xD800 + (c.val - 0x10000) / 1024) = false := isLow_small lead
      rw [run_escapeUnit (by omega), run_escapeUnit (by omega), unit_apart, unit_false]
      rintro ⟨-, low⟩
      cases notLow.symm.trans low
    have last : isHigh c.val = false := by
      simp only [isHigh, Bool.and_eq_false_iff, decide_eq_false_iff_not]
      omega
    rw [eq, last, ← run_pair wide, run_append, run_append, first]

/-- A text is read as itself. -/
theorem run_unpaired {s : PyStr} (apart : ∀ d ∈ s.head?, ¬ (high = true ∧ isLow d.val = true))
    (h : Unpaired s) : ∃ high', run py ⟨.text asKey read .plain high, stack⟩
      (s.flatMap (Dumps.char true)) = .ok ⟨.text asKey (read ++ s) .plain high', stack⟩ := by
  induction s generalizing read high with
  | nil => exact ⟨high, by simp⟩
  | cons c s ih =>
    obtain ⟨next, rest⟩ := List.isChain_cons.mp h
    obtain ⟨high', ran⟩ := @ih (isHigh c.val) (read ++ [c]) (fun d first => next d first) rest
    refine ⟨high', ?_⟩
    rw [List.flatMap_cons, run_then (run_apart (apart c rfl)), ran, List.append_assoc,
      List.singleton_append]

theorem reads_unpaired {s : PyStr} (h : Unpaired s) : Reads py true (.str s) stack := by
  have quote : step py ⟨.value, stack⟩ (ch '"') = .ok ⟨.text false [] .plain false, stack⟩ := rfl
  obtain ⟨high, ran⟩ := @run_unpaired py false false [] stack s (by simp) h
  refine ⟨_, ?_, ends_after _⟩
  rw [dumps, Dumps.text, List.cons_append, run_step quote, run_then ran]
  rfl

theorem reads_int {n : Int} (short : (digits n.natAbs).length ≤ maxStrDigits) {ascii : Bool} :
    Reads py ascii (.int n) stack := by
  obtain ⟨s, ran, ends⟩ := @run_int py stack _ short
  exact ⟨s, by rw [dumps]; exact ran, ends⟩

/-- A dict whose values are read as themselves is too. -/
theorem loads_dumps_obj {ascii : Bool} (room : 0 < py.maxDepth) {fields : List (PyStr × Json)}
    (distinct : (fields.map Prod.fst).Nodup) (reads : ∀ f ∈ fields, Utf8.encodable f.1 = true ∧
      ∀ before, Reads py ascii f.2 [.field before f.1]) :
    loads py (dumps ascii (.obj fields)) = .ok (.obj fields) := by
  have open_ : step py start (ch '{') = .ok ⟨.firstKey, [.obj []]⟩ := by
    have deeper : enter py .firstKey (.obj []) [] = .ok ⟨.firstKey, [.obj []]⟩ := if_pos room
    rw [← deeper]
    rfl
  have ran : run py start (dumps ascii (.obj fields)) = .ok ⟨.after (.obj fields), []⟩ := by
    rcases fields with - | ⟨⟨k, v⟩, fields⟩
    · rw [dumps, run_step open_]
      rfl
    · obtain ⟨plain, reads_⟩ := reads (k, v) (List.mem_cons_self ..)
      obtain ⟨s, ran, ends⟩ := reads_ []
      rw [dumps, List.append_assoc, List.cons_append, List.cons_append, run_step open_,
        run_key (.inl rfl) plain, run_then ran,
        run_fields (fun f mem => reads f (List.mem_cons_of_mem _ mem)) distinct ends]
      rfl
  rw [loads, ran]
  rfl

end Reading

section Reading

variable {py : Python} {c : CodePoint} {s s' : State}

/-- A value that, if it is a text, has no pair of lone surrogates. -/
def Plain (v : Json) : Prop := ∀ s, v = .str s → Unpaired s

def PlainFields (fields : List (PyStr × Json)) : Prop := ∀ f ∈ fields, Plain f.2

/-- The same of a value and of what its fields hold. -/
structure Shallow (v : Json) : Prop where
  plain : Plain v
  fields : ∀ fields, v = .obj fields → PlainFields fields

def Frame.Tidy : Frame → Prop
  | .arr _ => True
  | .obj fields | .field fields _ => PlainFields fields

def Mode.Tidy : Mode → Prop
  | .text _ read escape high => Unpaired read ∧ high = endsHigh read ∧
      ∀ digits, escape = .hex digits → digits.length ≤ 3
  | .after v => Shallow v
  | _ => True

structure State.Tidy (s : State) : Prop where
  mode : s.mode.Tidy
  stack : ∀ f ∈ s.stack, f.Tidy

theorem tidy_start : start.Tidy := ⟨trivial, nofun⟩

theorem plainFields_setField {k : PyStr} {v : Json} {fields : List (PyStr × Json)} (hv : Plain v)
    (h : PlainFields fields) : PlainFields (setField k v fields) := by
  induction fields with
  | nil => exact List.forall_mem_singleton.mpr hv
  | cons f fields ih =>
    obtain ⟨first, rest⟩ := List.forall_mem_cons.mp h
    rw [setField]
    split
    · exact List.forall_mem_cons.mpr ⟨hv, rest⟩
    · exact List.forall_mem_cons.mpr ⟨first, ih rest⟩

theorem hexOf_lt {s : PyStr} (h : s.length ≤ 4) : hexOf s < 0x10000 := by
  have digit (c : CodePoint) : (hexDigit? c).getD 0 < 16 := by
    unfold hexDigit? digit?
    repeat' split
    all_goals simp only [Option.getD_some, Option.getD_none]; omega
  have bound (s : PyStr) : hexOf s < 16 ^ s.length := by
    induction s using List.reverseRecOn with
    | nil => decide
    | append_singleton s c ih =>
      have last := digit c
      simp only [hexOf, List.foldl_append, List.foldl_cons, List.foldl_nil, List.length_append,
        List.length_singleton, Nat.pow_succ] at ih ⊢
      omega
  exact (bound s).trans_le (Nat.pow_le_pow_right (by decide) h)

theorem tidy_unit {read : PyStr} {asKey : Bool} {n : Nat} (h : Unpaired read) (small : n < 0x10000) :
    (unit asKey read (endsHigh read) n).Tidy := by
  have value : (Fin.ofNat 0x110000 n).val = n := Nat.mod_eq_of_lt (by omega)
  have apart (alone : ¬ (endsHigh read = true ∧ isLow n = true)) :
      Mode.Tidy (.text asKey (read ++ [Fin.ofNat _ n]) .plain (isHigh n)) := by
    refine ⟨unpaired_snoc h (by rwa [value]), ?_, nofun⟩
    rw [endsHigh_append, value]
  unfold unit
  split
  · rename_i c last
    split
    · rename_i joins
      -- the two halves are one character, which is no surrogate
      have pair : endsHigh read = true ∧ isLow n = true := by simpa using joins
      obtain ⟨before, rfl⟩ := List.getLast?_eq_some_iff.mp last
      have lead : isHigh c.val = true := by simpa using pair.1
      have trail := pair.2
      simp only [isHigh, isLow, Bool.and_eq_true, decide_eq_true_eq] at lead trail
      have joined : (Fin.ofNat 0x110000 (join c.val n)).val = join c.val n := by
        refine Nat.mod_eq_of_lt ?_
        unfold join
        omega
      have wide : 0x10000 ≤ join c.val n := by
        unfold join
        omega
      have notHigh : isHigh (join c.val n) = false := by
        simp only [isHigh, Bool.and_eq_false_iff, decide_eq_false_iff_not]
        omega
      have notLow : isLow (join c.val n) = false := by
        simp only [isLow, Bool.and_eq_false_iff, decide_eq_false_iff_not]
        omega
      rw [List.dropLast_concat]
      refine ⟨unpaired_snoc (unpaired_append.mp h).1 ?_, ?_, nofun⟩
      · rw [joined, notLow]
        rintro ⟨-, low⟩
        cases low
      · rw [endsHigh_append, joined, notHigh]
    · rename_i alone
      exact apart (by simpa using alone)
  · rename_i none_
    refine apart ?_
    rintro ⟨high, -⟩
    rw [endsHigh, none_] at high
    cases high

theorem plain_of_notStr {v : Json} (other : ∀ s, v ≠ .str s) : Plain v :=
  fun s eq => absurd eq (other s)

theorem shallow_arr (xs : List Json) : Shallow (.arr xs) := ⟨plain_of_notStr nofun, nofun⟩

theorem shallow_obj {fields : List (PyStr × Json)} (h : PlainFields fields) :
    Shallow (.obj fields) := by
  refine ⟨plain_of_notStr nofun, ?_⟩
  rintro _ ⟨⟩
  exact h

/-- The state that comes next is tidy, if there is one. -/
def Tidies (x : Except Fault State) : Prop := ∀ s, x = .ok s → s.Tidy

theorem Tidies.ok {mode : Mode} {stack : List Frame} (hm : mode.Tidy) (frames : ∀ f ∈ stack, f.Tidy) :
    Tidies (.ok ⟨mode, stack⟩) := by
  rintro _ ⟨⟩
  exact ⟨hm, frames⟩

theorem Tidies.error (fault : Fault) : Tidies (.error fault) := nofun

theorem Tidies.ite {p : Prop} [Decidable p] {x y : Except Fault State} (hx : Tidies x)
    (hy : Tidies y) : Tidies (if p then x else y) := by
  by_cases h : p
  · rwa [if_pos h]
  · rwa [if_neg h]

theorem tidies_after {v : Json} {stack : List Frame} (hv : Shallow v) (frames : ∀ f ∈ stack, f.Tidy) :
    Tidies (stepAfter v stack c) := by
  unfold stepAfter
  refine .ite (.ok hv frames) ?_
  match stack with
  | .arr items :: rest =>
    have below := (List.forall_mem_cons.mp frames).2
    have open_ : ∀ f ∈ .arr (items ++ [v]) :: rest, f.Tidy :=
      List.forall_mem_cons.mpr ⟨trivial, below⟩
    exact .ite (.ok trivial open_) (.ite (.ok (shallow_arr _) below) (.error _))
  | .field fields k :: rest =>
    obtain ⟨here, below⟩ := List.forall_mem_cons.mp frames
    have set_ : PlainFields (setField k v fields) := plainFields_setField hv.plain here
    have open_ : ∀ f ∈ .obj (setField k v fields) :: rest, f.Tidy :=
      List.forall_mem_cons.mpr ⟨set_, below⟩
    exact .ite (.ok trivial open_) (.ite (.ok (shallow_obj set_) below) (.error _))
  | [] | .obj _ :: _ => exact .error _

theorem tidies_enter {mode : Mode} {frame : Frame} {stack : List Frame} (hm : mode.Tidy)
    (hf : frame.Tidy) (frames : ∀ f ∈ stack, f.Tidy) : Tidies (enter py mode frame stack) :=
  .ite (.ok hm (List.forall_mem_cons.mpr ⟨hf, frames⟩)) (.error _)

theorem tidy_opened (asKey : Bool) : (Mode.text asKey [] .plain false).Tidy :=
  ⟨unpaired_nil, rfl, nofun⟩

theorem tidies_value {stack : List Frame} (frames : ∀ f ∈ stack, f.Tidy) :
    Tidies (stepValue py stack c) := by
  have object : (Frame.obj []).Tidy := nofun
  have array : (Frame.arr []).Tidy := trivial
  have word (w : Word) : Tidies (.ok ⟨.word w 1, stack⟩) := .ok trivial frames
  have number (part : NumPart) (n : Nat) : Tidies (.ok ⟨.number part [c] n, stack⟩) :=
    .ok trivial frames
  unfold stepValue
  refine .ite (.ok (tidy_opened false) frames) (.ite (tidies_enter trivial object frames)
    (.ite (tidies_enter trivial array frames) ?_))
  exact .ite (word _) (.ite (word _) (.ite (word _) (.ite (word _) (.ite (word _) (.ite (number _ _)
    (.ite (number _ _) (.ite (number _ _) (.error _))))))))

theorem tidies_text {asKey high : Bool} {read : PyStr} {escape : Escape} {stack : List Frame}
    (hm : Mode.Tidy (.text asKey read escape high)) (frames : ∀ f ∈ stack, f.Tidy)
    (plain : Utf8.isSurrogate c.val = false) : Tidies (stepText asKey read escape high stack c) := by
  obtain ⟨unpaired, rfl, digits⟩ := hm
  have longer {d : CodePoint} (plain : Utf8.isSurrogate d.val = false) :
      Mode.Tidy (.text asKey (read ++ [d]) .plain false) := by
    refine ⟨unpaired_snoc unpaired ?_, ?_, (by simp)⟩
    · rintro ⟨-, low⟩
      simp only [Utf8.isSurrogate, isLow, Bool.and_eq_false_iff, decide_eq_false_iff_not,
        Bool.and_eq_true, decide_eq_true_eq] at plain low
      omega
    · rw [endsHigh_append, isHigh_of_plain plain]
  have hex {digits : PyStr} (short : digits.length ≤ 3) :
      Mode.Tidy (.text asKey read (.hex digits) (endsHigh read)) := by
    refine ⟨unpaired, rfl, ?_⟩
    rintro _ ⟨⟩
    exact short
  have ended : Tidies (endText asKey read stack) := by
    unfold endText
    cases asKey with
    | true =>
      cases stack with
      | nil => exact .error _
      | cons frame rest =>
        cases frame with
        | obj fields =>
          obtain ⟨here, below⟩ := List.forall_mem_cons.mp frames
          exact .ok trivial (List.forall_mem_cons.mpr ⟨here, below⟩)
        | arr | field => exact .error _
    | false =>
      refine .ok ⟨?_, (by simp)⟩ frames
      rintro _ ⟨⟩
      exact unpaired
  cases escape with
  | plain =>
    exact .ite ended (.ite (.ok ⟨unpaired, rfl, (by simp)⟩ frames)
      (.ite (.error _) (.ok (longer plain) frames)))
  | slash =>
    refine .ite (.ok (hex (Nat.zero_le _)) frames) ?_
    cases value : escaped? c with
    | none => exact .error _
    | some d =>
      have small := escaped_small value
      exact .ok (longer (Utf8.not_surrogate_iff.mpr (.inl (by omega)))) frames
  | hex read_ =>
    have short := digits read_ rfl
    by_cases more : read_.length < 3
    · rw [stepText, if_pos more]
      refine .ite (.error _) (.ok (hex ?_) frames)
      rw [List.length_append, List.length_singleton]
      omega
    · rw [stepText, if_neg more]
      refine .ite (.error _) (.ok (tidy_unit unpaired (hexOf_lt ?_)) frames)
      rw [List.length_append, List.length_singleton]
      omega

theorem shallow_number {part : NumPart} {read : PyStr} {digits : Nat} {v : Json}
    (h : number py part read digits = .ok v) : Shallow v := by
  unfold number at h
  repeat' split at h
  all_goals cases h
  all_goals exact ⟨plain_of_notStr nofun, nofun⟩

theorem shallow_word (w : Word) : Shallow w.value := by
  cases w <;> exact ⟨plain_of_notStr nofun, nofun⟩

/-- A step on a character that is no surrogate. -/
theorem tidies_step (hs : s.Tidy) (plain : Utf8.isSurrogate c.val = false) : Tidies (step py s c) := by
  obtain ⟨mode, stack⟩ := s
  obtain ⟨hm, frames⟩ := hs
  have tail : ∀ f ∈ stack.tail, f.Tidy := fun f mem => frames f (List.mem_of_mem_tail mem)
  have quoted : Tidies (.ok ⟨.text true [] .plain false, stack⟩) := .ok (tidy_opened true) frames
  have waits {mode : Mode} (hm : mode.Tidy) : Tidies (.ok ⟨mode, stack⟩) := .ok hm frames
  cases mode with
  | value => exact .ite (waits trivial) (tidies_value frames)
  | first => exact .ite (waits trivial) (.ite (.ok (shallow_arr _) tail) (tidies_value frames))
  | firstKey =>
    exact .ite (waits trivial) (.ite (.ok (shallow_obj nofun) tail) (.ite quoted (.error _)))
  | key => exact .ite (waits trivial) (.ite quoted (.error _))
  | colon => exact .ite (waits trivial) (.ite (waits trivial) (.error _))
  | text asKey read escape high => exact tidies_text hm frames plain
  | number part read digits =>
    refine .ite (waits trivial) ?_
    cases part.next? c with
    | some next => exact waits trivial
    | none =>
      cases value : number py part read digits with
      | ok v => exact tidies_after (shallow_number value) frames
      | error fault => exact .error _
  | word w read => exact .ite (.error _) (.ite (waits (shallow_word w)) (waits trivial))
  | after v => exact tidies_after hm frames

theorem tidy_run {text : PyStr} (hs : s.Tidy) (plain : Utf8.encodable text = true)
    (h : run py s text = .ok s') : s'.Tidy := by
  induction text generalizing s with
  | nil =>
    cases h
    exact hs
  | cons c text ih =>
    simp only [Utf8.encodable, List.all_cons, Bool.and_eq_true, Bool.not_eq_true'] at plain
    rw [run_cons] at h
    cases stepped : step py s c with
    | error fault =>
      rw [stepped] at h
      cases h
    | ok t =>
      rw [stepped] at h
      exact ih (tidies_step hs plain.1 t stepped) (by simpa [Utf8.encodable] using plain.2) h

/-- What json.loads returns of a text without surrogates. -/
theorem shallow_loads {text : PyStr} {v : Json} (plain : Utf8.encodable text = true)
    (h : loads py text = .ok v) : Shallow v := by
  unfold loads at h
  cases ran : run py start text with
  | error fault =>
    rw [ran] at h
    cases h
  | ok s =>
    have tidy := tidy_run tidy_start plain ran
    rw [ran] at h
    change finish py s = .ok v at h
    have closed {w : Json} {stack : List Frame} (h : close w stack = .ok v) : w = v := by
      cases stack with
      | nil => exact Except.ok.inj h
      | cons f stack => cases h
    obtain ⟨mode, stack⟩ := s
    cases mode with
    | after w => exact closed h ▸ tidy.mode
    | number part read digits =>
      dsimp only [finish] at h
      cases value : number py part read digits with
      | error fault =>
        rw [value] at h
        cases h
      | ok w =>
        rw [value] at h
        exact closed h ▸ shallow_number value
    | _ => cases h

end Reading

end Loads

end Lib
