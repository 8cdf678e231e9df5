import Drnt.Lib.Surrogates

/-! json.dumps with an indent: every item and every field on a line of its own. What is written is
read back, and no part of it that ends early is. -/
namespace Lib

namespace Dumps

open Loads (ch)

/-- A line break and the indent of a depth. -/
def newline (indent depth : Nat) : PyStr := ch '\n' :: List.replicate (indent * depth) (ch ' ')

variable (indent : Nat)

mutual

/-- With ensure_ascii, and with ": " after a key. -/
def pretty (depth : Nat) : Json → PyStr
  | .arr (x :: xs) =>
    ch '[' :: newline indent (depth + 1) ++ pretty (depth + 1) x ++ prettyItems depth xs
  | .obj ((k, v) :: fields) =>
    ch '{' :: newline indent (depth + 1) ++ text true k ++ ch ':' :: ch ' ' ::
      pretty (depth + 1) v ++ prettyFields depth fields
  | v => dumps true v

def prettyItems (depth : Nat) : List Json → PyStr
  | [] => newline indent depth ++ [ch ']']
  | x :: xs =>
    ch ',' :: newline indent (depth + 1) ++ pretty (depth + 1) x ++ prettyItems depth xs

def prettyFields (depth : Nat) : List (PyStr × Json) → PyStr
  | [] => newline indent depth ++ [ch '}']
  | (k, v) :: fields =>
    ch ',' :: newline indent (depth + 1) ++ text true k ++ ch ':' :: ch ' ' ::
      pretty (depth + 1) v ++ prettyFields depth fields

end

end Dumps

namespace Loads

open Dumps (dumps newline pretty prettyItems prettyFields)

section Values

/-- Values that json.loads can return, with at most so many containers in one another: a surrogate
may stand alone in a text. -/
inductive Readable (py : Python) : Nat → Json → Prop
  | null {n} : Readable py n .null
  | bool {n} (b : Bool) : Readable py n (.bool b)
  | int {n} {k : Int} (short : (digits k.natAbs).length ≤ maxStrDigits) : Readable py n (.int k)
  | float {n x} (text : FloatText py x) : Readable py n (.float x)
  | str {n s} (unpaired : Unpaired s) : Readable py n (.str s)
  | arr {n xs} (items : ∀ x ∈ xs, Readable py n x) : Readable py (n + 1) (.arr xs)
  | obj {n fields} (distinct : (fields.map Prod.fst).Nodup)
      (keys : ∀ f ∈ fields, Unpaired f.1) (values : ∀ f ∈ fields, Readable py n f.2) :
      Readable py (n + 1) (.obj fields)

variable {py : Python} {indent depth : Nat} {stack : List Frame} {v : Json} {s : State}

theorem newline_spaces : ∀ c ∈ newline indent depth, isSpace c = true := by
  intro c mem
  rcases List.mem_cons.mp mem with rfl | mem
  · rfl
  · rw [List.eq_of_mem_replicate mem]
    rfl

theorem run_spaces {spaces : PyStr} (all : ∀ c ∈ spaces, isSpace c = true)
    (stays : ∀ c, isSpace c = true → step py s c = .ok s) : run py s spaces = .ok s := by
  induction spaces with
  | nil => rfl
  | cons c spaces ih =>
    rw [run_step (stays c (all c (List.mem_cons_self ..)))]
    exact ih fun d mem => all d (List.mem_cons_of_mem _ mem)

/-- A state that waits for something passes over a line break. -/
theorem run_newline (stays : ∀ c, isSpace c = true → step py s c = .ok s) (text : PyStr) :
    run py s (newline indent depth ++ text) = run py s text :=
  run_then (run_spaces newline_spaces stays) text

theorem stays_value (c : CodePoint) (space : isSpace c = true) :
    step py ⟨.value, stack⟩ c = .ok ⟨.value, stack⟩ := by simp [step, space]

theorem stays_first (c : CodePoint) (space : isSpace c = true) :
    step py ⟨.first, stack⟩ c = .ok ⟨.first, stack⟩ := by simp [step, space]

theorem stays_firstKey (c : CodePoint) (space : isSpace c = true) :
    step py ⟨.firstKey, stack⟩ c = .ok ⟨.firstKey, stack⟩ := by simp [step, space]

theorem stays_key (c : CodePoint) (space : isSpace c = true) :
    step py ⟨.key, stack⟩ c = .ok ⟨.key, stack⟩ := by simp [step, space]

theorem stays_after (c : CodePoint) (space : isSpace c = true) :
    step py ⟨.after v, stack⟩ c = .ok ⟨.after v, stack⟩ := by simp [step, stepAfter, space]

/-- A value has ended when the line has. -/
theorem run_ended (ends : Ends py s v stack) (text : PyStr) :
    run py s (newline indent depth ++ text) = run py ⟨.after v, stack⟩ text := by
  have first : step py s (ch '\n') = .ok ⟨.after v, stack⟩ := by
    rw [ends.2 _ (.inr (.inr (.inr rfl)))]
    rfl
  rw [newline, List.cons_append, run_step first]
  refine run_then (run_spaces ?_ stays_after) text
  intro c mem
  rw [List.eq_of_mem_replicate mem]
  rfl

/-- A key with its colon and the space, from a state that waits for a key. -/
theorem run_key_unpaired {mode : Mode} (waits : mode = .firstKey ∨ mode = .key) {k : PyStr}
    (unpaired : Unpaired k) (fields : List (PyStr × Json)) (text : PyStr) :
    run py ⟨mode, .obj fields :: stack⟩ (Dumps.text true k ++ ch ':' :: ch ' ' :: text) =
      run py ⟨.value, .field fields k :: stack⟩ text := by
  have quote : step py ⟨mode, .obj fields :: stack⟩ (ch '"') =
      .ok ⟨.text true [] .plain false, .obj fields :: stack⟩ := by
    rcases waits with rfl | rfl <;> rfl
  obtain ⟨high, ran⟩ := @run_unpaired py true false [] (.obj fields :: stack) k (by simp) unpaired
  have close_ : step py ⟨.text true k .plain high, .obj fields :: stack⟩ (ch '"') =
      .ok ⟨.colon, .field fields k :: stack⟩ := rfl
  have colon : step py ⟨.colon, .field fields k :: stack⟩ (ch ':') =
      .ok ⟨.value, .field fields k :: stack⟩ := rfl
  rw [Dumps.text, List.cons_append, List.cons_append, run_step quote, List.append_assoc,
    run_then ran, List.nil_append, List.singleton_append, run_step close_, run_step colon,
    run_step (stays_value _ rfl)]

/-- The value is read as itself when it is written with an indent. -/
def Shows (py : Python) (indent depth : Nat) (v : Json) (stack : List Frame) : Prop :=
  ∃ s, run py ⟨.value, stack⟩ (pretty indent depth v) = .ok s ∧ Ends py s v stack

theorem run_prettyItems {xs : List Json}
    (shows_ : ∀ x ∈ xs, ∀ items, Shows py indent (depth + 1) x (.arr items :: stack))
    {items : List Json} {x : Json} (ends : Ends py s x (.arr items :: stack)) :
    run py s (prettyItems indent depth xs) = .ok ⟨.after (.arr (items ++ x :: xs)), stack⟩ := by
  induction xs generalizing items x s with
  | nil =>
    rw [prettyItems, run_ended ends]
    rfl
  | cons y ys ih =>
    have comma : step py s (ch ',') = .ok ⟨.value, .arr (items ++ [x]) :: stack⟩ :=
      ends.2 _ (.inl rfl)
    obtain ⟨s', ran, ends'⟩ := shows_ y (List.mem_cons_self ..) (items ++ [x])
    rw [prettyItems, List.append_assoc, List.cons_append, run_step comma,
      run_newline stays_value, run_then ran,
      ih (fun z mem => shows_ z (List.mem_cons_of_mem _ mem)) ends', List.append_assoc]
    rfl

theorem run_prettyFields {fs : List (PyStr × Json)}
    (shows_ : ∀ f ∈ fs, Unpaired f.1 ∧
      ∀ fields, Shows py indent (depth + 1) f.2 (.field fields f.1 :: stack))
    {fields : List (PyStr × Json)} {k : PyStr} {v : Json}
    (distinct : ((fields ++ (k, v) :: fs).map Prod.fst).Nodup)
    (ends : Ends py s v (.field fields k :: stack)) :
    run py s (prettyFields indent depth fs) =
      .ok ⟨.after (.obj (fields ++ (k, v) :: fs)), stack⟩ := by
  induction fs generalizing fields k v s with
  | nil =>
    rw [prettyFields, run_ended ends, ← setField_fresh (fresh_key distinct)]
    rfl
  | cons f fs ih =>
    obtain ⟨l, w⟩ := f
    have comma : step py s (ch ',') = .ok ⟨.key, .obj (fields ++ [(k, v)]) :: stack⟩ := by
      rw [ends.2 _ (.inl rfl), ← setField_fresh (fresh_key distinct)]
      rfl
    obtain ⟨unpaired, value⟩ := shows_ (l, w) (List.mem_cons_self ..)
    obtain ⟨s', ran, ends'⟩ := value (fields ++ [(k, v)])
    have later : ((fields ++ [(k, v)] ++ (l, w) :: fs).map Prod.fst).Nodup := by
      simpa using distinct
    have rest := ih (fun g mem => shows_ g (List.mem_cons_of_mem _ mem)) later ends'
    simp only [prettyFields, List.append_assoc, List.cons_append]
    rw [run_step comma, run_newline stays_key, run_key_unpaired (.inr rfl) unpaired,
      run_then ran, rest]
    simp

/-- What has no lines of its own. -/
def Bare (v : Json) : Prop :=
  (∀ x xs, v ≠ .arr (x :: xs)) ∧ ∀ k w fields, v ≠ .obj ((k, w) :: fields)

theorem pretty_bare (bare : Bare v) : pretty indent depth v = dumps true v := by
  rw [pretty]
  · exact bare.1
  · exact bare.2

theorem pretty_opens {n : Nat} (h : Readable py n v) :
    ∃ c rest, pretty indent depth v = c :: rest ∧ Opens c := by
  cases h with
  | null =>
    rw [pretty_bare ⟨by simp, by simp⟩]
    exact dumps_opens (@Fits.null py n)
  | bool b =>
    rw [pretty_bare ⟨by simp, by simp⟩]
    exact dumps_opens (@Fits.bool py n b)
  | int short =>
    rw [pretty_bare ⟨by simp, by simp⟩]
    exact dumps_opens (@Fits.int py n _ short)
  | float text =>
    rw [pretty_bare ⟨by simp, by simp⟩]
    exact dumps_opens (@Fits.float py n _ text)
  | str unpaired =>
    rw [pretty_bare ⟨by simp, by simp⟩]
    exact ⟨ch '"', _, rfl, rfl, by decide⟩
  | @arr n xs items =>
    cases xs with
    | nil =>
      rw [pretty_bare ⟨by simp, by simp⟩]
      exact ⟨ch '[', _, by rw [dumps], rfl, by decide⟩
    | cons x xs => exact ⟨ch '[', _, by rw [pretty]; rfl, rfl, by decide⟩
  | @obj n fields distinct keys values =>
    rcases fields with - | ⟨⟨k, w⟩, fields⟩
    · rw [pretty_bare ⟨by simp, by simp⟩]
      exact ⟨ch '{', _, by rw [dumps], rfl, by decide⟩
    · exact ⟨ch '{', _, by rw [pretty]; rfl, rfl, by decide⟩

theorem run_first_pretty {n : Nat} (h : Readable py n v) :
    run py ⟨.first, stack⟩ (pretty indent depth v) =
      run py ⟨.value, stack⟩ (pretty indent depth v) := by
  obtain ⟨c, rest, eq, space, other⟩ := @pretty_opens py indent depth v n h
  have same : step py ⟨.first, stack⟩ c = step py ⟨.value, stack⟩ c := by
    simp [step, space, other]
  rw [eq, run_cons, run_cons, same]

theorem shows_bare (bare : Bare v) (reads : Reads py true v stack) :
    Shows py indent depth v stack := by
  obtain ⟨s, ran, ends⟩ := reads
  exact ⟨s, by rw [pretty_bare bare]; exact ran, ends⟩

theorem run_pretty {n : Nat} (h : Readable py n v) (stack : List Frame) (depth : Nat)
    (room : stack.length + n ≤ py.maxDepth) : Shows py indent depth v stack := by
  induction h generalizing stack depth with
  | null => exact shows_bare ⟨by simp, by simp⟩ (run_dumps .null stack room)
  | bool b => exact shows_bare ⟨by simp, by simp⟩ (run_dumps (.bool b) stack room)
  | int short => exact shows_bare ⟨by simp, by simp⟩ (run_dumps (.int short) stack room)
  | float text => exact shows_bare ⟨by simp, by simp⟩ (run_dumps (.float text) stack room)
  | str unpaired => exact shows_bare ⟨by simp, by simp⟩ (reads_unpaired unpaired)
  | @arr n xs items ih =>
    have open_ : step py ⟨.value, stack⟩ (ch '[') = .ok ⟨.first, .arr [] :: stack⟩ := by
      have deeper : enter py .first (.arr []) stack = .ok ⟨.first, .arr [] :: stack⟩ :=
        if_pos (by omega)
      rw [← deeper]
      rfl
    have shows_ : ∀ x ∈ xs, ∀ items, Shows py indent (depth + 1) x (.arr items :: stack) :=
      fun x mem items => ih x mem _ _ (by rw [List.length_cons]; omega)
    cases xs with
    | nil => exact shows_bare ⟨by simp, by simp⟩ (run_dumps (.arr (by simp)) stack room)
    | cons x xs =>
      obtain ⟨s, ran, ends⟩ := shows_ x (List.mem_cons_self ..) []
      refine ⟨_, ?_, ends_after _⟩
      simp only [pretty, List.append_assoc, List.cons_append]
      rw [run_step open_, run_newline stays_first,
        run_then ((run_first_pretty (items x (List.mem_cons_self ..))).trans ran),
        run_prettyItems (fun y mem => shows_ y (List.mem_cons_of_mem _ mem)) ends]
      rfl
  | @obj n fields distinct keys values ih =>
    have open_ : step py ⟨.value, stack⟩ (ch '{') = .ok ⟨.firstKey, .obj [] :: stack⟩ := by
      have deeper : enter py .firstKey (.obj []) stack = .ok ⟨.firstKey, .obj [] :: stack⟩ :=
        if_pos (by omega)
      rw [← deeper]
      rfl
    have shows_ : ∀ f ∈ fields, Unpaired f.1 ∧
        ∀ before, Shows py indent (depth + 1) f.2 (.field before f.1 :: stack) := fun f mem =>
      ⟨keys f mem, fun before => ih f mem _ _ (by rw [List.length_cons]; omega)⟩
    rcases fields with - | ⟨⟨k, w⟩, fields⟩
    · exact shows_bare ⟨by simp, by simp⟩
        (run_dumps (.obj (by simp) (by simp) (by simp)) stack room)
    · obtain ⟨unpaired, value⟩ := shows_ (k, w) (List.mem_cons_self ..)
      obtain ⟨s, ran, ends⟩ := value []
      refine ⟨_, ?_, ends_after _⟩
      simp only [pretty, List.append_assoc, List.cons_append]
      rw [run_step open_, run_newline stays_firstKey, run_key_unpaired (.inl rfl) unpaired,
        run_then ran,
        run_prettyFields (fun f mem => shows_ f (List.mem_cons_of_mem _ mem)) distinct ends]
      rfl

/-- What is written is read back. -/
theorem loads_pretty (indent : Nat) (h : Readable py py.maxDepth v) :
    loads py (pretty indent 0 v) = .ok v := by
  obtain ⟨s, ran, ends, -⟩ := @run_pretty py indent v _ h [] 0 (by simp)
  have value : run py start (pretty indent 0 v) = .ok s := ran
  have finished : finish py s = .ok v := ends
  rw [loads, value]
  exact finished

end Values

section Prefix

variable {py : Python} {s s' : State} {c : CodePoint} {v : Json} {text : PyStr}

/-- A state that could end here: outside every container, after a value or in a number. -/
def Done (s : State) : Prop :=
  s.stack = [] ∧ ((∃ v, s.mode = .after v) ∨
    ∃ part read k, s.mode = .number part read k ∧ part ≠ .minus)

theorem done_of_finish (h : finish py s = .ok v) : Done s := by
  obtain ⟨mode, stack⟩ := s
  cases mode with
  | after w =>
    cases stack with
    | nil => exact ⟨rfl, .inl ⟨w, rfl⟩⟩
    | cons frame stack => cases h
  | number part read k =>
    simp only [finish] at h
    cases read_ : number py part read k with
    | error fault =>
      rw [read_] at h
      cases h
    | ok w =>
      rw [read_] at h
      refine ⟨?_, .inr ⟨part, read, k, rfl, ?_⟩⟩
      · cases stack with
        | nil => rfl
        | cons frame stack => cases h
      · rintro rfl
        cases read_
  | _ => cases h

/-- Outside every container nothing follows a value but spaces. -/
theorem stepAfter_outside (h : stepAfter v [] c = .ok s) : s = ⟨.after v, []⟩ ∧ c ≠ ch '}' := by
  unfold stepAfter at h
  split at h
  case isTrue space =>
    cases h
    refine ⟨rfl, ?_⟩
    rintro rfl
    cases space
  case isFalse => cases h

/-- The parts of a number never lead back to its sign, and none is a brace. -/
theorem next_part {part part' : NumPart} (next : part.next? c = some part') :
    part' ≠ .minus ∧ c ≠ ch '}' := by
  constructor
  · rintro rfl
    cases part <;> grind [NumPart.next?]
  · rintro rfl
    cases part <;> cases next

theorem done_step (done : Done s) (ran : step py s c = .ok s') : Done s' ∧ c ≠ ch '}' := by
  obtain ⟨mode, stack⟩ := s
  obtain ⟨outside, ⟨v, here⟩ | ⟨part, read, k, here, other⟩⟩ := done
  · cases outside
    cases here
    obtain ⟨rfl, brace⟩ := stepAfter_outside ran
    exact ⟨⟨rfl, .inl ⟨v, rfl⟩⟩, brace⟩
  · cases outside
    cases here
    simp only [step, stepNumber, other, false_and, if_false] at ran
    cases next : part.next? c with
    | some part' =>
      rw [next] at ran
      cases ran
      obtain ⟨other', brace⟩ := next_part next
      exact ⟨⟨rfl, .inr ⟨part', _, _, rfl, other'⟩⟩, brace⟩
    | none =>
      rw [next] at ran
      dsimp only at ran
      cases read_ : number py part read k with
      | error fault =>
        rw [read_] at ran
        cases ran
      | ok w =>
        rw [read_] at ran
        obtain ⟨rfl, brace⟩ := stepAfter_outside ran
        exact ⟨⟨rfl, .inl ⟨w, rfl⟩⟩, brace⟩

theorem done_run (done : Done s) (ran : run py s text = .ok s') : ch '}' ∉ text := by
  induction text generalizing s with
  | nil => exact List.not_mem_nil
  | cons c text ih =>
    rw [run_cons] at ran
    cases here : step py s c with
    | error fault =>
      rw [here] at ran
      cases ran
    | ok next =>
      rw [here] at ran
      obtain ⟨done', other⟩ := done_step done here
      rw [List.mem_cons, not_or]
      exact ⟨other.symm, ih done' ran⟩

/-- A text that is cut before a closing brace is not read. -/
theorem loads_cut {front back : PyStr} (whole : loads py (front ++ back) = .ok v)
    (brace : ch '}' ∈ back) : ∃ fault, loads py front = .error fault := by
  rw [loads, run_append] at whole
  rw [loads]
  cases ran : run py start front with
  | error fault => exact ⟨fault, rfl⟩
  | ok s =>
    rw [ran] at whole
    cases ended : finish py s with
    | error fault => exact ⟨fault, ended⟩
    | ok w =>
      have rest : (run py s back).bind (finish py) = .ok v := whole
      cases ran' : run py s back with
      | error fault =>
        rw [ran'] at rest
        cases rest
      | ok s' => exact absurd brace (done_run (done_of_finish ended) ran')

variable {indent depth : Nat}

theorem fields_brace (fields : List (PyStr × Json)) :
    ∃ front, prettyFields indent depth fields = front ++ [ch '}'] := by
  induction fields with
  | nil => exact ⟨_, by rw [prettyFields]⟩
  | cons f fields ih =>
    obtain ⟨front, eq⟩ := ih
    obtain ⟨k, w⟩ := f
    exact ⟨_, by rw [prettyFields, eq, ← List.append_assoc]⟩

/-- What is written of an object cannot be read before its last character. -/
theorem loads_pretty_cut (indent : Nat) {fields : List (PyStr × Json)}
    (h : Readable py py.maxDepth (.obj fields)) {n : Nat}
    (short : n < (pretty indent 0 (.obj fields)).length) :
    ∃ fault, loads py ((pretty indent 0 (.obj fields)).take n) = .error fault := by
  have last : ∃ front, pretty indent 0 (.obj fields) = front ++ [ch '}'] := by
    rcases fields with - | ⟨⟨k, w⟩, fields⟩
    · exact ⟨[ch '{'], by rw [pretty_bare ⟨by simp, by simp⟩, dumps]; rfl⟩
    · obtain ⟨front, eq⟩ := @fields_brace indent 0 fields
      exact ⟨_, by rw [pretty, eq, ← List.append_assoc]⟩
  obtain ⟨front, eq⟩ := last
  have whole := loads_pretty indent h
  rw [← List.take_append_drop n (pretty indent 0 (.obj fields))] at whole
  refine loads_cut whole ?_
  rw [eq, List.length_append, List.length_singleton] at short
  rw [eq, List.drop_append_of_le_length (by omega)]
  exact List.mem_append_right _ (List.mem_singleton_self _)

end Prefix

section Bytes

variable {py : Python} {indent depth : Nat} {v : Json} {s : PyStr}

/-- Characters of one byte, none of which is a zero. -/
def Ascii (s : PyStr) : Prop := ∀ c ∈ s, 0 < c.val ∧ c.val < 0x80

theorem Ascii.append {a b : PyStr} (ha : Ascii a) (hb : Ascii b) : Ascii (a ++ b) := by
  intro c mem
  rcases List.mem_append.mp mem with mem | mem
  · exact ha c mem
  · exact hb c mem

theorem Ascii.cons {c : CodePoint} (hc : 0 < c.val ∧ c.val < 0x80) (hs : Ascii s) :
    Ascii (c :: s) := List.forall_mem_cons.mpr ⟨hc, hs⟩

/-- The test a literal's text is put to. -/
theorem ascii_of_all (h : (s.all fun c => decide (0 < c.val ∧ c.val < 0x80)) = true) :
    Ascii s := by
  intro c mem
  exact of_decide_eq_true (List.all_eq_true.mp h c mem)

theorem ascii_nil : Ascii [] := by simp [Ascii]

theorem ascii_newline : Ascii (newline indent depth) := by
  refine .cons (by decide) fun c mem => ?_
  rw [List.eq_of_mem_replicate mem]
  decide

theorem ascii_of_numeric (h : ∀ c ∈ s, isNumeric c = true) : Ascii s := by
  intro c mem
  have numeric := h c mem
  simp only [isNumeric, Bool.or_eq_true, decide_eq_true_eq] at numeric
  rcases numeric with ((((digit | rfl) | rfl) | rfl) | rfl) | rfl
  · have range : 0x30 ≤ c.val ∧ c.val ≤ 0x39 := by
      by_contra out
      simp [isDigit, digit?, out] at digit
    omega
  all_goals decide

theorem ascii_int (n : Int) : Ascii (Dumps.int n) := by
  have all (k : Nat) : Ascii (digits k) := by
    refine ascii_of_numeric fun c mem => ?_
    simp [isNumeric, (digits_spec k).2.1 c mem]
  cases n with
  | ofNat k =>
    rw [Int.ofNat_eq_natCast, int_nonneg]
    exact all k
  | negSucc k =>
    rw [int_neg]
    exact .cons (by decide) (all _)

theorem ascii_escapeUnit (n : Nat) : Ascii (Dumps.escapeUnit n) := by
  have table : ∀ k < 16, 0 < (Dumps.hexDigit k).val ∧ (Dumps.hexDigit k).val < 0x80 := by decide
  have d (k : Nat) := table (k % 16) (Nat.mod_lt _ (by decide))
  exact .cons (by decide) (.cons (by decide)
    (.cons (d _) (.cons (d _) (.cons (d _) (.cons (d _) ascii_nil)))))

theorem ascii_char (c : CodePoint) : Ascii (Dumps.char true c) := by
  cases written true c with
  | short d eq value other clean =>
    rw [eq]
    exact .cons (by decide) (.cons (by omega) ascii_nil)
  | number eq low =>
    rw [eq]
    exact ascii_escapeUnit _
  | direct eq quote slash control =>
    have small := direct_small eq
    rw [eq]
    exact .cons (by omega) ascii_nil
  | pair eq high =>
    rw [eq]
    exact (ascii_escapeUnit _).append (ascii_escapeUnit _)

theorem ascii_text (s : PyStr) : Ascii (Dumps.text true s) := by
  have inner : Ascii (s.flatMap (Dumps.char true)) := by
    intro c mem
    obtain ⟨d, -, mem⟩ := List.mem_flatMap.mp mem
    exact ascii_char d c mem
  exact .append (.cons (by decide) inner) (.cons (by decide) ascii_nil)

theorem ascii_float {x : PyFloat} (text : FloatText py x) : Ascii (Lib.py x.literal) := by
  rcases text with eq | eq | eq | ⟨-, -, -, -, numeric, -⟩
  · rw [eq]
    exact ascii_of_all (by decide)
  · rw [eq]
    exact ascii_of_all (by decide)
  · rw [eq]
    exact ascii_of_all (by decide)
  · exact ascii_of_numeric numeric

theorem ascii_items {xs : List Json} (items : ∀ x ∈ xs, Ascii (pretty indent (depth + 1) x)) :
    Ascii (prettyItems indent depth xs) := by
  induction xs with
  | nil =>
    rw [prettyItems]
    exact ascii_newline.append (.cons (by decide) ascii_nil)
  | cons x xs ih =>
    obtain ⟨first, rest⟩ := List.forall_mem_cons.mp items
    rw [prettyItems]
    exact ((Ascii.cons (by decide) ascii_newline).append first).append (ih rest)

theorem ascii_fields {fields : List (PyStr × Json)}
    (values : ∀ f ∈ fields, Ascii (pretty indent (depth + 1) f.2)) :
    Ascii (prettyFields indent depth fields) := by
  induction fields with
  | nil =>
    rw [prettyFields]
    exact ascii_newline.append (.cons (by decide) ascii_nil)
  | cons f fields ih =>
    obtain ⟨k, w⟩ := f
    obtain ⟨first, rest⟩ := List.forall_mem_cons.mp values
    rw [prettyFields]
    refine .append (.append (.append (.cons (by decide) ascii_newline) (ascii_text k)) ?_) (ih rest)
    exact .cons (by decide) (.cons (by decide) first)

theorem ascii_pretty {n : Nat} (h : Readable py n v) (depth : Nat) :
    Ascii (pretty indent depth v) := by
  induction h generalizing depth with
  | null =>
    rw [pretty_bare ⟨by simp, by simp⟩, dumps]
    exact ascii_of_all (by decide)
  | bool b =>
    rw [pretty_bare ⟨by simp, by simp⟩, dumps]
    cases b <;> exact ascii_of_all (by decide)
  | int short =>
    rw [pretty_bare ⟨by simp, by simp⟩, dumps]
    exact ascii_int _
  | float text =>
    rw [pretty_bare ⟨by simp, by simp⟩, dumps]
    exact ascii_float text
  | str unpaired =>
    rw [pretty_bare ⟨by simp, by simp⟩, dumps]
    exact ascii_text _
  | @arr n xs items ih =>
    cases xs with
    | nil =>
      rw [pretty_bare ⟨by simp, by simp⟩, dumps]
      exact ascii_of_all (by decide)
    | cons x xs =>
      obtain ⟨first, rest⟩ := List.forall_mem_cons.mp ih
      rw [pretty]
      exact ((Ascii.cons (by decide) ascii_newline).append (first _)).append
        (ascii_items fun y mem => rest y mem _)
  | @obj n fields distinct keys values ih =>
    rcases fields with - | ⟨⟨k, w⟩, fields⟩
    · rw [pretty_bare ⟨by simp, by simp⟩, dumps]
      exact ascii_of_all (by decide)
    · obtain ⟨first, rest⟩ := List.forall_mem_cons.mp ih
      rw [pretty]
      refine .append (.append (.append (.cons (by decide) ascii_newline) (ascii_text k)) ?_)
        (ascii_fields fun f mem => rest f mem _)
      exact .cons (by decide) (.cons (by decide) (first _))

/-- One byte a character, so that a part of the bytes is a part of the text. -/
theorem encode_ascii (h : Ascii s) : ∃ b, Utf8.encode s = some b ∧ b.length = s.length ∧
    (∀ x ∈ b, 0 < x.toNat ∧ x.toNat < 0x80) ∧ ∀ n, Utf8.decode (b.take n) = some (s.take n) := by
  have small (c : CodePoint) (mem : c ∈ s) : (UInt8.ofNat c.val).toNat = c.val := by
    have := h c mem
    exact Utf8.toNat_ofNat (by omega)
  have bytes : ∀ x ∈ s.map fun c => UInt8.ofNat c.val, 0 < x.toNat ∧ x.toNat < 0x80 := by
    intro x mem
    obtain ⟨c, known, rfl⟩ := List.mem_map.mp mem
    rw [small c known]
    exact h c known
  refine ⟨s.map fun c => UInt8.ofNat c.val, ?_, List.length_map .., bytes, ?_⟩
  · have plain : Utf8.encodable s = true := by
      refine List.all_eq_true.mpr fun c mem => ?_
      have := h c mem
      have plain : Utf8.isSurrogate c.val = false := Utf8.not_surrogate_iff.mpr (.inl (by omega))
      rw [plain]
      rfl
    have single : ∀ c ∈ s, Utf8.encodeChar c.val = [UInt8.ofNat c.val] :=
      fun c mem => if_pos (h c mem).2
    rw [Utf8.encode, if_pos plain, List.flatMap_congr single, ← List.flatMap_pure_eq_map]
    rfl
  · intro n
    rw [Utf8.decode_ascii fun x mem => (bytes x (List.mem_of_mem_take mem)).2, ← List.map_take,
      List.map_map]
    refine congrArg some ?_
    conv_rhs => rw [← List.map_id (s.take n)]
    refine List.map_congr_left fun c mem => ?_
    rw [Function.comp_apply, small c (List.mem_of_mem_take mem)]
    exact ofNat_val c

/-- The names json.detect_encoding gives to bytes. -/
inductive Encoding
  | utf8 | utf8Sig | utf16 | utf16be | utf16le | utf32 | utf32be | utf32le
  deriving DecidableEq, Repr

/-- By the byte order mark, and without one by where the first bytes are zero. -/
def detectEncoding (b : Bytes) : Encoding :=
  if [0x00, 0x00, 0xFE, 0xFF].isPrefixOf b ∨ [0xFF, 0xFE, 0x00, 0x00].isPrefixOf b then .utf32
  else if [0xFE, 0xFF].isPrefixOf b ∨ [0xFF, 0xFE].isPrefixOf b then .utf16
  else if [0xEF, 0xBB, 0xBF].isPrefixOf b then .utf8Sig
  else match b with
    | x :: y :: z :: w :: _ =>
      if x = 0 then if y = 0 then .utf32be else .utf16be
      else if y = 0 then if z = 0 ∧ w = 0 then .utf32le else .utf16le
      else .utf8
    | [x, y] => if x = 0 then .utf16be else if y = 0 then .utf16le else .utf8
    | _ => .utf8

/-- bytes.decode with surrogatepass: of UTF-8 it reads whatever the strict decoder reads. -/
structure Codecs where
  decode : Encoding → Bytes → Option PyStr
  utf8 : ∀ b text, Utf8.decode b = some text → decode .utf8 b = some text

/-- json.loads of bytes. -/
def loadsBytes (py : Python) (codecs : Codecs) (b : Bytes) : Option Json :=
  (codecs.decode (detectEncoding b) b).bind fun text => (loads py text).toOption

theorem detectEncoding_ascii {b : Bytes} (ascii : ∀ x ∈ b, 0 < x.toNat ∧ x.toNat < 0x80) :
    detectEncoding b = .utf8 := by
  have unmarked {m : UInt8} {mark : Bytes} (outside : m.toNat = 0 ∨ 0x80 ≤ m.toNat) :
      ¬ (m :: mark).isPrefixOf b = true := by
    intro starts
    obtain ⟨rest, rfl⟩ := List.isPrefixOf_iff_prefix.mp starts
    have := ascii m (List.mem_cons_self ..)
    omega
  have nonzero {x : UInt8} (mem : x ∈ b) : x ≠ 0 := by
    rintro rfl
    exact absurd (ascii 0 mem).1 (by decide)
  unfold detectEncoding
  rw [if_neg (not_or.mpr ⟨unmarked (by decide), unmarked (by decide)⟩),
    if_neg (not_or.mpr ⟨unmarked (by decide), unmarked (by decide)⟩),
    if_neg (unmarked (by decide))]
  split
  case h_1 x y z w rest =>
    rw [if_neg (nonzero (by simp)), if_neg (nonzero (by simp))]
  case h_2 x y => rw [if_neg (nonzero (by simp)), if_neg (nonzero (by simp))]
  case h_3 => rfl

variable {codecs : Codecs}

theorem loadsBytes_ascii {b : Bytes} (ascii : ∀ x ∈ b, 0 < x.toNat ∧ x.toNat < 0x80)
    (text : Utf8.decode b = some s) : loadsBytes py codecs b = (loads py s).toOption := by
  rw [loadsBytes, detectEncoding_ascii ascii, codecs.utf8 b s text]
  rfl

/-- An object comes back from its bytes, and from no shorter part of them. -/
theorem loadsBytes_pretty (indent : Nat) {fields : List (PyStr × Json)}
    (h : Readable py py.maxDepth (.obj fields)) :
    ∃ b, Utf8.encode (pretty indent 0 (.obj fields)) = some b ∧
      b.length = (pretty indent 0 (.obj fields)).length ∧
      loadsBytes py codecs b = some (.obj fields) ∧
      ∀ n < b.length, loadsBytes py codecs (b.take n) = none := by
  obtain ⟨b, encoded, length, ascii, decoded⟩ := encode_ascii (@ascii_pretty py indent _ _ h 0)
  have part (n : Nat) : loadsBytes py codecs (b.take n) =
      (loads py ((pretty indent 0 (.obj fields)).take n)).toOption :=
    loadsBytes_ascii (fun x mem => ascii x (List.mem_of_mem_take mem)) (decoded n)
  refine ⟨b, encoded, length, ?_, ?_⟩
  · have all := part b.length
    rw [List.take_length, length, List.take_length, loads_pretty indent h] at all
    exact all
  · intro n short
    obtain ⟨fault, cut⟩ := loads_pretty_cut indent h (n := n) (by omega)
    rw [part, cut]
    rfl

end Bytes

end Loads

end Lib
