import Drnt.Lib.Json

/-! UTF-8: the strict decoder of bytes and the encoder of strings without surrogates. -/
namespace Lib

abbrev Bytes := List UInt8

namespace Utf8

def isCont (b : UInt8) : Bool := 0x80 ≤ b.toNat && b.toNat < 0xC0

def isSurrogate (n : Nat) : Bool := 0xD800 ≤ n && n < 0xE000

def two (a b : UInt8) : Nat := (a.toNat - 0xC0) * 64 + (b.toNat - 0x80)

def three (a b c : UInt8) : Nat :=
  (a.toNat - 0xE0) * 4096 + (b.toNat - 0x80) * 64 + (c.toNat - 0x80)

def four (a b c d : UInt8) : Nat :=
  (a.toNat - 0xF0) * 262144 + (b.toNat - 0x80) * 4096 + (c.toNat - 0x80) * 64 + (d.toNat - 0x80)

/-- A code point in front of what the rest decodes to. -/
def emit (n : Nat) (rest : Option PyStr) : Option PyStr := rest.map (Fin.ofNat _ n :: ·)

/-- Each form holds only the code points that need its length. -/
def decode : Bytes → Option PyStr
  | [] => some []
  | a :: l =>
    if a.toNat < 0x80 then emit a.toNat (decode l)
    else if a.toNat < 0xC0 then none
    else if a.toNat < 0xE0 then
      match l with
      | b :: l =>
        if isCont b ∧ 0x80 ≤ two a b then emit (two a b) (decode l) else none
      | [] => none
    else if a.toNat < 0xF0 then
      match l with
      | b :: c :: l =>
        if isCont b ∧ isCont c ∧ 0x800 ≤ three a b c ∧ isSurrogate (three a b c) = false then
          emit (three a b c) (decode l)
        else none
      | _ => none
    else if a.toNat < 0xF8 then
      match l with
      | b :: c :: d :: l =>
        if isCont b ∧ isCont c ∧ isCont d ∧ 0x10000 ≤ four a b c d ∧ four a b c d < 0x110000 then
          emit (four a b c d) (decode l)
        else none
      | _ => none
    else none

def encodeChar (n : Nat) : Bytes :=
  if n < 0x80 then [.ofNat n]
  else if n < 0x800 then [.ofNat (0xC0 + n / 64), .ofNat (0x80 + n % 64)]
  else if n < 0x10000 then
    [.ofNat (0xE0 + n / 4096), .ofNat (0x80 + n / 64 % 64), .ofNat (0x80 + n % 64)]
  else
    [.ofNat (0xF0 + n / 262144), .ofNat (0x80 + n / 4096 % 64), .ofNat (0x80 + n / 64 % 64),
      .ofNat (0x80 + n % 64)]

def encodable (s : PyStr) : Bool := s.all fun c => !isSurrogate c.val

/-- str.encode: an error on a surrogate. -/
def encode (s : PyStr) : Option Bytes :=
  if encodable s then some (s.flatMap fun c => encodeChar c.val) else none

theorem emit_eq {n : Nat} {rest : Option PyStr} {s : PyStr} (bound : n < 0x110000)
    (h : emit n rest = some s) : ∃ c t, rest = some t ∧ s = c :: t ∧ c.val = n := by
  obtain ⟨t, ht, rfl⟩ := Option.map_eq_some_iff.mp h
  exact ⟨_, t, ht, rfl, Nat.mod_eq_of_lt bound⟩

theorem isCont_iff {b : UInt8} : isCont b = true ↔ 0x80 ≤ b.toNat ∧ b.toNat < 0xC0 := by
  simp [isCont]

theorem not_surrogate_iff {n : Nat} : isSurrogate n = false ↔ n < 0xD800 ∨ 0xE000 ≤ n := by
  simp [isSurrogate]
  omega

theorem ofNat_eq {n : Nat} {b : UInt8} (h : n = b.toNat) : UInt8.ofNat n = b := by
  subst h
  exact UInt8.ofNat_toNat

/-- A character in front of a text in front of which its bytes stand. -/
theorem encode_emit (head : Bytes) {n : Nat} {tail : Bytes} {s : PyStr}
    (ih : ∀ {t}, decode tail = some t → encode t = some tail) (bound : n < 0x110000)
    (plain : isSurrogate n = false) (char : encodeChar n = head)
    (h : emit n (decode tail) = some s) : encode s = some (head ++ tail) := by
  obtain ⟨c, t, ht, rfl, rfl⟩ := emit_eq bound h
  have encoded := ih ht
  unfold encode at encoded ⊢
  by_cases all : encodable t = true
  · rw [if_pos all] at encoded
    have all' : encodable (c :: t) = true := by
      simp only [encodable, List.all_cons, plain] at all ⊢
      simpa using all
    rw [if_pos all', List.flatMap_cons, char, Option.some.inj encoded]
  · rw [if_neg all] at encoded
    cases encoded

/-- What decodes is the encoding of its text. -/
theorem encode_of_decode {b : Bytes} {s : PyStr} (h : decode b = some s) :
    encode s = some b := by
  fun_induction decode b generalizing s with
  | case1 =>
    cases h
    rfl
  | case2 a l low ih =>
    refine encode_emit [a] ih (by omega) (not_surrogate_iff.mpr (.inl (by omega))) ?_ h
    rw [encodeChar, if_pos low, ofNat_eq rfl]
  | case4 a low low' low'' b l valid ih =>
    obtain ⟨cont, wide⟩ := valid
    have hb := isCont_iff.mp cont
    unfold two at *
    refine encode_emit [a, b] ih (by omega) (not_surrogate_iff.mpr (.inl (by omega))) ?_ h
    rw [encodeChar, if_neg (by omega), if_pos (by omega), ofNat_eq (b := a) (by omega),
      ofNat_eq (b := b) (by omega)]
  | case7 a low low' low'' low b c l valid ih =>
    obtain ⟨cont, cont', wide, plain⟩ := valid
    have hb := isCont_iff.mp cont
    have hc := isCont_iff.mp cont'
    refine encode_emit [a, b, c] ih ?_ plain ?_ h
    · unfold three
      omega
    · unfold three at *
      rw [encodeChar, if_neg (by omega), if_neg (by omega), if_pos (by omega),
        ofNat_eq (b := a) (by omega), ofNat_eq (b := b) (by omega), ofNat_eq (b := c) (by omega)]
  | case10 a low low' low'' low low b c d l valid ih =>
    obtain ⟨cont, cont', cont'', wide, bound⟩ := valid
    have hb := isCont_iff.mp cont
    have hc := isCont_iff.mp cont'
    have hd := isCont_iff.mp cont''
    refine encode_emit [a, b, c, d] ih bound (not_surrogate_iff.mpr (.inr (by omega))) ?_ h
    unfold four at *
    rw [encodeChar, if_neg (by omega), if_neg (by omega), if_neg (by omega),
      ofNat_eq (b := a) (by omega), ofNat_eq (b := b) (by omega), ofNat_eq (b := c) (by omega),
      ofNat_eq (b := d) (by omega)]
  | _ => cases h

/-- A character of one byte stands between two texts as it does between their bytes. -/
theorem decode_append {a b : Bytes} {c : UInt8} (ascii : c.toNat < 0x80) :
    decode (a ++ c :: b) =
      (decode a).bind fun s => (decode b).map fun t => s ++ Fin.ofNat _ c.toNat :: t := by
  have notCont : isCont c = false := by simp [isCont]; omega
  have step (l : Bytes) : decode (c :: l) = emit c.toNat (decode l) := by
    rw [decode.eq_def]
    simp [ascii]
  have out (n : Nat) (x : Option PyStr) (y : Option PyStr) : emit n
      (x.bind fun s => y.map fun t => s ++ Fin.ofNat _ c.toNat :: t) =
      (emit n x).bind fun s => y.map fun t => s ++ Fin.ofNat _ c.toNat :: t := by
    cases x <;> cases y <;> rfl
  fun_induction decode a with
  | case1 => simp [step, emit]
  | case2 a l low ih =>
    rw [List.cons_append, decode.eq_def]
    simp only [low, if_true, ih, out]
  | case3 a l low low' =>
    rw [List.cons_append, decode.eq_def]
    simp [low, low']
  | case4 a low low' low'' x l valid ih =>
    rw [List.cons_append, List.cons_append, decode.eq_def]
    simp only [low, low', low'', valid, if_true, if_false, ih, out, and_self]
  | case5 a low low' low'' x l invalid =>
    rw [List.cons_append, List.cons_append, decode.eq_def]
    simp only [low, low', low'', invalid, if_true, if_false]
    rfl
  | case6 a low low' low'' =>
    rw [List.cons_append, List.nil_append, decode.eq_def]
    simp [low, low', low'', notCont]
  | case7 a low low' low'' low₃ x y l valid ih =>
    rw [List.cons_append, List.cons_append, List.cons_append, decode.eq_def]
    simp only [low, low', low'', low₃, valid, if_true, if_false, ih, out, and_self]
  | case8 a low low' low'' low₃ x y l invalid =>
    rw [List.cons_append, List.cons_append, List.cons_append, decode.eq_def]
    simp only [low, low', low'', low₃, invalid, if_true, if_false]
    rfl
  | case9 a l low low' low'' low₃ short =>
    rw [List.cons_append, decode.eq_def]
    rcases l with - | ⟨x, - | ⟨y, l⟩⟩
    · cases b <;> simp [low, low', low'', low₃, notCont]
    · simp [low, low', low'', low₃, notCont]
    · exact absurd rfl (short x y l)
  | case10 a low low' low'' low₃ low₄ x y z l valid ih =>
    rw [List.cons_append, List.cons_append, List.cons_append, List.cons_append, decode.eq_def]
    simp only [low, low', low'', low₃, low₄, valid, if_true, if_false, ih, out, and_self]
  | case11 a low low' low'' low₃ low₄ x y z l invalid =>
    rw [List.cons_append, List.cons_append, List.cons_append, List.cons_append, decode.eq_def]
    simp only [low, low', low'', low₃, low₄, invalid, if_true, if_false]
    rfl
  | case12 a l low low' low'' low₃ low₄ short =>
    rw [List.cons_append, decode.eq_def]
    rcases l with - | ⟨x, - | ⟨y, - | ⟨z, l⟩⟩⟩
    · rcases b with - | ⟨d, - | ⟨e, b⟩⟩ <;> simp [low, low', low'', low₃, low₄, notCont]
    · cases b <;> simp [low, low', low'', low₃, low₄, notCont]
    · simp [low, low', low'', low₃, low₄, notCont]
    · exact absurd rfl (short x y z l)
  | case13 a l low low' low'' low₃ low₄ =>
    rw [List.cons_append, decode.eq_def]
    simp [low, low', low'', low₃, low₄]

theorem decode_ascii {b : Bytes} (ascii : ∀ x ∈ b, x.toNat < 0x80) :
    decode b = some (b.map fun x => Fin.ofNat _ x.toNat) := by
  induction b with
  | nil => rfl
  | cons x b ih =>
    rw [decode.eq_def]
    simp only [ascii x (List.mem_cons_self ..), if_true]
    rw [ih fun y mem => ascii y (List.mem_cons_of_mem _ mem)]
    rfl

theorem toNat_ofNat {n : Nat} (h : n < 256) : (UInt8.ofNat n).toNat = n := Nat.mod_eq_of_lt h

/-- A byte below 0x80 stands only for the character of that number. -/
theorem encodeChar_ascii {n : Nat} (bound : n < 0x110000) {x : UInt8} (mem : x ∈ encodeChar n)
    (low : x.toNat < 0x80) : n = x.toNat := by
  have high {k : Nat} (range : 0x80 ≤ k ∧ k < 256) : x ≠ .ofNat k := by
    rintro rfl
    rw [toNat_ofNat range.2] at low
    omega
  unfold encodeChar at mem
  split at mem
  case isTrue one =>
    cases List.mem_singleton.mp mem
    rw [toNat_ofNat (by omega)]
  case isFalse =>
    split at mem
    case isTrue two =>
      simp only [List.mem_cons, List.not_mem_nil, or_false] at mem
      rcases mem with eq | eq <;> exact absurd eq (high (by omega))
    case isFalse =>
      split at mem
      case isTrue three =>
        simp only [List.mem_cons, List.not_mem_nil, or_false] at mem
        rcases mem with eq | eq | eq <;> exact absurd eq (high (by omega))
      case isFalse =>
        simp only [List.mem_cons, List.not_mem_nil, or_false] at mem
        rcases mem with eq | eq | eq | eq <;> exact absurd eq (high (by omega))

theorem decode_encodeChar {n : Nat} (bound : n < 0x110000) (plain : isSurrogate n = false)
    (l : Bytes) : decode (encodeChar n ++ l) = emit n (decode l) := by
  unfold encodeChar
  split
  case isTrue one =>
    rw [List.singleton_append, decode.eq_def]
    simp only [toNat_ofNat (show n < 256 by omega), one, if_true]
  split
  case isTrue low two =>
    have ha := toNat_ofNat (show 0xC0 + n / 64 < 256 by omega)
    have hb := toNat_ofNat (show 0x80 + n % 64 < 256 by omega)
    have value : Utf8.two (.ofNat (0xC0 + n / 64)) (.ofNat (0x80 + n % 64)) = n := by
      unfold Utf8.two
      omega
    have cont : isCont (.ofNat (0x80 + n % 64)) = true := isCont_iff.mpr (by omega)
    rw [List.cons_append, List.singleton_append, decode.eq_def]
    simp only [value, cont]
    rw [if_neg (by omega), if_neg (by omega), if_pos (by omega), if_pos ⟨trivial, by omega⟩]
  split
  case isTrue low low' three =>
    have ha := toNat_ofNat (show 0xE0 + n / 4096 < 256 by omega)
    have hb := toNat_ofNat (show 0x80 + n / 64 % 64 < 256 by omega)
    have hc := toNat_ofNat (show 0x80 + n % 64 < 256 by omega)
    have value : Utf8.three (.ofNat (0xE0 + n / 4096)) (.ofNat (0x80 + n / 64 % 64))
        (.ofNat (0x80 + n % 64)) = n := by
      unfold Utf8.three
      omega
    have cont : isCont (.ofNat (0x80 + n / 64 % 64)) = true := isCont_iff.mpr (by omega)
    have cont' : isCont (.ofNat (0x80 + n % 64)) = true := isCont_iff.mpr (by omega)
    rw [List.cons_append, List.cons_append, List.singleton_append, decode.eq_def]
    simp only [value, cont, cont', plain]
    rw [if_neg (by omega), if_neg (by omega), if_neg (by omega), if_pos (by omega),
      if_pos ⟨trivial, trivial, by omega, trivial⟩]
  case isFalse low low' low'' =>
    have ha := toNat_ofNat (show 0xF0 + n / 262144 < 256 by omega)
    have hb := toNat_ofNat (show 0x80 + n / 4096 % 64 < 256 by omega)
    have hc := toNat_ofNat (show 0x80 + n / 64 % 64 < 256 by omega)
    have hd := toNat_ofNat (show 0x80 + n % 64 < 256 by omega)
    have value : four (.ofNat (0xF0 + n / 262144)) (.ofNat (0x80 + n / 4096 % 64))
        (.ofNat (0x80 + n / 64 % 64)) (.ofNat (0x80 + n % 64)) = n := by
      unfold four
      omega
    have cont : isCont (.ofNat (0x80 + n / 4096 % 64)) = true := isCont_iff.mpr (by omega)
    have cont' : isCont (.ofNat (0x80 + n / 64 % 64)) = true := isCont_iff.mpr (by omega)
    have cont'' : isCont (.ofNat (0x80 + n % 64)) = true := isCont_iff.mpr (by omega)
    rw [List.cons_append, List.cons_append, List.cons_append, List.singleton_append,
      decode.eq_def]
    simp only [value, cont, cont', cont'']
    rw [if_neg (by omega), if_neg (by omega), if_neg (by omega), if_neg (by omega),
      if_pos (by omega), if_pos ⟨trivial, trivial, trivial, by omega, bound⟩]

/-- The encoding of a text decodes to it. -/
theorem decode_of_encode {s : PyStr} {b : Bytes} (h : encode s = some b) : decode b = some s := by
  unfold encode at h
  split at h
  case isFalse => cases h
  case isTrue all =>
    cases h
    induction s with
    | nil => rfl
    | cons c s ih =>
      simp only [encodable, List.all_cons, Bool.and_eq_true, Bool.not_eq_true'] at all
      rw [List.flatMap_cons, decode_encodeChar c.isLt all.1, ih all.2]
      exact congrArg some (congrArg (· :: s) (Fin.ext (Nat.mod_eq_of_lt c.isLt)))

theorem decode_iff {b : Bytes} {s : PyStr} : decode b = some s ↔ encode s = some b :=
  ⟨encode_of_decode, decode_of_encode⟩

end Utf8

end Lib
