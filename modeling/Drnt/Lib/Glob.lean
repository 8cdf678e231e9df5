import Mathlib.Data.List.Basic

/-! File name patterns as fnmatch reads them: `*`, `?`, `[seq]` and `[!seq]`, over a whole name. -/
namespace Lib.Glob

section Patterns

inductive Token
  | star
  | any
  | set (negated : Bool) (ranges : List (Char × Char))
  | literal (c : Char)
  deriving DecidableEq, Repr

/-- The ranges of a set; a hyphen at an end stands for itself. -/
def ranges : List Char → List (Char × Char)
  | a :: '-' :: b :: rest => (a, b) :: ranges rest
  | a :: rest => (a, a) :: ranges rest
  | [] => []

/-- What stands before the closing bracket, which cannot be the first character, and what stands
after it. -/
def closing : List Char → Option (List Char × List Char)
  | [] => none
  | c :: rest =>
    let stuff := rest.takeWhile (· ≠ ']')
    match rest.dropWhile (· ≠ ']') with
    | [] => none
    | _ :: after => some (c :: stuff, after)

def bracket : List Char → Option (Token × List Char)
  | '!' :: rest => (closing rest).map fun found => (.set true (ranges found.1), found.2)
  | rest => (closing rest).map fun found => (.set false (ranges found.1), found.2)

/-- A bracket that is not closed stands for itself. -/
def translateFuel : Nat → List Char → List Token
  | 0, _ => []
  | _, [] => []
  | n + 1, '*' :: rest => .star :: translateFuel n rest
  | n + 1, '?' :: rest => .any :: translateFuel n rest
  | n + 1, '[' :: rest =>
    match bracket rest with
    | some (token, after) => token :: translateFuel n after
    | none => .literal '[' :: translateFuel n rest
  | n + 1, c :: rest => .literal c :: translateFuel n rest

def translate (pattern : String) : List Token :=
  translateFuel pattern.toList.length pattern.toList

def Token.accepts : Token → Char → Bool
  | .star, _ => false
  | .any, _ => true
  | .set negated ranges, c => ranges.any (fun r => r.1 ≤ c ∧ c ≤ r.2) != negated
  | .literal d, c => c = d

/-- The suffixes of a name. -/
def suffixes : List Char → List (List Char)
  | [] => [[]]
  | c :: rest => (c :: rest) :: suffixes rest

def matchTokens : List Token → List Char → Bool
  | [], name => name = []
  | .star :: tokens, name => (suffixes name).any (matchTokens tokens)
  | _ :: _, [] => false
  | token :: tokens, c :: name => token.accepts c && matchTokens tokens name

def fnmatch (name pattern : String) : Bool := matchTokens (translate pattern) name.toList

end Patterns

section Language

/-- A name falls into one piece for each token: any piece for a star, else one character. -/
inductive Matches : List Token → List Char → Prop
  | nil : Matches [] []
  | star {tokens : List Token} {name : List Char} (piece : List Char) (rest : Matches tokens name) :
      Matches (.star :: tokens) (piece ++ name)
  | one {token : Token} {tokens : List Token} {c : Char} {name : List Char}
      (accepted : token.accepts c = true) (rest : Matches tokens name) :
      Matches (token :: tokens) (c :: name)

theorem mem_suffixes {name rest : List Char} : rest ∈ suffixes name ↔ rest <:+ name := by
  induction name with
  | nil => simp [suffixes]
  | cons c name ih => rw [suffixes, List.mem_cons, ih, List.suffix_cons_iff]

theorem matchTokens_iff (tokens : List Token) (name : List Char) :
    matchTokens tokens name = true ↔ Matches tokens name := by
  induction tokens generalizing name with
  | nil =>
    constructor
    · intro eq
      obtain rfl : name = [] := by simpa [matchTokens] using eq
      exact .nil
    · intro h
      cases h
      rfl
  | cons token tokens ih =>
    constructor
    · intro h
      cases token with
      | star =>
        obtain ⟨rest, mem, found⟩ : ∃ rest ∈ suffixes name, matchTokens tokens rest = true := by
          simpa [matchTokens] using h
        obtain ⟨piece, rfl⟩ := mem_suffixes.mp mem
        exact .star piece ((ih rest).mp found)
      | any | set | literal =>
        cases name with
        | nil => simp [matchTokens] at h
        | cons c name =>
          rw [matchTokens, Bool.and_eq_true] at h
          · exact .one h.1 ((ih name).mp h.2)
          · simp
    · intro h
      cases h with
      | star piece rest =>
        rw [matchTokens, List.any_eq_true]
        exact ⟨_, mem_suffixes.mpr (List.suffix_append ..), (ih _).mpr rest⟩
      | one accepted rest =>
        cases token with
        | star => simp [Token.accepts] at accepted
        | any | set | literal =>
          rw [matchTokens, Bool.and_eq_true]
          · exact ⟨accepted, (ih _).mpr rest⟩
          · simp

/-- fnmatch accepts a name exactly when it falls into such pieces. -/
theorem fnmatch_iff (name pattern : String) :
    fnmatch name pattern = true ↔ Matches (translate pattern) name.toList :=
  matchTokens_iff ..

example : fnmatch "claude-sonnet-4-20250514" "claude-sonnet-4-*" = true := by decide +kernel

example : fnmatch "gpt-3o" "gpt-[!3]o" = false := by decide +kernel

end Language

end Lib.Glob
