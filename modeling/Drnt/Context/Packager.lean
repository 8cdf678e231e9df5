import Drnt.Lib.IntText
import Drnt.Lib.Dumps
import Drnt.Lib.PosixPath
import Mathlib.Data.List.Forall2
import Mathlib.Data.List.Sort

/-! The deny-list filter for payloads that leave for the cloud: the spans that patterns match in
a text, their merging, and the text with each merged span transformed. -/
namespace Drnt.Context

open Lib

section Packager

inductive Action
  | strip | generalize | pass
  | other (name : PyStr)
  deriving DecidableEq

def Action.precedence : Action → Nat
  | .strip => 0
  | .generalize => 1
  | .pass | .other _ => 2

structure SensitivityPattern where
  source : PyStr
  sensitivityClass : PyStr
  action : Action

structure SensitivityConfig where
  patterns : List SensitivityPattern
  allowlists : PyStr → List PyStr

structure DetectedSpan where
  start : Nat
  stop : Nat
  sensitivityClass : PyStr
  action : Action
  patternSource : PyStr
  matchedText : PyStr
  deriving DecidableEq

def slice (text : PyStr) (a b : Nat) : PyStr := (text.drop a).take (b - a)

/-- The regex engine gives the matches of a pattern in a text, by their ends. -/
def scan (finditer : PyStr → PyStr → List (Nat × Nat)) (config : SensitivityConfig)
    (text : PyStr) : List DetectedSpan :=
  config.patterns.flatMap fun pattern =>
    (finditer pattern.source text).filterMap fun m =>
      let matched := slice text m.1 m.2
      if matched ∈ config.allowlists pattern.sensitivityClass then none
      else some {
        start := m.1
        stop := m.2
        sensitivityClass := pattern.sensitivityClass
        action := pattern.action
        patternSource := pattern.source
        matchedText := matched }

/-- By start, the more restrictive first. -/
def Order (a b : DetectedSpan) : Prop :=
  a.start < b.start ∨ a.start = b.start ∧ a.action.precedence ≤ b.action.precedence

instance : DecidableRel Order := fun _ _ => inferInstanceAs (Decidable (_ ∨ _))

/-- A span with one that overlaps it: the more restrictive action, the text of the first. -/
def absorb (prev span : DetectedSpan) : DetectedSpan :=
  if span.action.precedence < prev.action.precedence then
    { prev with
      stop := max prev.stop span.stop
      sensitivityClass := span.sensitivityClass
      action := span.action
      patternSource := span.patternSource }
  else { prev with stop := max prev.stop span.stop }

def mergeFrom (prev : DetectedSpan) : List DetectedSpan → List DetectedSpan
  | [] => [prev]
  | span :: rest =>
    if span.start < prev.stop then mergeFrom (absorb prev span) rest
    else prev :: mergeFrom span rest

def mergeOverlappingSpans (spans : List DetectedSpan) : List DetectedSpan :=
  match spans.insertionSort Order with
  | [] => []
  | span :: rest => mergeFrom span rest

def generalizeLocation (text : PyStr) : PyStr :=
  if Loads.ch '-' ∈ text then
    let base := text.takeWhile (· ≠ Loads.ch '-')
    let ext := (text.dropWhile (· ≠ Loads.ch '-')).drop 1
    base.take 3 ++ py "XX" ++ py "-" ++ List.replicate ext.length (Loads.ch 'X')
  else text.take 3 ++ py "XX"

variable (decimal? : CodePoint → Option Nat)

/-- The year of a date; none stands for ValueError. -/
def generalizeDate (text : PyStr) : Option PyStr :=
  if Loads.ch '-' ∈ text ∧ text.length = 10 ∧ text[4]? = some (Loads.ch '-') then
    some (text.take 4)
  else if Loads.ch '/' ∈ text then
    match PosixPath.segments (Loads.ch '/') text with
    | [_, _, yearPart] =>
      if yearPart.length = 2 then
        (IntText.intOf decimal? yearPart).map fun year =>
          if year < 70 then Dumps.int (2000 + year) else Dumps.int (1900 + year)
      else some yearPart
    | _ => some text
  else some text

def generalizer? (sensitivityClass : PyStr) : Option (PyStr → Option PyStr) :=
  if sensitivityClass = py "location" then some fun text => some (generalizeLocation text)
  else if sensitivityClass = py "date" then some (generalizeDate decimal?)
  else none

def redacted (sensitivityClass : PyStr) : PyStr := py "[REDACTED:" ++ sensitivityClass ++ py "]"

def applyTransform (span : DetectedSpan) : Option PyStr :=
  match span.action with
  | .strip => some (redacted span.sensitivityClass)
  | .generalize =>
    match generalizer? decimal? span.sensitivityClass with
    | some generalizer => generalizer span.matchedText
    | none => some (redacted span.sensitivityClass)
  | .pass | .other _ => some span.matchedText

/-- The text from a position on, with each span transformed. -/
def transformFrom (text : PyStr) (last : Nat) : List DetectedSpan → Option PyStr
  | [] => some (text.drop last)
  | span :: rest => do
    let piece ← applyTransform decimal? span
    let tail ← transformFrom text span.stop rest
    return slice text last span.start ++ piece ++ tail

/-- The payload and the spans applied; none stands for ValueError. -/
def transformText (text : PyStr) (spans : List DetectedSpan) :
    Option (PyStr × List DetectedSpan) :=
  if spans = [] then some (text, [])
  else
    let merged := mergeOverlappingSpans spans
    (transformFrom decimal? text 0 merged).map (·, merged)

def payload (text : PyStr) (spans : List DetectedSpan) : Option PyStr :=
  (transformText decimal? text spans).map Prod.fst

end Packager

end Drnt.Context
