import Drnt.Context.Packager

/-! What a payload depends on: two texts with the same spans that differ only inside stripped and
generalized spans, and there only as far as the generalizers tell them apart. -/
namespace Drnt.Context

open Lib

section Spans

/-- A stripped or generalized span. -/
def DetectedSpan.Secret (span : DetectedSpan) : Prop := span.action.precedence < 2

def DetectedSpan.Covers (span : DetectedSpan) (p : Nat) : Prop := span.start ≤ p ∧ p < span.stop

/-- The same place, class and action. -/
@[mk_iff] structure Alike (a b : DetectedSpan) : Prop where
  start : a.start = b.start
  stop : a.stop = b.stop
  sensitivityClass : a.sensitivityClass = b.sensitivityClass
  action : a.action = b.action

instance (span : DetectedSpan) : Decidable span.Secret := inferInstanceAs (Decidable (_ < _))

instance (span : DetectedSpan) (p : Nat) : Decidable (span.Covers p) :=
  inferInstanceAs (Decidable (_ ∧ _))

instance : DecidableRel Alike := fun a b => decidable_of_iff _ (alike_iff a b).symm

variable {t₁ t₂ : PyStr}

theorem slice_congr {a b : Nat} (agree : ∀ p, a ≤ p → p < b → t₁[p]? = t₂[p]?) :
    slice t₁ a b = slice t₂ a b := by
  apply List.ext_getElem?
  intro i
  rw [slice, slice, List.getElem?_take, List.getElem?_take]
  split
  · rw [List.getElem?_drop, List.getElem?_drop]
    exact agree (a + i) (by omega) (by omega)
  · rfl

theorem drop_congr {a : Nat} (agree : ∀ p, a ≤ p → t₁[p]? = t₂[p]?) : t₁.drop a = t₂.drop a := by
  apply List.ext_getElem?
  intro i
  rw [List.getElem?_drop, List.getElem?_drop]
  exact agree (a + i) (by omega)

theorem scan_text {finditer : PyStr → PyStr → List (Nat × Nat)} {config : SensitivityConfig}
    {text : PyStr} {span : DetectedSpan} (mem : span ∈ scan finditer config text) :
    span.matchedText = slice text span.start span.stop := by
  obtain ⟨pattern, -, mem⟩ := List.mem_flatMap.mp mem
  obtain ⟨m, -, made⟩ := List.mem_filterMap.mp mem
  dsimp only at made
  split at made
  · cases made
  · cases made
    rfl

theorem absorb_alike {p₁ p₂ s₁ s₂ : DetectedSpan} (prev : Alike p₁ p₂) (span : Alike s₁ s₂) :
    Alike (absorb p₁ s₁) (absorb p₂ s₂) := by
  unfold absorb
  rw [prev.action, span.action]
  split
  · exact ⟨prev.start, by rw [prev.stop, span.stop], span.sensitivityClass, rfl⟩
  · exact ⟨prev.start, by rw [prev.stop, span.stop], prev.sensitivityClass, rfl⟩

@[simp] theorem absorb_start (prev span : DetectedSpan) :
    (absorb prev span).start = prev.start := by
  unfold absorb
  split <;> rfl

@[simp] theorem absorb_stop (prev span : DetectedSpan) :
    (absorb prev span).stop = max prev.stop span.stop := by
  unfold absorb
  split <;> rfl

@[simp] theorem absorb_text (prev span : DetectedSpan) :
    (absorb prev span).matchedText = prev.matchedText := by
  unfold absorb
  split <;> rfl

theorem absorb_precedence (prev span : DetectedSpan) : (absorb prev span).action.precedence =
    min prev.action.precedence span.action.precedence := by
  unfold absorb
  split
  · dsimp only
    omega
  · dsimp only
    omega

instance : Std.Total Order := ⟨fun a b => by unfold Order; omega⟩

instance : IsTrans DetectedSpan Order := ⟨fun a b c => by unfold Order; omega⟩

theorem sorted_starts (spans : List DetectedSpan) :
    (spans.insertionSort Order).Pairwise fun a b => a.start ≤ b.start := by
  apply (List.pairwise_insertionSort Order spans).imp
  intro a b before
  unfold Order at before
  omega

/-- Lists related place by place stay so when they are sorted by what the relation keeps. -/
theorem sort_forall₂ {R : DetectedSpan → DetectedSpan → Prop} {l₁ l₂ : List DetectedSpan}
    (alike : ∀ a b, R a b → Alike a b) (h : List.Forall₂ R l₁ l₂) :
    List.Forall₂ R (l₁.insertionSort Order) (l₂.insertionSort Order) := by
  obtain ⟨pairs, related, rfl, rfl⟩ : ∃ pairs : List (DetectedSpan × DetectedSpan),
      (∀ p ∈ pairs, R p.1 p.2) ∧ pairs.map Prod.fst = l₁ ∧ pairs.map Prod.snd = l₂ := by
    refine ⟨l₁.zip l₂, ?_, List.map_fst_zip h.length_eq.le, List.map_snd_zip h.length_eq.ge⟩
    rintro ⟨a, b⟩ mem
    exact (List.forall₂_iff_zip.mp h).2 mem
  let before (a b : DetectedSpan × DetectedSpan) : Prop := Order a.1 b.1
  have decides : DecidableRel before := fun _ _ => inferInstanceAs (Decidable (Order _ _))
  have left := List.map_insertionSort before Order Prod.fst pairs fun _ _ _ _ => Iff.rfl
  have right := List.map_insertionSort before Order Prod.snd pairs (by
    intro a ha b hb
    have first := alike _ _ (related a ha)
    have second := alike _ _ (related b hb)
    simp only [before, Order, first.start, first.action, second.start, second.action])
  rw [← left, ← right, List.forall₂_map_left_iff, List.forall₂_map_right_iff, List.forall₂_same]
  intro p mem
  exact related p ((List.mem_insertionSort before).mp mem)

end Spans

section Groups

/-- The merged spans, each with the span it began with. -/
def groupsFrom (first prev : DetectedSpan) :
    List DetectedSpan → List (DetectedSpan × DetectedSpan)
  | [] => [(first, prev)]
  | span :: rest =>
    if span.start < prev.stop then groupsFrom first (absorb prev span) rest
    else (first, prev) :: groupsFrom span span rest

def groups (spans : List DetectedSpan) : List (DetectedSpan × DetectedSpan) :=
  match spans.insertionSort Order with
  | [] => []
  | span :: rest => groupsFrom span span rest

theorem groupsFrom_merged (first prev : DetectedSpan) (rest : List DetectedSpan) :
    (groupsFrom first prev rest).map Prod.snd = mergeFrom prev rest := by
  induction rest generalizing first prev with
  | nil => rfl
  | cons span rest ih =>
    rw [groupsFrom, mergeFrom]
    split
    · exact ih first (absorb prev span)
    · rw [List.map_cons, ih]

theorem groups_merged (spans : List DetectedSpan) :
    (groups spans).map Prod.snd = mergeOverlappingSpans spans := by
  unfold groups mergeOverlappingSpans
  cases spans.insertionSort Order with
  | nil => rfl
  | cons span rest => exact groupsFrom_merged span span rest

theorem groupsFrom_text {first prev : DetectedSpan} {rest : List DetectedSpan}
    (text : prev.matchedText = first.matchedText) :
    ∀ g ∈ groupsFrom first prev rest, g.2.matchedText = g.1.matchedText := by
  induction rest generalizing first prev with
  | nil =>
    intro g mem
    rw [List.mem_singleton.mp mem]
    exact text
  | cons span rest ih =>
    rw [groupsFrom]
    split
    · exact ih (by rw [absorb_text, text])
    · intro g mem
      rcases List.mem_cons.mp mem with rfl | mem
      · exact text
      · exact ih rfl g mem

/-- A group keeps the text of the span it began with. -/
theorem groups_text {spans : List DetectedSpan} :
    ∀ g ∈ groups spans, g.2.matchedText = g.1.matchedText := by
  unfold groups
  cases spans.insertionSort Order with
  | nil => exact nofun
  | cons span rest => exact groupsFrom_text rfl

variable (decimal? : CodePoint → Option Nat)

/-- A generalizer is applied to the text of a span that only passes. -/
def Turned (group : DetectedSpan × DetectedSpan) : Prop :=
  ¬group.1.Secret ∧ group.2.action = .generalize ∧
    (generalizer? decimal? group.2.sensitivityClass).isSome

/-- A generalizer that is turned on a passing span makes the same of it in both texts. -/
def Settles (g₁ g₂ : DetectedSpan × DetectedSpan) : Prop :=
  Turned decimal? g₁ →
    ∀ generalizer, generalizer? decimal? g₁.2.sensitivityClass = some generalizer →
      generalizer g₁.1.matchedText = generalizer g₂.1.matchedText

def Settled (spans₁ spans₂ : List DetectedSpan) : Prop :=
  List.Forall₂ (Settles decimal?) (groups spans₁) (groups spans₂)

/-- Two texts with the same spans that agree outside secret spans, and whose generalized spans
have the same generalized forms. -/
@[mk_iff] structure Indistinguishable (t₁ t₂ : PyStr) (spans₁ spans₂ : List DetectedSpan) : Prop where
  length : t₁.length = t₂.length
  spans : List.Forall₂ Alike spans₁ spans₂
  outside : ∀ p < t₁.length, (∀ s ∈ spans₁, s.Secret → ¬s.Covers p) → t₁[p]? = t₂[p]?
  generalized : List.Forall₂ (fun a b => a.action = .generalize →
    applyTransform decimal? a = applyTransform decimal? b) spans₁ spans₂

instance (t₁ t₂ : PyStr) (spans₁ spans₂ : List DetectedSpan) :
    Decidable (Indistinguishable decimal? t₁ t₂ spans₁ spans₂) :=
  decidable_of_iff _ (indistinguishable_iff decimal? t₁ t₂ spans₁ spans₂).symm

end Groups

section Alignment

variable (decimal? : CodePoint → Option Nat) (t₁ t₂ : PyStr)

/-- The groups of the two texts at the same places, with the same text before and behind them,
and the same text in their stead unless a generalizer is turned on a passing span. -/
inductive Aligned : Nat → List (DetectedSpan × DetectedSpan) →
    List (DetectedSpan × DetectedSpan) → Prop
  | nil {last} (tail : t₁.drop last = t₂.drop last) : Aligned last [] []
  | cons {last g₁ g₂ rest₁ rest₂} (gap : slice t₁ last g₁.2.start = slice t₂ last g₂.2.start)
      (alike : Alike g₁.2 g₂.2) (turned : Turned decimal? g₁ ↔ Turned decimal? g₂)
      (same : ¬Turned decimal? g₁ → applyTransform decimal? g₁.2 = applyTransform decimal? g₂.2)
      (rest : Aligned g₁.2.stop rest₁ rest₂) : Aligned last (g₁ :: rest₁) (g₂ :: rest₂)

end Alignment

section Sweep

variable {decimal? : CodePoint → Option Nat} {t₁ t₂ : PyStr}

/-- Spans of the two texts at one place. -/
structure Matched (decimal? : CodePoint → Option Nat) (t₁ t₂ : PyStr) (a b : DetectedSpan) :
    Prop where
  alike : Alike a b
  text₁ : a.matchedText = slice t₁ a.start a.stop
  text₂ : b.matchedText = slice t₂ b.start b.stop
  generalized : a.action = .generalize → applyTransform decimal? a = applyTransform decimal? b

/-- A group under way: the span it began with, what it has come to, and the spans to come. -/
structure Growing (all : List DetectedSpan) (last : Nat) (first prev : DetectedSpan)
    (rest : List DetectedSpan) : Prop where
  start : prev.start = first.start
  text : prev.matchedText = first.matchedText
  within : first.stop ≤ prev.stop
  begun : last ≤ prev.start
  origin : prev.action = first.action ∧ prev.sensitivityClass = first.sensitivityClass ∨
    prev.action.precedence < first.action.precedence
  before : ∀ s ∈ all, s.stop ≤ last ∨ prev.start ≤ s.start
  seen : ∀ s ∈ all, s ∈ rest ∨ s.stop ≤ last ∨
    s.stop ≤ prev.stop ∧ prev.action.precedence ≤ s.action.precedence
  sorted : rest.Pairwise fun a b => a.start ≤ b.start
  ordered : first.start ≤ first.stop ∧ ∀ s ∈ rest, s.start ≤ s.stop

variable {all rest : List DetectedSpan} {last : Nat} {first prev span : DetectedSpan}

theorem Growing.forward (h : Growing all last first prev rest) : last ≤ prev.stop := by
  have := h.begun
  have := h.start
  have := h.ordered.1
  have := h.within
  omega

theorem Growing.absorb (h : Growing all last first prev (span :: rest)) :
    Growing all last first (absorb prev span) rest where
  start := by rw [absorb_start, h.start]
  text := by rw [absorb_text, h.text]
  within := by
    rw [absorb_stop]
    exact Nat.le_trans h.within (Nat.le_max_left ..)
  begun := by
    rw [absorb_start]
    exact h.begun
  origin := by
    by_cases stricter : span.action.precedence < prev.action.precedence
    · right
      rw [absorb_precedence, Nat.min_eq_right (Nat.le_of_lt stricter)]
      cases h.origin with
      | inl same => rw [← same.1]; exact stricter
      | inr less => exact Nat.lt_trans stricter less
    · rw [Context.absorb, if_neg stricter]
      exact h.origin
  before := by
    intro s mem
    rw [absorb_start]
    exact h.before s mem
  seen := by
    intro s mem
    rw [absorb_stop, absorb_precedence]
    rcases h.seen s mem with coming | past | here
    · rcases List.mem_cons.mp coming with rfl | coming
      · exact .inr (.inr ⟨Nat.le_max_right .., Nat.min_le_right ..⟩)
      · exact .inl coming
    · exact .inr (.inl past)
    · right
      right
      omega
  sorted := (List.pairwise_cons.mp h.sorted).2
  ordered := ⟨h.ordered.1, fun s mem => h.ordered.2 s (List.mem_cons_of_mem _ mem)⟩

theorem Growing.next (h : Growing all last first prev (span :: rest))
    (apart : ¬span.start < prev.stop) : Growing all prev.stop span span rest where
  start := rfl
  text := rfl
  within := Nat.le_refl _
  begun := Nat.le_of_not_lt apart
  origin := .inl ⟨rfl, rfl⟩
  before := by
    intro s mem
    rcases h.seen s mem with coming | past | here
    · right
      rcases List.mem_cons.mp coming with rfl | coming
      · exact Nat.le_refl _
      · exact (List.pairwise_cons.mp h.sorted).1 s coming
    · exact .inl (Nat.le_trans past h.forward)
    · exact .inl here.1
  seen := by
    intro s mem
    rcases h.seen s mem with coming | past | here
    · rcases List.mem_cons.mp coming with rfl | coming
      · right
        right
        exact ⟨Nat.le_refl _, Nat.le_refl _⟩
      · exact .inl coming
    · exact .inr (.inl (Nat.le_trans past h.forward))
    · exact .inr (.inl here.1)
  sorted := (List.pairwise_cons.mp h.sorted).2
  ordered := ⟨h.ordered.2 span (List.mem_cons_self ..),
    fun s mem => h.ordered.2 s (List.mem_cons_of_mem _ mem)⟩

/-- No secret span covers a place before the group and behind the last one. -/
theorem Growing.gap (h : Growing all last first prev rest) {p : Nat} (behind : last ≤ p)
    (ahead : p < prev.start) : ∀ s ∈ all, ¬s.Covers p := by
  intro s mem covers
  cases h.before s mem with
  | inl past => exact absurd covers.2 (by omega)
  | inr later => exact absurd covers.1 (by omega)

/-- No secret span covers a place in a group that passes, before the spans to come. -/
theorem Growing.passing (h : Growing all last first prev rest) (passes : ¬prev.Secret) {p : Nat}
    (inside : first.Covers p) (ends : ∀ s ∈ rest, prev.stop ≤ s.start) :
    ∀ s ∈ all, s.Secret → ¬s.Covers p := by
  intro s mem secret covers
  rcases h.seen s mem with coming | past | here
  · have := ends s coming
    have := h.within
    exact absurd covers.1 (by have := inside.2; omega)
  · have := h.begun
    have := h.start
    exact absurd covers.2 (by have := inside.1; omega)
  · exact passes (Nat.lt_of_le_of_lt here.2 secret)

/-- Behind the last group there is no span. -/
theorem Growing.tail (h : Growing all last first prev []) {p : Nat} (behind : prev.stop ≤ p) :
    ∀ s ∈ all, ¬s.Covers p := by
  intro s mem covers
  have stops : s.stop ≤ prev.stop := by
    rcases h.seen s mem with none | past | here
    · cases none
    · exact Nat.le_trans past h.forward
    · exact here.1
  exact absurd covers.2 (by omega)

variable {first₂ prev₂ : DetectedSpan}

theorem applyTransform_congr {a b : DetectedSpan} (action : a.action = b.action)
    (sensitivityClass : a.sensitivityClass = b.sensitivityClass)
    (text : a.matchedText = b.matchedText) :
    applyTransform decimal? a = applyTransform decimal? b := by
  rw [applyTransform, applyTransform, action, sensitivityClass, text]

/-- A group that no generalizer is turned on is replaced by the same text in both. -/
theorem Growing.same (h : Growing all last first prev rest)
    (outside : ∀ p, (∀ s ∈ all, s.Secret → ¬s.Covers p) → t₁[p]? = t₂[p]?)
    (begins : Matched decimal? t₁ t₂ first first₂) (alike : Alike prev prev₂)
    (text₂ : prev₂.matchedText = first₂.matchedText)
    (ends : ∀ s ∈ rest, prev.stop ≤ s.start) (plain : ¬Turned decimal? (first, prev)) :
    applyTransform decimal? prev = applyTransform decimal? prev₂ := by
  have passes (passing : ¬prev.Secret) : prev.matchedText = prev₂.matchedText := by
    rw [h.text, text₂, begins.text₁, begins.text₂, ← begins.alike.start, ← begins.alike.stop]
    apply slice_congr
    intro p above below
    exact outside p (h.passing passing ⟨above, below⟩ ends)
  cases action : prev.action with
  | strip =>
    have action₂ := alike.action.symm.trans action
    rw [applyTransform, applyTransform, action, action₂, alike.sensitivityClass]
  | generalize =>
    have action₂ := alike.action.symm.trans action
    cases h.origin with
    | inl own =>
      have same := begins.generalized (own.1.symm.trans action)
      rw [applyTransform_congr own.1 own.2 h.text, same]
      apply applyTransform_congr
      · rw [← begins.alike.action, ← alike.action, own.1]
      · rw [← begins.alike.sensitivityClass, ← alike.sensitivityClass, own.2]
      · exact text₂.symm
    | inr taken =>
      cases generalizer : generalizer? decimal? prev.sensitivityClass with
      | none =>
        have generalizer₂ := alike.sensitivityClass ▸ generalizer
        rw [applyTransform, applyTransform, action, action₂, generalizer, generalizer₂,
          alike.sensitivityClass]
      | some _ =>
        rw [action] at taken
        have passing : ¬first.Secret := Nat.not_lt.mpr taken
        exact absurd ⟨passing, action, by rw [generalizer]; rfl⟩ plain
  | pass =>
    have open_ : ¬prev.Secret := by rw [DetectedSpan.Secret, action]; decide
    exact applyTransform_congr alike.action alike.sensitivityClass (passes open_)
  | other name =>
    have open_ : ¬prev.Secret := by
      rw [DetectedSpan.Secret, action]
      exact Nat.lt_irrefl 2
    exact applyTransform_congr alike.action alike.sensitivityClass (passes open_)

theorem aligned_groupsFrom {rest₂ : List DetectedSpan}
    (outside : ∀ p, (∀ s ∈ all, s.Secret → ¬s.Covers p) → t₁[p]? = t₂[p]?)
    (h : Growing all last first prev rest)
    (matched : List.Forall₂ (Matched decimal? t₁ t₂) rest rest₂)
    (begins : Matched decimal? t₁ t₂ first first₂) (alike : Alike prev prev₂)
    (text₂ : prev₂.matchedText = first₂.matchedText) :
    Aligned decimal? t₁ t₂ last (groupsFrom first prev rest) (groupsFrom first₂ prev₂ rest₂) := by
  have gap {last : Nat} {rest : List DetectedSpan} {first prev prev₂ : DetectedSpan}
      (h : Growing all last first prev rest) (alike : Alike prev prev₂) :
      slice t₁ last prev.start = slice t₂ last prev₂.start := by
    rw [← alike.start]
    apply slice_congr
    intro p behind ahead
    exact outside p fun s mem _ => h.gap behind ahead s mem
  have turned {first first₂ prev prev₂ : DetectedSpan} (begins : Alike first first₂)
      (alike : Alike prev prev₂) : Turned decimal? (first, prev) ↔ Turned decimal? (first₂, prev₂) := by
    rw [Turned, Turned, DetectedSpan.Secret, DetectedSpan.Secret, begins.action, alike.action,
      alike.sensitivityClass]
  induction matched generalizing last first prev first₂ prev₂ with
  | nil =>
    refine .cons (gap h alike) alike (turned begins.alike alike)
      (h.same outside begins alike text₂ nofun) (.nil ?_)
    apply drop_congr
    intro p behind
    exact outside p fun s mem _ => h.tail behind s mem
  | @cons span span₂ rest rest₂ here _ ih =>
    rw [groupsFrom, groupsFrom, ← here.alike.start, ← alike.stop]
    split
    · rename_i overlaps
      refine ih h.absorb begins (absorb_alike alike here.alike) ?_
      rw [absorb_text, text₂]
    · rename_i apart
      have ends : ∀ s ∈ span :: rest, prev.stop ≤ s.start := by
        intro s mem
        rcases List.mem_cons.mp mem with rfl | mem
        · exact Nat.le_of_not_lt apart
        · exact Nat.le_trans (Nat.le_of_not_lt apart) ((List.pairwise_cons.mp h.sorted).1 s mem)
      exact .cons (gap h alike) alike (turned begins.alike alike)
        (h.same outside begins alike text₂ ends) (ih (h.next apart) here here.alike rfl)

theorem aligned_groups {spans₁ spans₂ : List DetectedSpan}
    (outside : ∀ p, (∀ s ∈ spans₁, s.Secret → ¬s.Covers p) → t₁[p]? = t₂[p]?)
    (ordered : ∀ s ∈ spans₁, s.start ≤ s.stop)
    (matched : List.Forall₂ (Matched decimal? t₁ t₂) spans₁ spans₂) :
    Aligned decimal? t₁ t₂ 0 (groups spans₁) (groups spans₂) := by
  have same := sort_forall₂ (fun _ _ m => m.alike) matched
  have sorted := sorted_starts spans₁
  have members (s : DetectedSpan) : s ∈ spans₁.insertionSort Order ↔ s ∈ spans₁ :=
    List.mem_insertionSort Order
  unfold groups
  generalize spans₁.insertionSort Order = list₁ at same sorted members
  generalize spans₂.insertionSort Order = list₂ at same
  replace outside : ∀ p, (∀ s ∈ list₁, s.Secret → ¬s.Covers p) → t₁[p]? = t₂[p]? :=
    fun p apart => outside p fun s mem => apart s ((members s).mpr mem)
  replace ordered : ∀ s ∈ list₁, s.start ≤ s.stop := fun s mem => ordered s ((members s).mp mem)
  cases same with
  | nil => exact .nil (drop_congr fun p _ => outside p nofun)
  | @cons span span₂ rest rest₂ here later =>
    obtain ⟨first, rest_sorted⟩ := List.pairwise_cons.mp sorted
    refine aligned_groupsFrom outside ?_ later here here.alike rfl
    constructor
    case start | text => rfl
    case within => exact Nat.le_refl _
    case begun => exact Nat.zero_le _
    case origin => exact .inl ⟨rfl, rfl⟩
    case before =>
      intro s mem
      right
      rcases List.mem_cons.mp mem with rfl | mem
      · exact Nat.le_refl _
      · exact first s mem
    case seen =>
      intro s mem
      rcases List.mem_cons.mp mem with rfl | mem
      · exact .inr (.inr ⟨Nat.le_refl _, Nat.le_refl _⟩)
      · exact .inl mem
    case sorted => exact rest_sorted
    case ordered =>
      exact ⟨ordered span (List.mem_cons_self ..),
        fun s mem => ordered s (List.mem_cons_of_mem _ mem)⟩

end Sweep

section Payloads

variable {decimal? : CodePoint → Option Nat} {t₁ t₂ : PyStr}

theorem payload_groups (text : PyStr) (spans : List DetectedSpan) :
    payload decimal? text spans = transformFrom decimal? text 0 ((groups spans).map Prod.snd) := by
  rw [payload, transformText, groups_merged]
  by_cases none : spans = []
  · subst none
    simp [mergeOverlappingSpans, transformFrom]
  · rw [if_neg none, Option.map_map]
    cases transformFrom decimal? text 0 (mergeOverlappingSpans spans) <;> rfl

/-- The generalizers turned on passing spans make the same of both texts. -/
def Levelled (decimal? : CodePoint → Option Nat)
    (gs₁ gs₂ : List (DetectedSpan × DetectedSpan)) : Prop :=
  List.Forall₂ (fun g₁ g₂ => Turned decimal? g₁ →
    applyTransform decimal? g₁.2 = applyTransform decimal? g₂.2) gs₁ gs₂

variable {last : Nat} {gs₁ gs₂ : List (DetectedSpan × DetectedSpan)}

theorem transform_levelled (aligned : Aligned decimal? t₁ t₂ last gs₁ gs₂)
    (level : Levelled decimal? gs₁ gs₂) :
    transformFrom decimal? t₁ last (gs₁.map Prod.snd) =
      transformFrom decimal? t₂ last (gs₂.map Prod.snd) := by
  induction aligned with
  | nil tail =>
    rw [List.map_nil, transformFrom, transformFrom, tail]
  | @cons last g₁ g₂ rest₁ rest₂ gap alike turned same _ ih =>
    obtain ⟨here, later⟩ := List.forall₂_cons.mp level
    have piece : applyTransform decimal? g₁.2 = applyTransform decimal? g₂.2 := by
      by_cases isTurned : Turned decimal? g₁
      · exact here isTurned
      · exact same isTurned
    rw [List.map_cons, List.map_cons, transformFrom, transformFrom, ← alike.stop, ih later, piece, gap]

theorem levelled_of_none (aligned : Aligned decimal? t₁ t₂ last gs₁ gs₂)
    (none : ∀ g ∈ gs₁, ¬Turned decimal? g) : Levelled decimal? gs₁ gs₂ := by
  induction aligned with
  | nil => exact .nil
  | cons _ _ _ _ _ ih =>
    obtain ⟨here, later⟩ := List.forall_mem_cons.mp none
    exact .cons (fun turned => absurd turned here) (ih later)

/-- At most one generalizer is turned on a passing span. -/
def TurnedOnce (decimal? : CodePoint → Option Nat)
    (gs : List (DetectedSpan × DetectedSpan)) : Prop :=
  gs.Pairwise fun a b => Turned decimal? a → ¬Turned decimal? b

theorem levelled_of_transform (aligned : Aligned decimal? t₁ t₂ last gs₁ gs₂)
    (once : TurnedOnce decimal? gs₁) {result : PyStr}
    (first : transformFrom decimal? t₁ last (gs₁.map Prod.snd) = some result)
    (second : transformFrom decimal? t₂ last (gs₂.map Prod.snd) = some result) :
    Levelled decimal? gs₁ gs₂ := by
  induction aligned generalizing result with
  | nil => exact .nil
  | @cons last g₁ g₂ rest₁ rest₂ gap alike turned same rest ih =>
    obtain ⟨alone, once⟩ := List.pairwise_cons.mp once
    rw [List.map_cons, transformFrom] at first second
    obtain ⟨piece₁, made₁, first⟩ := Option.bind_eq_some_iff.mp first
    obtain ⟨tail₁, rest₁', first⟩ := Option.bind_eq_some_iff.mp first
    obtain ⟨piece₂, made₂, second⟩ := Option.bind_eq_some_iff.mp second
    obtain ⟨tail₂, rest₂', second⟩ := Option.bind_eq_some_iff.mp second
    have glued : slice t₁ last g₁.2.start ++ piece₁ ++ tail₁ =
        slice t₂ last g₂.2.start ++ piece₂ ++ tail₂ :=
      Option.some.inj (first.trans second.symm)
    rw [gap] at glued
    rw [← alike.stop] at rest₂'
    by_cases isTurned : Turned decimal? g₁
    · have level := levelled_of_none rest fun g mem => alone g mem isTurned
      have tails : tail₁ = tail₂ := by
        rw [transform_levelled rest level, rest₂'] at rest₁'
        exact (Option.some.inj rest₁').symm
      rw [tails] at glued
      have pieces := List.append_cancel_left (List.append_cancel_right glued)
      refine .cons (fun _ => ?_) level
      rw [made₁, made₂, pieces]
    · have pieces : piece₁ = piece₂ := by
        have same := same isTurned
        rw [made₁, made₂] at same
        exact Option.some.inj same
      rw [pieces] at glued
      have tails := List.append_cancel_left glued
      rw [tails] at rest₁'
      exact .cons (fun turned => absurd turned isTurned) (ih once rest₁' rest₂')

/-- A turned generalizer is applied to the text of the span that the group began with. -/
theorem turned_piece {g : DetectedSpan × DetectedSpan} {generalizer : PyStr → Option PyStr}
    (turned : Turned decimal? g) (text : g.2.matchedText = g.1.matchedText)
    (is : generalizer? decimal? g.2.sensitivityClass = some generalizer) :
    applyTransform decimal? g.2 = generalizer g.1.matchedText := by
  rw [applyTransform, turned.2.1, is, text]

theorem levelled_iff_settles (aligned : Aligned decimal? t₁ t₂ last gs₁ gs₂)
    (text₁ : ∀ g ∈ gs₁, g.2.matchedText = g.1.matchedText)
    (text₂ : ∀ g ∈ gs₂, g.2.matchedText = g.1.matchedText) :
    Levelled decimal? gs₁ gs₂ ↔ List.Forall₂ (Settles decimal?) gs₁ gs₂ := by
  unfold Levelled
  induction aligned with
  | nil => exact iff_of_true .nil .nil
  | @cons last g₁ g₂ rest₁ rest₂ gap alike turned same rest ih =>
    obtain ⟨own₁, text₁⟩ := List.forall_mem_cons.mp text₁
    obtain ⟨own₂, text₂⟩ := List.forall_mem_cons.mp text₂
    rw [List.forall₂_cons, List.forall₂_cons]
    apply and_congr _ (ih text₁ text₂)
    apply imp_congr_right
    intro isTurned
    obtain ⟨generalizer, is⟩ := Option.isSome_iff_exists.mp isTurned.2.2
    have is₂ := alike.sensitivityClass ▸ is
    rw [turned_piece isTurned own₁ is, turned_piece (turned.mp isTurned) own₂ is₂]
    constructor
    · intro level generalizer' is'
      cases is.symm.trans is'
      exact level
    · intro level
      exact level generalizer is

end Payloads

section Main

variable (decimal? : CodePoint → Option Nat) (finditer : PyStr → PyStr → List (Nat × Nat))
  (config : SensitivityConfig) (t₁ t₂ : PyStr)

theorem payload_same_iff
    (ordered : ∀ source text, ∀ m ∈ finditer source text, m.1 ≤ m.2)
    (h : Indistinguishable decimal? t₁ t₂ (scan finditer config t₁) (scan finditer config t₂)) :
    let spans₁ := scan finditer config t₁
    let spans₂ := scan finditer config t₂
    (Settled decimal? spans₁ spans₂ → payload decimal? t₁ spans₁ = payload decimal? t₂ spans₂) ∧
    (TurnedOnce decimal? (groups spans₁) → ∀ result, payload decimal? t₁ spans₁ = some result →
      payload decimal? t₂ spans₂ = some result → Settled decimal? spans₁ spans₂) := by
  intro spans₁ spans₂
  have aligned : Aligned decimal? t₁ t₂ 0 (groups spans₁) (groups spans₂) := by
    apply aligned_groups
    · intro p apart
      by_cases inside : p < t₁.length
      · exact h.outside p inside apart
      · rw [List.getElem?_eq_none (by omega), List.getElem?_eq_none (by have := h.length; omega)]
    · intro s mem
      obtain ⟨pattern, -, mem⟩ := List.mem_flatMap.mp mem
      obtain ⟨m, found, made⟩ := List.mem_filterMap.mp mem
      dsimp only at made
      split at made
      · cases made
      · cases made
        exact ordered _ _ m found
    · rw [List.forall₂_iff_zip]
      refine ⟨h.spans.length_eq, ?_⟩
      intro a b mem
      obtain ⟨mem₁, mem₂⟩ := List.of_mem_zip mem
      exact ⟨(List.forall₂_iff_zip.mp h.spans).2 mem, scan_text mem₁, scan_text mem₂,
        (List.forall₂_iff_zip.mp h.generalized).2 mem⟩
  have settled : Levelled decimal? (groups spans₁) (groups spans₂) ↔
      Settled decimal? spans₁ spans₂ := levelled_iff_settles aligned groups_text groups_text
  rw [payload_groups, payload_groups, ← settled]
  exact ⟨transform_levelled aligned, fun once _ => levelled_of_transform aligned once⟩

end Main

section Sample

def asciiDecimal? (c : CodePoint) : Option Nat :=
  if 0x30 ≤ c.val ∧ c.val ≤ 0x39 then some (c.val - 0x30) else none

/-- Dates are generalized; a field that holds one passes. -/
def sampleConfig : SensitivityConfig where
  patterns := [⟨py "DOB: [0-9-]+", py "field", .pass⟩,
    ⟨py "[0-9]+-[0-9]+-[0-9]+", py "date", .generalize⟩]
  allowlists _ := []

/-- The matches of the two patterns in a text such as DOB: 1990-01-02. -/
def sampleMatches (source text : PyStr) : List (Nat × Nat) :=
  if text.length ≠ 15 then []
  else if source = py "DOB: [0-9-]+" then [(0, 15)]
  else [(5, 15)]

def sampleSpans (text : PyStr) : List DetectedSpan := scan sampleMatches sampleConfig text

/-- A passing span takes the date it contains along, day and month included. -/
theorem date_survives :
    let t₁ := py "DOB: 1990-01-02"
    let t₂ := py "DOB: 1990-03-04"
    Indistinguishable asciiDecimal? t₁ t₂ (sampleSpans t₁) (sampleSpans t₂) ∧
    payload asciiDecimal? t₁ (sampleSpans t₁) = some t₁ ∧
    payload asciiDecimal? t₂ (sampleSpans t₂) = some t₂ := by
  refine ⟨by decide +kernel, by decide +kernel, by decide +kernel⟩

/-- The same with the field's pattern left out. -/
def datesOnly : SensitivityConfig := { sampleConfig with patterns := sampleConfig.patterns.drop 1 }

theorem payload_same_iff_witness :
    let t₁ := py "DOB: 1990-01-02"
    let t₂ := py "DOB: 1990-03-04"
    payload asciiDecimal? t₁ (scan sampleMatches datesOnly t₁) =
      payload asciiDecimal? t₂ (scan sampleMatches datesOnly t₂) := by
  intro t₁ t₂
  have ordered : ∀ source text, ∀ m ∈ sampleMatches source text, m.1 ≤ m.2 := by
    intro source text m mem
    unfold sampleMatches at mem
    split at mem
    · cases mem
    · split at mem
      all_goals
        rw [List.mem_singleton.mp mem]
        decide
  have main := payload_same_iff asciiDecimal? sampleMatches datesOnly t₁ t₂ ordered
    (by decide +kernel)
  apply main.1
  have plain : ∀ g ∈ groups (scan sampleMatches datesOnly t₁), g.1.Secret := by
    have table : ((groups (scan sampleMatches datesOnly t₁)).all fun g => g.1.Secret) = true := by
      decide +kernel
    intro g mem
    exact of_decide_eq_true (List.all_eq_true.mp table g mem)
  rw [Settled, List.forall₂_iff_zip]
  constructor
  · decide +kernel
  · intro g₁ g₂ mem turned
    exact absurd (plain g₁ (List.of_mem_zip mem).1) turned.1

end Sample

end Drnt.Context
