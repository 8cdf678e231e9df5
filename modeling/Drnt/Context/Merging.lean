import Drnt.Context.Noninterference
import Mathlib.Logic.Relation

/-! What becomes of overlapping spans: the merged spans against those that were found, and the text
that stays around them. -/
namespace Drnt.Context

open Lib

section Merged

def DetectedSpan.Within (inner outer : DetectedSpan) : Prop :=
  outer.start ≤ inner.start ∧ inner.stop ≤ outer.stop

/-- Sorted and disjoint spans over the same places, each with the most restrictive of the actions
that it covers. -/
structure Merged (spans merged : List DetectedSpan) : Prop where
  sorted : merged.Pairwise fun a b => a.start ≤ b.start
  disjoint : merged.Pairwise fun a b => a.stop ≤ b.start
  union : ∀ p, (∃ m ∈ merged, m.Covers p) ↔ ∃ s ∈ spans, s.Covers p
  whole : ∀ m ∈ merged, ∀ s ∈ spans, ∀ p, m.Covers p → s.Covers p → s.Within m
  action : ∀ m ∈ merged, ∃ s ∈ spans, s.Within m ∧ s.action = m.action
  strictest : ∀ m ∈ merged, ∀ s ∈ spans, s.Within m → m.action.precedence ≤ s.action.precedence

/-- A span that matched something in the text and carries it. -/
structure Found (text : PyStr) (s : DetectedSpan) : Prop where
  nonempty : s.start < s.stop
  inside : s.stop ≤ text.length
  carries : s.matchedText = slice text s.start s.stop

variable (decimal? : CodePoint → Option Nat)

/-- The text from a position on, with nothing replaced but what is not to pass. -/
def wovenFrom (text : PyStr) (last : Nat) : List DetectedSpan → Option PyStr
  | [] => some (text.drop last)
  | m :: rest => do
    let piece ← if m.action = .pass then some (slice text m.start m.stop)
      else applyTransform decimal? m
    let tail ← wovenFrom text m.stop rest
    return slice text last m.start ++ piece ++ tail

/-- Every character outside the merged spans, or in one that passes, is there in its place. -/
def Preserved (text : PyStr) (merged : List DetectedSpan) (out : PyStr) : Prop :=
  wovenFrom decimal? text 0 merged = some out

def Touches (a b : DetectedSpan) : Prop := a.start < b.stop ∧ b.start < a.stop

/-- A chain of spans that touch leads from the one to the other. -/
def Connected (spans : List DetectedSpan) : DetectedSpan → DetectedSpan → Prop :=
  Relation.ReflTransGen fun a b => b ∈ spans ∧ Touches a b

/-- No span that comes before it, by start, the stricter first, then as given, reaches it. -/
def Leads (spans : List DetectedSpan) (f : DetectedSpan) : Prop :=
  ∃ front back, spans.insertionSort Order = front ++ f :: back ∧ ∀ g ∈ front, g.stop ≤ f.start

/-- Where a span that passes and leads is overrun by another, a stricter one is connected to it. -/
def NoneOverrun (spans : List DetectedSpan) : Prop :=
  ∀ f, Leads spans f → f.action = .pass → ∀ s ∈ spans, s.start < f.stop → f.stop < s.stop →
    ∃ t, Connected spans f t ∧ t.Secret

end Merged

section Sweep

variable {prev span m s : DetectedSpan} {rest : List DetectedSpan} {p : Nat}

theorem within_refl (s : DetectedSpan) : s.Within s := ⟨Nat.le_refl _, Nat.le_refl _⟩

theorem within_trans {a b c : DetectedSpan} (inner : a.Within b) (outer : b.Within c) :
    a.Within c :=
  ⟨Nat.le_trans outer.1 inner.1, Nat.le_trans inner.2 outer.2⟩

theorem within_absorb (prev span : DetectedSpan) : prev.Within (absorb prev span) := by
  constructor
  · rw [absorb_start]
  · rw [absorb_stop]
    exact Nat.le_max_left ..

theorem within_absorb_right (after : prev.start ≤ span.start) :
    span.Within (absorb prev span) := by
  constructor
  · rw [absorb_start]
    exact after
  · rw [absorb_stop]
    exact Nat.le_max_right ..

theorem covers_of_within {a b : DetectedSpan} (inner : a.Within b) (covers : a.Covers p) :
    b.Covers p :=
  ⟨Nat.le_trans inner.1 covers.1, Nat.lt_of_lt_of_le covers.2 inner.2⟩

theorem absorb_covers (after : prev.start ≤ span.start) (overlaps : span.start < prev.stop) :
    (absorb prev span).Covers p ↔ prev.Covers p ∨ span.Covers p := by
  unfold DetectedSpan.Covers
  rw [absorb_start, absorb_stop]
  omega

/-- The spans that are left, in order, with the one that is being extended. -/
structure Ordered (prev : DetectedSpan) (rest : List DetectedSpan) : Prop where
  after : ∀ s ∈ rest, prev.start ≤ s.start
  sorted : rest.Pairwise fun a b => a.start ≤ b.start
  nonempty : prev.start < prev.stop
  nonempties : ∀ s ∈ rest, s.start < s.stop

theorem Ordered.absorb (h : Ordered prev (span :: rest)) : Ordered (absorb prev span) rest where
  after := by
    intro s mem
    rw [absorb_start]
    exact h.after s (List.mem_cons_of_mem _ mem)
  sorted := (List.pairwise_cons.mp h.sorted).2
  nonempty := by
    rw [absorb_start, absorb_stop]
    have := h.nonempty
    omega
  nonempties s mem := h.nonempties s (List.mem_cons_of_mem _ mem)

theorem Ordered.next (h : Ordered prev (span :: rest)) : Ordered span rest where
  after := (List.pairwise_cons.mp h.sorted).1
  sorted := (List.pairwise_cons.mp h.sorted).2
  nonempty := h.nonempties span (List.mem_cons_self ..)
  nonempties s mem := h.nonempties s (List.mem_cons_of_mem _ mem)

theorem mergeFrom_start (h : Ordered prev rest) :
    ∀ m ∈ mergeFrom prev rest, prev.start ≤ m.start := by
  induction rest generalizing prev with
  | nil =>
    intro m mem
    rw [List.mem_singleton.mp mem]
  | cons span rest ih =>
    rw [mergeFrom]
    split
    · have further := ih h.absorb
      rwa [absorb_start] at further
    · intro m mem
      rcases List.mem_cons.mp mem with rfl | mem
      · exact Nat.le_refl _
      · exact Nat.le_trans (h.after span (List.mem_cons_self ..)) (ih h.next m mem)

theorem mergeFrom_nonempty (h : Ordered prev rest) :
    ∀ m ∈ mergeFrom prev rest, m.start < m.stop := by
  induction rest generalizing prev with
  | nil =>
    intro m mem
    rw [List.mem_singleton.mp mem]
    exact h.nonempty
  | cons span rest ih =>
    rw [mergeFrom]
    split
    · exact ih h.absorb
    · exact List.forall_mem_cons.mpr ⟨h.nonempty, ih h.next⟩

theorem mergeFrom_disjoint (h : Ordered prev rest) :
    (mergeFrom prev rest).Pairwise fun a b => a.stop ≤ b.start := by
  induction rest generalizing prev with
  | nil => exact List.pairwise_singleton ..
  | cons span rest ih =>
    rw [mergeFrom]
    split
    · exact ih h.absorb
    · rename_i apart
      refine List.pairwise_cons.mpr ⟨fun m mem => ?_, ih h.next⟩
      have start := mergeFrom_start h.next m mem
      omega

theorem mergeFrom_union (h : Ordered prev rest) :
    (∃ m ∈ mergeFrom prev rest, m.Covers p) ↔ prev.Covers p ∨ ∃ s ∈ rest, s.Covers p := by
  induction rest generalizing prev with
  | nil => simp [mergeFrom]
  | cons span rest ih =>
    rw [mergeFrom, List.exists_mem_cons_iff]
    split
    · rename_i overlaps
      rw [ih h.absorb, absorb_covers (h.after span (List.mem_cons_self ..)) overlaps, or_assoc]
    · rw [List.exists_mem_cons_iff, ih h.next]

/-- A span that shares a place with a merged span is a part of it and no stricter. -/
theorem mergeFrom_whole (h : Ordered prev rest) (merged : m ∈ mergeFrom prev rest)
    (mem : s = prev ∨ s ∈ rest) (there : m.Covers p) (here : s.Covers p) :
    s.Within m ∧ m.action.precedence ≤ s.action.precedence := by
  induction rest generalizing prev s with
  | nil =>
    cases List.mem_singleton.mp merged
    rcases mem with rfl | mem
    · exact ⟨within_refl _, Nat.le_refl _⟩
    · cases mem
  | cons span rest ih =>
    rw [mergeFrom] at merged
    have after := h.after span (List.mem_cons_self ..)
    split at merged
    case isTrue overlaps =>
      -- what has been absorbed is a part of what it has become
      have part (inner : s.Within (absorb prev span))
          (less : (absorb prev span).action.precedence ≤ s.action.precedence) :
          s.Within m ∧ m.action.precedence ≤ s.action.precedence := by
        obtain ⟨outer, least⟩ := ih h.absorb merged (.inl rfl) (covers_of_within inner here)
        exact ⟨within_trans inner outer, Nat.le_trans least less⟩
      have least := absorb_precedence prev span
      rcases mem with rfl | mem
      · exact part (within_absorb ..) (by omega)
      · rcases List.mem_cons.mp mem with rfl | mem
        · exact part (within_absorb_right after) (by omega)
        · exact ih h.absorb merged (.inr mem) here
    case isFalse apart =>
      rcases List.mem_cons.mp merged with rfl | later
      · rcases mem with rfl | mem
        · exact ⟨within_refl _, Nat.le_refl _⟩
        · -- the spans to come begin behind it
          have behind : span.start ≤ s.start := by
            rcases List.mem_cons.mp mem with rfl | mem
            · exact Nat.le_refl _
            · exact h.next.after s mem
          have := there.2
          have := here.1
          omega
      · rcases mem with rfl | mem
        · have behind := mergeFrom_start h.next m later
          have := there.1
          have := here.2
          omega
        · exact ih h.next later (List.mem_cons.mp mem) here

theorem mergeFrom_action (h : Ordered prev rest) :
    ∀ m ∈ mergeFrom prev rest, ∃ s, (s = prev ∨ s ∈ rest) ∧ s.Within m ∧ s.action = m.action := by
  induction rest generalizing prev with
  | nil =>
    intro m mem
    rw [List.mem_singleton.mp mem]
    exact ⟨prev, .inl rfl, within_refl _, rfl⟩
  | cons span rest ih =>
    intro m mem
    rw [mergeFrom] at mem
    split at mem
    case isTrue overlaps =>
      obtain ⟨s, own | later, inner, same⟩ := ih h.absorb m mem
      · subst own
        have after := h.after span (List.mem_cons_self ..)
        by_cases stricter : span.action.precedence < prev.action.precedence
        · refine ⟨span, .inr (List.mem_cons_self ..), ?_, ?_⟩
          · exact within_trans (within_absorb_right after) inner
          · rw [← same, Context.absorb, if_pos stricter]
        · refine ⟨prev, .inl rfl, within_trans (within_absorb ..) inner, ?_⟩
          rw [← same, Context.absorb, if_neg stricter]
      · exact ⟨s, .inr (List.mem_cons_of_mem _ later), inner, same⟩
    case isFalse apart =>
      rcases List.mem_cons.mp mem with rfl | mem
      · exact ⟨m, .inl rfl, within_refl _, rfl⟩
      · obtain ⟨s, from_, inner, same⟩ := ih h.next m mem
        exact ⟨s, .inr (List.mem_cons.mpr from_), inner, same⟩

end Sweep

section Merging

variable {spans : List DetectedSpan}

/-- The sorted spans, from the first on. -/
theorem ordered_sorted (nonempty : ∀ s ∈ spans, s.start < s.stop) {first : DetectedSpan}
    {rest : List DetectedSpan} (sort : spans.insertionSort Order = first :: rest) :
    Ordered first rest := by
  have sorted := sorted_starts spans
  have members (s : DetectedSpan) (mem : s ∈ first :: rest) : s.start < s.stop := by
    rw [← sort] at mem
    exact nonempty s ((List.mem_insertionSort Order).mp mem)
  rw [sort, List.pairwise_cons] at sorted
  exact ⟨sorted.1, sorted.2, members first (List.mem_cons_self ..),
    fun s mem => members s (List.mem_cons_of_mem _ mem)⟩

theorem merged_merge (nonempty : ∀ s ∈ spans, s.start < s.stop) :
    Merged spans (mergeOverlappingSpans spans) := by
  have members (s : DetectedSpan) : s ∈ spans.insertionSort Order ↔ s ∈ spans :=
    List.mem_insertionSort Order
  unfold mergeOverlappingSpans
  cases sort : spans.insertionSort Order with
  | nil =>
    have none_ : spans = [] := by
      rw [List.eq_nil_iff_forall_not_mem]
      intro s mem
      rw [← members s, sort] at mem
      cases mem
    subst none_
    exact ⟨.nil, .nil, by simp, nofun, nofun, nofun⟩
  | cons first rest =>
    have h := ordered_sorted nonempty sort
    have known (s : DetectedSpan) : s ∈ spans ↔ s = first ∨ s ∈ rest := by
      rw [← members s, sort, List.mem_cons]
    dsimp only
    have disjoint := mergeFrom_disjoint h
    constructor
    case sorted =>
      apply (List.pairwise_iff_forall_sublist.mpr _)
      intro a b sub
      have apart : a.stop ≤ b.start := List.pairwise_iff_forall_sublist.mp disjoint sub
      have filled := mergeFrom_nonempty h a (sub.subset (List.mem_cons_self ..))
      omega
    case disjoint => exact disjoint
    case union =>
      intro p
      rw [mergeFrom_union h]
      simp only [known, or_and_right, exists_or, exists_eq_left]
    case whole =>
      intro m merged s mem p there here
      exact (mergeFrom_whole h merged ((known s).mp mem) there here).1
    case action =>
      intro m merged
      obtain ⟨s, mem, inner, same⟩ := mergeFrom_action h m merged
      exact ⟨s, (known s).mpr mem, inner, same⟩
    case strictest =>
      intro m merged s mem inner
      have here : s.Covers s.start := ⟨Nat.le_refl _, nonempty s mem⟩
      exact (mergeFrom_whole h merged ((known s).mp mem) (covers_of_within inner here) here).2

end Merging

section Groups

variable {spans front done rest : List DetectedSpan} {f prev span m s t : DetectedSpan}

/-- A group under way: the sorted spans before it, the members after its first, what it has come to,
and the spans to come. -/
structure Gathering (spans front done : List DetectedSpan) (f prev : DetectedSpan)
    (rest : List DetectedSpan) : Prop where
  sort : spans.insertionSort Order = front ++ (f :: done) ++ rest
  begins : ∀ g ∈ front, g.stop ≤ f.start
  start : prev.start = f.start
  top : ∃ x ∈ f :: done, x.stop = prev.stop
  below : ∀ x ∈ f :: done, x.stop ≤ prev.stop
  connected : ∀ x ∈ f :: done, Connected spans f x
  origin : prev.action = f.action ∨ prev.action.precedence < f.action.precedence
  overrun : prev.stop = f.stop ∨ ∃ s ∈ spans, s.start < f.stop ∧ f.stop < s.stop
  action : ∃ x ∈ f :: done, x.action = prev.action

/-- A finished group: the span that it began with, and the merged span. -/
structure Group (spans : List DetectedSpan) (f m : DetectedSpan) : Prop where
  leads : Leads spans f
  start : m.start = f.start
  reaches : f.stop ≤ m.stop
  ends : ∃ x ∈ spans, x.stop = m.stop
  connected : ∀ s ∈ spans, s.Within m → Connected spans f s
  origin : m.action = f.action ∨ m.action.precedence < f.action.precedence
  overrun : m.stop = f.stop ∨ ∃ s ∈ spans, s.start < f.stop ∧ f.stop < s.stop
  action : ∃ t, Connected spans f t ∧ t.action = m.action

theorem Gathering.mem (h : Gathering spans front done f prev rest) :
    s ∈ spans ↔ s ∈ front ∨ s ∈ f :: done ∨ s ∈ rest := by
  rw [← List.mem_insertionSort Order, h.sort, List.mem_append, List.mem_append, or_assoc]

theorem Gathering.sorted (h : Gathering spans front done f prev rest) :
    (front ++ (f :: done) ++ rest).Pairwise fun a b => a.start ≤ b.start :=
  h.sort ▸ sorted_starts spans

theorem gathering_first {front : List DetectedSpan}
    (sort : spans.insertionSort Order = front ++ f :: rest)
    (begins : ∀ g ∈ front, g.stop ≤ f.start) : Gathering spans front [] f f rest where
  sort := by rw [sort, List.append_assoc]; rfl
  begins := begins
  start := rfl
  top := ⟨f, List.mem_singleton_self _, rfl⟩
  below x mem := by rw [List.mem_singleton.mp mem]
  connected x mem := by
    rw [List.mem_singleton.mp mem]
    exact .refl
  origin := .inl rfl
  overrun := .inl rfl
  action := ⟨f, List.mem_singleton_self _, rfl⟩

/-- A span that overlaps is connected to the one that reaches furthest. -/
theorem Gathering.absorb (h : Gathering spans front done f prev (span :: rest))
    (nonempty : ∀ s ∈ spans, s.start < s.stop) (overlaps : span.start < prev.stop) :
    Gathering spans front (done ++ [span]) f (absorb prev span) rest := by
  have known : span ∈ spans := h.mem.mpr (.inr (.inr (List.mem_cons_self ..)))
  have members {x : DetectedSpan} : x ∈ f :: (done ++ [span]) ↔ x ∈ f :: done ∨ x = span := by
    rw [← List.cons_append, List.mem_append, List.mem_singleton]
  constructor
  case sort => rw [h.sort]; simp
  case begins => exact h.begins
  case start => rw [absorb_start, h.start]
  case top =>
    rw [absorb_stop]
    by_cases further : prev.stop ≤ span.stop
    · exact ⟨span, members.mpr (.inr rfl), (Nat.max_eq_right further).symm⟩
    · obtain ⟨x, mem, top⟩ := h.top
      exact ⟨x, members.mpr (.inl mem), by omega⟩
  case below =>
    intro x mem
    rw [absorb_stop]
    rcases members.mp mem with old | rfl
    · exact Nat.le_trans (h.below x old) (Nat.le_max_left ..)
    · exact Nat.le_max_right ..
  case connected =>
    intro x mem
    rcases members.mp mem with old | rfl
    · exact h.connected x old
    · obtain ⟨y, there, top⟩ := h.top
      have before : y.start ≤ x.start := by
        refine (List.pairwise_append.mp h.sorted).2.2 y ?_ x (List.mem_cons_self ..)
        exact List.mem_append_right _ there
      have filled := nonempty x known
      exact (h.connected y there).tail ⟨known, by omega, by omega⟩
  case origin =>
    by_cases stricter : span.action.precedence < prev.action.precedence
    · right
      rw [absorb_precedence]
      rcases h.origin with same | less
      · rw [← same]
        omega
      · omega
    · rw [Context.absorb, if_neg stricter]
      exact h.origin
  case overrun =>
    rw [absorb_stop]
    rcases h.overrun with same | past
    · by_cases further : prev.stop < span.stop
      · exact .inr ⟨span, known, by omega, by omega⟩
      · exact .inl (by omega)
    · exact .inr past
  case action =>
    by_cases stricter : span.action.precedence < prev.action.precedence
    · refine ⟨span, members.mpr (.inr rfl), ?_⟩
      rw [Context.absorb, if_pos stricter]
    · obtain ⟨x, mem, same⟩ := h.action
      refine ⟨x, members.mpr (.inl mem), ?_⟩
      rw [Context.absorb, if_neg stricter]
      exact same

/-- A span that does not overlap begins the next group. -/
theorem Gathering.next (h : Gathering spans front done f prev (span :: rest))
    (apart : ¬span.start < prev.stop) :
    Gathering spans (front ++ f :: done) [] span span rest := by
  refine gathering_first (by rw [h.sort]) fun g mem => ?_
  have after : f.start ≤ span.start := by
    refine (List.pairwise_append.mp h.sorted).2.2 f ?_ span (List.mem_cons_self ..)
    exact List.mem_append_right _ (List.mem_cons_self ..)
  rcases List.mem_append.mp mem with before | own
  · exact Nat.le_trans (h.begins g before) after
  · have := h.below g own
    omega

theorem Gathering.group (h : Gathering spans front done f prev rest)
    (nonempty : ∀ s ∈ spans, s.start < s.stop) (apart : ∀ s ∈ rest, prev.stop ≤ s.start) :
    Group spans f prev where
  leads := ⟨front, done ++ rest, by rw [h.sort]; simp, h.begins⟩
  start := h.start
  reaches := h.below f (List.mem_cons_self ..)
  ends := by
    obtain ⟨x, mem, top⟩ := h.top
    exact ⟨x, h.mem.mpr (.inr (.inl mem)), top⟩
  connected := by
    intro s known inner
    have filled := nonempty s known
    obtain ⟨begins, ends⟩ := inner
    rcases h.mem.mp known with before | own | later
    · have := h.begins s before
      have := h.start
      omega
    · exact h.connected s own
    · have := apart s later
      omega
  origin := h.origin
  overrun := h.overrun
  action := by
    obtain ⟨x, mem, same⟩ := h.action
    exact ⟨x, h.connected x mem, same⟩

theorem Gathering.groups (h : Gathering spans front done f prev rest)
    (nonempty : ∀ s ∈ spans, s.start < s.stop) :
    ∀ g ∈ groupsFrom f prev rest, Group spans g.1 g.2 := by
  induction rest generalizing front done f prev with
  | nil =>
    intro g mem
    rw [List.mem_singleton.mp mem]
    exact h.group nonempty nofun
  | cons span rest ih =>
    rw [groupsFrom]
    split
    · rename_i overlaps
      exact ih (h.absorb nonempty overlaps)
    · rename_i apart
      refine List.forall_mem_cons.mpr ⟨h.group nonempty fun s mem => ?_, ih (h.next apart)⟩
      have sorted := (List.pairwise_append.mp h.sorted).2.1
      have behind : span.start ≤ s.start := by
        rcases List.mem_cons.mp mem with rfl | mem
        · exact Nat.le_refl _
        · exact (List.pairwise_cons.mp sorted).1 s mem
      omega

theorem first_mem_groups (f prev : DetectedSpan) (rest : List DetectedSpan) :
    ∃ m, (f, m) ∈ groupsFrom f prev rest := by
  induction rest generalizing prev with
  | nil => exact ⟨prev, List.mem_singleton_self _⟩
  | cons span rest ih =>
    rw [groupsFrom]
    split
    · exact ih (absorb prev span)
    · exact ⟨prev, List.mem_cons_self ..⟩

/-- A span that none before it reaches begins a group. -/
theorem Gathering.leads (h : Gathering spans front done f prev rest)
    (nonempty : ∀ s ∈ spans, s.start < s.stop) {a b : List DetectedSpan}
    (split : rest = a ++ t :: b)
    (begins : ∀ g ∈ front ++ (f :: done) ++ a, g.stop ≤ t.start) :
    ∃ m, (t, m) ∈ groupsFrom f prev rest := by
  induction rest generalizing front done f prev a with
  | nil => simp at split
  | cons span rest ih =>
    rw [groupsFrom]
    cases a with
    | nil =>
      cases split
      have apart : ¬t.start < prev.stop := by
        obtain ⟨x, mem, top⟩ := h.top
        have := begins x (by simpa using .inr (List.mem_cons.mp mem))
        omega
      rw [if_neg apart]
      obtain ⟨m, mem⟩ := first_mem_groups t t b
      exact ⟨m, List.mem_cons_of_mem _ mem⟩
    | cons x a =>
      cases split
      by_cases overlaps : span.start < prev.stop
      · rw [if_pos overlaps]
        exact ih (h.absorb nonempty overlaps) rfl (by simpa using begins)
      · rw [if_neg overlaps]
        obtain ⟨m, mem⟩ := ih (h.next overlaps) rfl (by simpa using begins)
        exact ⟨m, List.mem_cons_of_mem _ mem⟩

/-- The groups are those that the leading spans begin. -/
theorem group_of_mem (nonempty : ∀ s ∈ spans, s.start < s.stop) {g : DetectedSpan × DetectedSpan}
    (mem : g ∈ groups spans) : Group spans g.1 g.2 := by
  unfold groups at mem
  cases sort : spans.insertionSort Order with
  | nil =>
    rw [sort] at mem
    cases mem
  | cons first rest =>
    rw [sort] at mem
    have start : Gathering spans [] [] first first rest := gathering_first sort (by simp)
    exact start.groups nonempty g mem

theorem mem_of_leads (nonempty : ∀ s ∈ spans, s.start < s.stop) (leads : Leads spans f) :
    ∃ m, (f, m) ∈ groups spans := by
  obtain ⟨front, back, sort, begins⟩ := leads
  unfold groups
  cases front with
  | nil =>
    rw [sort]
    exact first_mem_groups f f back
  | cons first front =>
    rw [sort]
    have start : Gathering spans [] [] first first (front ++ f :: back) :=
      gathering_first sort (by simp)
    exact start.leads nonempty rfl (by simpa using begins)

end Groups

section Passing

variable {spans merged : List DetectedSpan} {f m t : DetectedSpan}

theorem precedence_le (a : Action) : a.precedence ≤ 2 := by
  cases a <;> simp [Action.precedence]

theorem Connected.mem (chain : Connected spans f t) (known : f ∈ spans) : t ∈ spans := by
  cases chain with
  | refl => exact known
  | tail _ link => exact link.1

/-- What is connected to a part of a merged span is a part of it. -/
theorem Connected.within (nonempty : ∀ s ∈ spans, s.start < s.stop) (h : Merged spans merged)
    (mem : m ∈ merged) (known : f ∈ spans) (inner : f.Within m) (chain : Connected spans f t) :
    t.Within m := by
  induction chain with
  | refl => exact inner
  | @tail b c before link ih =>
    obtain ⟨there, touches⟩ := link
    have filled := nonempty b (Connected.mem before known)
    have filled' := nonempty c there
    -- the later of the two starts lies in both
    have first : b.Covers (max b.start c.start) := by
      unfold DetectedSpan.Covers
      have := touches.2
      omega
    have second : c.Covers (max b.start c.start) := by
      unfold DetectedSpan.Covers
      have := touches.1
      omega
    exact h.whole m mem c there _ (covers_of_within ih first) second

theorem Leads.mem (leads : Leads spans f) : f ∈ spans := by
  obtain ⟨front, back, sort, -⟩ := leads
  rw [← List.mem_insertionSort Order, sort]
  simp

theorem noneOverrun_iff (nonempty : ∀ s ∈ spans, s.start < s.stop) :
    NoneOverrun spans ↔ ∀ g ∈ groups spans, g.2.action = .pass → g.2.stop = g.1.stop := by
  have merged := merged_merge nonempty
  have known {g : DetectedSpan × DetectedSpan} (mem : g ∈ groups spans) :
      g.2 ∈ mergeOverlappingSpans spans := groups_merged spans ▸ List.mem_map_of_mem mem
  have parts {g : DetectedSpan × DetectedSpan} (mem : g ∈ groups spans) {t : DetectedSpan}
      (chain : Connected spans g.1 t) : t.Within g.2 := by
    have group := group_of_mem nonempty mem
    have inner : g.1.Within g.2 := ⟨group.start.le, group.reaches⟩
    exact chain.within nonempty merged (known mem) group.leads.mem inner
  constructor
  · intro none_ g mem passes
    have group := group_of_mem nonempty mem
    have two : g.2.action.precedence = 2 := by rw [passes]; rfl
    rcases group.overrun with same | ⟨s, there, before, behind⟩
    · exact same
    · have first : g.1.action = .pass := by
        rcases group.origin with same | less
        · rw [← same, passes]
        · have := precedence_le g.1.action
          omega
      obtain ⟨t, chain, secret⟩ := none_ g.1 group.leads first s there before behind
      have least := merged.strictest g.2 (known mem) t (chain.mem group.leads.mem) (parts mem chain)
      unfold DetectedSpan.Secret at secret
      omega
  · intro kept f leads passes s there before behind
    obtain ⟨m, mem⟩ := mem_of_leads nonempty leads
    have group := group_of_mem nonempty mem
    have filled := nonempty f leads.mem
    rcases group.origin with same | less
    · have stop : m.stop = f.stop := kept (f, m) mem (same.trans passes)
      have touches : Touches f s := ⟨Nat.lt_trans filled behind, before⟩
      have inner : s.Within m := parts mem (.single ⟨there, touches⟩)
      have := inner.2
      omega
    · obtain ⟨t, chain, same⟩ := group.action
      refine ⟨t, chain, ?_⟩
      rw [DetectedSpan.Secret, same]
      exact Nat.lt_of_lt_of_le less (precedence_le f.action)

end Passing

section Text

variable {decimal? : CodePoint → Option Nat} {text out : PyStr} {last : Nat}
  {gs : List (DetectedSpan × DetectedSpan)}

theorem slice_length {a b : Nat} (inside : b ≤ text.length) :
    (slice text a b).length = b - a := by
  rw [slice, List.length_take, List.length_drop]
  omega

/-- A merged span with the first of its spans, whose text it carries. -/
structure Carried (text : PyStr) (g : DetectedSpan × DetectedSpan) : Prop where
  start : g.2.start = g.1.start
  nonempty : g.1.start < g.1.stop
  reaches : g.1.stop ≤ g.2.stop
  inside : g.2.stop ≤ text.length
  carries : g.2.matchedText = slice text g.1.start g.1.stop

variable (decimal?) in
/-- What passes comes out shorter by the part that overran it. -/
theorem Carried.piece {g : DetectedSpan × DetectedSpan} (h : Carried text g)
    (passes : g.2.action = .pass) : applyTransform decimal? g.2 = some g.2.matchedText ∧
      g.2.matchedText.length + (g.2.stop - g.1.stop) = (slice text g.2.start g.2.stop).length := by
  constructor
  · simp [applyTransform, passes]
  · have := h.start
    have := h.nonempty
    have := h.reaches
    rw [h.carries, slice_length h.inside, slice_length (Nat.le_trans h.reaches h.inside)]
    omega

theorem transformFrom_woven (carried : ∀ g ∈ gs, Carried text g)
    (run : transformFrom decimal? text last (gs.map Prod.snd) = some out) :
    ∃ whole, wovenFrom decimal? text last (gs.map Prod.snd) = some whole ∧
      out.length ≤ whole.length ∧
      (whole = out ↔ ∀ g ∈ gs, g.2.action = .pass → g.2.stop = g.1.stop) := by
  induction gs generalizing last out with
  | nil =>
    rw [List.map_nil, transformFrom] at run
    cases run
    exact ⟨_, rfl, Nat.le_refl _, by simp⟩
  | cons g gs ih =>
    obtain ⟨here, later⟩ := List.forall_mem_cons.mp carried
    simp only [List.map_cons, transformFrom, Option.bind_eq_bind, Option.bind_eq_some_iff,
      Option.pure_def, Option.some.injEq] at run
    obtain ⟨piece, transformed, tail, ran, rfl⟩ := run
    obtain ⟨whole, woven, shorter, same⟩ := ih later ran
    simp only [List.map_cons, wovenFrom, woven, List.forall_mem_cons]
    by_cases passes : g.2.action = .pass
    · obtain ⟨own, long⟩ := here.piece decimal? passes
      cases own.symm.trans transformed
      rw [if_pos passes]
      refine ⟨_, rfl, ?_, ?_⟩
      · simp only [List.length_append]
        omega
      · constructor
        · intro eq
          have lengths := congrArg List.length eq
          simp only [List.length_append] at lengths
          have reaches := here.reaches
          have stop : g.2.stop = g.1.stop := by omega
          have text_ : g.2.matchedText = slice text g.2.start g.2.stop := by
            rw [here.carries, here.start, stop]
          rw [text_] at eq
          exact ⟨fun _ => stop, same.mp (List.append_cancel_left eq)⟩
        · rintro ⟨stop, rest⟩
          rw [same.mpr rest, here.carries, here.start, stop passes]
    · rw [if_neg passes, transformed]
      refine ⟨_, rfl, ?_, ?_⟩
      · simp only [List.length_append]
        omega
      · constructor
        · intro eq
          exact ⟨fun pass => absurd pass passes, same.mp (List.append_cancel_left eq)⟩
        · rintro ⟨-, rest⟩
          rw [same.mpr rest]

end Text

section Preservation

variable (decimal? : CodePoint → Option Nat) (text : PyStr) (spans : List DetectedSpan)

theorem carried_groups (found : ∀ s ∈ spans, Found text s) :
    ∀ g ∈ groups spans, Carried text g := by
  intro g mem
  have group := group_of_mem (fun s mem => (found s mem).nonempty) mem
  have first := found g.1 group.leads.mem
  obtain ⟨x, there, ends⟩ := group.ends
  constructor
  case start => exact group.start
  case nonempty => exact first.nonempty
  case reaches => exact group.reaches
  case inside => exact ends ▸ (found x there).inside
  case carries => rw [groups_text g mem, first.carries]

/-- The spans are merged as they should be. The text around them and in them stays unless a span
that passes is overrun: what is merged carries the text of its first span, and the rest is lost. -/
theorem text_preserved_iff (found : ∀ s ∈ spans, Found text s) :
    Merged spans (mergeOverlappingSpans spans) ∧
      ∀ out merged, transformText decimal? text spans = some (out, merged) →
        merged = mergeOverlappingSpans spans ∧
          (Preserved decimal? text merged out ↔ NoneOverrun spans) := by
  have nonempty : ∀ s ∈ spans, s.start < s.stop := fun s mem => (found s mem).nonempty
  refine ⟨merged_merge nonempty, ?_⟩
  intro out merged run
  obtain ⟨rfl, ran⟩ : merged = mergeOverlappingSpans spans ∧
      transformFrom decimal? text 0 (mergeOverlappingSpans spans) = some out := by
    unfold transformText at run
    split at run
    case isTrue none_ =>
      subst none_
      cases run
      exact ⟨rfl, rfl⟩
    case isFalse some_ =>
      obtain ⟨out', ran, eq⟩ := Option.map_eq_some_iff.mp run
      cases eq
      exact ⟨rfl, ran⟩
  refine ⟨rfl, ?_⟩
  rw [← groups_merged] at ran ⊢
  obtain ⟨whole, woven, -, same⟩ := transformFrom_woven (carried_groups text spans found) ran
  rw [Preserved, woven, Option.some.injEq, same, noneOverrun_iff nonempty]

end Preservation

section Sample

def passing (a b : Nat) (text : String) : DetectedSpan :=
  ⟨a, b, py "name", .pass, py "pattern", py text⟩

def apart : List DetectedSpan := [passing 4 5 "e", passing 0 3 "abc"]

theorem text_preserved_iff_witness : Merged apart (mergeOverlappingSpans apart) ∧
    ∃ out merged, transformText (fun _ => none) (py "abcde") apart = some (out, merged) ∧
      Preserved (fun _ => none) (py "abcde") merged out := by
  have found : ∀ s ∈ apart, Found (py "abcde") s := by
    simp only [apart, List.forall_mem_cons]
    exact ⟨⟨by decide, by decide, by decide⟩, ⟨by decide, by decide, by decide⟩, by simp⟩
  have none_ : NoneOverrun apart := by
    intro f leads passes s there before behind
    have known := leads.mem
    simp only [apart, List.mem_cons, List.not_mem_nil, or_false] at known there
    rcases known with rfl | rfl <;> rcases there with rfl | rfl <;> simp [passing] at before behind
  have both := text_preserved_iff (fun _ => none) (py "abcde") apart found
  have ran : ∃ out merged, transformText (fun _ => none) (py "abcde") apart =
      some (out, merged) :=
    ⟨py "abcde", [passing 0 3 "abc", passing 4 5 "e"], by decide +kernel⟩
  obtain ⟨out, merged, run⟩ := ran
  exact ⟨both.1, out, merged, run, (both.2 out merged run).2.mpr none_⟩

def overrun : List DetectedSpan := [passing 0 3 "abc", passing 2 5 "cde"]

/-- Two spans that pass and overlap: the second takes the end of the text with it. -/
theorem text_lost : (∀ s ∈ overrun, Found (py "abcde") s) ∧
    ∃ m, transformText (fun _ => none) (py "abcde") overrun = some (py "abc", [m]) ∧
      m.action = .pass ∧ m.start = 0 ∧ m.stop = 5 ∧
      ¬Preserved (fun _ => none) (py "abcde") [m] (py "abc") := by
  constructor
  · simp only [overrun, List.forall_mem_cons]
    exact ⟨⟨by decide, by decide, by decide⟩, ⟨by decide, by decide, by decide⟩, by simp⟩
  · refine ⟨{ passing 0 3 "abc" with stop := 5 }, by decide +kernel, rfl, rfl, rfl, ?_⟩
    unfold Preserved
    decide +kernel

end Sample

end Drnt.Context
