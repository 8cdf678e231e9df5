import Drnt.Orchestrator.Trial
import Mathlib.Data.List.Sort
import Mathlib.Data.String.Basic

/-! The list of jobs, page by page: what a client sees that follows the cursors while jobs come
and change. -/
namespace Drnt.Orchestrator

open Lib

section Ids

theorem hexDigits_length (width n : Nat) : (Uuid7.hexDigits width n).length = width := by
  induction width with
  | zero => rfl
  | succ width ih => rw [Uuid7.hexDigits, List.length_cons, ih]

theorem hexDigit_injective {m n : Nat} (h : Uuid7.hexDigit m = Uuid7.hexDigit n) :
    m % 16 = n % 16 := by
  have each : ∀ a < 16, ∀ b < 16, "0123456789abcdef".toList.getD a '0' =
      "0123456789abcdef".toList.getD b '0' → a = b := by decide
  exact each _ (Nat.mod_lt _ (by decide)) _ (Nat.mod_lt _ (by decide)) h

theorem hexDigits_injective {width m n : Nat}
    (h : Uuid7.hexDigits width m = Uuid7.hexDigits width n) : m % 16 ^ width = n % 16 ^ width := by
  induction width with
  | zero => rw [Nat.pow_zero, Nat.mod_one, Nat.mod_one]
  | succ width ih =>
    rw [Uuid7.hexDigits, Uuid7.hexDigits, List.cons.injEq] at h
    have high := hexDigit_injective h.1
    have low := ih h.2
    rw [Nat.pow_succ, Nat.mod_mul, Nat.mod_mul, low, high]

/-- Two ids with the same text are the same. -/
theorem uuid7_text_injective {u v : Uuid7} (h : u.text = v.text) : u = v := by
  have chars : u.chars = v.chars := String.ofList_injective h
  unfold Uuid7.chars at chars
  simp only [List.append_assoc, List.cons_append] at chars
  obtain ⟨first, chars⟩ := List.append_inj chars (by simp only [hexDigits_length])
  obtain ⟨second, chars⟩ := List.append_inj (List.cons.inj chars).2
    (by simp only [hexDigits_length])
  obtain ⟨third, chars⟩ := List.append_inj (List.cons.inj (List.cons.inj chars).2).2
    (by simp only [hexDigits_length])
  obtain ⟨fourth, fifth⟩ := List.append_inj (List.cons.inj chars).2
    (by simp only [hexDigits_length])
  have first := hexDigits_injective first
  have second := hexDigits_injective second
  have third := hexDigits_injective third
  have fourth := hexDigits_injective fourth
  have fifth := hexDigits_injective (List.cons.inj fifth).2
  obtain ⟨⟨a, _⟩, ⟨b, _⟩, ⟨c, _⟩⟩ := u
  obtain ⟨⟨a', _⟩, ⟨b', _⟩, ⟨c', _⟩⟩ := v
  have millis : a = a' := by simp only at first second; omega
  have randA : b = b' := by simp only at third; omega
  have randB : c = c' := by simp only at fourth fifth; omega
  subst millis randA randB
  rfl

end Ids

section Listing

structure Proposal where
  proposalId : Uuid7
  jobId : JobId
  resultId : Json
  responseHash : Json
  proposedBy : String
  governingCapabilityId : String
  confidence : PyFloat
  autoAcceptAt : Option UtcTime := none
  deriving DecidableEq, Repr

/-- The proposal of a job that is ready for one and has all that it takes. -/
def getProposal (w : World) (j : JobId) : Option Proposal := do
  let job ← w.job? j
  if job.status = .proposalReady ∧ job.resultId ≠ .null ∧ job.responseHash ≠ .null then
    let proposalId ← job.proposalId
    let capability ← job.governingCapabilityId
    let confidence ← job.confidence
    let model ← job.candidateModels.bind List.head?
    return {
      proposalId := proposalId
      jobId := j
      resultId := job.resultId
      responseHash := job.responseHash
      proposedBy := model
      governingCapabilityId := capability
      confidence := confidence }
  else none

structure JobStatusResponse where
  jobId : JobId
  status : JobStatus
  createdAt : UtcTime
  classifiedAt : Option UtcTime
  dispatchedAt : Option UtcTime
  responseReceivedAt : Option UtcTime
  deliveredAt : Option UtcTime
  requestCategory : Option String
  routingRecommendation : Option String
  result : Json
  error : Option (List Json)
  proposal : Option Proposal
  deriving DecidableEq, Repr

structure JobListResponse where
  items : List JobStatusResponse
  nextCursor : Option String
  count : Nat
  deriving DecidableEq, Repr

def respond (w : World) (j : JobId) (job : Job) : JobStatusResponse where
  jobId := j
  status := job.status
  createdAt := job.createdAt
  classifiedAt := job.classifiedAt
  dispatchedAt := job.dispatchedAt
  responseReceivedAt := job.responseReceivedAt
  deliveredAt := job.deliveredAt
  requestCategory := job.requestCategory
  routingRecommendation := job.routingRecommendation
  result := job.result
  error := job.error
  proposal := getProposal w j

/-- Newer jobs have greater ids. -/
def Newer (a b : JobId × Job) : Prop := b.1.text ≤ a.1.text

instance : DecidableRel Newer := fun _ _ => inferInstanceAs (Decidable (_ ≤ _))

/-- The jobs of a status that are older than the cursor, newest first. -/
def matching (w : World) (status : JobStatus) (since : Option String) : List (JobId × Job) :=
  let sorted := (w.jobs.entries.filter (·.2.status = status)).insertionSort Newer
  match since with
  | none => sorted
  | some cursor => sorted.filter (·.1.text < cursor)

def listJobs (w : World) (status : JobStatus) (since : Option String) (limit : Nat) :
    JobListResponse :=
  let found := matching w status since
  let page := found.take limit
  let hasMore := limit < found.length
  { items := page.map fun e => respond w e.1 e.2
    nextCursor := if hasMore then page.getLast?.map (·.1.text) else none
    count := page.length }

end Listing

section Clients

/-- A call of a client, and the state that it meets. -/
structure Visit where
  world : World
  since : Option String

variable (status : JobStatus) (limit : Nat)

def Visit.page (v : Visit) : JobListResponse := listJobs v.world status v.since limit

def Visit.ids (v : Visit) : List JobId := (v.page status limit).items.map (·.jobId)

/-- A client that follows the cursors until there is none, or until it stops. -/
inductive Follows : Option String → List Visit → Prop
  | stop (since : Option String) : Follows since []
  | done {w : World} {since : Option String}
      (last : (listJobs w status since limit).nextCursor = none) : Follows since [⟨w, since⟩]
  | next {w : World} {since : Option String} {cursor : String} {rest : List Visit}
      (more : (listJobs w status since limit).nextCursor = some cursor)
      (later : Follows (some cursor) rest) : Follows since (⟨w, since⟩ :: rest)

def Complete (visits : List Visit) : Prop :=
  ∃ v, visits.getLast? = some v ∧ (v.page status limit).nextCursor = none

def allIds (visits : List Visit) : List JobId := visits.flatMap (Visit.ids status limit)

/-- The job is there, with the status. -/
def Standing (w : World) (status : JobStatus) (j : JobId) : Prop :=
  ∃ job, w.job? j = some job ∧ job.status = status

/-- What the client sees: ids that fall, every job that keeps the status exactly once, and a
cursor as long as there are older jobs. -/
structure Faithful (visits : List Visit) : Prop where
  decreasing : (allIds status limit visits).Pairwise fun i j => j.text < i.text
  complete : Complete status limit visits → ∀ j, (∀ v ∈ visits, Standing v.world status j) →
    (allIds status limit visits).count j = 1
  cursor : ∀ v ∈ visits, (v.page status limit).nextCursor = none ↔
    ¬ ∃ j, Standing v.world status j ∧ (∀ cursor, v.since = some cursor → j.text < cursor) ∧
      ∀ i ∈ v.ids status limit, j.text < i.text

end Clients

section Pages

variable {w : World} {status : JobStatus} {limit : Nat} {since : Option String} {j : JobId}
  {visits : List Visit} {cursor : String}

instance : Std.Total Newer := ⟨fun a b => le_total b.1.text a.1.text⟩

instance : IsTrans (JobId × Job) Newer := ⟨fun _ _ _ first second => second.trans first⟩

theorem mem_matching {e : JobId × Job} : e ∈ matching w status since ↔
    w.job? e.1 = some e.2 ∧ e.2.status = status ∧
      ∀ cursor, since = some cursor → e.1.text < cursor := by
  unfold matching World.job?
  rw [Dict.get?_eq_some_iff]
  cases since with
  | none => simp [List.mem_insertionSort]
  | some cursor => simp [List.mem_insertionSort, and_assoc]

theorem matching_sorted (w : World) (status : JobStatus) (since : Option String) :
    (matching w status since).Pairwise fun a b => b.1.text < a.1.text := by
  have sorted : ((w.jobs.entries.filter (·.2.status = status)).insertionSort Newer).Pairwise
      fun a b => b.1.text < a.1.text := by
    have distinct : ((w.jobs.entries.filter (·.2.status = status)).insertionSort Newer).Pairwise
        fun a b => a.1 ≠ b.1 := by
      have keys : ((w.jobs.entries.filter (·.2.status = status)).map Prod.fst).Nodup :=
        w.jobs.nodup.sublist (List.filter_sublist.map Prod.fst)
      rw [← List.pairwise_map (f := Prod.fst) (R := (· ≠ ·))]
      exact ((List.perm_insertionSort Newer _).map Prod.fst).nodup_iff.mpr keys
    have ordered := List.pairwise_insertionSort Newer (w.jobs.entries.filter (·.2.status = status))
    apply (ordered.and distinct).imp
    intro a b both
    exact lt_of_le_of_ne both.1 fun same => both.2 (uuid7_text_injective same).symm
  cases since with
  | none => exact sorted
  | some cursor => exact sorted.filter _

/-- The jobs of a page. -/
def pageEntries (w : World) (status : JobStatus) (since : Option String) (limit : Nat) :
    List (JobId × Job) := (matching w status since).take limit

theorem ids_eq : Visit.ids status limit ⟨w, since⟩ =
    (pageEntries w status since limit).map Prod.fst := by
  rw [Visit.ids, Visit.page, listJobs, List.map_map]
  rfl

variable (status limit) in
theorem ids_decreasing (v : Visit) :
    (v.ids status limit).Pairwise fun i j => j.text < i.text := by
  rw [ids_eq, List.pairwise_map]
  exact (matching_sorted ..).sublist (List.take_sublist ..)

theorem mem_ids : j ∈ Visit.ids status limit ⟨w, since⟩ →
    Standing w status j ∧ ∀ cursor, since = some cursor → j.text < cursor := by
  intro mem
  rw [ids_eq] at mem
  obtain ⟨e, taken, rfl⟩ := List.mem_map.mp mem
  obtain ⟨found, has, older⟩ := mem_matching.mp (List.mem_of_mem_take taken)
  exact ⟨⟨e.2, found, has⟩, older⟩

variable (limit) in
/-- A job that matches is on the page or older than all of it, and then there is a cursor. -/
theorem on_page_or_older (has : Standing w status j)
    (older : ∀ cursor, since = some cursor → j.text < cursor) :
    j ∈ Visit.ids status limit ⟨w, since⟩ ∨
      limit < (matching w status since).length ∧
        ∀ i ∈ Visit.ids status limit ⟨w, since⟩, j.text < i.text := by
  obtain ⟨job, found, has⟩ := has
  have mem : (j, job) ∈ matching w status since := mem_matching.mpr ⟨found, has, older⟩
  have sorted := matching_sorted w status since
  rw [ids_eq, pageEntries]
  rw [← List.take_append_drop limit (matching w status since)] at mem sorted
  rcases List.mem_append.mp mem with front | back
  · exact .inl (List.mem_map_of_mem front)
  · refine .inr ⟨?_, fun i on => ?_⟩
    · have some_ := List.length_pos_of_mem back
      rw [List.length_drop] at some_
      omega
    · obtain ⟨e, taken, rfl⟩ := List.mem_map.mp on
      exact (List.pairwise_append.mp sorted).2.2 e taken (j, job) back

theorem cursor_none (some_ : 1 ≤ limit) :
    (listJobs w status since limit).nextCursor = none ↔
      (matching w status since).length ≤ limit := by
  unfold listJobs
  dsimp only
  by_cases more : limit < (matching w status since).length
  · have page : (matching w status since).take limit ≠ [] := by
      intro none_
      have length := congrArg List.length none_
      rw [List.length_take, List.length_nil] at length
      omega
    rw [if_pos more, Option.map_eq_none_iff, List.getLast?_eq_none_iff]
    exact ⟨fun none_ => absurd none_ page, fun few => by omega⟩
  · rw [if_neg more]
    exact ⟨fun _ => by omega, fun _ => rfl⟩

/-- The cursor is the last id of the page. -/
theorem cursor_some (h : (listJobs w status since limit).nextCursor = some cursor) :
    ∃ front last, Visit.ids status limit ⟨w, since⟩ = front ++ [last] ∧ last.text = cursor := by
  rw [ids_eq]
  unfold listJobs at h
  dsimp only at h
  split at h
  · obtain ⟨e, last, rfl⟩ := Option.map_eq_some_iff.mp h
    obtain ⟨front, eq⟩ := List.getLast?_eq_some_iff.mp last
    exact ⟨front.map Prod.fst, e.1, by rw [pageEntries, eq, List.map_append]; rfl, rfl⟩
  · cases h

theorem Follows.older (h : Follows status limit since visits) :
    ∀ j ∈ allIds status limit visits, ∀ cursor, since = some cursor → j.text < cursor := by
  induction h with
  | stop =>
    intro j mem
    cases mem
  | done last =>
    intro j mem
    rw [allIds, List.flatMap_singleton] at mem
    exact (mem_ids mem).2
  | @next w since cursor rest more later ih =>
    intro j mem c eq
    rw [allIds, List.flatMap_cons] at mem
    rcases List.mem_append.mp mem with here | there
    · exact (mem_ids here).2 c eq
    · -- older than the last job of the page
      obtain ⟨front, last, ids, rfl⟩ := cursor_some more
      have on : last ∈ Visit.ids status limit ⟨w, since⟩ := by simp [ids]
      exact (ih j there _ rfl).trans ((mem_ids on).2 c eq)

theorem Follows.decreasing (h : Follows status limit since visits) :
    (allIds status limit visits).Pairwise fun i j => j.text < i.text := by
  induction h with
  | stop => exact List.Pairwise.nil
  | @done w since last =>
    rw [allIds, List.flatMap_singleton]
    exact ids_decreasing status limit ⟨w, since⟩
  | @next w since cursor rest more later ih =>
    rw [allIds, List.flatMap_cons]
    refine List.pairwise_append.mpr
      ⟨ids_decreasing status limit ⟨w, since⟩, ih, fun i here j there => ?_⟩
    obtain ⟨front, last, ids, rfl⟩ := cursor_some more
    have below := later.older j there _ rfl
    have sorted := ids_decreasing status limit ⟨w, since⟩
    rw [ids] at here sorted
    rcases List.mem_append.mp here with before | same
    · exact below.trans ((List.pairwise_append.mp sorted).2.2 i before last (by simp))
    · rw [List.mem_singleton.mp same]
      exact below

theorem Follows.mem (h : Follows status limit since visits)
    (complete : Complete status limit visits) (some_ : 1 ≤ limit) (older : ∀ cursor, since = some cursor → j.text < cursor)
    (has : ∀ v ∈ visits, Standing v.world status j) : j ∈ allIds status limit visits := by
  induction h with
  | stop =>
    obtain ⟨v, none_, -⟩ := complete
    cases none_
  | @done w since last =>
    rw [allIds, List.flatMap_singleton]
    rcases on_page_or_older limit (has _ (List.mem_cons_self ..)) older with on | ⟨more, -⟩
    · exact on
    · exact absurd ((cursor_none some_).mp last) (Nat.not_le.mpr more)
  | @next w since cursor rest more later ih =>
    rw [allIds, List.flatMap_cons]
    rcases on_page_or_older limit (has _ (List.mem_cons_self ..)) older with on | ⟨-, below⟩
    · exact List.mem_append_left _ on
    · apply List.mem_append_right
      obtain ⟨front, last, ids, rfl⟩ := cursor_some more
      refine ih ?_ (fun c eq => ?_) fun v mem => has v (List.mem_cons_of_mem _ mem)
      · obtain ⟨v, final, none_⟩ := complete
        cases rest with
        | nil =>
          -- a client that stops here has been given a cursor
          cases final
          exact absurd (none_.symm.trans more) nofun
        | cons v' rest => exact ⟨v, by rwa [List.getLast?_cons_cons] at final, none_⟩
      · cases eq
        exact below last (by simp [ids])

theorem ends_iff (some_ : 1 ≤ limit) (v : Visit) : (v.page status limit).nextCursor = none ↔
    ¬ ∃ j, Standing v.world status j ∧ (∀ cursor, v.since = some cursor → j.text < cursor) ∧
      ∀ i ∈ v.ids status limit, j.text < i.text := by
  obtain ⟨w, since⟩ := v
  rw [Visit.page, cursor_none some_]
  dsimp only
  constructor
  · rintro few ⟨j, has, older, below⟩
    rcases on_page_or_older limit has older with on | ⟨more, -⟩
    · exact lt_irrefl _ (below j on)
    · omega
  · intro none_
    by_contra more
    -- the first job that did not fit
    have short : limit < (matching w status since).length := by omega
    let e := (matching w status since)[limit]
    obtain ⟨found, has, older⟩ := mem_matching.mp (List.getElem_mem short : e ∈ _)
    refine none_ ⟨e.1, ⟨e.2, found, has⟩, older, fun i on => ?_⟩
    rw [ids_eq] at on
    obtain ⟨x, taken, rfl⟩ := List.mem_map.mp on
    have sorted := matching_sorted w status since
    rw [← List.take_append_drop limit (matching w status since)] at sorted
    have behind : e ∈ (matching w status since).drop limit := by
      rw [List.drop_eq_getElem_cons short]
      exact List.mem_cons_self ..
    exact (List.pairwise_append.mp sorted).2.2 x taken e behind

/-- A client that follows the cursors misses nothing and sees nothing twice, whatever happens to
the jobs between its calls. -/
theorem pages_faithful (status : JobStatus) (limit : Nat) (some_ : 1 ≤ limit) (visits : List Visit)
    (h : Follows status limit none visits) : Faithful status limit visits where
  decreasing := h.decreasing
  complete := by
    intro complete j has
    have mem := h.mem complete some_ nofun has
    have distinct : (allIds status limit visits).Nodup := by
      apply h.decreasing.imp
      rintro i j less rfl
      exact lt_irrefl _ less
    exact List.count_eq_one_of_mem distinct mem
  cursor v _ := ends_iff some_ v

/-- Two delivered jobs; a third comes after the first page. -/
def delivered : Job where
  rawInput := "hello"
  inputModality := "text"
  device := "phone"
  status := .delivered
  createdAt := Trial.noon

def twoJobs : World :=
  ((World.initial false).addJob (Trial.uuid 1) delivered).addJob (Trial.uuid 2) delivered

def threeJobs : World := twoJobs.addJob (Trial.uuid 3) delivered

theorem pages_faithful_witness :
    let visits : List Visit := [⟨twoJobs, none⟩, ⟨threeJobs, some (Trial.uuid 2).text⟩]
    allIds .delivered 1 visits = [Trial.uuid 2, Trial.uuid 1] ∧ Faithful .delivered 1 visits :=
  ⟨by decide +kernel, pages_faithful .delivered 1 (by decide) _
    (.next (by decide +kernel) (.done (by decide +kernel)))⟩

end Pages

end Drnt.Orchestrator
