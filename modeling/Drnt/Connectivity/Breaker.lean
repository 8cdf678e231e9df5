import Drnt.Connectivity.Monitor
import Drnt.Lib.History
import Mathlib.Logic.Function.Basic

/-! The state of a route's circuit breaker is a function of the results of its probes alone, over
restarts too. -/
namespace Drnt.Connectivity

open Lib Lib.History

section Reference

def twoFailures : List Bool := [false, false]

def threeSuccesses : List Bool := [true, true, true]

/-- There has never been a run of two failures, or three successes have ended after the latest. -/
def Recovered (h : List Bool) : Prop :=
  lastEnd twoFailures h = 0 ∨ lastEnd twoFailures h < lastEnd threeSuccesses h

instance (h : List Bool) : Decidable (Recovered h) := inferInstanceAs (Decidable (_ ∨ _))

/-- The state that the results of a route's probes give. -/
def reference (h : List Bool) : CircuitState :=
  if twoFailures <:+ h then .open_ else if Recovered h then .closed else .halfOpen

theorem not_recovered {h : List Bool} (down : twoFailures <:+ h) : ¬ Recovered h := by
  have length := down.length_le
  have two : twoFailures.length = 2 := rfl
  have three := lastEnd_le threeSuccesses h
  rw [Recovered, lastEnd_suffix down]
  omega

theorem reference_open {h : List Bool} : reference h = .open_ ↔ twoFailures <:+ h := by
  unfold reference
  split
  · simpa
  · split <;> simpa

theorem reference_closed {h : List Bool} : reference h = .closed ↔ Recovered h := by
  unfold reference
  split
  · rename_i down
    simpa using not_recovered down
  · split <;> simpa

/-- One more result, that completes no run. -/
theorem reference_between {h : List Bool} {b : Bool} (up : ¬ threeSuccesses <:+ h ++ [b])
    (down : ¬ twoFailures <:+ h ++ [b]) :
    reference (h ++ [b]) = if reference h = .closed then .closed else .halfOpen := by
  have same : Recovered (h ++ [b]) ↔ Recovered h := by
    rw [Recovered, Recovered, lastEnd_concat, lastEnd_concat, if_neg up, if_neg down]
  simp only [reference_closed]
  rw [reference, if_neg down]
  simp only [same]

theorem reference_succeeded {h : List Bool} (up : threeSuccesses <:+ h ++ [true]) :
    reference (h ++ [true]) = .closed := by
  have down : ¬ twoFailures <:+ h ++ [true] := fun ends => by
    obtain ⟨t, eq⟩ := ends
    have last := congrArg List.getLast? eq
    simp [twoFailures] at last
  rw [reference_closed, Recovered, lastEnd_concat, lastEnd_concat, if_neg down, if_pos up]
  have := lastEnd_le twoFailures h
  omega

end Reference

section Counters

/-- The entry of a route after the results `h`. -/
structure Matches (h : List Bool) (rh : RouteHealth) : Prop where
  state : rh.state = reference h
  failures : rh.consecutiveFailures = trailing false h
  successes : rh.consecutiveSuccesses = trailing true h

theorem down_iff (h : List Bool) : twoFailures <:+ h ↔ 2 ≤ trailing false h :=
  replicate_suffix false 2 h

theorem up_iff (h : List Bool) : threeSuccesses <:+ h ↔ 3 ≤ trailing true h :=
  replicate_suffix true 3 h

theorem count_spec {h : List Bool} {rh : RouteHealth} (m : Matches h rh) (b : Bool) (now : UtcTime) :
    (rh.count b now).state = reference h ∧
    (rh.count b now).consecutiveFailures = trailing false (h ++ [b]) ∧
    (rh.count b now).consecutiveSuccesses = trailing true (h ++ [b]) := by
  cases b with
  | true =>
    rw [trailing_self, trailing_ne (by decide)]
    exact ⟨m.state, rfl, congrArg (· + 1) m.successes⟩
  | false =>
    rw [trailing_self, trailing_ne (by decide)]
    exact ⟨m.state, congrArg (· + 1) m.failures, rfl⟩

/-- The state machine follows the reference by one result. -/
theorem newState_spec {h : List Bool} {rh : RouteHealth} (m : Matches h rh) (b : Bool)
    (now : UtcTime) : (rh.count b now).newState = reference (h ++ [b]) := by
  obtain ⟨state, failures, successes⟩ := count_spec m b now
  unfold RouteHealth.newState failuresToOpen successesToClosed
  rw [state, failures, successes]
  by_cases down : twoFailures <:+ h ++ [b]
  · rw [if_pos ((down_iff _).mp down), reference_open.mpr down]
  rw [if_neg (mt (down_iff _).mpr down)]
  by_cases up : threeSuccesses <:+ h ++ [b]
  · rw [if_pos ((up_iff _).mp up)]
    cases b with
    | true => exact (reference_succeeded up).symm
    | false =>
      obtain ⟨t, eq⟩ := up
      have last := congrArg List.getLast? eq
      simp [threeSuccesses] at last
  rw [if_neg (mt (up_iff _).mpr up), reference_between up down]
  cases known : reference h with
  | closed => simp
  | halfOpen => simp
  | open_ =>
    -- one failure more would have been another run of two
    cases b with
    | true => simp
    | false =>
      have before := (down_iff h).mp (reference_open.mp known)
      rw [down_iff, trailing_self] at down
      omega

end Counters

section Loading

/-- The entry that a row is read into. -/
def restored (rh : RouteHealth) (data : Row) (state : CircuitState) : RouteHealth :=
  { rh with
    state := state
    consecutiveFailures := data.consecutiveFailures
    consecutiveSuccesses := data.consecutiveSuccesses
    lastSuccessTime := data.lastSuccessTime.or rh.lastSuccessTime
    lastFailureTime := data.lastFailureTime.or rh.lastFailureTime
    lastProbeTime := data.lastProbeTime.or rh.lastProbeTime }

/-- A row of a route after the results `h`. -/
structure Saves (h : List Bool) (data : Row) : Prop where
  state : data.state = (reference h).value
  failures : data.consecutiveFailures = trailing false h
  successes : data.consecutiveSuccesses = trailing true h

theorem saves_row {h : List Bool} {rh : RouteHealth} (m : Matches h rh) : Saves h rh.row :=
  ⟨congrArg CircuitState.value m.state, m.failures, m.successes⟩

theorem matches_restored {h : List Bool} {data : Row} (saved : Saves h data) (rh : RouteHealth) :
    Matches h (restored rh data (reference h)) := ⟨rfl, saved.failures, saved.successes⟩

theorem matches_new (routeId : String) : Matches [] { routeId } := ⟨rfl, rfl, rfl⟩

/-- Every route that is configured is loaded, from its row if it has one. -/
theorem loadRows_spec {hist : String → List Bool} {rows : List (String × Row)}
    (distinct : (rows.map Prod.fst).Nodup) (saved : ∀ x ∈ rows, Saves (hist x.1) x.2)
    {health : Dict String RouteHealth}
    (matched : ∀ r rh, health.get? r = some rh → r ∈ rows.map Prod.fst ∨ Matches (hist r) rh)
    {r : String} {rh : RouteHealth} (h : (loadRows health rows).get? r = some rh) :
    Matches (hist r) rh := by
  induction rows generalizing health with
  | nil =>
    rcases matched r rh h with mem | yes
    · cases mem
    · exact yes
  | cons row rows ih =>
    obtain ⟨routeId, data⟩ := row
    obtain ⟨fresh_, distinct⟩ := List.nodup_cons.mp distinct
    obtain ⟨here, saved⟩ := List.forall_mem_cons.mp saved
    have value : CircuitState.ofValue? data.state = some (reference (hist routeId)) := by
      rw [here.state, CircuitState.ofValue?_value]
    rw [loadRows] at h
    cases known : health.get? routeId with
    | none =>
      rw [known] at h
      refine ih distinct saved (fun r rh found => ?_) h
      rcases matched r rh found with mem | yes
      · rcases List.mem_cons.mp mem with rfl | mem
        · cases known.symm.trans found
        · exact .inl mem
      · exact .inr yes
    | some old =>
      rw [known, value] at h
      refine ih distinct saved (fun r rh found => ?_) h
      rw [Dict.get?_set] at found
      split at found
      · rename_i same
        subst same
        cases found
        exact .inr (matches_restored here old)
      · rename_i other
        rcases matched r rh found with mem | yes
        · rcases List.mem_cons.mp mem with rfl | mem
          · exact absurd rfl other
          · exact .inl mem
        · exact .inr yes

theorem fresh_spec {routes : List String} {r : String} {rh : RouteHealth}
    (h : (fresh routes).get? r = some rh) : rh = { routeId := r } := by
  have all (routes : List String) (health : Dict String RouteHealth)
      (new : ∀ rh, health.get? r = some rh → rh = { routeId := r })
      (h : (routes.foldl (fun health rid => health.set rid { routeId := rid }) health).get? r =
        some rh) : rh = { routeId := r } := by
    induction routes generalizing health with
    | nil => exact new rh h
    | cons rid routes ih =>
      refine ih (health.set rid { routeId := rid }) (fun rh found => ?_) h
      rw [Dict.get?_set] at found
      split at found
      · rename_i same
        subst same
        cases found
        rfl
      · exact new rh found
  exact all routes ∅ (by simp) h

theorem isSome_get?_set {health : Dict String RouteHealth} {rid r : String} {rh : RouteHealth} :
    ((health.set rid rh).get? r).isSome = true ↔ r = rid ∨ (health.get? r).isSome = true := by
  rw [Dict.get?_set]
  split
  · simp [*]
  · simp [*]

/-- Loading adds no entry and takes none away. -/
theorem loadRows_entries (rows : List (String × Row)) (health : Dict String RouteHealth)
    (r : String) : ((loadRows health rows).get? r).isSome = true ↔
      (health.get? r).isSome = true := by
  induction rows generalizing health with
  | nil => rfl
  | cons row rows ih =>
    obtain ⟨routeId, data⟩ := row
    rw [loadRows]
    cases known : health.get? routeId with
    | none => exact ih health
    | some old =>
      dsimp only
      cases CircuitState.ofValue? data.state with
      | none => rfl
      | some state =>
        dsimp only
        rw [ih, isSome_get?_set]
        refine or_iff_right_of_imp ?_
        rintro rfl
        rw [known]
        rfl

theorem fresh_entries (routes : List String) (r : String) :
    ((fresh routes).get? r).isSome = true ↔ r ∈ routes := by
  have all (routes : List String) (health : Dict String RouteHealth) :
      ((routes.foldl (fun health rid => health.set rid { routeId := rid }) health).get? r).isSome =
        true ↔ r ∈ routes ∨ (health.get? r).isSome = true := by
    induction routes generalizing health with
    | nil => simp
    | cons rid routes ih =>
      rw [List.foldl_cons, ih, isSome_get?_set, List.mem_cons, or_assoc, or_left_comm]
  simpa [fresh] using all routes ∅

end Loading

section Runs

/-- Runs of the monitor with the routes of its latest start and the results of each route's probes
so far. -/
inductive Run : World → List String → (String → List Bool) → Prop
  | first (routes : List String) : Run (start routes ∅ []) routes fun _ => []
  | probe {w : World} {routes : List String} {hist : String → List Bool}
      (before : Run w routes hist) (p : Probe) (configured : (w.health.get? p.routeId).isSome) :
      Run (w.probeRoute p) routes
        (Function.update hist p.routeId (hist p.routeId ++ [p.success]))
  | unconfigured {w : World} {routes : List String} {hist : String → List Bool}
      (before : Run w routes hist) (p : Probe) (unknown : w.health.get? p.routeId = none) :
      Run (w.probeRoute p) routes hist
  | restart {w : World} {old : List String} {hist : String → List Bool} (before : Run w old hist)
      (routes : List String) : Run (start routes w.db w.emitted) routes hist

/-- The state that an event names, if it is a connectivity event about just this route. -/
def announced (r : String) (e : Event) : Option Json :=
  if e.eventType = "system.connectivity" ∧ e.payload.lookup "affected_routes" = some (.texts [r]) then
    e.payload.lookup "state"
  else none

theorem texts_injective {r r' : String} (h : Json.texts [r] = .texts [r']) : r = r' := by
  have same : Lib.py r = Lib.py r' := by simpa [Json.texts, Json.text] using h
  exact Option.some.inj ((decode?_py r).symm.trans ((congrArg decode? same).trans (decode?_py r')))

theorem announced_change (r : String) (p : Probe) (state : CircuitState) :
    announced r (onStateChange p state) =
      if p.routeId = r then some (.text (stateMap state)) else none := by
  have type : (onStateChange p state).eventType = "system.connectivity" := rfl
  have routes : (onStateChange p state).payload.lookup "affected_routes" =
    some (.texts [p.routeId]) := rfl
  have named : (onStateChange p state).payload.lookup "state" = some (.text (stateMap state)) := rfl
  rw [announced, type, routes, named]
  by_cases same : p.routeId = r
  · rw [if_pos same, if_pos ⟨rfl, by rw [same]⟩]
  · rw [if_neg same, if_neg fun h => same (texts_injective (Option.some.inj h.2))]

/-- What holds of the monitor, its database and the events after the results `hist`. -/
structure Follows (w : World) (routes : List String) (hist : String → List Bool) : Prop where
  entries : ∀ r, (w.health.get? r).isSome = true ↔ r ∈ routes
  health : ∀ r rh, w.health.get? r = some rh → Matches (hist r) rh
  saved : ∀ r data, w.db.get? r = some data → Saves (hist r) data
  unsaved : ∀ r, w.db.get? r = none → hist r = []
  announced : ∀ r, w.emitted.filterMap (announced r) =
    (changes reference (hist r)).map fun s => .text (stateMap s)

theorem follows_start {hist : String → List Bool} {db : Table} {emitted : List Event}
    (saved : ∀ r data, db.get? r = some data → Saves (hist r) data)
    (unsaved : ∀ r, db.get? r = none → hist r = [])
    (events : ∀ r, emitted.filterMap (announced r) =
      (changes reference (hist r)).map fun s => .text (stateMap s))
    (routes : List String) : Follows (start routes db emitted) routes hist := by
  refine ⟨fun r => ?_, fun r rh h => ?_, saved, unsaved, events⟩
  · exact (loadRows_entries _ _ r).trans (fresh_entries routes r)
  refine loadRows_spec db.nodup (fun x mem => ?_) (fun r rh found => ?_) h
  · exact saved x.1 x.2 (Dict.get?_eq_some_iff.mpr mem)
  · by_cases row : r ∈ db.keys
    · exact .inl row
    · right
      rw [fresh_spec found, unsaved r (Dict.get?_eq_none_iff.mpr row)]
      exact matches_new r

theorem follows_probe {w : World} {routes : List String} {hist : String → List Bool}
    (f : Follows w routes hist) (p : Probe) {rh : RouteHealth}
    (known : w.health.get? p.routeId = some rh) :
    Follows (w.probeRoute p) routes
      (Function.update hist p.routeId (hist p.routeId ++ [p.success])) := by
  have m : Matches (hist p.routeId) { rh with lastProbeTime := some p.now } := by
    obtain ⟨state, failures, successes⟩ := f.health _ _ known
    exact ⟨state, failures, successes⟩
  have probed : w.probeRoute p = w.recordResult { rh with lastProbeTime := some p.now } p := by
    rw [World.probeRoute, known]
  generalize { rh with lastProbeTime := some p.now } = rh at m probed
  obtain ⟨-, failures, successes⟩ := count_spec m p.success p.now
  have next : Matches (hist p.routeId ++ [p.success])
      { rh.count p.success p.now with state := (rh.count p.success p.now).newState } :=
    ⟨newState_spec m p.success p.now, failures, successes⟩
  rw [probed]
  refine ⟨fun r => ?_, fun r rh' found => ?_, fun r data found => ?_, fun r missing => ?_,
    fun r => ?_⟩
  · rw [World.recordResult, isSome_get?_set, ← f.entries]
    refine or_iff_right_of_imp ?_
    rintro rfl
    rw [known]
    rfl
  · rw [World.recordResult, Dict.get?_set] at found
    by_cases same : r = p.routeId
    · subst same
      rw [if_pos rfl] at found
      cases found
      rwa [Function.update_self]
    · rw [if_neg same] at found
      rw [Function.update_of_ne same]
      exact f.health r rh' found
  · rw [World.recordResult, Dict.get?_set] at found
    by_cases same : r = p.routeId
    · subst same
      rw [if_pos rfl] at found
      cases found
      rw [Function.update_self]
      exact saves_row next
    · rw [if_neg same] at found
      rw [Function.update_of_ne same]
      exact f.saved r data found
  · rw [World.recordResult, Dict.get?_set] at missing
    by_cases same : r = p.routeId
    · rw [if_pos same] at missing
      cases missing
    · rw [if_neg same] at missing
      rw [Function.update_of_ne same]
      exact f.unsaved r missing
  · -- one event, about this route, if the value of the reference changes
    have emits : (w.recordResult rh p).emitted = w.emitted ++
        if reference (hist p.routeId ++ [p.success]) ≠ reference (hist p.routeId) then
          [onStateChange p (reference (hist p.routeId ++ [p.success]))]
        else [] := by
      rw [World.recordResult, ← m.state, ← next.state]
      dsimp only
      split
      · rfl
      · rw [List.append_nil]
    rw [emits, List.filterMap_append, f.announced]
    by_cases same : r = p.routeId
    · subst same
      rw [Function.update_self, changes_concat, List.map_append]
      split
      · rw [List.filterMap_cons, announced_change, if_pos rfl]
        rfl
      · rfl
    · rw [Function.update_of_ne same]
      split
      · rw [List.filterMap_cons, announced_change, if_neg (Ne.symm same), List.filterMap_nil,
          List.append_nil]
      · rw [List.filterMap_nil, List.append_nil]

theorem follows_run {w : World} {routes : List String} {hist : String → List Bool}
    (h : Run w routes hist) : Follows w routes hist := by
  induction h with
  | first routes =>
    have none_ (r : String) (data : Row) (found : (∅ : Table).get? r = some data) :
        Saves [] data := by cases found
    exact follows_start none_ (fun _ _ => rfl) (fun _ => rfl) routes
  | probe _ p configured ih =>
    obtain ⟨rh, known⟩ := Option.isSome_iff_exists.mp configured
    exact follows_probe ih p known
  | @unconfigured w routes hist _ p unknown ih =>
    have same : w.probeRoute p = w := by rw [World.probeRoute, unknown]
    rwa [same]
  | restart _ routes ih => exact follows_start ih.saved ih.unsaved ih.announced routes

/-- The breaker of a route after any run: it is there if the route is configured, its state and
availability are those of the results, and there has been one event for each change. -/
structure Computes (w : World) (routes : List String) (r : String) (h : List Bool) : Prop where
  entry : (∃ rh, w.getRouteHealth r = some rh) ↔ r ∈ routes
  state : ∀ rh, w.getRouteHealth r = some rh → rh.state = reference h
  opened : ∀ rh, w.getRouteHealth r = some rh → (rh.state = .open_ ↔ twoFailures <:+ h)
  closed : ∀ rh, w.getRouteHealth r = some rh → (rh.state = .closed ↔ Recovered h)
  available : ∀ rh, w.getRouteHealth r = some rh →
    (w.isRouteAvailable r = true ↔ rh.state ≠ .open_) ∧
    (r ∈ w.getAvailableRoutes ↔ rh.state ≠ .open_)
  events : w.emitted.filterMap (announced r) =
    (changes reference h).map fun s => .text (stateMap s)

theorem available_iff (rh : RouteHealth) : rh.available = true ↔ rh.state ≠ .open_ := by
  unfold RouteHealth.available
  cases rh.state <;> simp

theorem breaker_computes {w : World} {routes : List String} {hist : String → List Bool}
    (h : Run w routes hist) (r : String) : Computes w routes r (hist r) := by
  have follows := follows_run h
  have state (rh : RouteHealth) (found : w.getRouteHealth r = some rh) :
      rh.state = reference (hist r) := (follows.health r rh found).state
  have entry := follows.entries r
  rw [Option.isSome_iff_exists] at entry
  refine ⟨entry, state, fun rh found => ?_, fun rh found => ?_, fun rh found => ⟨?_, ?_⟩,
    follows.announced r⟩
  · rw [state rh found, reference_open]
  · rw [state rh found, reference_closed]
  · have known : w.health.get? r = some rh := found
    rw [World.isRouteAvailable, known]
    exact available_iff rh
  · rw [← available_iff]
    have mem : (r, rh) ∈ w.health.entries := Dict.get?_eq_some_iff.mp found
    constructor
    · intro listed
      obtain ⟨⟨r', rh'⟩, kept, rfl⟩ := List.mem_map.mp listed
      obtain ⟨mem', yes⟩ := List.mem_filter.mp kept
      have other : w.health.get? r' = some rh' := Dict.get?_eq_some_iff.mpr mem'
      cases other.symm.trans found
      exact yes
    · intro yes
      exact List.mem_map.mpr ⟨_, List.mem_filter.mpr ⟨mem, yes⟩, rfl⟩

/-- A failed probe of the route `claude`, in the first moment of 2026. -/
def failedProbe : Probe :=
  let now : UtcTime :=
    ⟨2026, 1, 1, 0, 0, 0, 0, UtcTime.year_2026, UtcTime.january, UtcTime.first_january, by decide⟩
  ⟨"claude", now, none, 0, ⟨0, 0, 0⟩, now⟩

/-- Two failures with a restart between them, before which another route is added. -/
theorem breaker_computes_witness : ∃ (w : World) (open_ up : RouteHealth),
    w.getRouteHealth "claude" = some open_ ∧ open_.state = .open_ ∧
    w.isRouteAvailable "claude" = false ∧ "claude" ∉ w.getAvailableRoutes ∧
    w.emitted.filterMap (announced "claude") = [.text "down"] ∧
    w.getRouteHealth "ollama" = some up ∧ up.state = .closed ∧
    w.isRouteAvailable "ollama" = true ∧ w.emitted.filterMap (announced "ollama") = [] := by
  have failed := (Run.first ["claude"]).probe failedProbe rfl
  have run := (failed.restart ["claude", "ollama"]).probe failedProbe rfl
  have claude := breaker_computes run "claude"
  have ollama := breaker_computes run "ollama"
  obtain ⟨open_, found⟩ := claude.entry.mpr (by decide)
  obtain ⟨up, found'⟩ := ollama.entry.mpr (by decide)
  have down : open_.state = .open_ := (claude.opened open_ found).mpr (by decide)
  have closed : up.state = .closed := (ollama.closed up found').mpr (by decide)
  obtain ⟨available, listed⟩ := claude.available open_ found
  obtain ⟨available', -⟩ := ollama.available up found'
  refine ⟨_, open_, up, found, down, ?_, ?_, claude.events.trans (by decide), found', closed, ?_,
    ollama.events.trans (by decide)⟩
  · rw [← Bool.not_eq_true, available]
    exact not_not.mpr down
  · rw [listed]
    exact not_not.mpr down
  · rw [available', closed]
    decide

end Runs

end Drnt.Connectivity
