import Drnt.Runtime.Manifest
import Drnt.Lib.Checks
import Drnt.Lib.Dict
import Mathlib.Order.Bounds.Defs
import Mathlib.Data.Set.Finite.Lemmas

/-! The routes of egress.json as they are read: by the gateway's registry, by the store of the
workers' policies and by the validator of manifests. -/
namespace Drnt.Runtime

open Lib

section Routes

inductive RouteFault | key | type | value | attribute
  deriving DecidableEq, Repr

/-- data[key] -/
def item (data : Json) (key : String) : Except RouteFault Json :=
  match data with
  | .obj fields =>
    match Json.field? (py key) fields with
    | some v => .ok v
    | none => .error .key
  | _ => .error .type

/-- data.get(key, default) -/
def getOr (data : Json) (key : String) (default_ : Json) : Except RouteFault Json :=
  match data with
  | .obj fields => .ok ((Json.field? (py key) fields).getD default_)
  | _ => .error .attribute

/-- Lists and dicts cannot be keys. -/
def isKey : Json → Bool
  | .arr _ | .obj _ => false
  | _ => true

/-- What a for loop runs over. -/
def iterate : Json → Except RouteFault (List Json)
  | .arr xs => .ok xs
  | .str s => .ok (s.map fun c => .str [c])
  | .obj fields => .ok (fields.map fun f => .str f.1)
  | _ => .error .type

/-- max of integers, which limits are. -/
def max_ : Json → Json → Except RouteFault Json
  | .int m, .int n => .ok (.int (max m n))
  | _, _ => .error .type

structure EgressRoute where
  routeId : Json
  provider : Json
  endpointUrl : Json
  modelString : Json
  allowedCapabilities : Json
  authMethod : Json
  secretRef : Json
  rateLimitRpm : Json
  timeoutMs : Json
  enabled : Json

def EgressRoute.ofData (data : Json) : Except RouteFault EgressRoute := do
  return {
    routeId := ← item data "route_id"
    provider := ← item data "provider"
    endpointUrl := ← item data "endpoint_url"
    modelString := ← item data "model_string"
    allowedCapabilities := ← item data "allowed_capabilities"
    authMethod := ← item (← item data "auth") "method"
    secretRef := ← getOr (← item data "auth") "secret_ref" .null
    rateLimitRpm := ← item (← item data "constraints") "rate_limit_rpm"
    timeoutMs := ← item (← item data "health") "timeout_ms"
    enabled := ← item data "enabled" }

/-- The routes of the gateway, by their ids. -/
abbrev EgressRegistry := Dict Json EgressRoute

def EgressRegistry.loadFrom (registry : EgressRegistry) : List Json → Except RouteFault EgressRegistry
  | [] => .ok registry
  | data :: routes => do
    let route ← EgressRoute.ofData data
    if isKey route.routeId then loadFrom (registry.set route.routeId route) routes
    else .error .type

def EgressRegistry.load (routes : List Json) : Except RouteFault EgressRegistry :=
  EgressRegistry.loadFrom ∅ routes

/-- What urlparse gives of a URL. -/
structure Url where
  scheme : PyStr
  hostname : Option PyStr
  port : Option Nat
  deriving DecidableEq, Repr

variable (urlparse : Json → Except RouteFault Url)

/-- The host and the port of a route; a port 0 counts as none. -/
def endpointOf (route : Json) : Except RouteFault PyStr := do
  let parsed ← urlparse (← getOr route "endpoint_url" (.str []))
  let port := match parsed.port with
    | some (n + 1) => n + 1
    | _ => if parsed.scheme = py "https" then 443 else 80
  return parsed.hostname.getD [] ++ py ":" ++ Dumps.int port

abbrev Endpoints := Dict Json (List PyStr)

/-- An endpoint is listed once for a capability. -/
def Endpoints.add (d : Endpoints) (cap : Json) (endpoint : PyStr) : Endpoints :=
  let listed := (d.get? cap).getD []
  d.set cap (if endpoint ∈ listed then listed else listed ++ [endpoint])

def buildCapabilities (endpoint : PyStr) (d : Endpoints) : List Json → Except RouteFault Endpoints
  | [] => .ok d
  | cap :: caps =>
    if isKey cap then buildCapabilities endpoint (d.add cap endpoint) caps else .error .type

def buildRoutes (d : Endpoints) : List Json → Except RouteFault Endpoints
  | [] => .ok d
  | route :: routes => do
    let endpoint ← endpointOf urlparse route
    let caps ← iterate (← getOr route "allowed_capabilities" (.arr []))
    buildRoutes (← buildCapabilities endpoint d caps) routes

def buildEgressEndpointsFromRoutes (routes : List Json) : Except RouteFault Endpoints :=
  buildRoutes urlparse ∅ routes

structure EgressPolicy where
  capabilityId : Json
  allowedEndpoints : List PyStr
  rateLimitRpm : Json := .nat 30

abbrev EgressPolicyStore := Dict Json EgressPolicy

abbrev Limits := Dict Json Json

def loadCapabilities (endpoint : PyStr) (rpm : Json) (s : Endpoints × Limits) :
    List Json → Except RouteFault (Endpoints × Limits)
  | [] => .ok s
  | cap :: caps =>
    if isKey cap then do
      let limit ← max_ ((s.2.get? cap).getD (.nat 0)) rpm
      loadCapabilities endpoint rpm (s.1.add cap endpoint, s.2.set cap limit) caps
    else .error .type

def loadRoutes (s : Endpoints × Limits) : List Json → Except RouteFault (Endpoints × Limits)
  | [] => .ok s
  | route :: routes => do
    let endpoint ← endpointOf urlparse route
    let rpm ← getOr route "rate_limit_rpm" (.nat 30)
    let caps ← iterate (← getOr route "allowed_capabilities" (.arr []))
    loadRoutes (← loadCapabilities endpoint rpm s caps) routes

def setPolicies (limits : Limits) (store : EgressPolicyStore) :
    List (Json × List PyStr) → EgressPolicyStore
  | [] => store
  | (cap, allowed) :: entries =>
    setPolicies limits (store.set cap ⟨cap, allowed, (limits.get? cap).getD (.nat 30)⟩) entries

def EgressPolicyStore.loadFromRoutes (store : EgressPolicyStore) (routes : List Json) :
    Except RouteFault EgressPolicyStore := do
  let (endpoints, limits) ← loadRoutes urlparse (∅, ∅) routes
  return setPolicies limits store endpoints.entries

/-- The manifest of a capability, with the dependencies that its entry names. -/
def buildManifestForCapability (store : EgressPolicyStore) (capabilityId : PyStr)
    (providerDependencies : List PyStr) (manifestId : PyStr) : RuntimeManifest where
  capabilityId := capabilityId
  workerType :=
    if capabilityId = py "route.local" ∨ providerDependencies = [] then py "ollama_local"
    else py "cloud_adapter"
  volumes := [⟨py "/work", py "rw", py "/work/" ++ capabilityId⟩,
    ⟨py "/tmp", py "rw", py "/tmp/" ++ capabilityId⟩]
  network := ⟨((store.get? (.str capabilityId)).map (·.allowedEndpoints)).getD [], true⟩
  resources := ⟨256, 60, 120, 100⟩
  security := ⟨[py "ALL"], true⟩
  manifestId := manifestId

end Routes

section Agreement

def routeIdOf (route : Json) : Except RouteFault Json := item route "route_id"

/-- The capabilities that a route allows. -/
def capabilitiesOf (route : Json) : List Json :=
  match item route "allowed_capabilities" with
  | .ok (.arr caps) => caps
  | _ => []

def constraintOf (route : Json) : Except RouteFault Json := do
  item (← item route "constraints") "rate_limit_rpm"

def intOf (v : Except RouteFault Json) : Int :=
  match v with
  | .ok (.int n) => n
  | _ => 0

/-- The limit that the gateway reads for a route, and the one that the store reads. -/
def gatewayLimit (route : Json) : Int := intOf (constraintOf route)

def storeLimit (route : Json) : Int := intOf (getOr route "rate_limit_rpm" (.nat 30))

def allowing (routes : List Json) (cap : Json) : List Json :=
  routes.filter fun route => cap ∈ capabilitiesOf route

/-- The fields that are used have the types that the readers annotate them with. -/
structure WellTyped (route : Json) : Prop where
  routeId : ∃ s, routeIdOf route = .ok (.str s)
  capabilities : ∃ caps : List PyStr,
    item route "allowed_capabilities" = .ok (.arr (caps.map .str))
  constraint : ∃ n, constraintOf route = .ok (.int n)
  top : ∃ n, getOr route "rate_limit_rpm" (.nat 30) = .ok (.int n)

variable (urlparse : Json → Except RouteFault Url)

def WellFormedUrl (route : Json) : Prop := ∃ endpoint, endpointOf urlparse route = .ok endpoint

/-- The three readers agree: the same endpoints for every capability, for its limit the greatest of
the gateway's limits, and no manifest that is built from the store is rejected for an endpoint. -/
structure Agrees (routes : List Json) (registry : EgressRegistry) (store : EgressPolicyStore)
    (built : Endpoints) : Prop where
  endpoints : ∀ cap, (store.get? cap).map (·.allowedEndpoints) = built.get? cap
  limits : ∀ cap policy, store.get? cap = some policy →
    ∃ n, policy.rateLimitRpm = .int n ∧ IsGreatest {m | ∃ route ∈ allowing routes cap, ∃ id r,
      routeIdOf route = .ok id ∧ registry.get? id = some r ∧ r.rateLimitRpm = .int m} n
  manifests : ∀ (v : ManifestValidator) (cap : PyStr) (deps : List PyStr) (id : PyStr),
    v.egressEndpoints = (fun cap => built.get? (.str cap)) →
      v.checkEgressEndpoints (buildManifestForCapability store cap deps id) = []

/-- The two loaders of the orchestrator succeed, on a new store, and agree with the gateway. -/
def OnePolicy (routes : List Json) (registry : EgressRegistry) : Prop :=
  ∃ store built, EgressPolicyStore.loadFromRoutes urlparse ∅ routes = .ok store ∧
    buildEgressEndpointsFromRoutes urlparse routes = .ok built ∧ Agrees routes registry store built

/-- For every capability that a route allows, the greatest limit beside the constraints, 30 where
there is none and at least 0, is the greatest one in the constraints. -/
def LimitsAgree (routes : List Json) : Prop :=
  ∀ cap n, IsGreatest {m | ∃ route ∈ allowing routes cap, gatewayLimit route = m} n →
    ((allowing routes cap).map storeLimit).foldl max 0 = n

end Agreement

section Loading

variable {urlparse : Json → Except RouteFault Url} {route : Json} {routes : List Json}

theorem WellTyped.iterates (typed : WellTyped route) : ∃ caps : List PyStr,
    getOr route "allowed_capabilities" (.arr []) = .ok (.arr (caps.map .str)) ∧
      capabilitiesOf route = caps.map .str := by
  obtain ⟨caps, eq⟩ := typed.capabilities
  refine ⟨caps, ?_, by rw [capabilitiesOf, eq]⟩
  unfold item at eq
  split at eq
  · split at eq
    · rename_i fields _ v found
      cases eq
      simp [getOr, found]
    · cases eq
  · cases eq

theorem WellTyped.store (typed : WellTyped route) :
    getOr route "rate_limit_rpm" (.nat 30) = .ok (.int (storeLimit route)) := by
  obtain ⟨n, eq⟩ := typed.top
  rw [storeLimit, eq]
  rfl

def grant (endpoint : PyStr) (d : Endpoints) (caps : List PyStr) : Endpoints :=
  caps.foldl (fun d cap => d.add (.str cap) endpoint) d

theorem buildCapabilities_run (endpoint : PyStr) (d : Endpoints) (caps : List PyStr) :
    buildCapabilities endpoint d (caps.map .str) = .ok (grant endpoint d caps) := by
  induction caps generalizing d with
  | nil => rfl
  | cons cap caps ih => exact ih (d.add (.str cap) endpoint)

/-- The limits that a dict holds. -/
def Holds (l : Limits) (f : Json → Option Int) : Prop := ∀ k, l.get? k = (f k).map .int

/-- The limits after a route. -/
def raise (caps : List Json) (rpm : Int) (f : Json → Option Int) (k : Json) : Option Int :=
  if k ∈ caps then some (max ((f k).getD 0) rpm) else f k

theorem raise_cons (cap : Json) (caps : List Json) (rpm : Int) (f : Json → Option Int) :
    raise (cap :: caps) rpm f = raise caps rpm (raise [cap] rpm f) := by
  funext k
  by_cases here : k = cap
  · subst here
    by_cases again : k ∈ caps <;> simp [raise, again]
  · by_cases again : k ∈ caps <;> simp [raise, again, here]

theorem loadCapabilities_run (endpoint : PyStr) (rpm : Int) {d : Endpoints} {l : Limits}
    {f : Json → Option Int} (holds : Holds l f) (caps : List PyStr) :
    ∃ l', loadCapabilities endpoint (.int rpm) (d, l) (caps.map .str) =
      .ok (grant endpoint d caps, l') ∧ Holds l' (raise (caps.map .str) rpm f) := by
  induction caps generalizing d l f with
  | nil => exact ⟨l, rfl, holds⟩
  | cons cap caps ih =>
    have limit : max_ ((l.get? (.str cap)).getD (.nat 0)) (.int rpm) =
        .ok (.int (max ((f (.str cap)).getD 0) rpm)) := by
      rw [holds]
      cases f (.str cap) <;> rfl
    have next : Holds (l.set (.str cap) (.int (max ((f (.str cap)).getD 0) rpm)))
        (raise [.str cap] rpm f) := by
      intro k
      rw [Dict.get?_set, raise]
      by_cases same : k = .str cap
      · subst same
        simp
      · simp [same, holds k]
    obtain ⟨l', ran, holds'⟩ := ih (d := d.add (.str cap) endpoint) next
    refine ⟨l', ?_, by rw [List.map_cons, raise_cons]; exact holds'⟩
    have key : isKey (.str cap) = true := rfl
    rw [List.map_cons, loadCapabilities, if_pos key]
    dsimp only
    rw [limit]
    exact ran

/-- The store's loop does what the validator's does, and collects the limits. -/
theorem loadRoutes_run (wellFormed : ∀ route ∈ routes, WellFormedUrl urlparse route)
    (typed : ∀ route ∈ routes, WellTyped route) {d : Endpoints} {l : Limits}
    {f : Json → Option Int} (holds : Holds l f) :
    ∃ d' l', loadRoutes urlparse (d, l) routes = .ok (d', l') ∧
      buildRoutes urlparse d routes = .ok d' ∧
      Holds l'
        (routes.foldl (fun f route => raise (capabilitiesOf route) (storeLimit route) f) f) := by
  induction routes generalizing d l f with
  | nil => exact ⟨d, l, rfl, rfl, holds⟩
  | cons route routes ih =>
    obtain ⟨endpoint, parsed⟩ := wellFormed route (List.mem_cons_self ..)
    have here := typed route (List.mem_cons_self ..)
    obtain ⟨caps, iterates, allowed⟩ := here.iterates
    obtain ⟨l₁, ran, holds₁⟩ := loadCapabilities_run (d := d) endpoint (storeLimit route) holds caps
    obtain ⟨d', l', loaded, built, holds'⟩ := ih
      (fun route mem => wellFormed route (List.mem_cons_of_mem _ mem))
      (fun route mem => typed route (List.mem_cons_of_mem _ mem)) (d := grant endpoint d caps) holds₁
    refine ⟨d', l', ?_, ?_, ?_⟩
    · rw [loadRoutes, parsed, here.store, iterates]
      show (loadCapabilities endpoint (.int (storeLimit route)) (d, l) (caps.map .str) >>= _) = _
      rw [ran]
      exact loaded
    · rw [buildRoutes, parsed, iterates]
      show (buildCapabilities endpoint d (caps.map .str) >>= _) = _
      rw [buildCapabilities_run]
      exact built
    · rw [List.foldl_cons, allowed]
      exact holds'

theorem allowing_cons (route : Json) (routes : List Json) (cap : Json) :
    allowing (route :: routes) cap =
      if cap ∈ capabilitiesOf route then route :: allowing routes cap else allowing routes cap := by
  rw [allowing, List.filter_cons]
  simp only [decide_eq_true_eq]
  rfl

/-- What the routes that allow a capability raise its limit to. -/
theorem raised_spec (routes : List Json) (f : Json → Option Int) (cap : Json) :
    routes.foldl (fun f route => raise (capabilitiesOf route) (storeLimit route) f) f cap =
      if allowing routes cap = [] then f cap
      else some (((allowing routes cap).map storeLimit).foldl max ((f cap).getD 0)) := by
  induction routes generalizing f with
  | nil => rfl
  | cons route routes ih =>
    rw [List.foldl_cons, ih, allowing_cons]
    by_cases here : cap ∈ capabilitiesOf route
    · have raised : raise (capabilitiesOf route) (storeLimit route) f cap =
          some (max ((f cap).getD 0) (storeLimit route)) := if_pos here
      rw [raised, if_pos here]
      by_cases last : allowing routes cap = [] <;> simp [last]
    · have same : raise (capabilitiesOf route) (storeLimit route) f cap = f cap := if_neg here
      rw [same, if_neg here]

theorem mem_grant (endpoint : PyStr) (d : Endpoints) (caps : List PyStr) (k : Json) :
    k ∈ (grant endpoint d caps).keys ↔ k ∈ d.keys ∨ k ∈ caps.map .str := by
  induction caps generalizing d with
  | nil => simp [grant]
  | cons cap caps ih =>
    have step : grant endpoint d (cap :: caps) =
        grant endpoint (d.add (.str cap) endpoint) caps := rfl
    rw [step, ih, Endpoints.add, Dict.mem_keys_set, List.map_cons, List.mem_cons]
    tauto

theorem mem_buildRoutes (typed : ∀ route ∈ routes, WellTyped route) {d d' : Endpoints}
    (h : buildRoutes urlparse d routes = .ok d') (k : Json) :
    k ∈ d'.keys ↔ k ∈ d.keys ∨ allowing routes k ≠ [] := by
  induction routes generalizing d with
  | nil =>
    cases h
    simp [allowing]
  | cons route routes ih =>
    have here := typed route (List.mem_cons_self ..)
    obtain ⟨caps, iterates, allowed⟩ := here.iterates
    rw [buildRoutes, iterates] at h
    cases parsed : endpointOf urlparse route with
    | error fault =>
      rw [parsed] at h
      cases h
    | ok endpoint =>
      rw [parsed] at h
      change (buildCapabilities endpoint d (caps.map .str) >>= _) = _ at h
      rw [buildCapabilities_run] at h
      rw [ih (fun route mem => typed route (List.mem_cons_of_mem _ mem)) h, mem_grant, ← allowed]
      by_cases mem : k ∈ capabilitiesOf route <;> simp [allowing, mem]

theorem get?_policies (limits : Limits) (entries : List (Json × List PyStr))
    (distinct : (entries.map Prod.fst).Nodup) (store : EgressPolicyStore) (k : Json) :
    (setPolicies limits store entries).get? k =
      ((lookup k entries).map fun allowed => ⟨k, allowed, (limits.get? k).getD (.nat 30)⟩).or
        (store.get? k) := by
  induction entries generalizing store with
  | nil => rfl
  | cons e entries ih =>
    obtain ⟨cap, allowed⟩ := e
    obtain ⟨fresh_, distinct⟩ := List.nodup_cons.mp distinct
    rw [setPolicies, ih distinct, lookup]
    by_cases same : cap = k
    · subst same
      simp [lookup_eq_none.mpr fresh_]
    · rw [if_neg same, Dict.get?_set_ne _ (Ne.symm same)]

/-- The store and the validator's endpoints, of routes whose URLs can be parsed. -/
theorem loaders_run (wellFormed : ∀ route ∈ routes, WellFormedUrl urlparse route)
    (typed : ∀ route ∈ routes, WellTyped route) : ∃ store built,
    EgressPolicyStore.loadFromRoutes urlparse ∅ routes = .ok store ∧
    buildEgressEndpointsFromRoutes urlparse routes = .ok built ∧
    (∀ k, k ∈ built.keys ↔ allowing routes k ≠ []) ∧
    ∀ k, store.get? k = (built.get? k).map fun allowed =>
      ⟨k, allowed, .int (((allowing routes k).map storeLimit).foldl max 0)⟩ := by
  have start : Holds ∅ fun _ => none := fun _ => rfl
  obtain ⟨built, limits, loaded, built_, holds⟩ := loadRoutes_run wellFormed typed start (d := ∅)
  have keys (k : Json) : k ∈ built.keys ↔ allowing routes k ≠ [] := by
    rw [mem_buildRoutes typed built_]
    simp
  refine ⟨setPolicies limits ∅ built.entries, built, ?_, built_, keys, fun k => ?_⟩
  · rw [EgressPolicyStore.loadFromRoutes, loaded]
    rfl
  · rw [get?_policies limits _ built.nodup]
    have found : lookup k built.entries = built.get? k := rfl
    rw [found]
    cases here : built.get? k with
    | none => rfl
    | some allowed =>
      have some_ : allowing routes k ≠ [] := by
        rw [← keys, ← not_not (a := k ∈ built.keys), ← Dict.get?_eq_none_iff, here]
        nofun
      have limit := holds k
      rw [raised_spec, if_neg some_] at limit
      rw [limit]
      rfl

end Loading

section Registry

variable {routes : List Json} {registry registry' : EgressRegistry}

/-- A route that the gateway accepts, with its id and its limit. -/
theorem ofData_limit {data : Json} {route : EgressRoute} (h : EgressRoute.ofData data = .ok route) :
    routeIdOf data = .ok route.routeId ∧ constraintOf data = .ok route.rateLimitRpm := by
  unfold EgressRoute.ofData at h
  obtain ⟨id, hid, h⟩ := Checks.bind_ok.mp h
  obtain ⟨_, -, h⟩ := Checks.bind_ok.mp h
  obtain ⟨_, -, h⟩ := Checks.bind_ok.mp h
  obtain ⟨_, -, h⟩ := Checks.bind_ok.mp h
  obtain ⟨_, -, h⟩ := Checks.bind_ok.mp h
  obtain ⟨_, -, h⟩ := Checks.bind_ok.mp h
  obtain ⟨_, -, h⟩ := Checks.bind_ok.mp h
  obtain ⟨_, -, h⟩ := Checks.bind_ok.mp h
  obtain ⟨_, -, h⟩ := Checks.bind_ok.mp h
  obtain ⟨constraints, hconstraints, h⟩ := Checks.bind_ok.mp h
  obtain ⟨limit, hlimit, h⟩ := Checks.bind_ok.mp h
  obtain ⟨_, -, h⟩ := Checks.bind_ok.mp h
  obtain ⟨_, -, h⟩ := Checks.bind_ok.mp h
  obtain ⟨_, -, h⟩ := Checks.bind_ok.mp h
  cases h
  refine ⟨hid, ?_⟩
  rw [constraintOf, hconstraints]
  exact hlimit

/-- A registry has the routes that were loaded into it, if their ids are distinct. -/
theorem loadFrom_spec (h : EgressRegistry.loadFrom registry routes = .ok registry')
    (unique : (routes.map routeIdOf).Nodup) :
    (∀ id, .ok id ∉ routes.map routeIdOf → registry'.get? id = registry.get? id) ∧
    ∀ data ∈ routes, ∃ route, EgressRoute.ofData data = .ok route ∧
      registry'.get? route.routeId = some route := by
  induction routes generalizing registry with
  | nil =>
    cases h
    exact ⟨fun _ _ => rfl, nofun⟩
  | cons data routes ih =>
    obtain ⟨fresh_, unique⟩ := List.nodup_cons.mp unique
    rw [EgressRegistry.loadFrom] at h
    cases read : EgressRoute.ofData data with
    | error fault =>
      rw [read] at h
      cases h
    | ok route =>
      rw [read] at h
      change (if isKey route.routeId = true then _ else _) = _ at h
      split at h
      · obtain ⟨kept, loaded⟩ := ih h unique
        have id := (ofData_limit read).1
        rw [id] at fresh_
        refine ⟨fun other out => ?_, List.forall_mem_cons.mpr ⟨⟨route, read, ?_⟩, loaded⟩⟩
        · rw [List.map_cons, List.mem_cons, not_or, id] at out
          rw [kept other out.2, Dict.get?_set_ne]
          rintro rfl
          exact out.1 rfl
        · rw [kept _ fresh_, Dict.get?_set_self]
      · cases h

end Registry

section Theorem

variable {urlparse : Json → Except RouteFault Url} {routes : List Json} {registry : EgressRegistry}

/-- The limits that the registry holds for a capability are those in the constraints. -/
theorem registry_limits (loaded : EgressRegistry.load routes = .ok registry)
    (unique : (routes.map routeIdOf).Nodup) (typed : ∀ route ∈ routes, WellTyped route) (cap : Json) :
    {m | ∃ route ∈ allowing routes cap, ∃ id r, routeIdOf route = .ok id ∧
      registry.get? id = some r ∧ r.rateLimitRpm = .int m} =
      {m | ∃ route ∈ allowing routes cap, gatewayLimit route = m} := by
  obtain ⟨-, all⟩ := loadFrom_spec loaded unique
  ext m
  constructor
  · rintro ⟨route, mem, id, r, here, found, limit⟩
    obtain ⟨r', read, found'⟩ := all route (List.mem_of_mem_filter mem)
    obtain ⟨here', limit'⟩ := ofData_limit read
    cases here.symm.trans here'
    cases found.symm.trans found'
    refine ⟨route, mem, ?_⟩
    rw [gatewayLimit, limit', limit]
    rfl
  · rintro ⟨route, mem, rfl⟩
    have mem' := List.mem_of_mem_filter mem
    obtain ⟨r, read, found⟩ := all route mem'
    obtain ⟨here, limit⟩ := ofData_limit read
    obtain ⟨n, typed⟩ := (typed route mem').constraint
    refine ⟨route, mem, _, r, here, found, ?_⟩
    rw [gatewayLimit, typed]
    exact Except.ok.inj (limit.symm.trans typed)

theorem greatest_exists {cap : Json} (some_ : allowing routes cap ≠ []) :
    ∃ n, IsGreatest {m | ∃ route ∈ allowing routes cap, gatewayLimit route = m} n := by
  obtain ⟨route, mem⟩ := List.exists_mem_of_ne_nil _ some_
  obtain ⟨best, mem, most⟩ := Set.exists_max_image {route | route ∈ allowing routes cap} gatewayLimit
    (List.finite_toSet _) ⟨route, mem⟩
  refine ⟨gatewayLimit best, ⟨best, mem, rfl⟩, ?_⟩
  rintro _ ⟨route, mem, rfl⟩
  exact most route mem

/-- Where the readers agree, the greatest limits do. -/
theorem OnePolicy.limits (loaded : EgressRegistry.load routes = .ok registry)
    (unique : (routes.map routeIdOf).Nodup)
    (wellFormed : ∀ route ∈ routes, WellFormedUrl urlparse route)
    (typed : ∀ route ∈ routes, WellTyped route) (h : OnePolicy urlparse routes registry) :
    LimitsAgree routes := by
  obtain ⟨store, built, stored, builds, keys, policies⟩ := loaders_run wellFormed typed
  obtain ⟨store', built', stored', builds', agrees⟩ := h
  cases stored.symm.trans stored'
  cases builds.symm.trans builds'
  intro cap n greatest
  obtain ⟨⟨route, mem, -⟩, -⟩ := id greatest
  have listed : cap ∈ built.keys := (keys cap).mpr (List.ne_nil_of_mem mem)
  obtain ⟨allowed, found⟩ := Option.ne_none_iff_exists'.mp fun none_ =>
    Dict.get?_eq_none_iff.mp none_ listed
  have policy := policies cap
  rw [found] at policy
  obtain ⟨m, limit, best⟩ := agrees.limits cap _ policy
  rw [registry_limits loaded unique typed] at best
  cases limit
  exact best.unique greatest

theorem one_policy_iff (loaded : EgressRegistry.load routes = .ok registry)
    (unique : (routes.map routeIdOf).Nodup)
    (wellFormed : ∀ route ∈ routes, WellFormedUrl urlparse route)
    (typed : ∀ route ∈ routes, WellTyped route) :
    OnePolicy urlparse routes registry ↔ LimitsAgree routes := by
  obtain ⟨store, built, stored, builds, keys, policies⟩ := loaders_run wellFormed typed
  constructor
  · exact OnePolicy.limits loaded unique wellFormed typed
  · intro agree
    refine ⟨store, built, stored, builds, fun cap => ?_, fun cap policy found => ?_, ?_⟩
    · rw [policies]
      cases built.get? cap <;> rfl
    · have allowed : allowing routes cap ≠ [] := by
        intro none_
        have missing : built.get? cap = none :=
          Dict.get?_eq_none_iff.mpr fun listed => (keys cap).mp listed none_
        rw [policies, missing] at found
        cases found
      obtain ⟨n, greatest⟩ := greatest_exists allowed
      refine ⟨n, ?_, by rw [registry_limits loaded unique typed]; exact greatest⟩
      rw [policies] at found
      obtain ⟨-, -, rfl⟩ := Option.map_eq_some_iff.mp found
      exact congrArg Json.int (agree cap n greatest)
    · intro v cap deps id eq
      unfold ManifestValidator.checkEgressEndpoints
      refine List.flatMap_eq_nil_iff.mpr fun endpoint mem => if_pos ?_
      have allowed : (buildManifestForCapability store cap deps id).network.egressAllow =
          ((store.get? (.str cap)).map (·.allowedEndpoints)).getD [] := rfl
      rw [allowed, policies] at mem
      unfold ManifestValidator.authorized
      rw [eq]
      show endpoint ∈ (built.get? (.str cap)).getD []
      cases here : built.get? (.str cap) with
      | none =>
        rw [here] at mem
        exact mem
      | some es =>
        rw [here] at mem
        exact mem

end Theorem

section Sample

def geminiUrl : String :=
  "https://generativelanguage.googleapis.com/v1beta/models/gemini-2.0-flash:generateContent"

/-- urlparse on the URLs below. -/
def sampleUrlparse (url : Json) : Except RouteFault Url :=
  if url = .text "http://ollama:11434/api/generate" then
    .ok ⟨py "http", some (py "ollama"), some 11434⟩
  else if url = .text "https://api.anthropic.com/v1/messages" then
    .ok ⟨py "https", some (py "api.anthropic.com"), none⟩
  else if url = .text "https://api.openai.com/v1/chat/completions" then
    .ok ⟨py "https", some (py "api.openai.com"), none⟩
  else if url = .text geminiUrl then
    .ok ⟨py "https", some (py "generativelanguage.googleapis.com"), none⟩
  else .error .value

def ollamaRoute : Json := .fields [("route_id", .text "ollama-llama3-local"),
  ("provider", .text "ollama"), ("endpoint_url", .text "http://ollama:11434/api/generate"),
  ("model_string", .text "llama3.1:8b"), ("allowed_capabilities", .texts ["route.local"]),
  ("auth", .fields [("method", .text "none"), ("secret_ref", .null)]),
  ("constraints", .fields [("rate_limit_rpm", .int 120)]),
  ("health", .fields [("check_interval_seconds", .int 60), ("timeout_ms", .int 10000),
    ("consecutive_failures_before_down", .int 3)]), ("enabled", .bool true)]

/-- A route to a cloud provider: it also serves the requests to several of them. -/
def cloudRoute (routeId provider endpointUrl model capability method secretRef : String) : Json :=
  .fields [("route_id", .text routeId), ("provider", .text provider),
    ("endpoint_url", .text endpointUrl), ("model_string", .text model),
    ("allowed_capabilities", .texts [capability, "route.multi"]),
    ("auth", .fields [("method", .text method), ("secret_ref", .text secretRef)]),
    ("constraints", .fields [("rate_limit_rpm", .int 30)]),
    ("health", .fields [("check_interval_seconds", .int 300), ("timeout_ms", .int 90000),
      ("consecutive_failures_before_down", .int 3)]), ("enabled", .bool true)]

def cloudRoutes : List Json :=
  [cloudRoute "claude-sonnet-default" "anthropic" "https://api.anthropic.com/v1/messages"
      "claude-sonnet-4-*" "route.cloud.claude" "bearer_token" "ANTHROPIC_API_KEY",
    cloudRoute "openai-gpt4o-default" "openai" "https://api.openai.com/v1/chat/completions"
      "gpt-4o*" "route.cloud.openai" "bearer_token" "OPENAI_API_KEY",
    cloudRoute "google-gemini-default" "google" geminiUrl
      "gemini-2.0-flash*" "route.cloud.gemini" "api_key_param" "GOOGLE_API_KEY"]

theorem ollama_ok : (∃ registry, EgressRegistry.load [ollamaRoute] = .ok registry) ∧
    WellFormedUrl sampleUrlparse ollamaRoute ∧ WellTyped ollamaRoute :=
  ⟨⟨_, rfl⟩, ⟨_, rfl⟩, ⟨⟨_, rfl⟩, ⟨[_], rfl⟩, ⟨_, rfl⟩, ⟨_, rfl⟩⟩⟩

/-- The local route that is delivered: 120 in its constraints, and nothing beside them. -/
theorem default_limit : ∃ registry, EgressRegistry.load [ollamaRoute] = .ok registry ∧
    ([ollamaRoute].map routeIdOf).Nodup ∧ WellFormedUrl sampleUrlparse ollamaRoute ∧
      ¬ OnePolicy sampleUrlparse [ollamaRoute] registry := by
  obtain ⟨⟨registry, loaded⟩, wellFormed, typed⟩ := ollama_ok
  have unique : ([ollamaRoute].map routeIdOf).Nodup := List.nodup_singleton _
  refine ⟨registry, loaded, unique, wellFormed, fun agree => ?_⟩
  have limits := agree.limits loaded unique (List.forall_mem_singleton.mpr wellFormed)
    (List.forall_mem_singleton.mpr typed)
  have allowed : allowing [ollamaRoute] (.text "route.local") = [ollamaRoute] := by decide +kernel
  have greatest : IsGreatest {m | ∃ route ∈ allowing [ollamaRoute] (.text "route.local"),
      gatewayLimit route = m} 120 := by
    rw [allowed]
    refine ⟨⟨ollamaRoute, List.mem_singleton_self _, rfl⟩, ?_⟩
    rintro _ ⟨route, mem, rfl⟩
    cases List.mem_singleton.mp mem
    exact le_rfl
  have wrong := limits _ _ greatest
  rw [allowed] at wrong
  exact absurd wrong (by decide)

theorem foldl_max_same {n : Int} (least : 0 ≤ n) {routes : List Json}
    (same : ∀ route ∈ routes, storeLimit route = n) (some_ : routes ≠ []) :
    (routes.map storeLimit).foldl max 0 = n := by
  have stays : ∀ routes : List Json, (∀ route ∈ routes, storeLimit route = n) →
      (routes.map storeLimit).foldl max n = n := by
    intro routes
    induction routes with
    | nil => intro; rfl
    | cons route routes ih =>
      intro same
      obtain ⟨here, rest⟩ := List.forall_mem_cons.mp same
      rw [List.map_cons, List.foldl_cons, here, max_self, ih rest]
  cases routes with
  | nil => exact absurd rfl some_
  | cons route routes =>
    obtain ⟨here, rest⟩ := List.forall_mem_cons.mp same
    rw [List.map_cons, List.foldl_cons, here, max_eq_right least, stays routes rest]

theorem cloud_ok : ∀ route ∈ cloudRoutes, WellFormedUrl sampleUrlparse route ∧ WellTyped route := by
  simp only [cloudRoutes, List.forall_mem_cons, List.not_mem_nil, false_implies, implies_true,
    and_true]
  refine ⟨⟨⟨_, rfl⟩, ?_⟩, ⟨⟨_, rfl⟩, ?_⟩, ⟨_, rfl⟩, ?_⟩
  all_goals exact ⟨⟨_, rfl⟩, ⟨[_, _], rfl⟩, ⟨_, rfl⟩, ⟨_, rfl⟩⟩

/-- The cloud routes that are delivered share a capability. With 30 in their constraints the
default of the store is the limit of the gateway. -/
theorem one_policy_iff_witness : ∃ registry, EgressRegistry.load cloudRoutes = .ok registry ∧
    allowing cloudRoutes (.text "route.multi") = cloudRoutes ∧
    OnePolicy sampleUrlparse cloudRoutes registry := by
  have loads : ∃ registry, EgressRegistry.load cloudRoutes = .ok registry := ⟨_, rfl⟩
  obtain ⟨registry, loaded⟩ := loads
  have unique : (cloudRoutes.map routeIdOf).Nodup := by decide +kernel
  refine ⟨registry, loaded, by decide +kernel, (one_policy_iff loaded unique
    (fun route mem => (cloud_ok route mem).1) fun route mem => (cloud_ok route mem).2).mpr ?_⟩
  have limits : ∀ route ∈ cloudRoutes, gatewayLimit route = 30 ∧ storeLimit route = 30 := by
    decide +kernel
  rintro cap n ⟨⟨route, mem, rfl⟩, -⟩
  rw [(limits route (List.mem_of_mem_filter mem)).1]
  exact foldl_max_same (by decide)
    (fun route mem => (limits route (List.mem_of_mem_filter mem)).2) (List.ne_nil_of_mem mem)

end Sample

end Drnt.Runtime
