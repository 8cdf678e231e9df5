import Drnt.Gateway.Dispatch

/-! What the gateway does over a run of requests and answers in any order: what it sends out, how
often, what every request is told, and what one route learns of the others. -/
namespace Drnt.Gateway

open Lib Lib.SlidingWindow Connectivity Drnt.Runtime

section Statements

def Input.id : Input → Nat
  | .request id _ _ _ _ | .upstream id _ _ _ => id

/-- The readings of the clock. -/
def Input.readings : Input → List Rat
  | .request _ _ _ now later => [now, later]
  | .upstream _ _ now _ => [now]

/-- The clock is monotonic. -/
def Ordered (inputs : List Input) : Prop := (inputs.flatMap Input.readings).Pairwise (· ≤ ·)

def Config.Authorizes (g : Config) (authorization : Option PyStr) : Prop :=
  requireDispatchAuthority g.dispatchAuthToken authorization = .granted

/-- The key of a route: none, or the secret that the route itself names. -/
inductive Config.Key (g : Config) (route : Route) : String → Prop
  | none (open_ : route.authMethod = "none") : g.Key route ""
  | secret {ref key : String} (closed : route.authMethod ≠ "none")
      (named : route.secretRef = some ref) (held : g.secrets.get? ref = some (some key))
      (some_ : key ≠ "") : g.Key route key

/-- What a call must have passed. -/
structure Config.Permits (g : Config) (req : DispatchRequest) (p : Pending) (call : Call) : Prop where
  own : p.req = req
  route : g.registry.getRoute req.routeId = some p.route
  enabled : p.route.enabled = true
  capability : req.capabilityId ∈ p.route.allowedCapabilities
  model : Glob.Matches (Glob.translate p.route.modelString) req.targetModel.toList
  adapter : adapters p.route.provider = some p.adapter
  call : ∃ key, g.Key p.route key ∧ call =
    ⟨p.adapter.buildRequest p.route.endpointUrl req.targetModel req.prompt key, p.route.timeoutMs⟩

def callTime (routeId : String) : Input × Option Output → Option Rat
  | (.request _ _ req now _, some (.called _ _)) => if req.routeId = routeId then some now else none
  | _ => none

/-- When the calls of a route were let through. -/
def callTimes (routeId : String) (log : Log) : List Rat := log.filterMap (callTime routeId)

def Config.limit (g : Config) (routeId : String) : Int :=
  ((g.registry.getRoute routeId).map (·.rateLimitRpm)).getD 0

/-- Every call belongs to a request that came with the token and passed the checks, and no window of
a minute holds more calls of a route than its limit. -/
structure Guards (g : Config) (log : Log) : Prop where
  permitted : ∀ i id call, (i, some (.called id call)) ∈ log →
    ∃ authorization req now later p, i = .request id authorization req now later ∧
      g.Authorizes authorization ∧ g.Permits req p call
  bounded : ∀ routeId x,
    ((within minute x (callTimes routeId log)).length : Int) ≤ max (g.limit routeId) 0

/-- What is told about a request, in order. -/
def outputs (id : Nat) (log : Log) : List Output :=
  (log.filter (·.1.id = id)).filterMap (·.2)

def requestId : Input → Option Nat
  | .request id _ _ _ _ => some id
  | .upstream _ _ _ _ => none

/-- The first answer to the call of a request. -/
def firstAnswer (id : Nat) : List Input → Option (Upstream × Rat × String)
  | [] => none
  | .upstream j answer now resultId :: rest =>
    if j = id then some (answer, now, resultId) else firstAnswer id rest
  | .request _ _ _ _ _ :: rest => firstAnswer id rest

/-- A reply without a call. -/
def Reply.Refuses : Reply → Prop
  | .unauthorized | .internalError => True
  | .response r => r.status = "blocked"

/-- A request is refused at once and nothing goes out, or it goes out once and is answered once, from
its own answer and by its own route. -/
inductive Answered (host : Host) (g : Config) (id : Nat) (req : DispatchRequest) (later : Rat)
    (answer : Option (Upstream × Rat × String)) : List Output → Prop
  | refused (r : Reply) (refuses : r.Refuses) : Answered host g id req later answer [.replied id r]
  | sent (p : Pending) (call : Call) (permits : g.Permits req p call) (start : p.start = later) :
      Answered host g id req later answer (.called id call ::
        (answer.map fun a => .replied id (conclude host g p a.1 a.2.1 a.2.2)).toList)

/-- The two gateways know the same about a route. Their files, and so the hashes of them, differ. -/
structure AgreeOn (routeId : String) (g g' : Config) : Prop where
  token : g.dispatchAuthToken = g'.dispatchAuthToken
  route : g.registry.getRoute routeId = g'.registry.getRoute routeId
  secret : ∀ route ref, g.registry.getRoute routeId = some route → route.secretRef = some ref →
    g.secrets.get? ref = g'.secrets.get? ref

/-- The requests of a set are about one route, and no other request about it has the token. -/
def Separates (g : Config) (routeId : String) (own : Nat → Bool) (inputs : List Input) : Prop :=
  ∀ id authorization req now later, .request id authorization req now later ∈ inputs →
    if own id then req.routeId = routeId
    else g.Authorizes authorization → req.routeId ≠ routeId

def ofSet (own : Nat → Bool) (log : Log) : Log := log.filter (own ·.1.id)

/-- The reply of a gateway whose file has the hash. -/
def Reply.stamp (configHash : String) : Reply → Reply
  | .response r =>
    .response (if r.status = "ok" then { r with egressConfigHash := configHash } else r)
  | r => r

def Output.stamp (configHash : String) : Output → Output
  | .called id call => .called id call
  | .replied id reply => .replied id (reply.stamp configHash)

def stamped (configHash : String) (log : Log) : Log :=
  log.map fun e => (e.1, e.2.map (Output.stamp configHash))

end Statements

section Requests

variable {host : Host} {g g' : Config} {req : DispatchRequest} {p : Pending} {call : Call}
  {now later : Rat} {w w' : Windows} {route : Route}

theorem checkBinding_ok (h : checkBinding g req = .ok route) :
    g.registry.getRoute req.routeId = some route ∧ route.enabled = true ∧
      req.capabilityId ∈ route.allowedCapabilities ∧ route.matchesModel req.targetModel = true := by
  unfold checkBinding at h
  cases found : g.registry.getRoute req.routeId with
  | none =>
    rw [found] at h
    cases h
  | some r =>
    rw [found] at h
    dsimp only at h
    split at h
    · cases h
    · rename_i enabled
      split at h
      · cases h
      · rename_i capability
        split at h
        · cases h
        · rename_i model
          cases h
          exact ⟨rfl, not_not.mp enabled, not_not.mp capability, not_not.mp model⟩

theorem checkBinding_error {r : DispatchResponse} (h : checkBinding g req = .error r) :
    r.status = "blocked" := by
  unfold checkBinding at h
  split at h
  · cases h
    rfl
  · split at h
    · cases h
      rfl
    · split at h
      · cases h
        rfl
      · split at h
        · cases h
          rfl
        · cases h

theorem resolveAuth_ok {key : String} (h : resolveAuth g req route = .ok key) : g.Key route key := by
  unfold resolveAuth at h
  dsimp only at h
  split at h
  · rename_i closed
    split at h
    · cases h
    · rename_i ref
      split at h
      · cases h
      · rename_i some_
        cases h
        cases named : route.secretRef with
        | none => simp [named] at ref
        | some ref =>
          simp only [named, Option.getD_some] at some_ ⊢
          cases held : g.secrets.get? ref with
          | none => simp [held] at some_
          | some secret =>
            cases secret with
            | none => simp [held] at some_
            | some key =>
              simp only [held, Option.getD_some] at some_ ⊢
              exact .secret closed named held some_
  · rename_i open_
    cases h
    exact .none (not_not.mp open_)

theorem resolveAuth_error {r : DispatchResponse} (h : resolveAuth g req route = .error r) :
    r.status = "blocked" := by
  unfold resolveAuth at h
  dsimp only at h
  split at h
  · split at h
    · cases h
      rfl
    · split at h
      · cases h
        rfl
      · cases h
  · cases h

theorem buildCall_ok {key : String} {start : Rat} (h : buildCall req route start key = .ok (p, call)) :
    ∃ adapter, adapters route.provider = some adapter ∧ p = ⟨req, route, adapter, start⟩ ∧
      call = ⟨adapter.buildRequest route.endpointUrl req.targetModel req.prompt key,
        route.timeoutMs⟩ := by
  unfold buildCall at h
  split at h
  · cases h
  · rename_i adapter found
    cases h
    exact ⟨adapter, found, rfl, rfl⟩

theorem buildCall_error {key : String} {start : Rat} {r : DispatchResponse}
    (h : buildCall req route start key = .error r) : r.status = "blocked" := by
  unfold buildCall at h
  split at h
  · cases h
    rfl
  · cases h

/-- How a request leaves the checks: not bound to a route, over the limit, or let through. -/
theorem prepare_cases (g : Config) (req : DispatchRequest) (now later : Rat) (w : Windows) :
    (∃ r, r.status = "blocked" ∧ prepare g req now later w = (.error r, w)) ∨
    ∃ route, checkBinding g req = .ok route ∧
      let checked := checkWindow req.routeId route.rateLimitRpm now w
      (∃ r, r.status = "blocked" ∧ checked.1 = false ∧
        prepare g req now later w = (.error r, (countWindow req.routeId later checked.2).2)) ∨
      (checked.1 = true ∧ prepare g req now later w =
        (resolveAuth g req route >>= buildCall req route later, checked.2)) := by
  unfold prepare
  cases bound : checkBinding g req with
  | error r => exact .inl ⟨r, checkBinding_error bound, rfl⟩
  | ok route =>
    refine .inr ⟨route, rfl, ?_⟩
    dsimp only
    cases checked : (checkWindow req.routeId route.rateLimitRpm now w).1 with
    | false =>
      refine .inl ⟨_, ?_, rfl, by rw [SlidingWindowRateLimiter.check, checked]; rfl⟩
      rfl
    | true => exact .inr ⟨rfl, by rw [SlidingWindowRateLimiter.check, checked]; rfl⟩

/-- A request that is let through passed every check. -/
theorem prepare_ok (h : (prepare g req now later w).1 = .ok (p, call)) :
    g.Permits req p call ∧ p.start = later := by
  rcases prepare_cases g req now later w with ⟨r, -, eq⟩ | ⟨route, bound, ⟨r, -, -, eq⟩ | ⟨-, eq⟩⟩
  · rw [eq] at h
    cases h
  · rw [eq] at h
    cases h
  · rw [eq] at h
    obtain ⟨key, resolved, built⟩ := Checks.bind_ok.mp h
    obtain ⟨found, enabled, capability, model⟩ := checkBinding_ok bound
    obtain ⟨adapter, adapts, rfl, rfl⟩ := buildCall_ok built
    refine ⟨⟨rfl, found, enabled, capability, ?_, adapts, key, resolveAuth_ok resolved, rfl⟩, rfl⟩
    exact (Glob.fnmatch_iff _ _).mp model

theorem prepare_error {r : DispatchResponse} (h : (prepare g req now later w).1 = .error r) :
    r.status = "blocked" := by
  rcases prepare_cases g req now later w with ⟨r', blocks, eq⟩ | ⟨route, -, ⟨r', blocks, -, eq⟩ | ⟨-, eq⟩⟩
  · rw [eq] at h
    cases h
    exact blocks
  · rw [eq] at h
    cases h
    exact blocks
  · rw [eq] at h
    dsimp only at h
    cases resolved : resolveAuth g req route with
    | error e =>
      rw [resolved] at h
      cases h
      exact resolveAuth_error resolved
    | ok key =>
      rw [resolved] at h
      exact buildCall_error h

end Requests

section Steps

variable {host : Host} {g : Config} {s : Server} {id : Nat} {authorization : Option PyStr}
  {req : DispatchRequest} {now later last : Rat} {log : Connectivity.Log} {w : Windows}

variable (g s id authorization req now later) in
/-- A request is refused, or its call goes out and it waits for its answer. -/
theorem receive_cases :
    let received := s.receive g id authorization req now later
    (∃ r : Reply, r.Refuses ∧ received.1 = .replied id r ∧ received.2.pending = s.pending) ∨
    (g.Authorizes authorization ∧ ∃ p call, g.Permits req p call ∧ p.start = later ∧
      received.1 = .called id call ∧ received.2.pending = s.pending.set id p) := by
  unfold Server.receive
  cases authority : requireDispatchAuthority g.dispatchAuthToken authorization with
  | refused => exact .inl ⟨.unauthorized, trivial, rfl, rfl⟩
  | failed => exact .inl ⟨.internalError, trivial, rfl, rfl⟩
  | granted =>
    dsimp only
    cases prepared : (prepare g req now later s.windows).1 with
    | error r => exact .inl ⟨.response r, prepare_error prepared, rfl, rfl⟩
    | ok ready =>
      obtain ⟨p, call⟩ := ready
      obtain ⟨permits, start⟩ := prepare_ok prepared
      exact .inr ⟨authority, p, call, permits, start, rfl, rfl⟩

theorem kept_later {limit : String → Int} (kept : Kept limit log last w) (h : last ≤ now) :
    Kept limit log now w where
  past key t mem := (kept.past key t mem).trans h
  tracks key := (kept.tracks key).later h
  bounded := kept.bounded
  refused := kept.refused

theorem limit_of_route {route : Route} (found : g.registry.getRoute req.routeId = some route) :
    g.limit req.routeId = route.rateLimitRpm := by
  rw [Config.limit, found]
  rfl

theorem checkWindow_false {key : String} {limit : Int} (h : (checkWindow key limit now w).1 = false) :
    limit ≤ (recent minute now (w.times key)).length ∧
      (checkWindow key limit now w).2 = w.set key (recent minute now (w.times key)) := by
  unfold checkWindow at h ⊢
  dsimp only at h ⊢
  split at h
  · rename_i full
    exact ⟨full, by rw [if_pos full]⟩
  · cases h

theorem checkWindow_true {key : String} {limit : Int} (h : (checkWindow key limit now w).1 = true) :
    ((recent minute now (w.times key)).length : Int) < limit ∧
      (checkWindow key limit now w).2 = w.set key (recent minute now (w.times key) ++ [now]) := by
  unfold checkWindow at h ⊢
  dsimp only at h ⊢
  split at h
  · cases h
  · rename_i room
    exact ⟨by omega, by rw [if_neg room]⟩

variable (authorization id req) in
/-- The limiter has granted at least the calls. -/
theorem receive_kept (kept : Kept g.limit log last s.windows) (before : last ≤ now)
    (between : now ≤ later) :
    let received := s.receive g id authorization req now later
    ∃ log', Kept g.limit log' later received.2.windows ∧ ∀ routeId, List.Sublist
      (granted routeId log ++
        (callTime routeId (.request id authorization req now later, some received.1)).toList)
      (granted routeId log') := by
  have same : Kept g.limit log later s.windows := kept_later kept (before.trans between)
  unfold Server.receive
  cases requireDispatchAuthority g.dispatchAuthToken authorization with
  | refused => exact ⟨log, same, fun routeId => by simp [callTime]⟩
  | failed => exact ⟨log, same, fun routeId => by simp [callTime]⟩
  | granted =>
    dsimp only
    rcases prepare_cases g req now later s.windows with
      ⟨r, -, eq⟩ | ⟨route, bound, ⟨r, -, full, eq⟩ | ⟨room, eq⟩⟩
    · rw [eq]
      exact ⟨log, same, fun routeId => by simp [callTime]⟩
    · -- neither the refused check nor the count after it grants anything
      have limit := limit_of_route (checkBinding_ok bound).1
      obtain ⟨most, pruned⟩ := checkWindow_false full
      have checked := kept.pass (c := ⟨req.routeId, now, .check⟩) (a := .allowed false) before
        (by simp) fun _ => limit.symm ▸ most
      have counted := checked.pass (c := ⟨req.routeId, later, .currentCount⟩) (a := .counted 0)
        between (by simp) (by simp)
      rw [eq, pruned]
      refine ⟨_, counted, fun routeId => ?_⟩
      simp [callTime, granted]
    · have limit := limit_of_route (checkBinding_ok bound).1
      obtain ⟨free, added⟩ := checkWindow_true room
      have allowed := kept.grant (c := ⟨req.routeId, now, .check⟩) before (limit.symm ▸ free)
      rw [eq, added]
      refine ⟨log ++ [(⟨req.routeId, now, .check⟩, .allowed true)], ?_, fun routeId => ?_⟩
      · cases resolveAuth g req route >>= buildCall req route later with
        | error r => exact kept_later allowed between
        | ok ready => exact kept_later allowed between
      · rw [granted_append]
        apply List.Sublist.append_left
        cases resolveAuth g req route >>= buildCall req route later with
        | error r => simp [callTime]
        | ok ready =>
          by_cases own : req.routeId = routeId
          · simp [callTime, granted, own]
          · simp [callTime, own]

variable (host g s id now) in
theorem handle_upstream (answer : Upstream) (resultId : String) :
    (s.handle host g (.upstream id answer now resultId)).2.windows = s.windows ∧
      ∀ routeId, callTime routeId (.upstream id answer now resultId,
        (s.handle host g (.upstream id answer now resultId)).1) = none := by
  unfold Server.handle
  dsimp only
  cases s.pending.get? id <;> exact ⟨rfl, fun _ => rfl⟩

end Steps

section Guarding

variable {host : Host} {g : Config} {s : Server} {last : Rat} {log : Connectivity.Log}

theorem callTimes_cons (routeId : String) (e : Input × Option Output) (rest : Log) :
    callTimes routeId (e :: rest) = (callTime routeId e).toList ++ callTimes routeId rest := by
  cases h : callTime routeId e <;> simp [callTimes, h]

variable (host) in
theorem run_kept {inputs : List Input} (kept : Kept g.limit log last s.windows)
    (ordered : (last :: inputs.flatMap Input.readings).Pairwise (· ≤ ·)) :
    ∃ log' last' w', Kept g.limit log' last' w' ∧ ∀ routeId, List.Sublist
      (granted routeId log ++ callTimes routeId (s.run host g inputs)) (granted routeId log') := by
  induction inputs generalizing s last log with
  | nil => exact ⟨log, last, s.windows, kept, fun routeId => by simp [Server.run, callTimes]⟩
  | cons i rest ih =>
    cases i with
    | request id authorization req now later =>
      obtain ⟨before, ordered⟩ := List.pairwise_cons.mp ordered
      obtain ⟨between, ordered⟩ := List.pairwise_cons.mp ordered
      obtain ⟨log₁, kept₁, sub₁⟩ := receive_kept id authorization req kept
        (before now (by simp [Input.readings])) (between later (by simp))
      obtain ⟨log₂, last₂, w₂, kept₂, sub₂⟩ := ih kept₁ ordered
      refine ⟨log₂, last₂, w₂, kept₂, fun routeId => ?_⟩
      rw [Server.run, callTimes_cons, ← List.append_assoc]
      exact ((sub₁ routeId).append_right _).trans (sub₂ routeId)
    | upstream id answer now resultId =>
      obtain ⟨same, none_⟩ := handle_upstream host g s id now answer resultId
      have next : Kept g.limit log last
          (s.handle host g (.upstream id answer now resultId)).2.windows := by rwa [same]
      obtain ⟨log₂, last₂, w₂, kept₂, sub₂⟩ := ih next
        (ordered.sublist ((List.sublist_cons_self ..).cons_cons _))
      refine ⟨log₂, last₂, w₂, kept₂, fun routeId => ?_⟩
      rw [Server.run, callTimes_cons, none_ routeId]
      exact sub₂ routeId

theorem permitted_run {inputs : List Input} {i : Input} {id : Nat} {call : Call}
    (mem : (i, some (.called id call)) ∈ s.run host g inputs) :
    ∃ authorization req now later p, i = .request id authorization req now later ∧
      g.Authorizes authorization ∧ g.Permits req p call := by
  induction inputs generalizing s with
  | nil => cases mem
  | cons head rest ih =>
    rcases List.mem_cons.mp mem with eq | mem
    · cases head with
      | request j authorization req now later =>
        rcases receive_cases g s j authorization req now later with
          ⟨r, -, out, -⟩ | ⟨authorizes, p, sent, permits, -, out, -⟩
        · simp [Server.handle, out] at eq
        · simp only [Server.handle, out, Prod.mk.injEq, Option.some.injEq, Output.called.injEq] at eq
          obtain ⟨rfl, rfl, rfl⟩ := eq
          exact ⟨authorization, req, now, later, p, rfl, authorizes, permits⟩
      | upstream j answer now resultId =>
        cases waiting : s.pending.get? j with
        | none => simp [Server.handle, waiting] at eq
        | some p => simp [Server.handle, waiting] at eq
    · exact ih mem

def sampleRoute : EgressRoute where
  routeId := .text "claude-sonnet-default"
  provider := .text "anthropic"
  endpointUrl := .text "https://api.anthropic.com/v1/messages"
  modelString := .text "claude-sonnet-4-*"
  allowedCapabilities := .texts ["route.cloud.claude"]
  authMethod := .text "bearer_token"
  secretRef := .text "ANTHROPIC_API_KEY"
  rateLimitRpm := .int 1
  timeoutMs := .int 90000
  enabled := .bool true

def sampleRequest : DispatchRequest where
  jobId := "job-001"
  routeId := "claude-sonnet-default"
  capabilityId := "route.cloud.claude"
  targetModel := "claude-sonnet-4-20250514"
  prompt := "Hello"
  assembledPayloadHash := ""
  walPermissionCheckRef := "evt-001"

def sampleToken : Option PyStr := some (py "Bearer token")

def sampleHost : Host := ⟨id, fun _ _ _ => some ⟨"0.0"⟩, fun _ => none⟩

def sampleInputs : List Input :=
  [.request 0 sampleToken sampleRequest 0 0, .request 1 sampleToken sampleRequest 30 31,
    .upstream 0 .raised 40 "", .request 2 sampleToken sampleRequest 60 60]

def isCall : Option Output → Bool
  | some (.called _ _) => true
  | _ => false

/-- The gateway sends out only what an authorized request may have, and no more of it than the
limit of its route. -/
theorem calls_guarded (host : Host) (g : Config) {inputs : List Input} (ordered : Ordered inputs) :
    Guards g (Server.run host g {} inputs) := by
  have start : ∃ last : Rat, (last :: inputs.flatMap Input.readings).Pairwise (· ≤ ·) := by
    cases readings : inputs.flatMap Input.readings with
    | nil => exact ⟨0, List.pairwise_singleton ..⟩
    | cons x rest =>
      unfold Ordered at ordered
      rw [readings] at ordered
      have first := (List.pairwise_cons.mp ordered).1
      exact ⟨x, List.pairwise_cons.mpr ⟨List.forall_mem_cons.mpr ⟨le_rfl, first⟩, ordered⟩⟩
  obtain ⟨last, ordered⟩ := start
  obtain ⟨log, last', w', kept, sub⟩ := run_kept host (s := {})
    (kept_nil g.limit last) ordered
  refine ⟨fun i id call => permitted_run, fun routeId x => ?_⟩
  have fewer := ((sub routeId).filter fun t => decide (x - minute < t ∧ t ≤ x)).length_le
  have most := kept.bounded routeId x
  unfold within at most ⊢
  have none_ : granted routeId ([] : Connectivity.Log) = [] := rfl
  rw [none_, List.nil_append] at fewer
  omega

theorem sample_typed : ∀ id r, (Dict.set ∅ (Json.text "claude-sonnet-default") sampleRoute).get? id =
    some r → (Route.ofEgress r).isSome := by
  intro id r found
  rw [Dict.get?_set] at found
  split at found
  · cases found
    decide +kernel
  · cases found

def sampleConfig : Config where
  dispatchAuthToken := py "token"
  registry := ⟨Dict.set ∅ (.text "claude-sonnet-default") sampleRoute, sample_typed⟩
  configHash := ""
  secrets := Dict.set ∅ "ANTHROPIC_API_KEY" (some "key")

/-- One call a minute: the second request has to wait. -/
example : (Server.run sampleHost sampleConfig {} sampleInputs).map (isCall ·.2) =
    [true, false, false, true] := by decide +kernel

theorem calls_guarded_sample :
    Guards sampleConfig (Server.run sampleHost sampleConfig {} sampleInputs) :=
  calls_guarded sampleHost sampleConfig (by unfold Ordered; decide +kernel)

end Guarding

section Answering

variable {host : Host} {g : Config} {s : Server} {id : Nat} {i : Input} {inputs : List Input}

theorem run_append (host : Host) (g : Config) (s : Server) (a b : List Input) :
    s.run host g (a ++ b) = s.run host g a ++ (s.final host g a).run host g b := by
  induction a generalizing s with
  | nil => rfl
  | cons i a ih => rw [List.cons_append, Server.run, Server.run, ih, List.cons_append]; rfl

theorem outputs_append (id : Nat) (a b : Log) :
    outputs id (a ++ b) = outputs id a ++ outputs id b := by
  simp [outputs]

theorem outputs_cons_own (o : Option Output) (rest : Log) (own : i.id = id) :
    outputs id ((i, o) :: rest) = o.toList ++ outputs id rest := by
  cases o <;> simp [outputs, own]

theorem outputs_cons_other (o : Option Output) (rest : Log) (other : i.id ≠ id) :
    outputs id ((i, o) :: rest) = outputs id rest := by
  simp [outputs, other]

/-- Another request or answer leaves a request waiting, or not waiting. -/
theorem handle_other (host : Host) (g : Config) (s : Server) (other : i.id ≠ id) :
    (s.handle host g i).2.pending.get? id = s.pending.get? id := by
  cases i with
  | request j authorization req now later =>
    have apart : id ≠ j := Ne.symm other
    rcases receive_cases g s j authorization req now later with
      ⟨r, -, -, same⟩ | ⟨-, p, call, -, -, -, set⟩
    · rw [Server.handle, same]
    · rw [Server.handle, set, Dict.get?_set_ne _ apart]
  | upstream j answer now resultId =>
    have apart : id ≠ j := Ne.symm other
    cases waiting : s.pending.get? j with
    | none => simp [Server.handle, waiting]
    | some p => simp [Server.handle, waiting, Dict.get?_erase_ne _ apart]

variable (host g) in
theorem not_waiting (fresh : id ∉ inputs.filterMap requestId) (idle : s.pending.get? id = none) :
    outputs id (s.run host g inputs) = [] ∧ (s.final host g inputs).pending.get? id = none := by
  induction inputs generalizing s with
  | nil => exact ⟨rfl, idle⟩
  | cons i rest ih =>
    have other : i.id = id → requestId i = none := by
      intro own
      cases i with
      | request j authorization req now later => simp [requestId, ← own, Input.id] at fresh
      | upstream j answer now resultId => rfl
    have fresh' : id ∉ rest.filterMap requestId := by
      intro mem
      apply fresh
      obtain ⟨a, mem, eq⟩ := List.mem_filterMap.mp mem
      exact List.mem_filterMap.mpr ⟨a, List.mem_cons_of_mem _ mem, eq⟩
    rw [Server.run]
    by_cases own : i.id = id
    · cases i with
      | request j authorization req now later => cases other own
      | upstream j answer now resultId =>
        rw [outputs_cons_own _ _ own]
        obtain rfl : j = id := own
        have step : s.handle host g (.upstream j answer now resultId) = (none, s) := by
          simp [Server.handle, idle]
        rw [step]
        obtain ⟨out, still⟩ := ih fresh' idle
        refine ⟨out, ?_⟩
        rw [Server.final, List.foldl_cons, step]
        exact still
    · rw [outputs_cons_other _ _ own]
      exact ih fresh' ((handle_other host g s own).trans idle)

theorem waiting_answered {p : Pending} (fresh : id ∉ inputs.filterMap requestId)
    (waits : s.pending.get? id = some p) :
    outputs id (s.run host g inputs) = ((firstAnswer id inputs).map fun a =>
      .replied id (conclude host g p a.1 a.2.1 a.2.2)).toList := by
  induction inputs generalizing s with
  | nil => rfl
  | cons i rest ih =>
    have fresh' : id ∉ rest.filterMap requestId := by
      intro mem
      apply fresh
      obtain ⟨a, mem, eq⟩ := List.mem_filterMap.mp mem
      exact List.mem_filterMap.mpr ⟨a, List.mem_cons_of_mem _ mem, eq⟩
    rw [Server.run]
    cases i with
    | request j authorization req now later =>
      have other : (Input.request j authorization req now later).id ≠ id := by
        rintro rfl
        simp [requestId, Input.id] at fresh
      rw [outputs_cons_other _ _ other, firstAnswer]
      have still := handle_other host g s other
      exact ih fresh' (still.trans waits)
    | upstream j answer now resultId =>
      rw [firstAnswer]
      by_cases own : j = id
      · have here : (Input.upstream j answer now resultId).id = id := own
        rw [outputs_cons_own _ _ here, if_pos own]
        subst own
        have gone : (s.pending.erase j).get? j = none := Dict.get?_erase_self ..
        simp only [Server.handle, waits]
        rw [(not_waiting host g fresh' gone).1]
        rfl
      · have other : (Input.upstream j answer now resultId).id ≠ id := own
        rw [outputs_cons_other _ _ other, if_neg own]
        have still := handle_other host g s other
        exact ih fresh' (still.trans waits)

/-- Every request is refused without a call, or called once and answered once, with what its own
first answer comes to. -/
theorem answered_once (host : Host) (g : Config) (before after : List Input) (id : Nat)
    (authorization : Option PyStr) (req : DispatchRequest) (now later : Rat)
    (distinct : ((before ++ .request id authorization req now later :: after).filterMap
      requestId).Nodup) :
    Answered host g id req later (firstAnswer id after) (outputs id
      (Server.run host g {} (before ++ .request id authorization req now later :: after))) := by
  rw [List.filterMap_append, List.filterMap_cons_some (by rfl)] at distinct
  obtain ⟨-, later_, apart⟩ := List.nodup_append.mp distinct
  have unseen : id ∉ before.filterMap requestId := fun mem =>
    apart id mem id (List.mem_cons_self ..) rfl
  have fresh : id ∉ after.filterMap requestId := (List.nodup_cons.mp later_).1
  obtain ⟨quiet, idle⟩ := not_waiting host g (s := {}) unseen rfl
  have own : (Input.request id authorization req now later).id = id := rfl
  rw [run_append, outputs_append, quiet, List.nil_append, Server.run, outputs_cons_own _ _ own]
  rcases receive_cases g (Server.final host g {} before) id authorization req now later with
    ⟨r, refuses, out, same⟩ | ⟨-, p, call, permits, start, out, set⟩
  · have still : (Server.receive g (Server.final host g {} before) id authorization req now
        later).2.pending.get? id = none := by rw [same, idle]
    simp only [Server.handle, out]
    rw [(not_waiting host g fresh still).1]
    exact .refused r refuses
  · have waits : (Server.receive g (Server.final host g {} before) id authorization req now
        later).2.pending.get? id = some p := by rw [set, Dict.get?_set_self]
    simp only [Server.handle, out]
    rw [waiting_answered fresh waits]
    exact .sent p call permits start

def sampleAnswer : Upstream :=
  .answered 200 "" (.ok (.fields [("content", .arr [.fields [("text", .text "Hi")]]),
    ("usage", .fields [("input_tokens", .nat 3), ("output_tokens", .nat 1)])]))

/-- The first request is called and answered, the second is over the limit. -/
theorem answered_once_sample :
    let inputs := [Input.request 0 sampleToken sampleRequest 0 0, .request 1 sampleToken sampleRequest
      30 30, .upstream 0 sampleAnswer 31 "r", .upstream 0 .raised 32 "r"]
    Answered sampleHost sampleConfig 0 sampleRequest 0 (some (sampleAnswer, 31, "r"))
        (outputs 0 (Server.run sampleHost sampleConfig {} inputs)) ∧
      (outputs 0 (Server.run sampleHost sampleConfig {} inputs)).length = 2 ∧
      Answered sampleHost sampleConfig 1 sampleRequest 30 none
        (outputs 1 (Server.run sampleHost sampleConfig {} inputs)) :=
  ⟨answered_once sampleHost sampleConfig [] [.request 1 sampleToken sampleRequest 30 30,
      .upstream 0 sampleAnswer 31 "r", .upstream 0 .raised 32 "r"] 0 sampleToken sampleRequest 0 0
      (by decide), by decide +kernel,
    answered_once sampleHost sampleConfig [.request 0 sampleToken sampleRequest 0 0]
      [.upstream 0 sampleAnswer 31 "r", .upstream 0 .raised 32 "r"] 1 sampleToken sampleRequest 30 30
      (by decide)⟩

end Answering

section Isolation

variable {host : Host} {g g' : Config} {routeId : String} {own : Nat → Bool} {s s' : Server}
  {req : DispatchRequest} {now later : Rat} {w w' : Windows}

theorem agreeOn_refl (routeId : String) (g : Config) : AgreeOn routeId g g :=
  ⟨rfl, rfl, fun _ _ _ _ => rfl⟩

theorem Reply.Refuses.stamp {r : Reply} (refuses : r.Refuses) (configHash : String) :
    r.stamp configHash = r := by
  cases r with
  | unauthorized => rfl
  | internalError => rfl
  | response r =>
    have status : r.status = "blocked" := refuses
    rw [Reply.stamp, if_neg (by rw [status]; decide)]

theorem stamp_stamp (a b : String) (o : Output) : (o.stamp b).stamp a = o.stamp a := by
  cases o with
  | called => rfl
  | replied id r =>
    cases r with
    | unauthorized => rfl
    | internalError => rfl
    | response r =>
      by_cases ok : r.status = "ok"
      · simp [Output.stamp, Reply.stamp, ok]
      · simp [Output.stamp, Reply.stamp, ok]

theorem stamped_stamped (a b : String) (log : Log) : stamped a (stamped b log) = stamped a log := by
  unfold stamped
  rw [List.map_map]
  refine List.map_congr_left fun e _ => ?_
  obtain ⟨i, o⟩ := e
  cases o with
  | none => rfl
  | some o => exact congrArg (fun o => (i, some o)) (stamp_stamp a b o)

variable (g g') in
theorem okResponse_stamp (p : Pending) (parsed : Parsed) (latencyMs : Int) (resultId : String) :
    okResponse host g p parsed latencyMs resultId =
      (okResponse host g' p parsed latencyMs resultId).map fun r =>
        if r.status = "ok" then { r with egressConfigHash := g.configHash } else r := by
  unfold okResponse
  cases asText parsed.responseText with
  | none => rfl
  | some text =>
    cases tokenCount host parsed.tokenCountIn with
    | none => rfl
    | some tokenIn =>
      cases tokenCount host parsed.tokenCountOut with
      | none => rfl
      | some tokenOut =>
        simp only [Option.bind_eq_bind, Option.bind_some]
        cases host.price (rates p.route.provider) tokenIn tokenOut with
        | none => rfl
        | some cost => cases asTextOrNull parsed.finishReason <;> rfl

variable (host g g') in
/-- The hash of the file is all that a reply tells of the gateway that is not of the route. -/
theorem conclude_stamp (p : Pending) (answer : Upstream) (now : Rat) (resultId : String) :
    conclude host g p answer now resultId =
      (conclude host g' p answer now resultId).stamp g.configHash := by
  have error (latencyMs : Int) (detail : String) :
      (Reply.response (errorResponse p.req latencyMs detail)).stamp g.configHash =
        .response (errorResponse p.req latencyMs detail) := rfl
  unfold conclude
  cases answer with
  | connectError exc => rfl
  | timeout exc => rfl
  | raised => rfl
  | answered statusCode text json =>
    dsimp only
    split
    · rw [error]
    · cases json >>= p.adapter.parseResponse with
      | error exc => rfl
      | ok parsed =>
        dsimp only
        rw [okResponse_stamp g g']
        cases okResponse host g' p parsed (latency p.start now) resultId <;> rfl

theorem AgreeOn.checkBinding (agree : AgreeOn routeId g g') (about : req.routeId = routeId) :
    checkBinding g req = checkBinding g' req := by
  subst about
  simp only [Gateway.checkBinding, agree.route]

theorem AgreeOn.resolveAuth {route : Route} (agree : AgreeOn routeId g g')
    (found : g.registry.getRoute routeId = some route) :
    resolveAuth g req route = resolveAuth g' req route := by
  cases named : route.secretRef with
  | none => simp [Gateway.resolveAuth, named]
  | some ref => simp only [Gateway.resolveAuth, named, Option.getD_some, agree.secret route ref found named]

variable (now) in
theorem checkWindow_own {key : String} (limit : Int) (same : w.times key = w'.times key) :
    (checkWindow key limit now w).1 = (checkWindow key limit now w').1 ∧
      (checkWindow key limit now w).2.times key = (checkWindow key limit now w').2.times key := by
  unfold checkWindow
  rw [same]
  dsimp only
  by_cases full : limit ≤ (recent minute now (w'.times key)).length
  · simp [full]
  · simp [full]

variable (now later) in
theorem prepare_alike (agree : AgreeOn routeId g g') (about : req.routeId = routeId)
    (same : w.times routeId = w'.times routeId) :
    (prepare g req now later w).1 = (prepare g' req now later w').1 ∧
      (prepare g req now later w).2.times routeId = (prepare g' req now later w').2.times routeId := by
  unfold prepare
  rw [← agree.checkBinding about]
  cases bound : checkBinding g req with
  | error r => exact ⟨rfl, same⟩
  | ok route =>
    subst about
    obtain ⟨answer, times⟩ := checkWindow_own now route.rateLimitRpm same
    dsimp only [SlidingWindowRateLimiter.check, SlidingWindowRateLimiter.currentCount]
    rw [← answer, ← agree.resolveAuth (checkBinding_ok bound).1]
    split
    · exact ⟨rfl, times⟩
    · simp [countWindow, times]

variable (g now later w) in
theorem prepare_apart (other : req.routeId ≠ routeId) :
    (prepare g req now later w).2.times routeId = w.times routeId := by
  unfold prepare
  cases checkBinding g req with
  | error r => rfl
  | ok route =>
    dsimp only [SlidingWindowRateLimiter.check, SlidingWindowRateLimiter.currentCount]
    have checked : (checkWindow req.routeId route.rateLimitRpm now w).2.times routeId =
        w.times routeId := by
      unfold checkWindow
      dsimp only
      split <;> exact times_set_ne _ _ other.symm
    split
    · exact checked
    · exact (times_set_ne _ _ other.symm).trans checked

/-- Two servers that a set of requests about a route cannot tell apart. -/
structure Alike (routeId : String) (own : Nat → Bool) (s s' : Server) : Prop where
  windows : s.windows.times routeId = s'.windows.times routeId
  pending : ∀ id, own id = true → s.pending.get? id = s'.pending.get? id

variable {id : Nat} {authorization : Option PyStr} {inputs inputs' : List Input}

variable (id authorization now later) in
theorem receive_alike (agree : AgreeOn routeId g g') (alike : Alike routeId own s s')
    (about : req.routeId = routeId) :
    (s.receive g id authorization req now later).1 =
        (s'.receive g' id authorization req now later).1.stamp g.configHash ∧
      Alike routeId own (s.receive g id authorization req now later).2
        (s'.receive g' id authorization req now later).2 := by
  unfold Server.receive
  rw [← agree.token]
  cases requireDispatchAuthority g.dispatchAuthToken authorization with
  | refused => exact ⟨rfl, alike⟩
  | failed => exact ⟨rfl, alike⟩
  | granted =>
    obtain ⟨result, times⟩ := prepare_alike now later agree about alike.windows
    dsimp only
    rw [← result]
    cases prepared : (prepare g req now later s.windows).1 with
    | error r =>
      have refuses : (Reply.response r).Refuses := prepare_error prepared
      have same := congrArg (Output.replied id) (refuses.stamp g.configHash)
      exact ⟨same.symm, times, alike.pending⟩
    | ok ready =>
      refine ⟨rfl, times, fun j mine => ?_⟩
      rw [Dict.get?_set, Dict.get?_set, alike.pending j mine]

theorem receive_apart (alike : Alike routeId own s s') (foreign : own id = false)
    (other : g.Authorizes authorization → req.routeId ≠ routeId) :
    Alike routeId own (s.receive g id authorization req now later).2 s' := by
  unfold Server.receive
  cases authority : requireDispatchAuthority g.dispatchAuthToken authorization with
  | refused => exact alike
  | failed => exact alike
  | granted =>
    have times := prepare_apart g now later s.windows (other authority)
    dsimp only
    cases (prepare g req now later s.windows).1 with
    | error r => exact ⟨times.trans alike.windows, alike.pending⟩
    | ok ready =>
      refine ⟨times.trans alike.windows, fun j mine => ?_⟩
      have apart : j ≠ id := by
        rintro rfl
        cases mine.symm.trans foreign
      exact (Dict.get?_set_ne _ apart _).trans (alike.pending j mine)

variable (host g g') in
theorem upstream_alike (alike : Alike routeId own s s')
    (mine : own id = true) (answer : Upstream) (now : Rat) (resultId : String) :
    (s.handle host g (.upstream id answer now resultId)).1 =
        (s'.handle host g' (.upstream id answer now resultId)).1.map (Output.stamp g.configHash) ∧
      Alike routeId own (s.handle host g (.upstream id answer now resultId)).2
        (s'.handle host g' (.upstream id answer now resultId)).2 := by
  unfold Server.handle
  dsimp only
  rw [← alike.pending id mine]
  cases s.pending.get? id with
  | none => exact ⟨rfl, alike⟩
  | some p =>
    have told := conclude_stamp host g g' p answer now resultId
    refine ⟨congrArg (fun r => some (Output.replied id r)) told, alike.windows, fun j own_ => ?_⟩
    by_cases same : j = id
    · subst same
      rw [Dict.get?_erase_self, Dict.get?_erase_self]
    · rw [Dict.get?_erase_ne _ same, Dict.get?_erase_ne _ same]
      exact alike.pending j own_

theorem upstream_apart (alike : Alike routeId own s s') (foreign : own id = false)
    (answer : Upstream) (now : Rat) (resultId : String) :
    Alike routeId own (s.handle host g (.upstream id answer now resultId)).2 s' := by
  unfold Server.handle
  dsimp only
  cases s.pending.get? id with
  | none => exact alike
  | some p =>
    refine ⟨alike.windows, fun j mine => ?_⟩
    have apart : j ≠ id := by
      rintro rfl
      cases mine.symm.trans foreign
    exact (Dict.get?_erase_ne _ apart).trans (alike.pending j mine)

/-- Leaving the other requests out, on a gateway that knows the same about the route, changes
nothing for those of the set but the hash. -/
theorem run_isolated (agree : AgreeOn routeId g g') (alike : Alike routeId own s s')
    (separates : Separates g routeId own inputs) :
    ofSet own (s.run host g inputs) =
      stamped g.configHash (s'.run host g' (inputs.filter (own ·.id))) := by
  induction inputs generalizing s s' with
  | nil => rfl
  | cons i rest ih =>
    have separates' : Separates g routeId own rest := fun id authorization req now later mem =>
      separates id authorization req now later (List.mem_cons_of_mem _ mem)
    rw [Server.run]
    cases mine : own i.id with
    | true =>
      rw [ofSet, List.filter_cons_of_pos (by exact mine), List.filter_cons_of_pos (by exact mine),
        Server.run, stamped, List.map_cons]
      cases i with
      | request id authorization req now later =>
        have about := separates id authorization req now later (List.mem_cons_self ..)
        have mine : own id = true := mine
        rw [if_pos mine] at about
        obtain ⟨out, next⟩ := receive_alike now later id authorization agree alike about
        simp only [Server.handle, out]
        exact congrArg _ (ih next separates')
      | upstream id answer now resultId =>
        have mine : own id = true := mine
        obtain ⟨out, next⟩ := upstream_alike host g g' alike mine answer now resultId
        rw [out]
        exact congrArg _ (ih next separates')
    | false =>
      rw [ofSet, List.filter_cons_of_neg (by simpa using mine),
        List.filter_cons_of_neg (by simpa using mine)]
      cases i with
      | request id authorization req now later =>
        have other := separates id authorization req now later (List.mem_cons_self ..)
        have mine : own id = false := mine
        rw [if_neg (by simp [mine])] at other
        exact ih (receive_apart alike mine other) separates'
      | upstream id answer now resultId =>
        exact ih (upstream_apart alike mine answer now resultId) separates'

/-- What goes out for a route and what its requests are told depends on the route's own entry, its
own secret and the authorized requests about it, and on nothing else, but that a reply names the hash
of the gateway's own file. -/
theorem route_isolated (host : Host) {g g' : Config} {routeId : String} {own : Nat → Bool}
    {inputs inputs' : List Input} (agree : AgreeOn routeId g g')
    (separates : Separates g routeId own inputs) (separates' : Separates g' routeId own inputs')
    (same : inputs.filter (own ·.id) = inputs'.filter (own ·.id)) :
    ofSet own (Server.run host g {} inputs) =
      stamped g.configHash (ofSet own (Server.run host g' {} inputs')) := by
  have start : Alike routeId own {} {} := ⟨rfl, fun _ _ => rfl⟩
  rw [run_isolated agree start separates, same,
    run_isolated (agreeOn_refl routeId g') start separates', stamped_stamped]

def otherRoute : EgressRoute :=
  { sampleRoute with
    routeId := .text "gpt-4o-default"
    provider := .text "openai"
    secretRef := .text "OPENAI_API_KEY" }

theorem richer_typed : ∀ id r, (Dict.set (Dict.set ∅ (Json.text "claude-sonnet-default") sampleRoute)
    (Json.text "gpt-4o-default") otherRoute).get? id = some r → (Route.ofEgress r).isSome := by
  intro id r found
  rw [Dict.get?_set] at found
  split at found
  · cases found
    decide +kernel
  · exact sample_typed id r found

/-- A gateway with another route and another secret beside, and so with another hash. -/
def richerConfig : Config where
  dispatchAuthToken := py "token"
  registry := ⟨Dict.set (Dict.set ∅ (Json.text "claude-sonnet-default") sampleRoute)
    (Json.text "gpt-4o-default") otherRoute, richer_typed⟩
  configHash := "other"
  secrets := sampleConfig.secrets.set "OPENAI_API_KEY" (some "other")

theorem richer_agrees : AgreeOn "claude-sonnet-default" sampleConfig richerConfig where
  token := rfl
  route := by
    have other : Json.text "claude-sonnet-default" ≠ .text "gpt-4o-default" := by decide
    rw [Registry.getRoute, Registry.getRoute, richerConfig, Dict.get?_set_ne _ other]
    rfl
  secret route ref found named := by
    have names : (sampleConfig.registry.getRoute "claude-sonnet-default").bind (·.secretRef) =
        some "ANTHROPIC_API_KEY" := by decide +kernel
    rw [found, Option.bind_some, named, Option.some_inj] at names
    subst names
    rfl

theorem sample_separates (g : Config) (authorization : Option PyStr)
    (foreign : ¬ g.Authorizes authorization) : Separates g "claude-sonnet-default" (· = 0)
      [.request 1 authorization sampleRequest 0 0, .request 0 sampleToken sampleRequest 0 0,
        .upstream 0 sampleAnswer 1 "r"] := by
  intro id a req now later mem
  simp only [List.mem_cons, Input.request.injEq, reduceCtorEq, List.not_mem_nil, or_false] at mem
  rcases mem with ⟨rfl, rfl, rfl, -, -⟩ | ⟨rfl, rfl, rfl, -, -⟩
  · exact fun authorized => absurd authorized foreign
  · rfl

/-- A request to the route that is answered, on two gateways that differ in another route and in
their hash, beside a request to it without the token. -/
theorem route_isolated_beside : ofSet (· = 0) (Server.run sampleHost sampleConfig {}
      [.request 1 none sampleRequest 0 0, .request 0 sampleToken sampleRequest 0 0,
        .upstream 0 sampleAnswer 1 "r"]) =
    stamped "" (ofSet (· = 0) (Server.run sampleHost richerConfig {}
      [.request 1 (some (py "Bearer other")) sampleRequest 0 0,
        .request 0 sampleToken sampleRequest 0 0, .upstream 0 sampleAnswer 1 "r"])) :=
  route_isolated sampleHost richer_agrees
    (sample_separates sampleConfig none (by unfold Config.Authorizes; decide))
    (sample_separates richerConfig _ (by unfold Config.Authorizes; decide)) rfl

end Isolation

end Drnt.Gateway
