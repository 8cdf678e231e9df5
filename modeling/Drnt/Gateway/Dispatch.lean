import Drnt.Lib.Glob
import Drnt.Lib.IntText
import Drnt.Connectivity.RateLimiter
import Drnt.Runtime.EgressRoutes

/-! The gateway's /dispatch: the authority of the caller, the checks of a request against its
route, the request to the provider and what is made of its answer. -/
namespace Drnt.Gateway

open Lib Connectivity Drnt.Runtime

section Authority

def space : CodePoint := 32

/-- Latin capitals. No other character becomes one of "bearer" when it is lowered. -/
def lowerAscii (c : CodePoint) : CodePoint := if 65 ≤ c.val ∧ c.val ≤ 90 then c + 32 else c

def presentedToken : Option PyStr → PyStr
  | none | some [] => []
  | some authorization =>
    let scheme := authorization.takeWhile (· ≠ space)
    let token := (authorization.dropWhile (· ≠ space)).drop 1
    if scheme.map lowerAscii ≠ py "bearer" then [] else IntText.strip token

def isAscii (s : PyStr) : Bool := s.all (·.val < 128)

/-- None stands for the TypeError that texts beyond ASCII raise. -/
def compareDigest (a b : PyStr) : Option Bool :=
  if isAscii a ∧ isAscii b then some (a = b) else none

inductive Authority | granted | refused | failed
  deriving DecidableEq, Repr

def requireDispatchAuthority (dispatchAuthToken : PyStr) (authorization : Option PyStr) : Authority :=
  let presented := presentedToken authorization
  if dispatchAuthToken = [] ∨ presented = [] then .refused
  else
    match compareDigest presented dispatchAuthToken with
    | some true => .granted
    | some false => .refused
    | none => .failed

end Authority

section Registry

def asText : Json → Option String
  | .str s => decode? s
  | _ => none

def asTextOrNull : Json → Option (Option String)
  | .null => some none
  | v => (asText v).map some

def asTexts : Json → Option (List String)
  | .arr xs => xs.mapM asText
  | _ => none

def asInt : Json → Option Int
  | .int n => some n
  | _ => none

def asBool : Json → Option Bool
  | .bool b => some b
  | _ => none

/-- A route whose fields have the types they are annotated with. -/
structure Route where
  routeId : String
  provider : String
  endpointUrl : String
  modelString : String
  allowedCapabilities : List String
  authMethod : String
  secretRef : Option String
  rateLimitRpm : Int
  timeoutMs : Int
  enabled : Bool
  deriving DecidableEq

def Route.ofEgress (r : EgressRoute) : Option Route := do
  return {
    routeId := ← asText r.routeId
    provider := ← asText r.provider
    endpointUrl := ← asText r.endpointUrl
    modelString := ← asText r.modelString
    allowedCapabilities := ← asTexts r.allowedCapabilities
    authMethod := ← asText r.authMethod
    secretRef := ← asTextOrNull r.secretRef
    rateLimitRpm := ← asInt r.rateLimitRpm
    timeoutMs := ← asInt r.timeoutMs
    enabled := ← asBool r.enabled }

def Route.matchesModel (route : Route) (targetModel : String) : Bool :=
  Glob.fnmatch targetModel route.modelString

structure Registry where
  routes : EgressRegistry
  typed : ∀ id r, routes.get? id = some r → (Route.ofEgress r).isSome

def Registry.getRoute (registry : Registry) (routeId : String) : Option Route :=
  (registry.routes.get? (.text routeId)).bind Route.ofEgress

end Registry

section Adapters

/-- type(data).__name__ -/
def typeName : Json → String
  | .null => "NoneType"
  | .bool _ => "bool"
  | .int _ => "int"
  | .float _ => "float"
  | .str _ => "str"
  | .arr _ => "list"
  | .obj _ => "dict"

/-- data[key], or the text of what it raises. -/
def subscript (data : Json) (key : String) : Except String Json :=
  match data with
  | .obj fields =>
    match Json.field? (py key) fields with
    | some v => .ok v
    | none => .error ("'" ++ key ++ "'")
  | .arr _ => .error "list indices must be integers or slices, not str"
  | .str _ => .error "string indices must be integers, not 'str'"
  | v => .error ("'" ++ typeName v ++ "' object is not subscriptable")

/-- data[0] -/
def first : Json → Except String Json
  | .arr (x :: _) => .ok x
  | .arr [] => .error "list index out of range"
  | .str (c :: _) => .ok (.str [c])
  | .str [] => .error "string index out of range"
  | .obj _ => .error "0"
  | v => .error ("'" ++ typeName v ++ "' object is not subscriptable")

/-- data.get(key, default) -/
def get (data : Json) (key : String) (default_ : Json) : Except String Json :=
  match data with
  | .obj fields => .ok ((Json.field? (py key) fields).getD default_)
  | v => .error ("'" ++ typeName v ++ "' object has no attribute 'get'")

structure Request where
  url : String
  headers : List (String × String)
  body : Json
  deriving DecidableEq

structure Parsed where
  responseText : Json
  tokenCountIn : Json
  tokenCountOut : Json
  finishReason : Json

structure Adapter where
  buildRequest : (endpointUrl model prompt apiKey : String) → Request
  parseResponse : Json → Except String Parsed

def userMessage (prompt : String) : Json :=
  .arr [.fields [("role", .text "user"), ("content", .text prompt)]]

def anthropicAdapter : Adapter where
  buildRequest endpointUrl model prompt apiKey := {
    url := endpointUrl
    headers := [("x-api-key", apiKey), ("anthropic-version", "2023-06-01"),
      ("content-type", "application/json")]
    body := .fields [("model", .text model), ("max_tokens", .nat 4096),
      ("messages", userMessage prompt)] }
  parseResponse data := do
    let text ← subscript (← first (← subscript data "content")) "text"
    let usage ← get data "usage" (.obj [])
    return {
      responseText := text
      tokenCountIn := ← get usage "input_tokens" (.nat 0)
      tokenCountOut := ← get usage "output_tokens" (.nat 0)
      finishReason := ← get data "stop_reason" (.text "stop") }

def openAIAdapter : Adapter where
  buildRequest endpointUrl model prompt apiKey := {
    url := endpointUrl
    headers := [("Authorization", "Bearer " ++ apiKey), ("Content-Type", "application/json")]
    body := .fields [("model", .text model), ("messages", userMessage prompt)] }
  parseResponse data := do
    let text ← subscript (← subscript (← first (← subscript data "choices")) "message") "content"
    let usage ← get data "usage" (.obj [])
    return {
      responseText := text
      tokenCountIn := ← get usage "prompt_tokens" (.nat 0)
      tokenCountOut := ← get usage "completion_tokens" (.nat 0)
      finishReason := ← get (← first (← subscript data "choices")) "finish_reason" (.text "stop") }

def googleAdapter : Adapter where
  buildRequest endpointUrl _ prompt apiKey := {
    url := endpointUrl ++ "?key=" ++ apiKey
    headers := [("Content-Type", "application/json")]
    body := .fields [("contents", .arr [.fields [("parts",
      .arr [.fields [("text", .text prompt)]])]])] }
  parseResponse data := do
    let content ← subscript (← first (← subscript data "candidates")) "content"
    let text ← subscript (← first (← subscript content "parts")) "text"
    let usage ← get data "usageMetadata" (.obj [])
    return {
      responseText := text
      tokenCountIn := ← get usage "promptTokenCount" (.nat 0)
      tokenCountOut := ← get usage "candidatesTokenCount" (.nat 0)
      finishReason := ← get (← first (← subscript data "candidates")) "finishReason"
        (.text "STOP") }

def ollamaAdapter : Adapter where
  buildRequest endpointUrl model prompt _ := {
    url := endpointUrl
    headers := [("Content-Type", "application/json")]
    body := .fields [("model", .text model), ("prompt", .text prompt), ("stream", .bool false)] }
  parseResponse data := do
    return {
      responseText := ← get data "response" (.text "")
      tokenCountIn := .nat 0
      tokenCountOut := .nat 0
      finishReason := .text "stop" }

def adapters (provider : String) : Option Adapter :=
  if provider = "anthropic" then some anthropicAdapter
  else if provider = "openai" then some openAIAdapter
  else if provider = "google" then some googleAdapter
  else if provider = "ollama" then some ollamaAdapter
  else none

end Adapters

section Dispatch

structure DispatchRequest where
  jobId : String
  routeId : String
  capabilityId : String
  targetModel : String
  prompt : String
  assembledPayloadHash : String
  walPermissionCheckRef : String
  deriving DecidableEq

structure DispatchResponse where
  status : String
  model : Option String := none
  responseText : Option String := none
  tokenCountIn : Option Int := none
  tokenCountOut : Option Int := none
  costEstimateUsd : Option PyFloat := none
  latencyMs : Option Int := none
  resultId : Option String := none
  responseHash : Option String := none
  finishReason : Option String := none
  egressConfigHash : Option String := none
  failureType : Option String := none
  detail : Option String := none
  deriving DecidableEq

/-- What the gateway has read when it starts. The hash is that of the whole egress file, of which the
registry keeps the routes; nothing but the reply to a call that went well reads it. -/
structure Config where
  dispatchAuthToken : PyStr
  registry : Registry
  configHash : String
  secrets : Dict String (Option String)

def blocked (failureType detail : String) : DispatchResponse where
  status := "blocked"
  failureType := failureType
  detail := detail

variable (g : Config) (req : DispatchRequest)

/-- Checks 1 to 4. -/
def checkBinding : Except DispatchResponse Route :=
  match g.registry.getRoute req.routeId with
  | none => .error (blocked "route_mismatch" ("Route '" ++ req.routeId ++
      "' not found in egress registry"))
  | some route =>
    if ¬ route.enabled then
      .error (blocked "policy_violation" ("Route '" ++ req.routeId ++ "' is disabled"))
    else if req.capabilityId ∉ route.allowedCapabilities then
      .error (blocked "route_mismatch" ("Capability '" ++ req.capabilityId ++
        "' not allowed on route '" ++ req.routeId ++ "'"))
    else if ¬ route.matchesModel req.targetModel then
      .error (blocked "model_mismatch" ("Model '" ++ req.targetModel ++
        "' does not match route pattern '" ++ route.modelString ++ "'"))
    else .ok route

/-- Check 6: the key of the route. -/
def resolveAuth (route : Route) : Except DispatchResponse String :=
  if route.authMethod ≠ "none" then
    let secretRef := route.secretRef.getD ""
    if secretRef = "" then
      .error (blocked "endpoint_unavailable" ("No secret_ref configured for route '" ++
        req.routeId ++ "'"))
    else
      let apiKey := ((g.secrets.get? secretRef).getD (some "")).getD ""
      if apiKey = "" then
        .error (blocked "endpoint_unavailable" ("Secret '" ++ secretRef ++ "' not set or empty"))
      else .ok apiKey
  else .ok ""

/-- A request that waits for its provider. -/
structure Pending where
  req : DispatchRequest
  route : Route
  adapter : Adapter
  start : Rat

/-- What goes out to the provider. -/
structure Call where
  request : Request
  timeoutMs : Int
  deriving DecidableEq

def buildCall (route : Route) (start : Rat) (apiKey : String) :
    Except DispatchResponse (Pending × Call) :=
  match adapters route.provider with
  | none => .error (blocked "route_mismatch" ("Unknown provider '" ++ route.provider ++ "'"))
  | some adapter => .ok (⟨req, route, adapter, start⟩,
      ⟨adapter.buildRequest route.endpointUrl req.targetModel req.prompt apiKey, route.timeoutMs⟩)

def rateExceeded (route : Route) (count : Nat) : DispatchResponse :=
  blocked "policy_violation" ("Rate limit exceeded for route " ++ req.routeId ++ " (" ++
    toString route.rateLimitRpm ++ " RPM, current: " ++ toString count ++ ")")

/-- All that runs before the call; the clock is read once by the limiter, and once more. -/
def prepare (now later : Rat) (w : Windows) :
    Except DispatchResponse (Pending × Call) × Windows :=
  match checkBinding g req with
  | .error r => (.error r, w)
  | .ok route =>
    let checked := SlidingWindowRateLimiter.check req.routeId route.rateLimitRpm now w
    if checked.1 then
      (resolveAuth g req route >>= buildCall req route later, checked.2)
    else
      let counted := SlidingWindowRateLimiter.currentCount req.routeId later checked.2
      (.error (rateExceeded req route counted.1), counted.2)

end Dispatch

section Answers

/-- How the call ends: it cannot connect, it times out, it fails otherwise, or there is an answer
with its text and with what its JSON reads as. -/
inductive Upstream
  | connectError (exc : String)
  | timeout (exc : String)
  | raised
  | answered (statusCode : Nat) (text : String) (json : Except String Json)

/-- Hashing and floating point. -/
structure Host where
  sha256 : String → String
  price : Rat × Rat → Int → Int → Option PyFloat
  whole : PyFloat → Option Int

inductive Reply
  | unauthorized
  | internalError
  | response (r : DispatchResponse)
  deriving DecidableEq

variable (host : Host) (g : Config)

/-- The price of a token in, and of one out. -/
def rates (provider : String) : Rat × Rat :=
  if provider = "anthropic" then (3 / 1000000, 15 / 1000000)
  else if provider = "openai" then (5 / 2000000, 10 / 1000000)
  else if provider = "google" then (3 / 40000000, 3 / 10000000)
  else (0, 0)

/-- A number of tokens, as the reply's field takes it. -/
def tokenCount : Json → Option Int
  | .int n => some n
  | .bool b => some (if b then 1 else 0)
  | .float x => host.whole x
  | _ => none

def errorResponse (req : DispatchRequest) (latencyMs : Int) (detail : String) : DispatchResponse where
  status := "error"
  model := req.targetModel
  failureType := "endpoint_unavailable"
  detail := detail
  latencyMs := latencyMs

def latency (start now : Rat) : Int := ((now - start) * 1000).floor

/-- The reply to a text that was parsed; none where a field has a type it cannot have. -/
def okResponse (p : Pending) (parsed : Parsed) (latencyMs : Int) (resultId : String) :
    Option DispatchResponse := do
  let text ← asText parsed.responseText
  let tokenIn ← tokenCount host parsed.tokenCountIn
  let tokenOut ← tokenCount host parsed.tokenCountOut
  let cost ← host.price (rates p.route.provider) tokenIn tokenOut
  let finishReason ← asTextOrNull parsed.finishReason
  return {
    status := "ok"
    model := p.req.targetModel
    responseText := text
    tokenCountIn := tokenIn
    tokenCountOut := tokenOut
    costEstimateUsd := cost
    latencyMs := latencyMs
    resultId := resultId
    responseHash := host.sha256 text
    finishReason := finishReason
    egressConfigHash := g.configHash }

def conclude (p : Pending) (answer : Upstream) (now : Rat) (resultId : String) : Reply :=
  let latencyMs := latency p.start now
  match answer with
  | .connectError exc =>
    .response (errorResponse p.req latencyMs ("Connection failed: " ++ exc))
  | .timeout exc => .response (errorResponse p.req latencyMs ("Request timed out: " ++ exc))
  | .raised => .internalError
  | .answered statusCode text json =>
    if 400 ≤ statusCode then
      .response (errorResponse p.req latencyMs ("HTTP " ++ toString statusCode ++ ": " ++
        String.ofList (text.toList.take 500)))
    else
      match json >>= p.adapter.parseResponse with
      | .error exc => .response (errorResponse p.req latencyMs ("Response parse error: " ++ exc))
      | .ok parsed =>
        match okResponse host g p parsed latencyMs resultId with
        | some r => .response r
        | none => .internalError

end Answers

section Server

/-- A request as it comes in, with the two readings of the clock; or the end of its call. -/
inductive Input
  | request (id : Nat) (authorization : Option PyStr) (req : DispatchRequest) (now later : Rat)
  | upstream (id : Nat) (answer : Upstream) (now : Rat) (resultId : String)

inductive Output
  | called (id : Nat) (call : Call)
  | replied (id : Nat) (reply : Reply)
  deriving DecidableEq

structure Server where
  windows : Windows := ∅
  pending : Dict Nat Pending := ∅

abbrev Log := List (Input × Option Output)

variable (host : Host) (g : Config)

def Server.receive (s : Server) (id : Nat) (authorization : Option PyStr) (req : DispatchRequest)
    (now later : Rat) : Output × Server :=
  match requireDispatchAuthority g.dispatchAuthToken authorization with
  | .refused => (.replied id .unauthorized, s)
  | .failed => (.replied id .internalError, s)
  | .granted =>
    let prepared := prepare g req now later s.windows
    match prepared.1 with
    | .error r => (.replied id (.response r), { s with windows := prepared.2 })
    | .ok (p, call) => (.called id call, ⟨prepared.2, s.pending.set id p⟩)

/-- What happens up to the next await. -/
def Server.handle (s : Server) : Input → Option Output × Server
  | .request id authorization req now later =>
    let received := s.receive g id authorization req now later
    (some received.1, received.2)
  | .upstream id answer now resultId =>
    match s.pending.get? id with
    | none => (none, s)
    | some p =>
      (some (.replied id (conclude host g p answer now resultId)),
        { s with pending := s.pending.erase id })

def Server.run (s : Server) : List Input → Log
  | [] => []
  | i :: rest =>
    let handled := s.handle host g i
    (i, handled.1) :: Server.run handled.2 rest

def Server.final (s : Server) (inputs : List Input) : Server :=
  inputs.foldl (fun s i => (s.handle host g i).2) s

end Server

end Drnt.Gateway
