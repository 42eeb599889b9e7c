import AppBroker.Http
import AppBroker.Table

/-!
# Routing

A router publishes the endpoints of containers under public host names. One kind keeps the routes
in a table, the other tells them to a routing service. Which one it is follows from the scheme of
its URL. The service is told by requests to its admin address; the route of a container that it
does not know counts as dropped.
-/

namespace AppBroker

/-- A routing backend. -/
inductive Router where
  | memory (routes : Table String (List Endpoint))
  | service (base : String) (token : Option String)
  deriving DecidableEq, Repr

/-- A change of the routes. -/
inductive RouteChange where
  | publish (id : String) (endpoints : List Endpoint)
  | retract (id : String)
  | clear
  deriving DecidableEq, Repr

namespace RouteChange

/-- The method of the request for a change. -/
def method : RouteChange → String
  | publish _ _ => "PUT"
  | retract _ | clear => "DELETE"

/-- The path of the request for a change. -/
def path : RouteChange → String
  | publish id _ | retract id => "/routes/" ++ id
  | clear => "/routes"

/-- The body of the request for a change. -/
def body : RouteChange → Option (List Endpoint)
  | publish _ endpoints => some endpoints
  | retract _ | clear => none

/-- Whether a change is done when there was nothing to change. -/
def allowsMissing : RouteChange → Bool
  | retract _ => true
  | publish _ _ | clear => false

/-- The routes after a change. -/
def apply (routes : Table String (List Endpoint)) : RouteChange → Table String (List Endpoint)
  | publish id endpoints => routes.insert id endpoints
  | retract id => routes.erase id
  | clear => []

end RouteChange

namespace Router

/-- The schemes that have a backend, sorted. -/
def schemes : List String := ["http", "https", "memory"]

/-- A text without the slashes at its end. -/
def dropSlashes (cs : List Char) : List Char := (cs.reverse.dropWhile (· = '/')).reverse

/-- The router of a routing service. -/
def ofService (url : Url) : Outcome Router := do
  let port := match ← url.port? with
    | some n => if n = 0 then "" else ":" ++ toString n
    | none => ""
  let base := (url.scheme ++ "://").toList ++ url.host ++ port.toList ++ url.path
  let token := url.password?
  if token.any fun t => t.toList.any fun c => 128 ≤ c.toNat then fail .badValue
  return .service (String.ofList (dropSlashes base)) token

/-- The router that a URL names. -/
def ofUrl (text : String) : Outcome Router := do
  if text = "" then refuse .routingUnset
  let url ← Url.parse text
  if url.scheme = "memory" then return .memory []
  if url.scheme = "http" || url.scheme = "https" then ofService url
  else refuse (.unknownScheme url.scheme)

/-- The header that shows a token. -/
def authorization (token : String) : String := "Bearer " ++ token

/-- The request for a change, and whether its URL is absolute. -/
def request (base : String) (token : Option String) (change : RouteChange) :
    Outcome (HttpRequest × Bool) := do
  let target ← Url.target (base ++ change.path)
  return ({ method := change.method, url := target.text, authorization := token.map authorization
            endpoints := change.body }, target.isAbsolute)

/-- What the service's reply to a request means. Only what has an absolute URL can be answered by a
status. -/
def verdict (change : RouteChange) (request : HttpRequest) (isAbsolute : Bool)
    (reply : HttpReply) : Outcome Unit :=
  let failed (why : String) : Outcome Unit :=
    refuse (.routing (change.method ++ " " ++ change.path ++ " failed: " ++ why))
  match reply with
  | .status code =>
    if !isAbsolute then fail .badValue
    else if change.allowsMissing && code = 404 then .ok ()
    else match reply.failure? request.url with
      | none => .ok ()
      | some why => failed why
  | other =>
    match other.failure? request.url with
    | none => .ok ()
    | some why => failed why

/-- How a change went: the requests sent, the replies not used, and the router after it. -/
structure Changed where
  router : Router
  replies : List HttpReply
  sent : List HttpRequest
  result : Outcome Unit

/-- Makes a change. A service takes the next reply, a success when there is none. -/
def change (router : Router) (replies : List HttpReply) (c : RouteChange) : Changed :=
  match router with
  | memory routes => ⟨memory (c.apply routes), replies, [], .ok ()⟩
  | service base token =>
    match request base token c with
    | .error e => ⟨router, replies, [], .error e⟩
    | .ok (request, isAbsolute) =>
      ⟨router, replies.tail, [request],
        verdict c request isAbsolute (replies.headD (.status 200))⟩

/-- The endpoints that serve a public host name, in the order of their routes; a service keeps
them to itself. -/
def backends (router : Router) (frontend : String) : Outcome (List Endpoint) :=
  match router with
  | memory routes => .ok (routes.values.flatten.filter (·.frontend = frontend))
  | service _ _ => fail .missingPart

end Router

end AppBroker
