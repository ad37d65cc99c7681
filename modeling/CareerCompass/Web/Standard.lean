import CareerCompass.Web.Framework
import CareerCompass.Web.MediaType
import CareerCompass.Web.Query
/-!
# The framework the service runs with

`Framework.standard` is the instance of `Framework` the service runs with:

* an `OPTIONS` request is a preflight, answered 200 with no body;
* the router matches the path (`Route.ofPath?`): none gives 404, a route that does not take the
  method 405, both with no body; a `HEAD` answer loses its body;
* the id segment is percent-decoded, and bytes that are not UTF-8 are refused (400);
* the query is read as form pairs (`readMode`); a refused query is a 400 with its message;
* an answer needs a JSON `Content-Type` (415 otherwise) and a readable body: 400 when it is not
  JSON, 422 when it is JSON of the wrong shape (`AnswerRequest.decode`);
* ids are read in any of their four forms (`Uuid.parse?`), and new ones drawn from a SplitMix64
  sequence (`IdSource.nextId`).

Main statement: `standard_lawful`, it keeps every law of `Framework.Lawful`.
-/

namespace CareerCompass

namespace Web

/-- The id segment, percent-decoded; a 400 when its bytes are not UTF-8. -/
def idText (raw : String) : Except Response String :=
  match Utf8.decode? (Percent.percentDecode (Utf8.encode raw)) with
  | some text => .ok text
  | none => .error (.text 400 "Invalid URL: Invalid UTF-8 in `id`")

/-- The mode a session query asks for; a refused query is a 400 with its message. -/
def readQueryMode (query : String) : Except Response (Option AgendaMode) :=
  match readMode query with
  | .ok mode => .ok mode
  | .error e => .error (.text 400 e.message)

/-- The answer a request carries, read as JSON: a 415 without a JSON content type, a 400 for a
body that is not JSON, a 422 for JSON that is no answer. -/
def jsonAnswer (req : Request) : Except Response AnswerRequest :=
  if !(req.contentType.any MediaType.isJson) then
    .error (.text 415 "Expected request with `Content-Type: application/json`")
  else
    match AnswerRequest.decode req.body with
    | .ok body => .ok body
    | .error e =>
      if e.isMalformed then .error (.text 400 ("Failed to parse the request body as JSON: " ++ e.message))
      else .error (.text 422 ("Failed to deserialize the JSON body into the target type: " ++ e.message))

/-- The route of a path and a method: 404 for a path that names none, 405 for a method the route
does not take, both with no body. -/
def routeOf (path method : String) : Except Response Route :=
  match Route.ofPath? path with
  | none => .error (.empty 404)
  | some r => if r.allows method then .ok r else .error (.empty 405)

namespace Framework

/-- The framework the service runs with. -/
def standard : Framework IdSource where
  intercept req := if req.method = "OPTIONS" then some (.empty 200) else none
  route := routeOf
  finish method r := if method = "HEAD" then { r with body := "" } else r
  pathText := idText
  queryMode := readQueryMode
  answerBody := jsonAnswer
  parseId := Uuid.parse?
  newId := IdSource.nextId

theorem idText_refuses {raw : String} {r : Response} (refused : idText raw = .error r) :
    r.IsClientError := by
  unfold idText at refused
  split at refused
  · cases refused
  · cases refused; simp [Response.IsClientError, Response.text]

theorem readQueryMode_refuses {query : String} {r : Response}
    (refused : readQueryMode query = .error r) : r.IsClientError := by
  unfold readQueryMode at refused
  split at refused
  · cases refused
  · cases refused; simp [Response.IsClientError, Response.text]

theorem jsonAnswer_refuses {req : Request} {r : Response} (refused : jsonAnswer req = .error r) :
    r.IsClientError := by
  unfold jsonAnswer at refused
  split at refused
  · cases refused; simp [Response.IsClientError, Response.text]
  · split at refused
    · cases refused
    · split at refused <;> (cases refused; simp [Response.IsClientError, Response.text])

theorem routeOf_method {path m : String} {r : Route} (routed : routeOf path m = .ok r) :
    m = r.method ∨ (m = "HEAD" ∧ r.method = "GET") := by
  unfold routeOf at routed
  split at routed
  · cases routed
  · split at routed
    · cases routed
      exact Route.allows_iff.1 ‹_›
    · cases routed

/-- The framework the service runs with keeps the documented behaviour of its parts. -/
theorem standard_lawful : standard.Lawful where
  intercept_options req r intercepted := by
    simp only [standard] at intercepted
    split at intercepted
    · assumption
    · cases intercepted
  route_method _ _ _ routed := routeOf_method routed
  finish_of_ne_head m r notHead := by simp [standard, notHead]
  pathText_refuses _ _ refused := idText_refuses refused
  queryMode_refuses _ _ refused := readQueryMode_refuses refused
  answerBody_refuses _ _ refused := jsonAnswer_refuses refused

end Framework

end Web

end CareerCompass
