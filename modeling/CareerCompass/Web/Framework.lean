import CareerCompass.Interview.Agenda
import CareerCompass.Web.AnswerBody
import CareerCompass.Web.Message
import CareerCompass.Web.Route
import CareerCompass.Web.Uuid
/-!
# What the handlers take from around them

The handlers of the service are the service's own code; the parts of a request's way to them, and
the source of new ids, belong to the libraries the service is built on. `Framework σ` gathers
these parts as values, so that what is proved of the service holds for every choice of them that
keeps their documented behaviour (`Framework.Lawful`):

* a layer in front of the routes answers preflights, requests with method `OPTIONS`, by itself;
* the router picks a route by path and method: a route's own method reaches it, and so does
  `HEAD` where that method is `GET`; the route's answer to `HEAD` is finished by dropping the body;
* the extractors read the id segment of a session path, the query of a new session and the
  answer in a request's body; each either gives the value or refuses the request with a client
  error, before the handler runs;
* session ids are read from text, and new ones drawn from a source of type `σ`.

`Framework.standard` is the instance the service runs with.
-/

namespace CareerCompass

namespace Web

/-- The parts of the service that its handlers do not decide: routing, the layers in front of the
routes, the extractors of a request's parts and the ids. -/
structure Framework (σ : Type) where
  /-- Answers a request before it is routed, as a preflight is answered. -/
  intercept : Request → Option Response
  /-- The route a path and a method reach, or the response that refuses them. -/
  route : String → String → Except Response Route
  /-- A route's response as it is sent for a method. -/
  finish : String → Response → Response
  /-- The id segment of a session path as text, or the refusal. -/
  pathText : String → Except Response String
  /-- The mode a session query names, if any, or the refusal. -/
  queryMode : String → Except Response (Option AgendaMode)
  /-- The answer a request's content type and body carry, or the refusal. -/
  answerBody : Request → Except Response AnswerRequest
  /-- Reads a session id. -/
  parseId : String → Option Uuid
  /-- A new session id, and the source after it. -/
  newId : σ → Uuid × σ

namespace Framework

variable {σ : Type}

/-- The id source after `n` new ids. -/
def advance (F : Framework σ) (ids : σ) : Nat → σ
  | 0 => ids
  | n + 1 => (F.newId (F.advance ids n)).2

/-- The `n`-th new id drawn from a source, counting from 0. -/
def draw (F : Framework σ) (ids : σ) (n : Nat) : Uuid := (F.newId (F.advance ids n)).1

/-- The documented behaviour of the libraries, as far as the service relies on it. -/
structure Lawful (F : Framework σ) : Prop where
  /-- The layer in front of the routes answers preflights only. -/
  intercept_options : ∀ req r, F.intercept req = some r → req.method = "OPTIONS"
  /-- A route is reached by its own method, and by `HEAD` where it answers `GET`. -/
  route_method : ∀ path m r, F.route path m = .ok r →
    m = r.method ∨ (m = "HEAD" ∧ r.method = "GET")
  /-- A route's response is sent as it is, except to `HEAD`. -/
  finish_of_ne_head : ∀ m r, m ≠ "HEAD" → F.finish m r = r
  /-- A path whose id segment cannot be read is refused with a client error. -/
  pathText_refuses : ∀ raw r, F.pathText raw = .error r → r.IsClientError
  /-- A query that cannot be read is refused with a client error. -/
  queryMode_refuses : ∀ query r, F.queryMode query = .error r → r.IsClientError
  /-- A body that cannot be read as an answer, or is not announced as JSON, is refused with a
  client error. -/
  answerBody_refuses : ∀ req r, F.answerBody req = .error r → r.IsClientError

end Framework

end Web

end CareerCompass
