import CareerCompass.Json.Value
/-!
# Requests and responses

A request is a method, a target (the path, still percent-encoded, and the query, if any), an
optional `Content-Type` and a body. A response is a status and a body, empty or text; the service
writes its own bodies as compact JSON.

A response refuses a request with a client error when its status is in the 400s. Every refusal the
libraries around the handlers make is one (`Framework.Lawful`), and no client error is a status
that moves a session (`IsClientError.ne_of_accepted`).
-/

namespace CareerCompass

namespace Web

/-- What a request asks for: the path, as sent, and the query, if any. -/
structure Target where
  path : String
  query : Option String
deriving DecidableEq, Repr

/-- The query, or the empty text when there is none. -/
def Target.queryText (t : Target) : String := t.query.getD ""

/-- A request to the service. -/
structure Request where
  method : String
  target : Target
  contentType : Option String
  body : String
deriving DecidableEq, Repr

/-- A response of the service; an empty body is no body. -/
structure Response where
  status : Nat
  body : String
deriving DecidableEq, Repr

namespace Response

/-- A response with a JSON body. -/
def json (status : Nat) (v : JsonValue) : Response := ⟨status, v.render⟩

/-- A response with a plain-text body. -/
def text (status : Nat) (message : String) : Response := ⟨status, message⟩

/-- A response with no body. -/
def empty (status : Nat) : Response := ⟨status, ""⟩

/-- A refusal that blames the request: a status in the 400s. -/
def IsClientError (r : Response) : Prop := 400 ≤ r.status ∧ r.status < 500

instance (r : Response) : Decidable r.IsClientError := inferInstanceAs (Decidable (_ ∧ _))

/-- A client error is none of the statuses under which a session is created (201), deleted (204)
or shown (200). -/
theorem IsClientError.ne_of_accepted {r : Response} (refused : r.IsClientError) :
    r.status ≠ 200 ∧ r.status ≠ 201 ∧ r.status ≠ 204 := by
  obtain ⟨low, _⟩ := refused
  omega

end Response

end Web

end CareerCompass
