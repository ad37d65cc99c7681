import CareerCompass.Web.Framework
import CareerCompass.Web.View
/-!
# The interview service

The service keeps interview sessions by id, each with the time it last changed, and answers
requests about them. Requests are handled one at a time, each at a clock reading `now`. What the
libraries around the handlers decide (routing, the layers in front of the routes, reading a
request's parts, ids) comes from a `Framework`.

How a request is answered, in order:

1. The layer in front may answer it by itself (a preflight).
2. The router picks the route by path and method, or refuses the request.
3. A session route's id segment is read, a session query or an answer body likewise; a part that
   cannot be read refuses the request.
4. The handler runs. An id that is not a UUID, or names no live session, gives 404; a Likert
   value off the scale gives 422. These carry a JSON error body.
5. The route's response is finished for the method (a HEAD answer has no body).

A session is live while it has not been idle longer than the time to live: reading, answering and
resetting it see only live sessions, and answering and resetting mark it changed now. Creating a
session first drops every session that is no longer live. A deletion drops the session whether or
not it is still live.

Main statement: `find?_put` (a stored session is found under its id).
-/

namespace CareerCompass

namespace Web

/-- Why a request about a session fails. -/
inductive ApiError where
  /-- No live session has this id. -/
  | sessionNotFound (id : Uuid)
  /-- The id segment is not a UUID. -/
  | invalidSessionId (text : String)
  /-- The answer is off the Likert scale. -/
  | scale (e : Likert.Error)

namespace ApiError

/-- The message of an error. -/
def message : ApiError → String
  | .sessionNotFound id => "sessão " ++ id.text ++ " não encontrada"
  | .invalidSessionId text => "id de sessão inválido: " ++ text
  | .scale e => e.message

/-- The status of an error. -/
def status : ApiError → Nat
  | .sessionNotFound _ | .invalidSessionId _ => 404
  | .scale _ => 422

/-- The response of an error. -/
def response (e : ApiError) : Response := .json e.status (View.error e.message)

/-- Every error the handlers report blames the request. -/
theorem response_isClientError (e : ApiError) : e.response.IsClientError := by
  cases e <;> simp [response, status, Response.json, Response.IsClientError]

end ApiError

/-- A stored session and the time it last changed. -/
structure Slot where
  session : Session Double
  updatedAt : Int

/-- Whether a session has been idle longer than `ttl` at `now`; a change stamped after `now` counts
as no idleness. -/
def Slot.isExpired (slot : Slot) (ttl : Nat) (now : Int) : Bool :=
  decide (slot.updatedAt + ttl < now)

/-- The service: the rule base, the options of new sessions, the time to live of an idle session,
the sessions in order of creation and the source of new ids. -/
structure Server (σ : Type) where
  rules : RuleBase Double
  options : SessionOptions
  ttl : Nat
  slots : List (Uuid × Slot)
  ids : σ

namespace Server

variable {σ : Type}

/-- A service with no session. -/
def create (rules : RuleBase Double) (options : SessionOptions) (ttl : Nat) (ids : σ) :
    Server σ :=
  ⟨rules, options, ttl, [], ids⟩

/-- The slot of an id, live or not. -/
def slot? (s : Server σ) (id : Uuid) : Option Slot :=
  (s.slots.find? (·.1 == id)).map (·.2)

/-- The session of an id, live or not. -/
def find? (s : Server σ) (id : Uuid) : Option (Session Double) :=
  (s.slot? id).map (·.session)

/-- The slot of an id while it is live at `now`. -/
def live? (s : Server σ) (now : Int) (id : Uuid) : Option Slot :=
  (s.slot? id).filter fun slot => !slot.isExpired s.ttl now

/-- Stores a slot under its id, in place if the id is known, else last. -/
def put (s : Server σ) (id : Uuid) (slot : Slot) : Server σ :=
  if s.slots.any (·.1 == id) then
    { s with slots := s.slots.map fun entry => if entry.1 == id then (id, slot) else entry }
  else { s with slots := s.slots ++ [(id, slot)] }

/-- Drops the slot of an id. -/
def remove (s : Server σ) (id : Uuid) : Server σ :=
  { s with slots := s.slots.filter (·.1 != id) }

/-- Drops every session that has been idle longer than the time to live at `now`. -/
def evictExpired (s : Server σ) (now : Int) : Server σ :=
  { s with slots := s.slots.filter fun entry => !entry.2.isExpired s.ttl now }

section Handlers

variable (F : Framework σ)

/-- The live session a decoded id names. -/
def lookup (s : Server σ) (now : Int) (text : String) : Except ApiError (Uuid × Slot) :=
  match F.parseId text with
  | none => .error (.invalidSessionId text)
  | some id =>
    match s.live? now id with
    | none => .error (.sessionNotFound id)
    | some slot => .ok (id, slot)

/-- Starts a session, with the mode the query asks for. -/
def startSession (s : Server σ) (now : Int) (query : String) : Response × Server σ :=
  match F.queryMode query with
  | .error r => (r, s)
  | .ok mode =>
    let options := { s.options with mode := mode.getD s.options.mode }
    let s := s.evictExpired now
    let (id, ids) := F.newId s.ids
    let session := Session.create s.rules options
    (.json 201 (View.question id session), { s.put id ⟨session, now⟩ with ids })

/-- Records the answer a request carries. -/
def answer (s : Server σ) (now : Int) (text : String) (req : Request) : Response × Server σ :=
  match F.answerBody req with
  | .error r => (r, s)
  | .ok body =>
    match s.lookup F now text with
    | .error e => (e.response, s)
    | .ok (id, slot) =>
      match slot.session.submitAnswer body.course body.value with
      | .error e => ((ApiError.scale e).response, s)
      | .ok (session, _) => (.json 200 (View.question id session), s.put id ⟨session, now⟩)

/-- Drops the session a decoded id names, live or not. -/
def delete (s : Server σ) (text : String) : Response × Server σ :=
  match F.parseId text with
  | none => ((ApiError.invalidSessionId text).response, s)
  | some id =>
    match s.slot? id with
    | none => ((ApiError.sessionNotFound id).response, s)
    | some _ => (.empty 204, s.remove id)

/-- Answers a request on the route it reached. -/
def dispatch (s : Server σ) (now : Int) (route : Route) (req : Request) : Response × Server σ :=
  let withId (raw : String) (k : String → Response × Server σ) : Response × Server σ :=
    match F.pathText raw with
    | .error r => (r, s)
    | .ok text => k text
  match route with
  | .status => (.json 200 (View.status s.rules s.slots.length), s)
  | .catalog => (.json 200 (View.catalog s.rules), s)
  | .sessions => s.startSession F now req.target.queryText
  | .session raw => withId raw fun text => s.delete F text
  | .question raw => withId raw fun text =>
    match s.lookup F now text with
    | .error e => (e.response, s)
    | .ok (id, slot) => (.json 200 (View.question id slot.session), s)
  | .answers raw => withId raw fun text => s.answer F now text req
  | .results raw => withId raw fun text =>
    match s.lookup F now text with
    | .error e => (e.response, s)
    | .ok (id, slot) => (.json 200 (View.results id slot.session), s)
  | .reset raw => withId raw fun text =>
    match s.lookup F now text with
    | .error e => (e.response, s)
    | .ok (id, slot) =>
      let session := slot.session.reset
      (.json 200 (View.question id session), s.put id ⟨session, now⟩)

/-- Answers a request at `now`. -/
def handle (s : Server σ) (now : Int) (req : Request) : Response × Server σ :=
  match F.intercept req with
  | some r => (r, s)
  | none =>
    match F.route req.target.path req.method with
    | .error r => (r, s)
    | .ok route =>
      let (response, s) := s.dispatch F now route req
      (F.finish req.method response, s)

/-- Answers requests in order, each at its clock reading: the responses, and the service after
them. -/
def run (s : Server σ) : List (Int × Request) → List Response × Server σ
  | [] => ([], s)
  | (now, req) :: reqs =>
    let rest := (s.handle F now req).2.run reqs
    ((s.handle F now req).1 :: rest.1, rest.2)

/-- No session has been idle longer than the time to live when a request comes. -/
def Unexpired (s : Server σ) (now : Int) : Prop :=
  ∀ entry ∈ s.slots, entry.2.isExpired s.ttl now = false

/-- No stored session is ever idle longer than the time to live when a request comes, over
requests answered in order. -/
def Attended (s : Server σ) : List (Int × Request) → Prop
  | [] => True
  | (now, req) :: reqs => s.Unexpired now ∧ (s.handle F now req).2.Attended reqs

end Handlers

/-- Replacing every entry of an id leaves the new slot first among them. -/
theorem find?_map_put (entries : List (Uuid × Slot)) (id : Uuid) (slot : Slot)
    (h : entries.any (·.1 == id) = true) :
    ((entries.map fun entry => if entry.1 == id then (id, slot) else entry).find?
      (·.1 == id)).map (·.2) = some slot := by
  induction entries with
  | nil => simp at h
  | cons e rest ih =>
    by_cases he : e.1 = id
    · simp [he]
    · have hb : (e.1 == id) = false := by simpa using he
      simp only [List.any_cons, hb, Bool.false_or] at h
      simp only [List.map_cons, hb, List.find?_cons]
      simpa [hb] using ih h

/-- A stored slot is found under its id. -/
theorem slot?_put (s : Server σ) (id : Uuid) (slot : Slot) : (s.put id slot).slot? id = some slot := by
  unfold put slot?
  split
  · rename_i h
    exact find?_map_put s.slots id slot h
  · rename_i h
    have hnone : s.slots.find? (·.1 == id) = none := by
      rw [List.find?_eq_none]
      intro x hx hxid
      exact h (List.any_eq_true.2 ⟨x, hx, hxid⟩)
    simp [List.find?_append, hnone]

/-- A stored session is found under its id. -/
theorem find?_put (s : Server σ) (id : Uuid) (slot : Slot) :
    (s.put id slot).find? id = some slot.session := by
  simp [find?, slot?_put]

end Server

end Web

end CareerCompass
