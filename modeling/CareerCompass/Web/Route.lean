/-!
# Routes of the service

Requests are routed on their path as sent, still percent-encoded, without the query:

| path | methods |
|---|---|
| `/status` | GET |
| `/catalog` | GET |
| `/sessions` | POST |
| `/sessions/{id}` | DELETE |
| `/sessions/{id}/question` | GET |
| `/sessions/{id}/answers` | POST |
| `/sessions/{id}/results` | GET |
| `/sessions/{id}/reset` | POST |

An `{id}` is one segment. It may be empty before a further segment (`/sessions//question`), not
at the end of the path. Paths match exactly otherwise: no trailing slash, no other empty segment,
and letter case counts. A route answering GET answers HEAD too.

Main statements: `ofPath?_path` (every route is read back from the path it is written as) and
`allows_iff`.
-/

namespace CareerCompass

namespace Web

/-- A route, with the raw id segment of the session routes. -/
inductive Route where
  | status
  | catalog
  | sessions
  | session (id : String)
  | question (id : String)
  | answers (id : String)
  | results (id : String)
  | reset (id : String)
deriving DecidableEq, Repr

namespace Route

/-- The route of a path, if any. -/
def ofPath? (path : String) : Option Route :=
  let segment (cs : List Char) : String := String.ofList cs
  match path.toList.splitOn '/' with
  | [[], ['s', 't', 'a', 't', 'u', 's']] => some .status
  | [[], ['c', 'a', 't', 'a', 'l', 'o', 'g']] => some .catalog
  | [[], ['s', 'e', 's', 's', 'i', 'o', 'n', 's']] => some .sessions
  | [[], ['s', 'e', 's', 's', 'i', 'o', 'n', 's'], id] =>
    if id.isEmpty then none else some (.session (segment id))
  | [[], ['s', 'e', 's', 's', 'i', 'o', 'n', 's'], id, action] =>
    match segment action with
    | "question" => some (.question (segment id))
    | "answers" => some (.answers (segment id))
    | "results" => some (.results (segment id))
    | "reset" => some (.reset (segment id))
    | _ => none
  | _ => none

/-- The one method a route is written for. -/
def method : Route → String
  | .status | .catalog | .question _ | .results _ => "GET"
  | .sessions | .answers _ | .reset _ => "POST"
  | .session _ => "DELETE"

/-- Whether a route answers a method: its own, and HEAD where that is GET. -/
def allows (r : Route) (m : String) : Bool :=
  m == r.method || (m == "HEAD" && r.method == "GET")

theorem allows_iff {r : Route} {m : String} :
    r.allows m = true ↔ m = r.method ∨ (m = "HEAD" ∧ r.method = "GET") := by
  simp [allows]

/-- The segments of a route's path after its leading `/`. -/
def segments : Route → List String
  | .status => ["status"]
  | .catalog => ["catalog"]
  | .sessions => ["sessions"]
  | .session id => ["sessions", id]
  | .question id => ["sessions", id, "question"]
  | .answers id => ["sessions", id, "answers"]
  | .results id => ["sessions", id, "results"]
  | .reset id => ["sessions", id, "reset"]

/-- The path a route is written as. -/
def path (r : Route) : String :=
  String.ofList (['/'].intercalate ([] :: r.segments.map String.toList))

/-- Whether a route's path reads back as the route: its id segment holds no `/`, and a session's
own is not empty. -/
def Writable : Route → Prop
  | .status | .catalog | .sessions => True
  | .session id => '/' ∉ id.toList ∧ id ≠ ""
  | .question id | .answers id | .results id | .reset id => '/' ∉ id.toList

theorem path_splitOn {r : Route} (noSlash : ∀ segment ∈ r.segments, '/' ∉ segment.toList) :
    r.path.toList.splitOn '/' = [] :: r.segments.map String.toList := by
  rw [path, String.toList_ofList, List.splitOn_intercalate]
  · intro l member
    simp only [List.mem_cons, List.mem_map] at member
    rcases member with rfl | ⟨segment, listed, rfl⟩
    · simp
    · exact noSlash segment listed
  · simp

/-- **The router reads every route back from its path.** -/
theorem ofPath?_path (r : Route) (writable : r.Writable) : ofPath? r.path = some r := by
  cases r with
  | status | catalog | sessions =>
    rw [ofPath?, path_splitOn (by simp [segments])]
    rfl
  | session id =>
    obtain ⟨noSlash, nonempty⟩ := writable
    rw [ofPath?, path_splitOn (by simp [segments, noSlash])]
    simp [segments, nonempty]
  | question id | answers id | results id | reset id =>
    have noSlash : '/' ∉ id.toList := writable
    rw [ofPath?, path_splitOn (by simp [segments, noSlash])]
    simp [segments]

example : ofPath? "/sessions/abc/question" = some (.question "abc") := by decide

end Route

end Web

end CareerCompass
