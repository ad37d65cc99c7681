import CareerCompass.RuleBase.Standard
import CareerCompass.Web.Server
import CareerCompass.Web.Standard
import Mathlib.Logic.Function.Basic
/-!
# The session store is a map of independent sessions

The service keeps its sessions in a list of id–slot pairs. Read through `find?`, that list is a
map from ids: storing a session under an id changes that id alone (`find?_put_eq`), and so does
dropping one (`find?_remove_eq`), whether or not the id was there before.

`Reference` is the map the service is measured against, for any `Framework` that keeps its laws.
It changes only when a request is accepted: a new session (201) opens under the next id, a
deletion (204) drops the session its path names, and an answer or a reset (200) moves the session
its path names by `submitAnswer` or `reset`. Nothing else changes it: reads, refusals by the
router or an extractor, 404 and 422 answers of the handlers, and requests about other ids.

Two conditions of the run carry the refinement. No session is idle longer than the time to live
when a request comes (`Server.Attended`), so no session expires or is evicted; it holds whenever
all requests come within the time to live of the start (`attended_of_window`). The ids drawn are
distinct, so a new session never lands on a held id (`Reference.Drawn`).

* `handle_refines`: one request moves the service as it moves the reference, and every view its
  response carries is the view of the reference session it names.
* `store_refines_sessions`: hence, after any requests from an empty service, the sessions found
  under each id are those of the reference replayed over the requests and the statuses they got;
  every creation shows a new id that held no session, and every question and results body shows
  the reference session at that point.
-/

namespace CareerCompass

namespace Web

namespace Server

variable {σ : Type}

/-! ### The store as a map -/

theorem find?_map_put_of_ne (entries : List (Uuid × Slot)) {id other : Uuid} (slot : Slot)
    (apart : other ≠ id) :
    ((entries.map fun entry => if entry.1 == id then (id, slot) else entry).find?
      (·.1 == other)).map (·.2) = (entries.find? (·.1 == other)).map (·.2) := by
  induction entries with
  | nil => rfl
  | cons e rest ih =>
    rw [List.map_cons, List.find?_cons, List.find?_cons]
    by_cases same : e.1 = id
    · -- the entry replaced and the one it replaces are both under `id`, not `other`
      have replaced : (if e.1 == id then (id, slot) else e) = (id, slot) := by simp [same]
      have skipped : (e.1 == other) = false := by simpa [same] using Ne.symm apart
      have replacedSkipped : ((id, slot).1 == other) = false := by simpa using Ne.symm apart
      rw [replaced, replacedSkipped, skipped]
      exact ih
    · have kept : (if e.1 == id then (id, slot) else e) = e := by simp [same]
      rw [kept]
      cases e.1 == other
      · exact ih
      · rfl

/-- Storing a slot changes what its id finds, and nothing else. -/
theorem slot?_put_eq (s : Server σ) (id : Uuid) (slot : Slot) :
    (s.put id slot).slot? = Function.update s.slot? id (some slot) := by
  funext other
  by_cases same : other = id
  · rw [same, Function.update_self, slot?_put]
  · rw [Function.update_of_ne same]
    unfold put slot?
    split
    · exact find?_map_put_of_ne _ slot same
    · have missed : (id == other) = false := by simpa using Ne.symm same
      simp [List.find?_append, missed]

/-- Dropping a slot leaves its id finding nothing, and every other id as it was. -/
theorem slot?_remove_eq (s : Server σ) (id : Uuid) :
    (s.remove id).slot? = Function.update s.slot? id none := by
  funext other
  unfold remove slot?
  rw [List.find?_filter]
  by_cases same : other = id
  · rw [same, Function.update_self, Option.map_eq_none_iff, List.find?_eq_none]
    intro e _ both
    simp at both
  · rw [Function.update_of_ne same]
    congr 2
    funext e
    by_cases found : e.1 = other
    · simp [found, same]
    · simp [found]

/-- The sessions found follow the slots found. -/
theorem find?_eq_of_slot? {s t : Server σ} {id : Uuid} {found : Option Slot}
    (slots : t.slot? = Function.update s.slot? id found) :
    t.find? = Function.update s.find? id (found.map (·.session)) := by
  funext other
  simp only [find?, slots]
  by_cases same : other = id
  · subst same
    simp
  · simp [Function.update_of_ne same, find?]

theorem find?_put_eq (s : Server σ) (id : Uuid) (slot : Slot) :
    (s.put id slot).find? = Function.update s.find? id (some slot.session) :=
  find?_eq_of_slot? (slot?_put_eq s id slot)

theorem find?_remove_eq (s : Server σ) (id : Uuid) :
    (s.remove id).find? = Function.update s.find? id none :=
  find?_eq_of_slot? (slot?_remove_eq s id)

/-- The sessions found do not depend on the source of ids. -/
@[simp] theorem find?_with_ids {τ : Type} (s : Server σ) (ids : τ) :
    ({ s with ids } : Server τ).find? = s.find? := rfl

@[simp] theorem put_rules (s : Server σ) (id : Uuid) (slot : Slot) :
    (s.put id slot).rules = s.rules := by
  unfold put; split <;> rfl

@[simp] theorem put_options (s : Server σ) (id : Uuid) (slot : Slot) :
    (s.put id slot).options = s.options := by
  unfold put; split <;> rfl

@[simp] theorem put_ttl (s : Server σ) (id : Uuid) (slot : Slot) :
    (s.put id slot).ttl = s.ttl := by
  unfold put; split <;> rfl

@[simp] theorem put_ids (s : Server σ) (id : Uuid) (slot : Slot) :
    (s.put id slot).ids = s.ids := by
  unfold put; split <;> rfl

/-- A slot found is an entry of the store. -/
theorem mem_of_slot? {s : Server σ} {id : Uuid} {slot : Slot} (found : s.slot? id = some slot) :
    (id, slot) ∈ s.slots := by
  obtain ⟨entry, hit, rfl⟩ := Option.map_eq_some_iff.1 found
  have same : entry.1 = id := by simpa using List.find?_some hit
  rw [← same]
  exact List.mem_of_find?_eq_some hit

/-- An entry of the store after a put is an old one or the one put. -/
theorem mem_put {s : Server σ} {id : Uuid} {slot : Slot} {entry : Uuid × Slot}
    (member : entry ∈ (s.put id slot).slots) : entry ∈ s.slots ∨ entry = (id, slot) := by
  unfold put at member
  split at member
  · obtain ⟨old, listed, rfl⟩ := List.mem_map.1 member
    by_cases same : old.1 = id
    · exact .inr (by simp [same])
    · exact .inl (by simpa [same] using listed)
  · simpa using member

/-! ### Idle sessions -/

section Idle

variable {s : Server σ} {now : Int}

/-- With no session idle too long, every session found is live. -/
theorem live?_of_unexpired (fresh : s.Unexpired now) : s.live? now = s.slot? := by
  funext id
  unfold live?
  cases found : s.slot? id with
  | none => rfl
  | some slot => simp [fresh _ (mem_of_slot? found)]

/-- With no session idle too long, eviction drops nothing. -/
theorem evictExpired_of_unexpired (fresh : s.Unexpired now) : s.evictExpired now = s := by
  unfold evictExpired
  rw [List.filter_eq_self.2 fun entry member => by simp [fresh entry member]]

/-- Every session was last changed at `start` or later. -/
def StampedSince (s : Server σ) (start : Int) : Prop :=
  ∀ entry ∈ s.slots, start ≤ entry.2.updatedAt

/-- A session changed at `start` or later is not idle too long by `start + ttl`. -/
theorem unexpired_of_stampedSince {start : Int} (stamped : s.StampedSince start)
    (within : now ≤ start + s.ttl) : s.Unexpired now := by
  intro entry member
  have since := stamped entry member
  simp only [Slot.isExpired, decide_eq_false_iff_not, Int.not_lt]
  omega

theorem StampedSince.put {start : Int} (stamped : s.StampedSince start) (id : Uuid) {slot : Slot}
    (late : start ≤ slot.updatedAt) : (s.put id slot).StampedSince start := by
  intro entry member
  rcases mem_put member with old | rfl
  · exact stamped entry old
  · exact late

theorem StampedSince.filter {start : Int} (stamped : s.StampedSince start) (keep : Uuid × Slot → Bool) :
    ({ s with slots := s.slots.filter keep } : Server σ).StampedSince start :=
  fun entry member => stamped entry (List.mem_filter.1 member).1

end Idle

/-! ### Reading an id segment -/

/-- The id a raw segment names: read as text by the framework, then as a UUID. -/
def idOf (F : Framework σ) (raw : String) : Option Uuid :=
  match F.pathText raw with
  | .ok text => F.parseId text
  | .error _ => none

theorem idOf_of_pathText {F : Framework σ} {raw text : String} (read : F.pathText raw = .ok text) :
    idOf F raw = F.parseId text := by
  simp [idOf, read]

theorem lookup_ok {F : Framework σ} {s : Server σ} {now : Int} {text : String} {id : Uuid}
    {slot : Slot} (fresh : s.Unexpired now) (found : s.lookup F now text = .ok (id, slot)) :
    F.parseId text = some id ∧ s.find? id = some slot.session := by
  unfold lookup at found
  rw [live?_of_unexpired fresh] at found
  split at found
  · cases found
  · rename_i parsed
    split at found
    · cases found
    · rename_i hit
      cases found
      exact ⟨parsed, by simp [find?, hit]⟩

end Server

/-! ### The reference -/

/-- What the service is measured against: the rule base and options of new sessions, the
sessions as a map from ids, and the source of new ids. -/
structure Reference (σ : Type) where
  rules : RuleBase Double
  options : SessionOptions
  store : Uuid → Option (Session Double)
  ids : σ

namespace Reference

variable {σ : Type} (F : Framework σ)

/-- The options of a session started with a query: the mode it names, if any. -/
def queryOptions (options : SessionOptions) (query : String) : SessionOptions :=
  { options with
    mode := match F.queryMode query with
      | .ok mode => mode.getD options.mode
      | .error _ => options.mode }

/-- The session a creation request opens. -/
def opened (ref : Reference σ) (req : Request) : Session Double :=
  Session.create ref.rules (queryOptions F ref.options req.target.queryText)

/-- A session after the answer a request carries; a request that carries none leaves it. -/
def submitted (session : Session Double) (req : Request) : Session Double :=
  match F.answerBody req with
  | .error _ => session
  | .ok answer =>
    match session.submitAnswer answer.course answer.value with
    | .ok (next, _) => next
    | .error _ => session

/-- Opens a session under the next id. -/
def open_ (ref : Reference σ) (session : Session Double) : Reference σ :=
  { ref with
    store := Function.update ref.store (F.newId ref.ids).1 (some session)
    ids := (F.newId ref.ids).2 }

/-- Moves the session an id names. -/
def change (ref : Reference σ) (id : Option Uuid) (f : Session Double → Session Double) :
    Reference σ :=
  match id with
  | some id => { ref with store := Function.update ref.store id ((ref.store id).map f) }
  | none => ref

/-- Drops the session an id names. -/
def close (ref : Reference σ) (id : Option Uuid) : Reference σ :=
  match id with
  | some id => { ref with store := Function.update ref.store id none }
  | none => ref

/-- The reference after a request answered with a status: only a 201 creation, a 204 deletion
and a 200 answer or reset move it. -/
def step (ref : Reference σ) (req : Request) (status : Nat) : Reference σ :=
  match F.route req.target.path req.method with
  | .ok .sessions =>
    if req.method = "POST" ∧ status = 201 then ref.open_ F (ref.opened F req) else ref
  | .ok (.session raw) =>
    if req.method = "DELETE" ∧ status = 204 then ref.close (Server.idOf F raw) else ref
  | .ok (.answers raw) =>
    if req.method = "POST" ∧ status = 200 then
      ref.change (Server.idOf F raw) (submitted F · req)
    else ref
  | .ok (.reset raw) =>
    if req.method = "POST" ∧ status = 200 then ref.change (Server.idOf F raw) Session.reset
    else ref
  | _ => ref

/-- A body is a view of the session a raw id names. -/
def Names (ref : Reference σ) (raw : String) (view : Uuid → Session Double → JsonValue)
    (body : String) : Prop :=
  ∃ id session, Server.idOf F raw = some id ∧ ref.store id = some session ∧
    body = (view id session).render

/-- What a response shows of the reference it moves: a creation, the view of the session it opens
under a new id that held none; every other view, that of the session its path names, as the
request leaves it. -/
def shows (ref : Reference σ) (req : Request) (resp : Response) : Prop :=
  match F.route req.target.path req.method with
  | .ok .sessions => req.method = "POST" → resp.status = 201 →
    ref.store (F.newId ref.ids).1 = none ∧
      resp.body = (View.question (F.newId ref.ids).1 (ref.opened F req)).render
  | .ok (.question raw) => req.method = "GET" → resp.status = 200 →
    (ref.step F req resp.status).Names F raw View.question resp.body
  | .ok (.answers raw) | .ok (.reset raw) => req.method = "POST" → resp.status = 200 →
    (ref.step F req resp.status).Names F raw View.question resp.body
  | .ok (.results raw) => req.method = "GET" → resp.status = 200 →
    (ref.step F req resp.status).Names F raw View.results resp.body
  | _ => True

/-- The reference after requests answered in order. -/
def replay (ref : Reference σ) : List (Request × Response) → Reference σ
  | [] => ref
  | (req, resp) :: rest => (ref.step F req resp.status).replay rest

/-- Every response shows the reference it moves. -/
def showsAll (ref : Reference σ) : List (Request × Response) → Prop
  | [] => True
  | (req, resp) :: rest => ref.shows F req resp ∧ (ref.step F req resp.status).showsAll rest

/-- A request moves the reference in one of four ways. -/
theorem step_cases (ref : Reference σ) (req : Request) (status : Nat) :
    ref.step F req status = ref ∨ ref.step F req status = ref.open_ F (ref.opened F req) ∨
      (∃ id f, ref.step F req status = ref.change id f) ∨
      ∃ id, ref.step F req status = ref.close id := by
  unfold step
  split
  · split
    · exact .inr (.inl rfl)
    · exact .inl rfl
  · split
    · exact .inr (.inr (.inr ⟨_, rfl⟩))
    · exact .inl rfl
  · split
    · exact .inr (.inr (.inl ⟨_, _, rfl⟩))
    · exact .inl rfl
  · split
    · exact .inr (.inr (.inl ⟨_, _, rfl⟩))
    · exact .inl rfl
  · exact .inl rfl

/-! ### Requests that leave the reference -/

section Unmoved

variable (ref : Reference σ) (req : Request)

theorem step_of_status {status : Nat} (h200 : status ≠ 200) (h201 : status ≠ 201)
    (h204 : status ≠ 204) : ref.step F req status = ref := by
  unfold step
  split <;> simp [*]

theorem step_of_method (status : Nat) (hPost : req.method ≠ "POST")
    (hDelete : req.method ≠ "DELETE") : ref.step F req status = ref := by
  unfold step
  split <;> simp [*]

/-- A route that reads moves nothing, whatever its answer. -/
theorem step_of_reads (status : Nat) {r : Route}
    (routed : F.route req.target.path req.method = .ok r) (reads : r.method = "GET") :
    ref.step F req status = ref := by
  unfold step
  rw [routed]
  cases r <;> simp [Route.method] at reads ⊢

theorem shows_of_status {resp : Response} (h200 : resp.status ≠ 200) (h201 : resp.status ≠ 201) :
    ref.shows F req resp := by
  unfold shows
  split <;> simp [*]

theorem shows_of_method (resp : Response) (hGet : req.method ≠ "GET")
    (hPost : req.method ≠ "POST") : ref.shows F req resp := by
  unfold shows
  split <;> simp [*]

/-- The view a read answers with is that of the session its path names. -/
theorem shows_of_view {raw : String} {r : Route} {view : Uuid → Session Double → JsonValue}
    (routed : F.route req.target.path req.method = .ok r)
    (which : (r = .question raw ∧ view = View.question) ∨ (r = .results raw ∧ view = View.results))
    {resp : Response} (names : ref.Names F raw view resp.body) : ref.shows F req resp := by
  have reads : r.method = "GET" := by rcases which with ⟨rfl, -⟩ | ⟨rfl, -⟩ <;> rfl
  unfold shows
  rw [routed, step_of_reads F ref req _ routed reads]
  rcases which with ⟨rfl, rfl⟩ | ⟨rfl, rfl⟩ <;> exact fun _ _ => names

theorem step_of_refused (status : Nat) {r : Response}
    (refused : F.route req.target.path req.method = .error r) : ref.step F req status = ref := by
  simp [step, refused]

theorem shows_of_refused (resp : Response) {r : Response}
    (refused : F.route req.target.path req.method = .error r) : ref.shows F req resp := by
  simp [shows, refused]

end Unmoved

/-! ### Fresh ids -/

/-- The reference has drawn `k` ids from `ids₀`, and every session it holds is under one of them. -/
structure Drawn (ids₀ : σ) (k : Nat) (ref : Reference σ) : Prop where
  ids : ref.ids = F.advance ids₀ k
  keys : ∀ id, ref.store id ≠ none → ∃ i < k, F.draw ids₀ i = id

section Drawn

variable {F} {ids₀ : σ} {k : Nat} {ref : Reference σ}

/-- The next id differs from every id drawn before it, so it holds no session. -/
theorem Drawn.free (drawn : ref.Drawn F ids₀ k)
    (distinct : ∀ i < k, F.draw ids₀ i ≠ F.draw ids₀ k) : ref.store (F.newId ref.ids).1 = none := by
  by_contra held
  obtain ⟨i, earlier, same⟩ := drawn.keys _ held
  have next : (F.newId ref.ids).1 = F.draw ids₀ k := by rw [drawn.ids]; rfl
  exact distinct i earlier (same.trans next)

theorem Drawn.open_ (drawn : ref.Drawn F ids₀ k) (session : Session Double) :
    (ref.open_ F session).Drawn F ids₀ (k + 1) where
  ids := by rw [Reference.open_, drawn.ids]; rfl
  keys id held := by
    by_cases new : id = (F.newId ref.ids).1
    · refine ⟨k, Nat.lt_succ_self k, ?_⟩
      rw [new, drawn.ids]
      rfl
    · have old : ref.store id ≠ none := by
        simpa [Reference.open_, Function.update_of_ne new] using held
      obtain ⟨i, earlier, same⟩ := drawn.keys id old
      exact ⟨i, Nat.lt_succ_of_lt earlier, same⟩

theorem Drawn.change (drawn : ref.Drawn F ids₀ k) (id : Option Uuid)
    (f : Session Double → Session Double) : (ref.change id f).Drawn F ids₀ k := by
  cases id with
  | none => exact drawn
  | some id =>
    refine ⟨drawn.ids, fun other held => drawn.keys other fun gone => held ?_⟩
    by_cases same : other = id
    · subst same
      simp [Reference.change, gone]
    · simpa [Reference.change, Function.update_of_ne same] using gone

theorem Drawn.close (drawn : ref.Drawn F ids₀ k) (id : Option Uuid) :
    (ref.close id).Drawn F ids₀ k := by
  cases id with
  | none => exact drawn
  | some id =>
    refine ⟨drawn.ids, fun other held => drawn.keys other fun gone => held ?_⟩
    by_cases same : other = id
    · simp [Reference.close, same]
    · simpa [Reference.close, Function.update_of_ne same] using gone

/-- A request draws at most one id, and keeps every session under a drawn one. -/
theorem Drawn.step (drawn : ref.Drawn F ids₀ k) (req : Request) (status : Nat) :
    ∃ k' ≤ k + 1, (ref.step F req status).Drawn F ids₀ k' := by
  rcases step_cases F ref req status with same | opened | ⟨id, f, changed⟩ | ⟨id, closed⟩
  · exact ⟨k, Nat.le_succ k, by rw [same]; exact drawn⟩
  · exact ⟨k + 1, Nat.le_refl _, by rw [opened]; exact drawn.open_ _⟩
  · exact ⟨k, Nat.le_succ k, by rw [changed]; exact drawn.change id f⟩
  · exact ⟨k, Nat.le_succ k, by rw [closed]; exact drawn.close id⟩

end Drawn

end Reference

namespace Server

variable {σ : Type} (F : Framework σ)

/-! ### The service against the reference -/

/-- A service stands for a reference: the same rules, options and source of ids, and the same
session under every id. -/
structure Represents (s : Server σ) (ref : Reference σ) : Prop where
  rules : s.rules = ref.rules
  options : s.options = ref.options
  store : s.find? = ref.store
  ids : s.ids = ref.ids

/-- A response and the service after it stand for the reference after that response. -/
def Refines (ref : Reference σ) (req : Request) (answer : Response × Server σ) : Prop :=
  Represents answer.2 (ref.step F req answer.1.status) ∧ ref.shows F req answer.1

section Moves

variable {F} {s : Server σ} {ref : Reference σ}

theorem Represents.put (agree : Represents s ref) (id : Uuid) (slot : Slot) :
    Represents (s.put id slot)
      { ref with store := Function.update ref.store id (some slot.session) } where
  rules := by rw [put_rules, agree.rules]
  options := by rw [put_options, agree.options]
  store := by rw [find?_put_eq, agree.store]
  ids := by rw [put_ids, agree.ids]

theorem Represents.change (agree : Represents s ref) {id : Uuid} {session : Session Double}
    (found : s.find? id = some session) (f : Session Double → Session Double) (now : Int) :
    Represents (s.put id ⟨f session, now⟩) (ref.change (some id) f) := by
  have stored : ref.store id = some session := agree.store ▸ found
  simpa [Reference.change, stored] using agree.put id ⟨f session, now⟩

theorem Represents.remove (agree : Represents s ref) (id : Uuid) :
    Represents (s.remove id) (ref.close (some id)) where
  rules := agree.rules
  options := agree.options
  store := by rw [find?_remove_eq, agree.store]; rfl
  ids := agree.ids

theorem Represents.open_ (agree : Represents s ref) {now : Int} (fresh : s.Unexpired now)
    (session : Session Double) :
    Represents
      { (s.evictExpired now).put (F.newId (s.evictExpired now).ids).1 ⟨session, now⟩ with
        ids := (F.newId (s.evictExpired now).ids).2 }
      (ref.open_ F session) := by
  rw [evictExpired_of_unexpired fresh]
  exact
    { rules := by simp [agree.rules, Reference.open_]
      options := by simp [agree.options, Reference.open_]
      store := by rw [find?_with_ids, find?_put_eq, agree.store, agree.ids, Reference.open_]
      ids := by simp [agree.ids, Reference.open_] }

theorem Represents.names (agree : Represents s ref) {raw : String} {id : Uuid}
    {session : Session Double} (named : idOf F raw = some id) (found : s.find? id = some session)
    (view : Uuid → Session Double → JsonValue) : ref.Names F raw view (view id session).render :=
  ⟨id, session, named, agree.store ▸ found, rfl⟩

variable {req : Request}

/-- A request refused with a client error changes nothing, and shows no view. -/
theorem refines_of_refused (agree : Represents s ref) {resp : Response}
    (refused : resp.IsClientError) : Refines F ref req (resp, s) := by
  obtain ⟨h200, h201, h204⟩ := refused.ne_of_accepted
  rw [Refines, Reference.step_of_status F ref req h200 h201 h204]
  exact ⟨agree, Reference.shows_of_status F ref req h200 h201⟩

theorem refines_of_unmoved (agree : Represents s ref) {resp : Response}
    (unmoved : ref.step F req resp.status = ref) (shown : ref.shows F req resp) :
    Refines F ref req (resp, s) := by
  rw [Refines, unmoved]
  exact ⟨agree, shown⟩

end Moves

/-! ### How a request reaches its handler -/

section Handle

variable (s : Server σ) (now : Int) {req : Request}

theorem handle_of_intercepted {r : Response} (hit : F.intercept req = some r) :
    s.handle F now req = (r, s) := by
  simp [handle, hit]

theorem handle_of_refused {r : Response} (passed : F.intercept req = none)
    (refused : F.route req.target.path req.method = .error r) : s.handle F now req = (r, s) := by
  simp [handle, passed, refused]

theorem handle_of_routed {r : Route} (passed : F.intercept req = none)
    (routed : F.route req.target.path req.method = .ok r) :
    s.handle F now req =
      (F.finish req.method (s.dispatch F now r req).1, (s.dispatch F now r req).2) := by
  simp [handle, passed, routed]

/-- A route that reads leaves the service as it was. -/
theorem dispatch_of_reads {r : Route} (reads : r.method = "GET") (req : Request) :
    (s.dispatch F now r req).2 = s := by
  cases r with
  | status | catalog => rfl
  | question raw | results raw =>
    simp only [dispatch]
    split
    · rfl
    · split <;> rfl
  | sessions | session _ | answers _ | reset _ => simp [Route.method] at reads

end Handle

/-! ### Each route against the reference -/

section Routes

variable {F} {s : Server σ} {ref : Reference σ} {req : Request} {now : Int}

/-- A creation opens the reference session under the next id, which held none. -/
theorem startSession_refines (lawful : F.Lawful) (agree : Represents s ref)
    (fresh : s.Unexpired now) (free : ref.store (F.newId ref.ids).1 = none)
    (routed : F.route req.target.path req.method = .ok .sessions) (post : req.method = "POST") :
    Refines F ref req (s.startSession F now req.target.queryText) := by
  unfold startSession
  cases read : F.queryMode req.target.queryText with
  | error r => exact refines_of_refused agree (lawful.queryMode_refuses _ _ read)
  | ok mode =>
    dsimp only
    have options : { s.options with mode := mode.getD s.options.mode } =
        Reference.queryOptions F ref.options req.target.queryText := by
      simp [Reference.queryOptions, read, agree.options]
    have opened : ref.step F req 201 = ref.open_ F (ref.opened F req) := by
      rw [Reference.step, routed]
      simp [post]
    have moved : Represents _ (ref.open_ F (ref.opened F req)) := agree.open_ fresh _
    rw [evictExpired_of_unexpired fresh] at moved ⊢
    rw [options, agree.rules]
    refine ⟨by rw [Response.json, opened]; exact moved, ?_⟩
    unfold Reference.shows
    rw [routed]
    intro _ _
    exact ⟨free, by rw [agree.ids]; rfl⟩

/-- A session route refuses an id segment it cannot read, and otherwise answers as `k` does on
the text. -/
theorem withId_refines (lawful : F.Lawful) (agree : Represents s ref) (raw : String)
    (k : String → Response × Server σ)
    (accepted : ∀ {text}, F.pathText raw = .ok text → Refines F ref req (k text))
    {answer : Response × Server σ}
    (answered : answer = match F.pathText raw with
      | .error r => (r, s)
      | .ok text => k text) :
    Refines F ref req answer := by
  subst answered
  cases read : F.pathText raw with
  | error r => exact refines_of_refused agree (lawful.pathText_refuses _ _ read)
  | ok text => exact accepted read

/-- A lookup refuses an id that is not a UUID or names no live session, and otherwise answers
about the session found. -/
theorem lookup_refines (agree : Represents s ref) (fresh : s.Unexpired now) {raw text : String}
    (read : F.pathText raw = .ok text) (k : Uuid → Slot → Response × Server σ)
    (accepted : ∀ {id slot}, idOf F raw = some id → s.find? id = some slot.session →
      Refines F ref req (k id slot))
    {answer : Response × Server σ}
    (answered : answer = match s.lookup F now text with
      | .error e => (e.response, s)
      | .ok (id, slot) => k id slot) :
    Refines F ref req answer := by
  subst answered
  cases found : s.lookup F now text with
  | error e => exact refines_of_refused agree e.response_isClientError
  | ok hit =>
    obtain ⟨id, slot⟩ := hit
    obtain ⟨parsed, hit⟩ := lookup_ok fresh found
    exact accepted (by rw [idOf_of_pathText read, parsed]) hit

/-- A deletion drops the reference session its path names. -/
theorem delete_refines (lawful : F.Lawful) (agree : Represents s ref) {raw : String}
    (routed : F.route req.target.path req.method = .ok (.session raw)) (deletes : req.method = "DELETE") :
    Refines F ref req (s.dispatch F now (.session raw) req) := by
  refine withId_refines lawful agree raw (s.delete F) ?_ rfl
  intro text read
  unfold delete
  cases parsed : F.parseId text with
  | none => exact refines_of_refused agree (ApiError.response_isClientError _)
  | some id =>
    dsimp only
    cases s.slot? id with
    | none => exact refines_of_refused agree (ApiError.response_isClientError _)
    | some _ =>
      have closed : ref.step F req 204 = ref.close (some id) := by
        rw [Reference.step, routed]
        simp [deletes, idOf_of_pathText read, parsed]
      simp only [Refines, Response.empty, closed]
      refine ⟨agree.remove id, ?_⟩
      unfold Reference.shows
      rw [routed]
      trivial

/-- A question or results view shows the reference session its path names. -/
theorem view_refines (lawful : F.Lawful) (agree : Represents s ref) (fresh : s.Unexpired now)
    {raw : String} {r : Route} (routed : F.route req.target.path req.method = .ok r)
    (reads : r.method = "GET") (view : Uuid → Session Double → JsonValue)
    (shown : ∀ {resp : Response}, ref.Names F raw view resp.body → ref.shows F req resp)
    {answer : Response × Server σ}
    (answered : answer = match F.pathText raw with
      | .error r => (r, s)
      | .ok text =>
        match s.lookup F now text with
        | .error e => (e.response, s)
        | .ok (id, slot) => (.json 200 (view id slot.session), s)) :
    Refines F ref req answer := by
  refine withId_refines lawful agree raw _ (fun read => ?_) answered
  refine lookup_refines agree fresh read (fun id slot => (.json 200 (view id slot.session), s))
    (fun named found => ?_) rfl
  exact refines_of_unmoved agree (Reference.step_of_reads F ref req _ routed reads)
    (shown (agree.names named found view))

/-- Storing a moved session under the id its path names moves the reference alike, and the
question view shows the moved session. -/
theorem put_refines (agree : Represents s ref) {raw : String} {id : Uuid}
    {session : Session Double} (named : idOf F raw = some id) (found : s.find? id = some session)
    (f : Session Double → Session Double)
    (changed : ref.step F req 200 = ref.change (some id) f)
    (shown : ∀ {resp : Response},
      (ref.step F req resp.status).Names F raw View.question resp.body → ref.shows F req resp) :
    Refines F ref req (.json 200 (View.question id (f session)), s.put id ⟨f session, now⟩) := by
  have moved := agree.change found f now
  refine ⟨by rw [Response.json, changed]; exact moved, shown ?_⟩
  rw [Response.json, changed]
  exact moved.names named (find?_put s id _) View.question

/-- The views of answers and resets show the reference session after the request. -/
theorem shows_of_moves {raw : String} {r : Route} (routed : F.route req.target.path req.method = .ok r)
    (moves : r = .answers raw ∨ r = .reset raw) {resp : Response}
    (names : (ref.step F req resp.status).Names F raw View.question resp.body) :
    ref.shows F req resp := by
  unfold Reference.shows
  rw [routed]
  rcases moves with rfl | rfl <;> exact fun _ _ => names

/-- A reset moves the reference session its path names to a fresh one. -/
theorem reset_refines (lawful : F.Lawful) (agree : Represents s ref) (fresh : s.Unexpired now)
    {raw : String} (routed : F.route req.target.path req.method = .ok (.reset raw))
    (post : req.method = "POST") :
    Refines F ref req (s.dispatch F now (.reset raw) req) := by
  refine withId_refines lawful agree raw _ (fun read => ?_) rfl
  refine lookup_refines agree fresh read
    (fun id slot => (.json 200 (View.question id slot.session.reset),
      s.put id ⟨slot.session.reset, now⟩)) (fun {id slot} named found => ?_) rfl
  have changed : ref.step F req 200 = ref.change (some id) Session.reset := by
    rw [Reference.step, routed]
    simp [post, named]
  exact put_refines agree named found Session.reset changed
    (shows_of_moves routed (.inr rfl))

/-- An accepted answer moves the reference session its path names by that answer; a refused one
moves nothing. -/
theorem answer_refines (lawful : F.Lawful) (agree : Represents s ref) (fresh : s.Unexpired now)
    {raw text : String} (routed : F.route req.target.path req.method = .ok (.answers raw))
    (post : req.method = "POST") (read : F.pathText raw = .ok text) :
    Refines F ref req (s.answer F now text req) := by
  unfold answer
  cases decoded : F.answerBody req with
  | error r => exact refines_of_refused agree (lawful.answerBody_refuses _ _ decoded)
  | ok body =>
    dsimp only
    cases found : s.lookup F now text with
    | error e => exact refines_of_refused agree e.response_isClientError
    | ok hit =>
      obtain ⟨id, slot⟩ := hit
      obtain ⟨parsed, hit⟩ := lookup_ok fresh found
      have named : idOf F raw = some id := by rw [idOf_of_pathText read, parsed]
      dsimp only
      cases moved : slot.session.submitAnswer body.course body.value with
      | error e => exact refines_of_refused agree (ApiError.response_isClientError _)
      | ok result =>
        obtain ⟨next, _⟩ := result
        dsimp only
        have stepped : Reference.submitted F slot.session req = next := by
          simp [Reference.submitted, decoded, moved]
        have changed :
            ref.step F req 200 = ref.change (some id) (Reference.submitted F · req) := by
          rw [Reference.step, routed]
          simp [post, named]
        rw [← stepped]
        exact put_refines agree named hit (Reference.submitted F · req) changed
          (shows_of_moves routed (.inl rfl))

/-- Every route reached by its own method moves the service as it moves the reference. -/
theorem dispatch_refines (lawful : F.Lawful) (agree : Represents s ref) (fresh : s.Unexpired now)
    (free : ref.store (F.newId ref.ids).1 = none) {r : Route}
    (routed : F.route req.target.path req.method = .ok r) (own : req.method = r.method) :
    Refines F ref req (s.dispatch F now r req) := by
  cases r with
  | status | catalog =>
    exact refines_of_unmoved agree (Reference.step_of_reads F ref req _ routed rfl)
      (by unfold Reference.shows; rw [routed]; trivial)
  | sessions => exact startSession_refines lawful agree fresh free routed own
  | session raw => exact delete_refines lawful agree routed own
  | question raw =>
    exact view_refines lawful agree fresh routed rfl View.question
      (Reference.shows_of_view F ref req routed (.inl ⟨rfl, rfl⟩)) rfl
  | results raw =>
    exact view_refines lawful agree fresh routed rfl View.results
      (Reference.shows_of_view F ref req routed (.inr ⟨rfl, rfl⟩)) rfl
  | answers raw =>
    refine withId_refines lawful agree raw _ (fun read => ?_) rfl
    exact answer_refines lawful agree fresh routed own read
  | reset raw => exact reset_refines lawful agree fresh routed own

end Routes

/-! ### Requests in order -/

variable {F}

/-- One request moves the service as it moves the reference, and every view its response
carries is that of the reference session it names. -/
theorem handle_refines (lawful : F.Lawful) {s : Server σ} {ref : Reference σ} {now : Int}
    (agree : Represents s ref) (fresh : s.Unexpired now)
    (free : ref.store (F.newId ref.ids).1 = none) (req : Request) :
    Refines F ref req (s.handle F now req) := by
  cases intercepted : F.intercept req with
  | some r =>
    -- only a preflight is answered in front, and it neither creates, moves nor shows
    have preflight := lawful.intercept_options req r intercepted
    rw [handle_of_intercepted F s now intercepted]
    exact refines_of_unmoved agree
      (Reference.step_of_method F ref req _ (by simp [preflight]) (by simp [preflight]))
      (Reference.shows_of_method F ref req _ (by simp [preflight]) (by simp [preflight]))
  | none =>
    cases routed : F.route req.target.path req.method with
    | error r =>
      rw [handle_of_refused F s now intercepted routed]
      exact refines_of_unmoved agree (Reference.step_of_refused F ref req _ routed)
        (Reference.shows_of_refused F ref req _ routed)
    | ok r =>
      rw [handle_of_routed F s now intercepted routed]
      rcases lawful.route_method _ _ _ routed with own | ⟨head, reads⟩
      · by_cases isHead : req.method = "HEAD"
        · -- no route is written for HEAD
          rw [own] at isHead
          cases r <;> simp [Route.method] at isHead
        · rw [lawful.finish_of_ne_head _ _ isHead]
          exact dispatch_refines lawful agree fresh free routed own
      · -- HEAD is answered by a route that reads: nothing moves, and no view is shown
        rw [dispatch_of_reads F s now reads]
        exact refines_of_unmoved agree (Reference.step_of_reads F ref req _ routed reads)
          (Reference.shows_of_method F ref req _ (by simp [head]) (by simp [head]))

/-! ### What a request does to the store -/

section Effects

variable (F) (s : Server σ) (now : Int)

/-- A route leaves the service, stores a session changed now, drops one, or evicts the idle
sessions and opens one under a new id. -/
theorem dispatch_cases (r : Route) (req : Request) :
    (s.dispatch F now r req).2 = s ∨
      (∃ id session, (s.dispatch F now r req).2 = s.put id ⟨session, now⟩) ∨
      (∃ id, (s.dispatch F now r req).2 = s.remove id) ∨
      ∃ id session ids,
        (s.dispatch F now r req).2 = { (s.evictExpired now).put id ⟨session, now⟩ with ids } := by
  cases r with
  | status | catalog => exact .inl rfl
  | sessions =>
    simp only [dispatch, startSession]
    split
    · exact .inl rfl
    · exact .inr (.inr (.inr ⟨_, _, _, rfl⟩))
  | session raw =>
    simp only [dispatch, delete]
    split
    · exact .inl rfl
    · split
      · exact .inl rfl
      · split
        · exact .inl rfl
        · exact .inr (.inr (.inl ⟨_, rfl⟩))
  | question raw | results raw =>
    simp only [dispatch]
    split
    · exact .inl rfl
    · split <;> exact .inl rfl
  | answers raw =>
    simp only [dispatch, answer]
    split
    · exact .inl rfl
    · split
      · exact .inl rfl
      · split
        · exact .inl rfl
        · split
          · exact .inl rfl
          · exact .inr (.inl ⟨_, _, rfl⟩)
  | reset raw =>
    simp only [dispatch]
    split
    · exact .inl rfl
    · split
      · exact .inl rfl
      · exact .inr (.inl ⟨_, _, rfl⟩)

/-- Every request keeps the time to live. -/
theorem ttl_handle (req : Request) : (s.handle F now req).2.ttl = s.ttl := by
  unfold handle
  split
  · rfl
  · split
    · rfl
    · rename_i r _
      rcases dispatch_cases F s now r req with same | ⟨id, _, put⟩ | ⟨id, removed⟩ |
        ⟨id, _, _, opened⟩
      · exact congrArg Server.ttl same
      · rw [put, put_ttl]
      · rw [removed]; rfl
      · rw [opened]; exact put_ttl _ _ _

end Effects

/-- A request made at `start` or later keeps every session changed at `start` or later. -/
theorem StampedSince.handle {s : Server σ} {start now : Int} (stamped : s.StampedSince start)
    (late : start ≤ now) (req : Request) : (s.handle F now req).2.StampedSince start := by
  unfold Server.handle
  split
  · exact stamped
  · split
    · exact stamped
    · rename_i r _
      rcases dispatch_cases F s now r req with same | ⟨id, _, put⟩ | ⟨id, removed⟩ |
        ⟨id, _, _, opened⟩
      · rw [same]; exact stamped
      · rw [put]; exact stamped.put id late
      · rw [removed]; exact stamped.filter _
      · rw [opened]; exact (stamped.filter _).put id late

/-- **No session idles too long within the time to live.** When the sessions of a service were
all changed at `start` or later, and requests come between `start` and `start + ttl`, no
session is ever idle longer than the time to live when a request comes. -/
theorem attended_of_window {s : Server σ} {start : Int} (stamped : s.StampedSince start)
    (reqs : List (Int × Request)) (within : ∀ p ∈ reqs, start ≤ p.1 ∧ p.1 ≤ start + s.ttl) :
    s.Attended F reqs := by
  induction reqs generalizing s with
  | nil => trivial
  | cons p rest ih =>
    obtain ⟨now, req⟩ := p
    have bounds := within (now, req) List.mem_cons_self
    refine ⟨unexpired_of_stampedSince stamped bounds.2, ih (stamped.handle bounds.1 req) ?_⟩
    intro q member
    rw [ttl_handle]
    exact within q (List.mem_cons_of_mem _ member)

/-- Requests in order move the service as their transcript moves the reference, and every
response shows the reference it moves; the ids drawn on the way are distinct. -/
theorem run_refines (lawful : F.Lawful) {ids₀ : σ} {s : Server σ} {ref : Reference σ} {k : Nat}
    (agree : Represents s ref) (drawn : ref.Drawn F ids₀ k) (reqs : List (Int × Request))
    (attended : s.Attended F reqs)
    (distinct : ∀ i j, i < j → j < k + reqs.length → F.draw ids₀ i ≠ F.draw ids₀ j) :
    Represents (s.run F reqs).2 (ref.replay F ((reqs.map (·.2)).zip (s.run F reqs).1)) ∧
      ref.showsAll F ((reqs.map (·.2)).zip (s.run F reqs).1) := by
  induction reqs generalizing s ref k with
  | nil => exact ⟨agree, trivial⟩
  | cons p reqs ih =>
    obtain ⟨now, req⟩ := p
    obtain ⟨fresh, attendedRest⟩ := attended
    -- the next id is the `k`-th draw, apart from the earlier ones every session is under
    have free := drawn.free fun i earlier => distinct i k earlier (by simp)
    obtain ⟨moved, shown⟩ := handle_refines lawful agree fresh free req
    obtain ⟨k', bound, drawn'⟩ := drawn.step req (s.handle F now req).1.status
    obtain ⟨rest, restShown⟩ := ih moved drawn' attendedRest fun i j before later =>
      distinct i j before (by simp only [List.length_cons]; omega)
    simp only [run, List.map_cons, List.zip_cons_cons, Reference.replay, Reference.showsAll]
    exact ⟨rest, shown, restShown⟩

end Server

/-- **The session store refines a map of independent sessions.** For every framework that keeps
its documented behaviour, every rule base, options, time to live and source of ids, and all
requests at any clock readings, such that no session is idle longer than the time to live when a
request comes and the ids drawn are distinct: from an empty service, the sessions found under
each id are those of the reference replayed over the requests and the statuses they got. Every
201 creation shows a new id that held no session, with the session it opens; every question and
results body shows the reference session its path names, as the request leaves it. -/
theorem store_refines_sessions {σ : Type} (F : Framework σ) (lawful : F.Lawful)
    (rules : RuleBase Double) (options : SessionOptions) (ttl : Nat) (ids : σ)
    (reqs : List (Int × Request))
    (attended : (Server.create rules options ttl ids).Attended F reqs)
    (distinct : ∀ i j, i < j → j < reqs.length → F.draw ids i ≠ F.draw ids j) :
    let start := Server.create rules options ttl ids
    let reference : Reference σ := ⟨rules, options, fun _ => none, ids⟩
    let transcript := (reqs.map (·.2)).zip (start.run F reqs).1
    (start.run F reqs).2.find? = (reference.replay F transcript).store ∧
      reference.showsAll F transcript := by
  intro start reference transcript
  have agree : Server.Represents start reference := ⟨rfl, rfl, rfl, rfl⟩
  have drawn : reference.Drawn F ids 0 := ⟨rfl, fun _ held => absurd rfl held⟩
  obtain ⟨moved, shown⟩ := Server.run_refines lawful agree drawn reqs attended
    fun i j before later => distinct i j before (by simpa using later)
  exact ⟨moved.store, shown⟩

/-- The service as it runs, on the standard rule base with a time to live of a day: a session
created in exhaustive mode, answered and deleted, and a second one created, all at one time. -/
theorem store_refines_sessions_standard :
    let F := Framework.standard
    let first := F.draw IdSource.initial 0
    let reqs : List (Int × Request) :=
      [(0, ⟨"POST", ⟨"/sessions", some "mode=exhaustive"⟩, none, ""⟩),
        (0, ⟨"POST", ⟨"/sessions/" ++ first.text ++ "/answers", none⟩, some "application/json",
          "\x7b\"course\": \"Database\", \"value\": 4\x7d"⟩),
        (0, ⟨"POST", ⟨"/sessions", none⟩, none, ""⟩),
        (0, ⟨"DELETE", ⟨"/sessions/" ++ first.text, none⟩, none, ""⟩)]
    let start : Server IdSource :=
      Server.create RuleBase.standard {} (86400 * 1000000000) IdSource.initial
    let reference : Reference IdSource := ⟨RuleBase.standard, {}, fun _ => none, IdSource.initial⟩
    let transcript := (reqs.map (·.2)).zip (start.run F reqs).1
    F.Lawful ∧ start.Attended F reqs ∧
      (∀ i j, i < j → j < reqs.length → F.draw IdSource.initial i ≠ F.draw IdSource.initial j) ∧
      ((start.run F reqs).2.find? = (reference.replay F transcript).store ∧
        reference.showsAll F transcript) := by
  intro F first reqs start reference transcript
  -- every request comes at time 0, within a day of the empty service's start
  have atZero : ∀ p ∈ reqs, p.1 = 0 := by
    intro p member
    simp only [reqs, List.mem_cons, List.not_mem_nil, or_false] at member
    rcases member with rfl | rfl | rfl | rfl <;> rfl
  have stamped : start.StampedSince 0 := fun _ member => by
    simp [start, Server.create] at member
  have attended : start.Attended F reqs :=
    Server.attended_of_window stamped reqs fun p member => by
      simp [atZero p member, start, Server.create]
  -- the first four ids of the sequence differ
  have draws : ∀ j < 4, ∀ i < j, F.draw IdSource.initial i ≠ F.draw IdSource.initial j := by
    decide +kernel
  have distinct : ∀ i j, i < j → j < reqs.length →
      F.draw IdSource.initial i ≠ F.draw IdSource.initial j :=
    fun i j before later => draws j later i before
  exact ⟨Framework.standard_lawful, attended, distinct,
    store_refines_sessions F Framework.standard_lawful _ _ _ _ reqs attended distinct⟩

end Web

end CareerCompass
