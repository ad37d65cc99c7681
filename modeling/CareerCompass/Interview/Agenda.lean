import CareerCompass.RuleBase.Seeds
import CareerCompass.Inference.Basic
import CareerCompass.Text.Blank
/-!
# The agenda of questions

The agenda holds the courses still to ask (the frontier), each with a priority and the number of
its arrival, and the courses already asked. In adaptive mode it starts with the seed courses at
priority 999, above every rule weight; when a job's score reaches 0.3 its rule courses join the
frontier at their rule weights. In exhaustive mode it starts with every referenced course and never
grows.

A course joins the frontier at most once: `push` refuses a course that is asked or already
queued. Asking a course removes it from the frontier for good.

The next question (`peekNext`) scans the frontier in arrival order and keeps the first entry of
highest priority: a later entry takes over only when the current best is not `≥` it in the
scalar's own order (so a NaN priority takes over). `frontier` lists the entries sorted by the
total order, highest first, earlier arrivals first among equals.

Main statements: `push_fst_eq_false_of_isAsked` (an asked course is never queued again) and
`pending_eq_length` (pending counts the frontier).
-/

namespace CareerCompass

/-- How the agenda grows. -/
inductive AgendaMode where
  /-- Start from the seeds and follow the jobs that score well. -/
  | adaptive
  /-- Ask every referenced course, in catalogue order. -/
  | exhaustive
deriving DecidableEq, Repr

namespace AgendaMode

/-- The name of a mode. -/
def name : AgendaMode → String
  | .adaptive => "adaptive"
  | .exhaustive => "exhaustive"

/-- Reads a mode name, ignoring blanks around it and the case of ASCII letters. -/
def parse (text : String) : Option AgendaMode :=
  match asciiLower (trimBlanks text) with
  | "adaptive" => some .adaptive
  | "exhaustive" => some .exhaustive
  | _ => none

end AgendaMode

/-- The priority of a seed course, above every rule weight. -/
def seedPriority {α : Type} [Scalar α] : α := 999.0

/-- The score from which a job's courses join the frontier. -/
def expansionGate {α : Type} [Scalar α] : α := 0.3

/-- A course waiting to be asked. -/
structure FrontierEntry (α : Type) where
  priority : α
  course : Course
  /-- How many courses had joined before it. -/
  seq : Nat

/-- The courses to ask and the courses asked. -/
structure Agenda (α : Type) where
  mode : AgendaMode
  /-- The courses asked, as a set. -/
  asked : List Course
  /-- The waiting courses, in arrival order. -/
  entries : List (FrontierEntry α)
  /-- The arrival number of the next course to join. -/
  nextSeq : Nat

namespace Agenda

variable {α : Type} [Scalar α]

/-- Whether a course was asked. -/
def isAsked (a : Agenda α) (course : Course) : Bool := a.asked.contains course

/-- Whether a course is waiting in the frontier. -/
def isQueued (a : Agenda α) (course : Course) : Bool := a.entries.any (·.course == course)

/-- Adds a course at a priority, unless it was asked or is waiting; tells whether it was added. -/
def push (a : Agenda α) (course : Course) (priority : α) : Bool × Agenda α :=
  if a.isAsked course || a.isQueued course then (false, a)
  else (true, { a with entries := a.entries ++ [⟨priority, course, a.nextSeq⟩],
                       nextSeq := a.nextSeq + 1 })

/-- Marks a course as asked and drops it from the frontier; tells whether it was new. -/
def markAsked (a : Agenda α) (course : Course) : Bool × Agenda α :=
  let entries := a.entries.filter (·.course != course)
  if a.asked.contains course then (false, { a with entries })
  else (true, { a with entries, asked := course :: a.asked })

/-- An empty agenda of a mode. -/
def empty (mode : AgendaMode) : Agenda α := ⟨mode, [], [], 0⟩

/-- A fresh agenda: the seeds (adaptive) or every referenced course (exhaustive) at seed priority. -/
def create (rb : RuleBase α) (seedCount : Nat) (mode : AgendaMode) : Agenda α :=
  let seeds := match mode with
    | .adaptive => rb.seedCourses seedCount
    | .exhaustive => rb.referencedCourses
  seeds.foldl (fun a c => (a.push c seedPriority).2) (empty mode)

/-- The waiting entries whose course is not asked, in arrival order. -/
def open_ (a : Agenda α) : List (FrontierEntry α) := a.entries.filter fun e => !a.isAsked e.course

/-- The first waiting entry of highest priority, scanning in arrival order. -/
def best? (a : Agenda α) : Option (FrontierEntry α) :=
  a.open_.foldl (fun best e =>
    match best with
    | some b => if e.priority ≤ b.priority then some b else some e
    | none => some e) none

/-- The next course to ask. -/
def peekNext (a : Agenda α) : Option Course := a.best?.map (·.course)

/-- Adds the rule courses of every job whose score reaches the gate, job by job in catalogue
order and rule by rule, at their rule weights; tells how many were added. -/
def expand (a : Agenda α) (rb : RuleBase α) (inf : Inference α) : Nat × Agenda α :=
  match a.mode with
  | .exhaustive => (0, a)
  | .adaptive =>
    inf.scores.foldl (fun (n, a) (job, cf) =>
      if cf < expansionGate then (n, a)
      else (rb.rulesFor job).foldl (fun (n, a) (c, w) =>
        let (added, a) := a.push c w
        (if added then n + 1 else n, a)) (n, a)) (0, a)

/-- The waiting entries, highest priority first in the total order, then by arrival. -/
def frontier (a : Agenda α) : List (FrontierEntry α) :=
  a.open_.mergeSort fun x y =>
    match Scalar.totalCompare x.priority y.priority with
    | .gt => true
    | .lt => false
    | .eq => decide (x.seq ≤ y.seq)

/-- How many courses wait. -/
def pending (a : Agenda α) : Nat := a.open_.length

/-- The asked courses in catalogue order. -/
def askedInOrder (a : Agenda α) : List Course := Course.all.filter a.isAsked

omit [Scalar α] in
theorem pending_eq_length (a : Agenda α) : a.pending = a.open_.length := rfl

omit [Scalar α] in
/-- An asked course is never queued again. -/
theorem push_fst_eq_false_of_isAsked (a : Agenda α) (course : Course) (p : α)
    (h : a.isAsked course = true) : (a.push course p).1 = false := by
  simp [push, h]

end Agenda

end CareerCompass
