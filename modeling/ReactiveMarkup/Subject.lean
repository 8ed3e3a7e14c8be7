-- SUMMARY: Subjects: subscribers, and notices that wait in line.
import ReactiveMarkup.Script

/-!
# Subjects

A `Subject` keeps the notice that it emitted last and the subscribers to be called for every notice.
Notices wait in line: the next one is begun when every subscriber has seen the one before, so a
notice emitted by a subscriber is delivered after the notice that the subscriber was called with.
-/

namespace ReactiveMarkup

/-- A callback for notices. It is called with no notice when nothing was emitted before it
joined. -/
structure Subscriber (σ : Type) where
  id : Nat
  callback : Option Notice → Script σ

/-- A source of notices that new subscribers are brought up to date from. -/
structure Subject (σ : Type) where
  /-- The notice begun last. -/
  latest : Option Notice := none
  /-- The subscribers in the order in which they joined. -/
  subscribers : List (Subscriber σ) := []
  /-- The number of the next subscription. -/
  nextId : Nat := 0
  /-- Whether a delivery is in progress. -/
  delivering : Bool := false
  /-- The notices that wait for their delivery. -/
  pending : List Notice := []

namespace Subject

variable {σ : Type}

instance : Inhabited (Subject σ) := ⟨{}⟩

/-- What can be read of the subject. -/
def view (s : Subject σ) : SubjectView := ⟨s.latest, s.subscribers.length⟩

/-- Adds a subscriber at the end. The result is the number of the subscription. -/
def register (s : Subject σ) (callback : Option Notice → Script σ) : Nat × Subject σ :=
  (s.nextId,
    { s with subscribers := s.subscribers ++ [⟨s.nextId, callback⟩], nextId := s.nextId + 1 })

/-- Takes the subscriber with the number away. -/
def remove (s : Subject σ) (id : Nat) : Subject σ :=
  { s with subscribers := s.subscribers.filter (·.id != id) }

/-- Puts a notice at the end of the line. -/
def enqueue (s : Subject σ) (n : Notice) : Subject σ := { s with pending := s.pending ++ [n] }

/-- The first notice in line, and the subject when its delivery begins. -/
def begin? (s : Subject σ) : Option (Notice × Subject σ) :=
  match s.pending with
  | [] => none
  | n :: rest => some (n, { s with latest := some n, pending := rest })

end Subject

end ReactiveMarkup
