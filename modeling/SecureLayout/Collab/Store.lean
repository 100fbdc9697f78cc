import SecureLayout.Collab.Shared

/-!
Subscriptions to the fields of a shared document. A subscription delivers the current value first and
then every change, and never a value older than one it has delivered; an output field keeps the latest
value it was offered.
-/

namespace SecureLayout.Collab

open Json (Value)
open Wire (Clock FieldUpdate)

/-- What is kept for one subscription. -/
inductive Watch where
  /-- Every change is delivered as it comes. -/
  | changes
  /-- Values are delivered, each later than the last. -/
  | values (last : Option Clock)
  /-- An output field: the latest value, and its clock unless it is the default. -/
  | slot (clock : Option Clock) (value : Value)

/-- What a callback was given. -/
inductive Delivery where
  | value (v : Value)
  | change (u : FieldUpdate) (origin : Origin)

/-- The value that came. -/
def Delivery.written : Delivery → Value
  | .value v => v
  | .change u _ => u.value

/-- Subscriptions by the ids of their observers, what was delivered to them, and a state that all
callbacks share. -/
structure Watchers (α : Type) where
  watches : List (Nat × Watch) := []
  log : List (Nat × Delivery) := []
  own : α

abbrev OutputStore (α : Type) := Shared (Watchers α)

/-- What a subscriber makes of what it is given. -/
abbrev Callback (α : Type) := Delivery → α → α × List Request

/-- A subscriber without a state, which asks for the same whenever a value comes. -/
def Callback.ofReaction (react : Value → List Request) : Callback Unit :=
  fun d _ => ((), react d.written)

/-- A subscriber that does nothing. -/
def Callback.silent {α : Type} : Callback α :=
  fun _ own => (own, [])

/-- Whether a write is later than what was seen before. -/
def isLater (seen : Option Clock) (c : Clock) : Bool :=
  seen.all (·.before c)

namespace Watchers

variable {α : Type}

def put (w : Watchers α) (id : Nat) (x : Watch) : Watchers α :=
  { w with watches := (id, x) :: w.watches.filter (·.1 != id) }

/-- Gives a subscriber what came for it. -/
def deliver (callback : Callback α) (id : Nat) (d : Delivery) (w : Watchers α) :
    Watchers α × List Request :=
  let (own, requests) := callback d w.own
  ({ w with log := w.log ++ [(id, d)], own }, requests)

/-- Offers a write to a subscription. -/
def offer (callback : Callback α) (id : Nat) (u : FieldUpdate) (origin : Origin) (w : Watchers α) :
    Watchers α × List Request :=
  match w.watches.lookup id with
  | some .changes => w.deliver callback id (.change u origin)
  | some (.values last) =>
    if isLater last u.clock then
      (w.put id (.values (some u.clock))).deliver callback id (.value u.value)
    else (w, [])
  | some (.slot clock _) =>
    if isLater clock u.clock then (w.put id (.slot (some u.clock) u.value), []) else (w, [])
  | none => (w, [])

/-- The default is delivered only if nothing was before. -/
def offerDefault (callback : Callback α) (id : Nat) (default : Value) (w : Watchers α) :
    Watchers α × List Request :=
  match w.watches.lookup id with
  | some (.values none) => w.deliver callback id (.value default)
  | _ => (w, [])

/-- Offers a new subscription what was read for it, or else its default. -/
def prime (callback : Callback α) (id : Nat) (read : Option FieldUpdate) (default : Value)
    (w : Watchers α) : Watchers α × List Request :=
  match read with
  | some u => w.offer callback id u .own
  | none => w.offerDefault callback id default

end Watchers

namespace OutputStore

variable {α : Type}

/-- Registers a subscription; nothing is delivered yet. -/
def register (s : OutputStore α) (field : Option String) (x : Watch) (callback : Callback α) :
    Nat × OutputStore α :=
  let (id, s) := s.observe field fun id => Watchers.offer callback id
  (id, { s with state := s.state.put id x })

/-- `register` for a subscriber without a state. -/
def watch (s : OutputStore Unit) (field : Option String) (x : Watch) (react : Value → List Request) :
    Nat × OutputStore Unit :=
  s.register field x (.ofReaction react)

/-- Offers a subscription what was read for it, and does what its callback asks for. -/
def prime (s : OutputStore α) (id : Nat) (callback : Callback α) (read : Option FieldUpdate)
    (default : Value) : OutputStore α :=
  let (state, requests) := s.state.prime callback id read default
  Shared.serve (fun f v s => (s.set f v).2) requests { s with state }

/-- Registers a subscription and offers it the current value or the default. Others may call between
the registration and the reading, and between the reading and the offer. -/
def start (s : OutputStore α) (field : String) (x : Watch) (default : Value) (callback : Callback α)
    (early late : List Call) : Nat × OutputStore α :=
  let (id, s) := s.register (some field) x callback
  let s := s.performAll early
  let read := s.document.winner? field
  (id, OutputStore.prime (s.performAll late) id callback read default)

/-- Delivers the current value or the default now, and every change from now on. -/
def subscribe (s : OutputStore α) (field : String) (default : Value) (callback : Callback α)
    (early late : List Call) : Nat × OutputStore α :=
  s.start field (.values none) default callback early late

/-- A live view of one field with a default for as long as it is unset. -/
def useField (s : OutputStore α) (field : String) (default : Value) (early late : List Call) :
    Nat × OutputStore α :=
  s.start field (.slot none default) default .silent early late

/-- Delivers every change of every field. -/
def observeAll (s : OutputStore α) (callback : Callback α) : Nat × OutputStore α :=
  s.register none .changes callback

/-- The value that an output field shows. -/
def fieldValue (s : OutputStore α) (id : Nat) : Value :=
  match s.state.watches.lookup id with
  | some (.slot _ v) => v
  | _ => .null

/-- What was delivered since the log was last read; it is read now. -/
def takeLog (s : OutputStore α) : List (Nat × Delivery) × OutputStore α :=
  (s.state.log, { s with state := { s.state with log := [] } })

end OutputStore

end SecureLayout.Collab
