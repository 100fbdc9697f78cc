import SecureLayout.Collab.Store

/-!
Documents under their names, with subscriptions and output fields under names of their own. A name that is
given again drops what it stood for, but only once its new bearer is there.
-/

namespace SecureLayout.Collab

open Json (Value)
open Wire (FieldUpdate)

/-- What a name stands for: an observer of a document, and the field it shows if it shows one. -/
structure Place where
  doc : String
  id : Nat
  field : String := ""

structure Workspace where
  stores : Entries (OutputStore Unit) := []
  subscriptions : Entries Place := []
  fields : Entries Place := []
  /-- The name under which each observer delivers, kept for good. -/
  names : List ((String × Nat) × String) := []

namespace Workspace

/-- Documents are there from their first mention on; each is a replica of its own name. -/
def store (w : Workspace) (doc : String) : OutputStore Unit :=
  (Entries.get? doc w.stores).getD ⟨{ replica := doc }, [], 0, { own := () }⟩

def put (w : Workspace) (doc : String) (s : OutputStore Unit) : Workspace :=
  { w with stores := Entries.put doc s w.stores }

def document (w : Workspace) (doc : String) : Document :=
  (w.store doc).document

def set (w : Workspace) (doc field : String) (value : Value) : Result FieldUpdate × Workspace :=
  let (r, s) := (w.store doc).set field value
  (r, w.put doc s)

def merge (w : Workspace) (doc : String) (u : FieldUpdate) : Bool × Workspace :=
  let (b, s) := (w.store doc).merge u
  (b, w.put doc s)

def mergeAll (w : Workspace) (doc : String) : List FieldUpdate → List Bool × Workspace
  | [] => ([], w)
  | u :: us =>
    let (b, w) := w.merge doc u
    let (bs, w) := w.mergeAll doc us
    (b :: bs, w)

def isActive (w : Workspace) (p : Place) : Bool :=
  (w.store p.doc).isObserved p.id

def unobserve (w : Workspace) (p : Place) : Workspace :=
  w.put p.doc ((w.store p.doc).unobserve p.id)

def unobserveAny (w : Workspace) (p : Option Place) : Workspace :=
  match p with
  | some p => w.unobserve p
  | none => w

/-- Gives a subscription its name. -/
def nameSubscription (w : Workspace) (name : String) (p : Place) : Workspace :=
  let w := { w with names := w.names ++ [((p.doc, p.id), name)] }
  let w := w.unobserveAny (Entries.get? name w.subscriptions)
  { w with subscriptions := Entries.put name p w.subscriptions }

/-- Gives an output field its name. -/
def nameField (w : Workspace) (name : String) (p : Place) : Workspace :=
  let w := w.unobserveAny (Entries.get? name w.fields)
  { w with fields := Entries.put name p w.fields }

/-- Every change of one field or, without one, of all. -/
def observe (w : Workspace) (name doc : String) (field : Option String)
    (react : Value → List Request) : Workspace :=
  let (id, s) := (w.store doc).watch field .changes react
  (w.put doc s).nameSubscription name { doc, id }

/-- What is written while a subscription or a field is made lands once its field was read. -/
def landing (writes : List (String × Value)) : List Call :=
  writes.map fun w => .write w.1 w.2

def subscribe (w : Workspace) (name doc field : String) (default : Value)
    (react : Value → List Request) (writes : List (String × Value)) : Workspace :=
  let (id, s) := (w.store doc).subscribe field default (.ofReaction react) [] (landing writes)
  (w.put doc s).nameSubscription name { doc, id }

def useField (w : Workspace) (name doc field : String) (default : Value)
    (writes : List (String × Value)) : Workspace :=
  let (id, s) := (w.store doc).useField field default [] (landing writes)
  (w.put doc s).nameField name { doc, id, field }

/-- Drops the subscription of a name, or else its output field; whether there was either. -/
def drop (w : Workspace) (name : String) : Bool × Workspace :=
  match Entries.get? name w.subscriptions, Entries.get? name w.fields with
  | some p, _ => (true, { w.unobserve p with subscriptions := Entries.remove name w.subscriptions })
  | none, some p => (true, { w.unobserve p with fields := Entries.remove name w.fields })
  | none, none => (false, w)

/-- The value that an output field shows. -/
def shown (w : Workspace) (p : Place) : Value :=
  (w.store p.doc).fieldValue p.id

/-- What was delivered since this was last asked, under the names of the observers. -/
def takeDeliveries (w : Workspace) : List (String × Delivery) × Workspace :=
  w.stores.foldl (fun (ds, w) (doc, s) =>
    let (log, s) := s.takeLog
    (ds ++ log.filterMap fun (id, d) => (w.names.lookup (doc, id)).map (·, d), w.put doc s)) ([], w)

theorem store_put (w : Workspace) (doc other : String) (s : OutputStore Unit) :
    (w.put doc s).store other = if other = doc then s else w.store other := by
  unfold put store
  by_cases e : other = doc <;> simp [Entries.get?_put, e]

end Workspace

end SecureLayout.Collab
