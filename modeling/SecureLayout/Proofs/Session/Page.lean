import SecureLayout.Proofs.Collab.Observing
import SecureLayout.Proofs.Sandbox.Teardown
import SecureLayout.Proofs.Session.Legibility

/-!
A page: one host window, the managers that were ever mounted in it, some of them for a session, and the documents that
sessions and the application share. Whatever is done goes through the functions of managers, sessions and documents;
the page only puts together what each of them works on.
-/

namespace SecureLayout

open Collab (Origin Request Shared)
open Json (Value)
open Sandbox (HostWindow IsolatedFrame Manager MessageEvent Notice Watched)
open Wire (FieldUpdate)

/-- What the observers of all documents see: a state of the application, and the managers. -/
abbrev Scene (α φ : Type) :=
  α × List (Manager (Watched φ))

namespace Scene

variable {α φ : Type}

/-- One manager taken out of a scene; `m` where there is none. -/
def beside (k : Nat) (m : Manager (Watched φ)) (x : Scene α φ) : Scene α φ × Manager (Watched φ) :=
  (x, x.2[k]?.getD m)

/-- And put back. -/
def back (k : Nat) (y : Scene α φ × Manager (Watched φ)) : Scene α φ :=
  (y.1.1, y.1.2.set k y.2)

theorem back_beside (k : Nat) (m : Manager (Watched φ)) (x : Scene α φ) : back k (beside k m x) = x := by
  obtain ⟨own, ms⟩ := x
  refine Prod.ext rfl ?_
  change ms.set k (ms[k]?.getD m) = ms
  cases h : ms[k]? with
  | none => exact List.set_eq_of_length_le (List.getElem?_eq_none_iff.1 h)
  | some m' =>
    obtain ⟨hlt, rfl⟩ := List.getElem?_eq_some_iff.1 h
    exact List.set_getElem_self hlt

end Scene

/-- A session by the number of its document. At rest it does not have its store, which is the document's. -/
structure Seat (α φ : Type) where
  document : Nat
  session : LayoutSession (Scene α φ) (Watched φ)

structure Page (α φ : Type) where
  host : HostWindow
  own : α
  /-- All managers ever mounted; what they take for the window is looked up in `host`. -/
  managers : List (Manager (Watched φ)) := []
  /-- The session of each manager that was mounted for one. -/
  seats : List (Option (Seat α φ)) := []
  /-- All documents; what they take for the scene is looked up in the page. -/
  documents : List (Shared (Scene α φ)) := []

/-- What a caller gets back, and the reports that were passed on to the callbacks of a manager meanwhile. -/
structure Reply where
  result : Result Unit := .ok ()
  fired : List (Nat × Notice) := []

/-- What is asked of a manager, or of the session it was mounted for. -/
inductive Action where
  | render (html : String) (context : Value)
  | updateContext (path : String) (value : Value)
  /-- An event is handled at once. -/
  | event (e : MessageEvent)
  /-- What was posted to the host window is handled. -/
  | pump
  | rerender
  | destroy
  | unmount
  /-- Nobody holds the session any more, or the manager if there is none. -/
  | drop

namespace Page

/-- What happens to a page. -/
inductive Input (α φ : Type) where
  | mount (frame : φ)
  | mountSession (document : Nat) (env : TemplateEnvironment) (template : String) (task : TaskContext) (frame : φ)
  | on (k : Nat) (a : Action)
  /-- An event is posted to the host window. -/
  | arrive (e : MessageEvent)
  /-- A frame goes on by itself. -/
  | frame (k : Nat) (go : φ → φ)
  /-- Tasks can be run from now on, or not. -/
  | runtime (runsTasks : Bool)
  /-- A document is created. -/
  | create (replica : String)
  | write (document : Nat) (field : String) (value : Value)
  | merge (document : Nat) (u : FieldUpdate)
  /-- The application watches a document. -/
  | watch (document : Nat) (field : Option String) (call : Nat → FieldUpdate → Origin → α → α × List Request)

variable {α φ : Type}

/-- The managers as they are at work, in the window as it is. -/
def seated (p : Page α φ) : List (Manager (Watched φ)) :=
  p.managers.map (Manager.within p.host)

def scene (p : Page α φ) : Scene α φ :=
  (p.own, p.seated)

/-- A document at work, before the scene as it is. -/
def document? (p : Page α φ) (d : Nat) : Option (Shared (Scene α φ)) :=
  (p.documents[d]?).map fun s => { s with state := p.scene }

def putDocument (p : Page α φ) (d : Nat) (s : Shared (Scene α φ)) : Page α φ :=
  { p with own := s.state.1, managers := s.state.2, documents := p.documents.set d s }

def putManager (p : Page α φ) (k : Nat) (m : Manager (Watched φ)) : Page α φ :=
  { p with host := m.host, managers := p.seated.set k m }

/-- The session that manager `m` was mounted for, at work: its store is its document, with `m` beside the scene. -/
def session? (p : Page α φ) (k : Nat) (m : Manager (Watched φ)) : Option (Seat α φ) := do
  let seat ← p.seats[k]?.join
  let store ← p.document? seat.document
  return { seat with session := { seat.session with store := store.carry (Scene.beside k m) (Scene.back k) } }

def putSession (p : Page α φ) (k : Nat) (seat : Seat α φ) : Page α φ :=
  let m := seat.session.manager
  let store := seat.session.store.carry (Scene.back k) (Scene.beside k m)
  { p.putDocument seat.document store with host := m.host, seats := p.seats.set k (some seat) }

variable [IsolatedFrame φ]

/-- What the session of a manager does, or the manager by itself if it has none. -/
def perform (p : Page α φ) (k : Nat) (m : Manager (Watched φ)) : Action → Reply × Page α φ
  | .render html context =>
    let (result, m) := m.render html context
    ({ result }, p.putManager k m)
  | .updateContext path value =>
    let (result, m) := m.updateContext path value
    ({ result }, p.putManager k m)
  | .event e =>
    let fired := (m.handleEvent e).1.toList.map fun n => (k, n)
    match p.session? k m with
    | none => ({ fired }, p.putManager k (m.handleEvent e).2)
    | some seat => ({ fired }, p.putSession k { seat with session := seat.session.handle e })
  | .pump =>
    match p.session? k m with
    | none =>
      let (ns, m) := m.pump
      ({ fired := ns.map fun n => (k, n) }, p.putManager k m)
    | some seat =>
      let (ns, session) := seat.session.pump
      ({ fired := ns.map fun n => (k, n) }, p.putSession k { seat with session })
  | .rerender =>
    match p.session? k m with
    | none => ({}, p)
    | some seat =>
      let (result, session) := seat.session.rerender
      ({ result }, p.putSession k { seat with session })
  | .destroy => ({}, p.putManager k m.destroy)
  | .unmount =>
    match p.session? k m with
    | none => ({}, p)
    | some seat => ({}, p.putSession k { seat with session := seat.session.unmount })
  | .drop =>
    match p.session? k m with
    | none => ({}, p.putManager k m.destroy)
    | some seat => ({}, p.putSession k { seat with session := seat.session.unmount })

/-- What is asked of a manager that never was is not done. -/
def act (p : Page α φ) : Input α φ → Reply × Page α φ
  | .mount frame =>
    match Manager.mount p.host { frame } with
    | .error f => ({ result := .error f.cause }, { p with host := f.host })
    | .ok m => ({}, { p with host := m.host, managers := p.seated ++ [m], seats := p.seats ++ [none] })
  | .mountSession d env template task frame =>
    match p.document? d with
    | none => ({}, p)
    | some store =>
      match LayoutSession.mount env template task store p.host { frame } with
      | .error f => ({ result := .error f.cause }, { p with host := f.host })
      | .ok session =>
        let k := p.managers.length
        let m := session.manager
        ({}, { host := m.host
               own := p.own
               managers := p.seated ++ [m]
               seats := p.seats ++ [some ⟨d, session⟩]
               documents := p.documents.set d (session.store.carry (Scene.back k) (Scene.beside k m)) })
  | .on k a =>
    match p.seated[k]? with
    | none => ({}, p)
    | some m => p.perform k m a
  | .arrive e => ({}, { p with host := p.host.post e })
  | .frame k go =>
    ({}, { p with
      managers := p.managers.modify k fun m => { m with frame := { m.frame with frame := go m.frame.frame } } })
  | .runtime runsTasks => ({}, { p with host := { p.host with runsTasks } })
  | .create replica =>
    ({}, { p with documents := p.documents ++ [{ document := { replica }, state := p.scene }] })
  | .write d field value =>
    match p.document? d with
    | none => ({}, p)
    | some s =>
      let (result, s) := s.set field value
      ({ result := result.map fun _ => () }, p.putDocument d s)
  | .merge d u =>
    match p.document? d with
    | none => ({}, p)
    | some s => ({}, p.putDocument d (s.merge u).2)
  | .watch d field call =>
    match p.document? d with
    | none => ({}, p)
    | some s =>
      ({}, p.putDocument d (s.observe field fun id u origin x =>
        let (own, requests) := call id u origin x.1
        ((own, x.2), requests)).2)

def run (p : Page α φ) (inputs : List (Input α φ)) : Page α φ :=
  inputs.foldl (fun p i => (p.act i).2) p

omit [IsolatedFrame φ] in
/-- What tears manager `k` down. -/
def Ends (p : Page α φ) (i : Input α φ) (k : Nat) : Prop :=
  i = .on k .destroy ∨ i = .on k .drop ∨ i = .on k .unmount ∧ (p.seats[k]?.join).isSome

end Page

end SecureLayout
