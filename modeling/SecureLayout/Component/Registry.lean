import SecureLayout.Failure
import SecureLayout.Json.Value
import SecureLayout.Text.Blank

/-!
Components of one application session. A component may be registered together with its implementation
or with a bundle that is loaded when it is first wanted; a bundle that was loaded stays loaded.
-/

namespace SecureLayout

open Json (Value)

/-- What turns the props of a placeholder into markup. -/
structure Component where
  name : String
  paint : Value → Result String

namespace Component

inductive Category where
  /-- Marks up what is shown. -/
  | note
  | input
  | display
  | layout
  | custom
  deriving DecidableEq, Repr

namespace Category

/-- What is none of the others is a category of its own. -/
def ofName : String → Category
  | "annotation" => note
  | "input" => input
  | "display" => display
  | "layout" => layout
  | _ => custom

def title : Category → String
  | note => "Annotation"
  | input => "Input"
  | display => "Display"
  | layout => "Layout"
  | custom => "Custom"

end Category

/-- Outcome of loading, after `own` earlier attempts on this bundle and `all` on any bundle. -/
abbrev Loader := (own all : Nat) → Result Component

/-- Code that is fetched on demand. -/
structure Bundle where
  loader : Loader
  attempts : Nat := 0
  loaded : Option Component := none

/-- An implementation at hand, or the place of its bundle. -/
inductive Handle where
  | ready (c : Component)
  | deferred (bundle : Nat)

def Handle.isDeferred : Handle → Bool
  | ready _ => false
  | deferred _ => true

structure Registered where
  name : String
  category : Category
  /-- Props a placeholder must carry; `none` if nothing is asked. -/
  required : Option (List String)
  handle : Handle

/-- The first of the required props that is absent. -/
def firstMissing (required : List String) (props : Value) : Option String :=
  required.find? fun p => (props.member? p).isNone

/-- Where an implementation comes from when it is registered. -/
inductive Source where
  | eager (c : Component)
  | lazy (loader : Loader)

structure Registry where
  components : Entries Registered := []
  /-- Bundles of all registrations ever made; handles name them by position. -/
  bundles : List Bundle := []

namespace Registry

/-- Attempts to load any bundle so far. -/
def loads (r : Registry) : Nat :=
  r.bundles.foldl (fun n b => n + b.attempts) 0

/-- Replaces an earlier registration of the name; a blank name is refused. -/
def register (r : Registry) (name : String) (category : Category) (source : Source)
    (required : Option (List String)) : Result Registry :=
  if Text.isBlankText name then .error (.badRequest "component name must not be blank")
  else
    match source with
    | .eager c => .ok { r with components := Entries.put name ⟨name, category, required, .ready c⟩ r.components }
    | .lazy loader =>
      .ok { components := Entries.put name ⟨name, category, required, .deferred r.bundles.length⟩ r.components
            bundles := r.bundles ++ [{ loader }] }

/-- Takes a registration away and says whether there was one. -/
def unregister (r : Registry) (name : String) : Bool × Registry :=
  (Entries.contains name r.components, { r with components := Entries.remove name r.components })

def get? (r : Registry) (name : String) : Option Registered :=
  Entries.get? name r.components

def contains (r : Registry) (name : String) : Bool :=
  Entries.contains name r.components

/-- Registered names in order. -/
def names (r : Registry) : List String :=
  Entries.keys r.components

/-- The implementation if nothing has to be loaded for it. -/
def peek (r : Registry) : Handle → Option Component
  | .ready c => some c
  | .deferred i => (r.bundles[i]?).bind (·.loaded)

def isLoaded (r : Registry) (h : Handle) : Bool :=
  (r.peek h).isSome

/-- The implementation, loaded now if it was not before; a failed attempt may be repeated. -/
def load (r : Registry) (h : Handle) : Result Component × Registry :=
  match r.peek h with
  | some c => (.ok c, r)
  | none =>
    match h with
    | .ready c => (.ok c, r)
    | .deferred i =>
      match r.bundles[i]? with
      | none => (.error (.internal "bundle is gone"), r)
      | some b =>
        let outcome := b.loader b.attempts r.loads
        let b := { b with attempts := b.attempts + 1, loaded := outcome.toOption }
        (outcome, { r with bundles := r.bundles.set i b })

theorem load_of_peek {r : Registry} {h : Handle} {c : Component} (hp : r.peek h = some c) :
    r.load h = (.ok c, r) := by
  simp [load, hp]

end Registry

end Component

end SecureLayout
