import SecureLayout.Component.Registry
import SecureLayout.Json.Printer

/-!
Components that need no code of their own, and bundles that fail for a while before they load.
-/

namespace SecureLayout.Component

open Json (Value)

/-- What a stock component paints. -/
inductive Stock where
  /-- All of its props. -/
  | echo
  | fixed (markup : String)
  /-- One of its props. -/
  | prop (name : String)
  | failing (reason : String)
  deriving DecidableEq, Repr

namespace Stock

def paint : Stock → Value → Result String
  | echo, props => .ok ("<span>" ++ props.compact ++ "</span>")
  | fixed markup, _ => .ok markup
  | prop name, props => .ok ((props.member? name).getD .null).compact
  | failing reason, _ => .error (.render reason)

def toComponent (s : Stock) (name : String) : Component :=
  { name, paint := s.paint }

end Stock

/-- A bundle that loads once `count`, of the attempts on it and on all bundles, has reached a number. -/
def flaky (count : Nat → Nat → Nat) (failures : Nat) (c : Component) : Loader := fun own all =>
  if count own all < failures then .error (.internal "bundle failed to load") else .ok c

end SecureLayout.Component
