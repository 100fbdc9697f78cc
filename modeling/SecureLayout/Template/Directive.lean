import SecureLayout.Component.Markup
import SecureLayout.Component.Registry
import SecureLayout.Policy.Engine
import SecureLayout.Text.Blank

/-!
Component directives: a name and props. A directive is replaced by a call that makes a placeholder, or
by an error block when the policy or the registry refuses it.
-/

namespace SecureLayout.Template

/-- Name of the function that makes placeholders. -/
def placeholderFunction : String := "__lg_component"

/-- Name of the function that counts loop bodies. -/
def tickFunction : String := "__lg_iter"

/-- Value of a prop, as it is written into the call. -/
inductive PropSource where
  | literal (source : List Char)
  | binding (path : List Char)
  deriving DecidableEq, Repr

structure Directive where
  name : String
  props : List (String × PropSource)
  deriving DecidableEq, Repr

namespace Directive

/-! ### Words of a directive -/

/-- The state between two characters of a directive; a word is reversed. -/
structure Words where
  done : List (List Char) := []
  current : List Char := []
  quote : Option Char := none
  escaped : Bool := false

namespace Words

def finish (w : Words) : Words :=
  if w.current.isEmpty then w else { w with done := w.current.reverse :: w.done, current := [] }

/-- Blanks inside quotes do not end a word. -/
def step (w : Words) (c : Char) : Words :=
  match w.quote with
  | some q =>
    let w := { w with current := c :: w.current }
    if w.escaped then { w with escaped := false }
    else if c = '\\' then { w with escaped := true }
    else if c = q then { w with quote := none }
    else w
  | none =>
    if c = '"' || c = '\'' then { w with quote := some c, current := c :: w.current }
    else if Text.isBlank c then w.finish
    else { w with current := c :: w.current }

end Words

/-- Words between blanks outside quotes. -/
def words (args : List Char) : Except String (List (List Char)) :=
  let w := args.foldl Words.step {}
  if w.quote.isSome then .error "unterminated string in component directive"
  else .ok w.finish.done.reverse

/-! ### Names and values -/

/-- The text between two equal quotes at both ends. -/
def unquoted? (word : List Char) : Option (List Char) :=
  match word with
  | q :: c :: r =>
    if (q = '"' || q = '\'') && (c :: r).getLast? = some q then some (c :: r).dropLast else none
  | _ => none

def isComponentNamePart (c : Char) : Bool :=
  Text.isNamePart c || c == '-' || c == '.'

/-- Starts like a name and goes on with letters, digits, underscores, hyphens and dots. -/
def isComponentName : List Char → Bool
  | [] => false
  | c :: r => Text.isNameStart c && r.all isComponentNamePart

def isDigits (cs : List Char) : Bool :=
  !cs.isEmpty && cs.all Char.isDigit

/-- What stands before and after the first `c`. -/
def splitAt? (c : Char) (cs : List Char) : Option (List Char × List Char) :=
  match cs.dropWhile (· != c) with
  | [] => none
  | _ :: r => some (cs.takeWhile (· != c), r)

/-- Decimal digits with an optional sign in front and an optional fraction. -/
def isNumber (cs : List Char) : Bool :=
  let digits := match cs with
    | '-' :: r => r
    | cs => cs
  match splitAt? '.' digits with
  | none => isDigits digits
  | some (whole, fraction) => isDigits whole && isDigits fraction

/-- Indices in brackets, any number of them. -/
def areIndices : Nat → List Char → Bool
  | _, [] => true
  | 0, _ :: _ => false
  | fuel + 1, '[' :: r =>
    match splitAt? ']' r with
    | some (digits, rest) => isDigits digits && areIndices fuel rest
    | none => false
  | _ + 1, _ :: _ => false

/-- A name followed by indices. -/
def isPathStep : List Char → Bool
  | [] => false
  | c :: r =>
    let rest := r.dropWhile Text.isNamePart
    Text.isNameStart c && areIndices rest.length rest

/-- Names with indices, joined by dots. -/
def isBindingPath (cs : List Char) : Bool :=
  (Text.splitOnChar '.' cs).all isPathStep

/-- The character that an escape stands for. -/
def escaped? : Char → Option Char
  | 'n' => some '\n'
  | 't' => some '\t'
  | 'r' => some '\r'
  | '\\' => some '\\'
  | '"' => some '"'
  | '\'' => some '\''
  | '/' => some '/'
  | _ => none

/-- The text of a literal after its opening quote; the closing quote must be the last character. -/
def unescaped? (q : Char) : List Char → Option (List Char)
  | [] => none
  | '\\' :: [] => none
  | '\\' :: c :: r => do return (← escaped? c) :: (← unescaped? q r)
  | c :: r =>
    if c = q then if r.isEmpty then some [] else none
    else (unescaped? q r).map (c :: ·)

/-- A quoted text, a number, a truth value, none, or else a binding path. -/
def propSource (value : List Char) : Except String PropSource :=
  match value with
  | q :: r =>
    if q = '"' || q = '\'' then
      match unescaped? q r with
      | some text => .ok (.literal (Json.renderText text))
      | none => .error ("malformed string literal: " ++ String.ofList value)
    else if isNumber value then .ok (.literal value)
    else
      match String.ofList value with
      | "true" => .ok (.literal "true".toList)
      | "True" => .ok (.literal "true".toList)
      | "false" => .ok (.literal "false".toList)
      | "False" => .ok (.literal "false".toList)
      | "none" => .ok (.literal "none".toList)
      | "None" => .ok (.literal "none".toList)
      | "null" => .ok (.literal "none".toList)
      | text =>
        if isBindingPath value then .ok (.binding value)
        else .error ("prop value must be a literal or a binding path: " ++ text)
  | [] => .error "prop value must be a literal or a binding path: "

/-- A word of the form `key=value`. -/
def prop (word : List Char) : Except String (String × PropSource) :=
  match splitAt? '=' word with
  | none => .error ("expected key=value prop, got " ++ String.ofList word)
  | some (key, value) =>
    let key := String.ofList key
    if !Text.isIdentifier key then .error ("invalid prop name: " ++ key)
    else if value.isEmpty then .error ("prop " ++ key ++ " has no value")
    else do return (key, ← propSource value)

/-- Reads what follows the keyword of a directive. -/
def parse (args : List Char) : Except String Directive := do
  match ← words args with
  | [] => .error "component directive requires a name"
  | word :: rest =>
    let name := (unquoted? word).getD word
    if !isComponentName name then .error ("invalid component name: " ++ String.ofList word)
    else return ⟨String.ofList name, ← rest.mapM prop⟩

/-! ### Replacement -/

/-- What stands in the place of a directive. -/
inductive Replacement where
  | block (html : String)
  | call (name : String) (props : List (String × List Char))
  deriving DecidableEq, Repr

def renderProp (p : String × List Char) : List Char :=
  '"' :: (p.1.toList ++ '"' :: ':' :: ' ' :: p.2)

def renderProps : List (String × List Char) → List Char
  | [] => []
  | [p] => renderProp p
  | p :: r => renderProp p ++ ',' :: ' ' :: renderProps r

def Replacement.source : Replacement → List Char
  | block html => html.toList
  | call name props =>
    "\x7b\x7b ".toList ++ (placeholderFunction.toList ++ ('(' :: '"' :: (name.toList ++
      ('"' :: ',' :: ' ' :: '\x7b' :: (renderProps props ++ "\x7d) \x7d\x7d".toList)))))

/-- The props as they go into the call, or the first binding that the policy refuses. -/
def permitted (p : SecurityPolicy) : List (String × PropSource) → Except String (List (String × List Char))
  | [] => .ok []
  | (key, .literal source) :: r => do return (key, source) :: (← permitted p r)
  | (key, .binding path) :: r =>
    if p.validateExpression (String.ofList path) then do return (key, path) :: (← permitted p r)
    else .error (String.ofList path)

/-- Refusals come in this order: the name by the policy, the name by the registry, a binding. -/
def replacement (p : SecurityPolicy) (registry : Option Component.Registry) (d : Directive) : Replacement :=
  if !p.validateComponent d.name then .block (Component.disallowedBlock d.name)
  else if registry.any fun r => !r.contains d.name then .block (Component.unknownBlock d.name)
  else
    match permitted p d.props with
    | .ok props => .call d.name props
    | .error path =>
      .block (Component.errorBlock .policyViolation d.name ("Binding \"" ++ path ++ "\" is not permitted"))

end Directive

end SecureLayout.Template
