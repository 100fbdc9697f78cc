import SecureLayout.Component.Markup
import SecureLayout.Component.Resolver

/-!
Placeholders turned into markup. Everything between them is kept as it is, and markup that a component
returns is not looked into.
-/

namespace SecureLayout.Component

open Json (Value)

/-- What painting reads and changes: the registry, and the refusals reported so far. -/
structure Painting where
  registry : Registry
  refusals : List Refusal := []

def hydratedBlock (name markup : String) : String :=
  "<div data-component=\"" ++ escapeText name ++ "\" data-hydrated=\"true\">" ++ markup ++ "</div>"

/-- Markup of one placeholder: of several faults the first of resolution, props, schema, loading and
painting gives the error block. -/
def hydrateOne (s : Resolver) (p : Placeholder) (w : Painting) : String × Painting :=
  let name := p.name
  match s.resolve w.registry name with
  | .error refusal =>
    let block :=
      match refusal with
      | .unknown n => unknownBlock n
      | .disallowed n => disallowedBlock n
    (block, { w with refusals := w.refusals ++ [refusal] })
  | .ok handle =>
    match p.props with
    | .error e => (errorBlock .hydrationFailed name ("Invalid props: " ++ e), w)
    | .ok props =>
      match ((w.registry.get? name).bind (·.required)).bind fun req => firstMissing req props with
      | some missing =>
        (errorBlock .missingProp name ("Missing required prop \"" ++ missing ++ "\""), w)
      | none =>
        let (outcome, registry) := w.registry.load handle
        let w := { w with registry }
        match outcome.bind fun c => c.paint props with
        | .ok markup => (hydratedBlock name markup, w)
        | .error e => (errorBlock .hydrationFailed name e.message, w)

def hydrateSegments (s : Resolver) : List Segment → Painting → List Char × Painting
  | [], w => ([], w)
  | .char c :: r, w =>
    let (cs, w) := hydrateSegments s r w
    (c :: cs, w)
  | .placeholder p :: r, w =>
    let (block, w) := hydrateOne s p w
    let (cs, w) := hydrateSegments s r w
    (block.toList ++ cs, w)

/-- Replaces every live placeholder by its component's markup. -/
def hydrate (s : Resolver) (html : String) (w : Painting) : String × Painting :=
  let (cs, w) := hydrateSegments s (segments html.toList) w
  (String.ofList cs, w)

end SecureLayout.Component
