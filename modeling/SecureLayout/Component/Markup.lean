import SecureLayout.Json.Printer
import SecureLayout.Json.Reader
import SecureLayout.Text.Replace

/-!
Markup that stands for a component: a live placeholder with its name and props, or an error block.
`segments` cuts a text into placeholders and the characters between them. Main statement: the pieces
put together again are the text.
-/

namespace SecureLayout.Component

open Json (Value)

/-- Why an error block stands in the place of a component. -/
inductive Marker where
  | disallowedComponent
  | unknownComponent
  | policyViolation
  | missingProp
  | hydrationFailed
  deriving DecidableEq, Repr

def Marker.all : List Marker :=
  [.disallowedComponent, .unknownComponent, .policyViolation, .missingProp, .hydrationFailed]

def Marker.text : Marker → String
  | disallowedComponent => "disallowed-component"
  | unknownComponent => "unknown-component"
  | policyViolation => "policy-violation"
  | missingProp => "missing-prop"
  | hydrationFailed => "hydration-failed"

/-- Braces are escaped too, so that no escaped text opens a template tag. -/
def escapeChar : Char → List Char
  | '&' => "&amp;".toList
  | '<' => "&lt;".toList
  | '>' => "&gt;".toList
  | '"' => "&quot;".toList
  | '\'' => "&#39;".toList
  | '\x7b' => "&#123;".toList
  | '\x7d' => "&#125;".toList
  | c => [c]

def escape (s : List Char) : List Char :=
  s.flatMap escapeChar

def escapeText (s : String) : String :=
  String.ofList (escape s.toList)

/-- Inside single quotes only that quote and the beginning of an entity are escaped. -/
def escapePropChar : Char → List Char
  | '&' => "&amp;".toList
  | '\'' => "&#39;".toList
  | c => [c]

def escapeProps (s : List Char) : List Char :=
  s.flatMap escapePropChar

/-- One entity after the other is replaced; the one of the ampersand comes last. -/
def unescape (s : List Char) : List Char :=
  [("&#123;", "\x7b"), ("&#125;", "\x7d"), ("&#39;", "'"), ("&quot;", "\""), ("&lt;", "<"),
    ("&gt;", ">"), ("&amp;", "&")].foldl
    (fun s (entity, plain) => Text.replaceAll entity.toList plain.toList s) s

def nameOpener : List Char := "<div data-component=\"".toList
def propsOpener : List Char := " data-props='".toList
def closer : List Char := "></div>".toList

/-- `<div data-component="NAME" data-props='PROPS'></div>`, where the props are JSON. -/
def livePlaceholder (name : String) (props : Value) : String :=
  String.ofList (nameOpener ++ (escape name.toList ++ '"' ::
    (propsOpener ++ (escapeProps props.render ++ '\'' :: closer))))

def errorBlock (marker : Marker) (name message : String) : String :=
  "<div class=\"layout-error\" data-layout-error=\"" ++ marker.text ++ "\" data-component-name=\"" ++
    escapeText name ++ "\">" ++ escapeText message ++ "</div>"

def disallowedBlock (name : String) : String :=
  errorBlock .disallowedComponent name ("Component \"" ++ name ++ "\" is not allowed in this layout")

def unknownBlock (name : String) : String :=
  errorBlock .unknownComponent name ("Component \"" ++ name ++ "\" is not registered")

/-! ### Finding placeholders -/

/-- A placeholder's name and props as they stand in a text, still escaped. -/
structure Placeholder where
  rawName : List Char
  rawProps : List Char
  deriving DecidableEq, Repr

namespace Placeholder

def name (p : Placeholder) : String :=
  String.ofList (unescape p.rawName)

/-- Props that are no JSON text come with the complaint about it. -/
def props (p : Placeholder) : Except String Value :=
  match Value.parse (String.ofList (unescape p.rawProps)) with
  | .ok v => .ok v
  | .error e => .error e.message

/-- The text that the placeholder takes. -/
def source (p : Placeholder) : List Char :=
  nameOpener ++ (p.rawName ++ '"' :: (propsOpener ++ (p.rawProps ++ '\'' :: closer)))

end Placeholder

/-- The characters before the first `q` and those after it. -/
def untilQuote (q : Char) : List Char → Option (List Char × List Char)
  | [] => none
  | c :: s => if c = q then some ([], s) else (untilQuote q s).map fun (a, r) => (c :: a, r)

/-- A placeholder at the beginning of a text, and what follows it. -/
def placeholder? (s : List Char) : Option (Placeholder × List Char) := do
  let s ← Text.stripStart nameOpener s
  let (name, s) ← untilQuote '"' s
  let s ← Text.stripStart propsOpener s
  let (props, s) ← untilQuote '\'' s
  let s ← Text.stripStart closer s
  return (⟨name, props⟩, s)

theorem untilQuote_eq_some {q : Char} {s a r : List Char} (h : untilQuote q s = some (a, r)) :
    s = a ++ q :: r := by
  induction s generalizing a with
  | nil => simp [untilQuote] at h
  | cons c s ih =>
    unfold untilQuote at h
    split at h
    · next hc => simp_all
    · simp only [Option.map_eq_some_iff] at h
      obtain ⟨⟨b, t⟩, hb, he⟩ := h
      simp only [Prod.mk.injEq] at he
      obtain ⟨rfl, rfl⟩ := he
      simp [ih hb]

theorem source_append_of_placeholder? {s r : List Char} {p : Placeholder}
    (h : placeholder? s = some (p, r)) : s = p.source ++ r := by
  simp only [placeholder?, Option.pure_def, Option.bind_eq_bind, Option.bind_eq_some_iff,
    Option.some.injEq, Prod.exists, Prod.mk.injEq] at h
  obtain ⟨s1, h1, name, s2, h2, s3, h3, props, s4, h4, s5, h5, rfl, rfl⟩ := h
  have e1 := Text.stripStart_eq_some h1
  have e2 := untilQuote_eq_some h2
  have e3 := Text.stripStart_eq_some h3
  have e4 := untilQuote_eq_some h4
  have e5 := Text.stripStart_eq_some h5
  subst e5 e4 e3 e2 e1
  simp only [Placeholder.source, List.append_assoc, List.cons_append]

theorem length_lt_of_placeholder? {s r : List Char} {p : Placeholder}
    (h : placeholder? s = some (p, r)) : r.length < s.length := by
  have := congrArg List.length (source_append_of_placeholder? h)
  simp only [Placeholder.source, List.length_append, List.length_cons] at this
  omega

inductive Segment where
  | char (c : Char)
  | placeholder (p : Placeholder)
  deriving DecidableEq, Repr

def Segment.source : Segment → List Char
  | char c => [c]
  | placeholder p => p.source

/-- The leftmost placeholder is taken first, and none begins inside another. -/
def segments : List Char → List Segment
  | [] => []
  | c :: s =>
    match h : placeholder? (c :: s) with
    | some (p, r) =>
      have := length_lt_of_placeholder? h
      .placeholder p :: segments r
    | none => .char c :: segments s
termination_by s => s.length
decreasing_by
  · exact this
  · exact Nat.lt_succ_self s.length

theorem source_segments (s : List Char) : (segments s).flatMap Segment.source = s := by
  fun_induction segments s with
  | case1 => rfl
  | case2 c s p r h _ ih =>
    simp [ih, Segment.source, source_append_of_placeholder? h]
  | case3 c s h ih => simp [ih, Segment.source]

/-- A placeholder with the octets it takes in the text, from `first` up to `last`. -/
structure Located where
  first : Nat
  last : Nat
  placeholder : Placeholder
  deriving DecidableEq, Repr

def locate (at_ : Nat) : List Segment → List Located
  | [] => []
  | .char c :: r => locate (at_ + c.utf8Size) r
  | .placeholder p :: r =>
    let last := at_ + Text.byteLength p.source
    ⟨at_, last, p⟩ :: locate last r

/-- Every live placeholder of a text, in order. -/
def findPlaceholders (html : String) : List Located :=
  locate 0 (segments html.toList)

end SecureLayout.Component
