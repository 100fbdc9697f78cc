import SecureLayout.Proofs.Template.Confined
import SecureLayout.Proofs.Template.Reaching

/-!
What a directive leaves. Main statements: the value of a prop comes to what its form says, `Expr.IsForm.comes`; every
directive leaves an error block or a placeholder, and its replacement puts just that in its place, `exists_leaves`.
-/

namespace SecureLayout

/-- A double as it goes out: null unless it is finite. -/
def Json.Value.ofDouble (x : Numeric.Double) : Json.Value :=
  if x.isFinite then .number (.float x) else .null

theorem SecurityPolicy.portable_secureContext (p : SecurityPolicy) {data : Json.Value} (h : data.Portable) :
    (p.secureContext data).Portable := by
  cases h with
  | object hs h => exact .object (hs.filter _) fun m hm => h m (List.mem_filter.1 hm).1
  | _ => exact .object .nil nofun

/-- The secure context has members under allowed roots only. -/
theorem SecurityPolicy.contains_of_member? {p : SecurityPolicy} {data v : Json.Value} {n : String}
    (h : (p.secureContext data).member? n = some v) : p.roots.contains n = true :=
  (List.mem_filter.1 (Entries.mem_of_get? h)).2

/-- A policy of settings whose roots are neither words of the language nor functions. -/
structure SecurityPolicy.Plain (p : SecurityPolicy) (s : Policy.Settings) : Prop where
  compiled : SecurityPolicy.compile s = .ok p
  roots : ∀ r ∈ s.expressionAllowlist, r ∉ Template.keywords ∧ Template.builtin? r = none

/-- The data do not hide the function that makes placeholders. -/
theorem SecurityPolicy.Plain.member?_placeholderFunction {p : SecurityPolicy} {s : Policy.Settings} (h : p.Plain s)
    (data : Json.Value) : (p.secureContext data).member? Template.placeholderFunction = none := by
  cases hv : (p.secureContext data).member? Template.placeholderFunction with
  | none => rfl
  | some v =>
    have hroot := SecurityPolicy.contains_of_member? hv
    rw [(SecurityPolicy.compile_ok h.compiled).2.1, Policy.RootAllowlist.contains_compile] at hroot
    cases (h.roots _ hroot).2

namespace Template

open Directive Lexer

variable {p : SecurityPolicy} {registry : Option Component.Registry} {w : World} {data : Json.Value} {e : Expr}
  {f : PropForm} {src : PropSource} {d : Directive} {head : List Char}

/-! ### Values of props -/

namespace PropForm

/-- What a form comes to on some data: nothing where a path takes a step from nothing. -/
def value? (data : Json.Value) : PropForm → Option Json.Value
  | text t => some (.text t)
  | integer n => some (.ofNat n)
  | negative n => some (.ofInt (-n))
  | point x => some (.ofDouble x)
  | negativePoint x => some (.ofDouble x.neg)
  | bool b => some (.bool b)
  | none => some .null
  | path n ss => (follow? (data.member? n) ss).map fun r => r.getD .null

/-- Integers are words of 64 bits, and paths do not begin at a function. -/
def Ready : PropForm → Prop
  | integer n => n < Numeric.twoTo 64
  | negative n => n ≤ Numeric.twoTo 63
  | path n _ => builtin? n = .none
  | _ => True

end PropForm

/-- A constant goes out as what it is. -/
theorem serves_literal {l : Literal} {v : Json.Value} (hv : ∀ objects, (Value.ofLiteral l).toJson objects = .ok v)
    (line : Nat) : (Expr.literal line l).Serves w v :=
  fun m _ _ hroom => ⟨_, answers_literal (Nat.zero_lt_of_lt hroom) line l m, hv m.objectText⟩

theorem serves_negated {l : Literal} {x : Value} {v : Json.Value} (hx : (Value.ofLiteral l).negate = .ok x)
    (hv : ∀ objects, x.toJson objects = .ok v) (line line' : Nat) :
    (Expr.unary line .negate (.literal line' l)).Serves w v := by
  intro m room hm hroom
  rw [Expr.depth] at hroom
  obtain ⟨room, rfl⟩ : ∃ k, room = k + 1 := ⟨room - 1, by omega⟩
  exact ⟨x, answers_negated (by omega) line line' hx m, hv m.objectText⟩

/-- What a form is read as comes to its value. -/
theorem Expr.IsForm.comes (h : e.IsForm f) (hready : f.Ready) (hdata : w.data = .ofJson data)
    (hportable : data.Portable) : e.Comes w (f.value? data) := by
  cases h with
  | text line t => exact serves_literal (fun _ => rfl) line
  | integer line n =>
    have hword : (Json.Number.int n).IsPortable := by
      have hlimit : n < Numeric.twoTo 64 := hready
      change -(Numeric.twoTo 63 : Int) ≤ n ∧ (n : Int) < (Numeric.twoTo 64 : Int)
      omega
    have hout : ∀ objects, (Value.ofJson (.number (.int n))).toJson objects = .ok (.number (.int n)) :=
      fun _ => Value.toJson_ofJson (.number hword)
    exact serves_literal (l := .int n) hout line
  | negative line line' n =>
    have hlimit : n ≤ Numeric.twoTo 63 := hready
    have hword : (Json.Number.int (-n)).IsPortable := by
      have hpositive : 0 < Numeric.twoTo 64 := by decide
      change -(Numeric.twoTo 63 : Int) ≤ -n ∧ -(n : Int) < (Numeric.twoTo 64 : Int)
      omega
    have hout : ∀ objects, (Value.ofJson (.number (.int (-n)))).toJson objects = .ok (.number (.int (-n))) :=
      fun _ => Value.toJson_ofJson (.number hword)
    exact serves_negated (l := .int n) (negate_int hlimit) hout line line'
  | point line x => exact serves_literal (fun _ => rfl) line
  | negativePoint line line' x => exact serves_negated (l := .float x) rfl (fun _ => rfl) line line'
  | bool line b => exact serves_literal (fun _ => rfl) line
  | none line => exact serves_literal (fun _ => rfl) line
  | @path line e n ss he =>
    have hroot : (Expr.var line n).Finds w (data.member? n) := Expr.finds_var hdata (.inr hready) line
    cases hr : follow? (data.member? n) ss with
    | none =>
      have hbreaks := he.breaks hroot hr
      rwa [PropForm.value?, hr]
    | some r =>
      have hfound := follow?_portable (fun v hv => hportable.member? hv) hr
      have hserves := (he.finds hroot hr).serves hfound
      rwa [PropForm.value?, hr]

/-- Integers in the source of a value that have a number, and that go out where they are the value. -/
def PropSource.Writable : PropSource → Prop
  | .literal source => (isDigits source = true → decimal source < Numeric.twoTo 64) ∧
      ∀ digits, source = '-' :: digits → isDigits digits = true → decimal digits ≤ Numeric.twoTo 63
  | .binding path => PositionsBelow integerLimit path

theorem PropSource.Writable.integersBelow (h : src.Writable) : src.IntegersBelow integerLimit := by
  have h64 : Numeric.twoTo 64 < integerLimit := by decide
  have h63 : Numeric.twoTo 63 < integerLimit := by decide
  cases src with
  | binding path => exact h
  | literal source =>
    rintro digits (rfl | hsource) hdigits
    · exact (h.1 hdigits).trans h64
    · exact (h.2 digits hsource hdigits).trans_lt h63

theorem PropSource.Has.ready (h : src.Has f) (hwritable : src.Writable)
    (hroot : ∀ n ss, f = .path n ss → builtin? n = .none) : f.Ready := by
  cases h with
  | integer hdigits hlimit => exact hwritable.1 hdigits
  | negative hdigits hlimit => exact hwritable.2 _ rfl hdigits
  | path hroute => exact hroot _ _ rfl
  | _ => trivial

/-! ### Directives -/

/-- A directive whose component is allowed and registered and whose paths are permitted. -/
structure Directive.Placed (p : SecurityPolicy) (registry : Option Component.Registry) (d : Directive) : Prop where
  allowed : p.validateComponent d.name = true
  registered : ∀ r ∈ registry, r.contains d.name = true
  permitted : ∀ q ∈ d.props, q.2.PermittedBy p

/-- What stands in the place of a directive: an error block, or a placeholder with a name and props. -/
inductive Trace where
  | error (marker : Component.Marker) (name message : String)
  | live (name : String) (props : List (String × PropForm))

namespace Trace

/-- The mark in the page; what was not found is null. -/
def mark (data : Json.Value) : Trace → Component.Mark
  | error marker name message => .error marker name message
  | live name props => .live name (.ofMembers (props.map fun q => (q.1, (q.2.value? data).getD .null)))

/-- A path in the placeholder takes a step from nothing. -/
def Breaks (data : Json.Value) : Trace → Prop
  | error _ _ _ => False
  | live _ props => ∃ q ∈ props, q.2.value? data = none

/-- A placeholder may be made of it. -/
def Ready (p : SecurityPolicy) (registry : Option Component.Registry) : Trace → Prop
  | error _ _ _ => True
  | live name props => p.validateComponent name = true ∧ (∀ r ∈ registry, r.contains name = true) ∧
      ∀ q ∈ props, q.2.Ready

end Trace

/-- A directive leaves a placeholder with its name and props, or an error block of the first reason there is against
that: the policy rejects the name, the registry does not know it, or the policy refuses a path. -/
inductive Directive.Leaves (p : SecurityPolicy) (registry : Option Component.Registry) (d : Directive) : Trace → Prop
  | disallowed (hname : p.validateComponent d.name = false) : Leaves p registry d
      (.error .disallowedComponent d.name ("Component \"" ++ d.name ++ "\" is not allowed in this layout"))
  | unknown (hname : p.validateComponent d.name = true) {r : Component.Registry} (hr : registry = some r)
      (hunknown : r.contains d.name = false) : Leaves p registry d
        (.error .unknownComponent d.name ("Component \"" ++ d.name ++ "\" is not registered"))
  | refused (hname : p.validateComponent d.name = true) (hregistered : ∀ r ∈ registry, r.contains d.name = true)
      {before after : List (String × PropSource)} {key : String} {path : List Char}
      (hprops : d.props = before ++ (key, .binding path) :: after)
      (hbefore : ∀ q ∈ before, q.2.PermittedBy p)
      (hpath : p.validateExpression (String.ofList path) = false) : Leaves p registry d
        (.error .policyViolation d.name ("Binding \"" ++ String.ofList path ++ "\" is not permitted"))
  | live (hplaced : d.Placed p registry) {props : List (String × PropForm)}
      (hprops : List.Forall₂ FormFor d.props props) :
      Leaves p registry d (.live d.name props)

/-- The replacement puts this in the place of a directive: markup, or a call that is read as such. -/
inductive Directive.Replacement.Puts : Replacement → Trace → Prop
  | block (marker : Component.Marker) (name message : String) :
    Puts (.block (Component.errorBlock marker name message)) (.error marker name message)
  | call {name : String} {texts : List (String × List Char)} {props : List (String × PropForm)}
    {words : List (String × List Token)} (hspoken : (callTag name texts).Says (callTokens name words))
    (hsaid : List.Forall₂ (Parser.SaidFor Expr.IsForm) props words) : Puts (.call name texts) (.live name props)

/-- The first path that is refused. -/
theorem permitted_error {props : List (String × PropSource)} {message : String}
    (h : permitted p props = .error message) : ∃ before key path after,
      props = before ++ (key, .binding path) :: after ∧ message = String.ofList path ∧
      (∀ q ∈ before, q.2.PermittedBy p) ∧
        p.validateExpression (String.ofList path) = false := by
  induction props with
  | nil => cases h
  | cons q props ih =>
    obtain ⟨key, src⟩ := q
    have hmore {v : List Char} (hcons : (do return (key, v) :: (← permitted p props) :
        Except String (List (String × List Char))) = .error message)
        (hq : src.PermittedBy p) :
        ∃ before key' path after, (key, src) :: props = before ++ (key', .binding path) :: after ∧
          message = String.ofList path ∧
          (∀ q ∈ before, q.2.PermittedBy p) ∧
            p.validateExpression (String.ofList path) = false := by
      have hrest : permitted p props = .error message := by
        cases hrest : permitted p props with
        | ok more =>
          rw [hrest] at hcons
          cases hcons
        | error m =>
          rw [hrest] at hcons
          cases hcons
          rfl
      obtain ⟨before, key', path, after, rfl, hmessage, hbefore, hpath⟩ := ih hrest
      exact ⟨(key, src) :: before, key', path, after, rfl, hmessage, List.forall_mem_cons.2 ⟨hq, hbefore⟩, hpath⟩
    cases src with
    | literal source => exact hmore h nofun
    | binding path =>
      rw [permitted] at h
      split at h
      · next hallowed =>
        refine hmore h fun path' hsame => ?_
        obtain rfl := PropSource.binding.inj hsame
        exact hallowed
      · next hrefused =>
        cases h
        exact ⟨[], key, path, props, rfl, rfl, fun q hq => absurd hq List.not_mem_nil, by simpa using hrefused⟩

/-- No path of props that are permitted is refused. -/
theorem permitted_paths {props : List (String × PropSource)} {texts : List (String × List Char)}
    (h : permitted p props = .ok texts) :
    ∀ q ∈ props, q.2.PermittedBy p := by
  have hall := permitted_ok h
  clear h
  induction hall with
  | nil => exact fun q hq => absurd hq List.not_mem_nil
  | cons hqt _ ih => exact List.forall_mem_cons.2 ⟨hqt.2, ih⟩

/-- The forms of permitted props may be placed. -/
theorem forms_ready {s : Policy.Settings} (hp : p.Plain s) {props : List (String × PropSource)}
    {forms : List (String × PropForm)} (h : List.Forall₂ FormFor props forms)
    (hpermitted : ∀ q ∈ props, q.2.PermittedBy p)
    (hwritable : ∀ q ∈ props, q.2.Writable) : ∀ f ∈ forms, f.2.Ready := by
  induction h with
  | nil => exact fun q hq => absurd hq List.not_mem_nil
  | @cons q f props forms hqf hforms ih =>
    obtain ⟨key, src⟩ := q
    obtain ⟨key', f⟩ := f
    obtain ⟨hallowed, hpermitted⟩ := List.forall_mem_cons.1 hpermitted
    obtain ⟨hfirst, hwritable⟩ := List.forall_mem_cons.1 hwritable
    have hhas : src.Has f := hqf.has
    refine List.forall_mem_cons.2 ⟨hhas.ready hfirst ?_, ih hpermitted hwritable⟩
    rintro n ss rfl
    cases hhas with
    | path hroute => exact (hp.roots n (hroute.root_mem hp.compiled (hallowed _ rfl))).2

/-- Every directive leaves something, and its replacement puts just that in its place. -/
theorem exists_leaves {s : Policy.Settings} (hp : p.Plain s) {args : List Char} (hd : Directive.parse args = .ok d)
    (hwritable : d.Placed p registry → ∀ q ∈ d.props, q.2.Writable) :
    ∃ o, d.Leaves p registry o ∧ (d.replacement p registry).Puts o ∧ o.Ready p registry := by
  unfold replacement
  split
  · next hname => exact ⟨_, .disallowed (by simpa using hname), .block _ _ _, trivial⟩
  · next hname =>
    have hname : p.validateComponent d.name = true := by simpa using hname
    split
    · next hregistry =>
      obtain ⟨r, rfl, hunknown⟩ := (Option.any_eq_true _ _).1 hregistry
      exact ⟨_, .unknown hname rfl (by simpa using hunknown), .block _ _ _, trivial⟩
    · next hregistry =>
      have hregistered : ∀ r ∈ registry, r.contains d.name = true := by
        rintro r rfl
        simpa using hregistry
      split
      · next texts hprops =>
        have hpermitted := permitted_paths hprops
        have hwritable := hwritable ⟨hname, hregistered, hpermitted⟩
        have hroots : ∀ path n ss, Route path n ss → p.validateExpression (String.ofList path) = true → n ∉ keywords :=
          fun path n ss hroute hallowed => (hp.roots n (hroute.root_mem hp.compiled hallowed)).1
        obtain ⟨words, forms, hspoken, hforms, hsaid⟩ :=
          replacement_said hd hprops (fun q hq => (hwritable q hq).integersBelow) hroots
        exact ⟨_, .live ⟨hname, hregistered, hpermitted⟩ hforms, .call hspoken hsaid, hname, hregistered,
          forms_ready hp hforms hpermitted hwritable⟩
      · next message hprops =>
        obtain ⟨before, key, path, after, hsplit, rfl, hbefore, hpath⟩ := permitted_error hprops
        exact ⟨_, .refused hname hregistered hsplit hbefore hpath, .block _ _ _, trivial⟩

end Template

end SecureLayout
