import SecureLayout.Component.Hydration
import SecureLayout.Proofs.Component.Placeholders

/-!
What hydration makes of a text. `Outcome` is one placeholder's fate, a rule for each kind, and `Fills` the fates of all
placeholders one after the other; both say which implementation was called, with which props, and what was reported.
Main statement: whatever the text, it comes back with just its placeholders replaced, each by the block of the first
rule that applies, and the implementations matter in the calls of admitted placeholders only.
-/

namespace SecureLayout.Component

open Json (Value)
open Text (byteLength)

/-- A call of an implementation. -/
structure Call where
  component : Component
  props : Value

/-- Every prop that is asked for is there. -/
def Registered.Complete (e : Registered) (props : Value) : Prop :=
  ∀ required, e.required = some required → ∀ k ∈ required, (props.member? k).isSome

/-! ### One placeholder -/

section Outcome

variable (s : Resolver) (r : Registry) (p : Placeholder)

/-- The name is registered, as `e`, and passes the allowlist. -/
structure Cleared (e : Registered) : Prop where
  registered : r.get? p.name = some e
  allowed : s.allowed.isAllowed p.name = true

/-- Nothing but the implementation itself can refuse. -/
structure Admitted (e : Registered) (props : Value) : Prop extends Cleared s r p e where
  readable : p.props = .ok props
  complete : e.Complete props

/-- `Outcome s r p now block refusal call now'`: the block in place of the placeholder, what is reported, what is
called, and the registry after a bundle may have been loaded. Names are looked up in `r`. -/
inductive Outcome (now : Registry) : String → Option Refusal → Option Call → Registry → Prop
  | unknown : r.get? p.name = none → Outcome now (unknownBlock p.name) (some (.unknown p.name)) none now
  | disallowed {e} : r.get? p.name = some e → s.allowed.isAllowed p.name = false →
      Outcome now (disallowedBlock p.name) (some (.disallowed p.name)) none now
  | unreadable {e complaint} : Cleared s r p e → p.props = .error complaint →
      Outcome now (errorBlock .hydrationFailed p.name ("Invalid props: " ++ complaint)) none none now
  | missing {e props k} {before after : List String} : Cleared s r p e → p.props = .ok props →
      e.required = some (before ++ k :: after) → (∀ j ∈ before, (props.member? j).isSome) → props.member? k = none →
      Outcome now (errorBlock .missingProp p.name ("Missing required prop \"" ++ k ++ "\"")) none none now
  | unloaded {e props f now'} : Admitted s r p e props → now.load e.handle = (.error f, now') →
      Outcome now (errorBlock .hydrationFailed p.name f.message) none none now'
  | unpainted {e props c f now'} : Admitted s r p e props → now.load e.handle = (.ok c, now') →
      c.paint props = .error f →
      Outcome now (errorBlock .hydrationFailed p.name f.message) none (some ⟨c, props⟩) now'
  | painted {e props c markup now'} : Admitted s r p e props → now.load e.handle = (.ok c, now') →
      c.paint props = .ok markup → Outcome now (hydratedBlock p.name markup) none (some ⟨c, props⟩) now'

end Outcome

variable {s : Resolver} {r now now' : Registry} {p : Placeholder} {block : String} {refusal : Option Refusal}
  {call : Option Call}

theorem firstMissing_eq_none {e : Registered} {props : Value} :
    (e.required.bind fun required => firstMissing required props) = none ↔ e.Complete props := by
  cases h : e.required <;> simp [Registered.Complete, firstMissing, h, Option.isSome_iff_ne_none]

theorem firstMissing_eq_some {required : List String} {props : Value} {k : String} :
    firstMissing required props = some k ↔ props.member? k = none ∧
      ∃ before after, required = before ++ k :: after ∧ ∀ j ∈ before, (props.member? j).isSome := by
  simp [firstMissing, List.find?_eq_some_iff_append, Option.isSome_iff_ne_none]

theorem Cleared.resolve {e : Registered} (h : Cleared s r p e) : s.resolve r p.name = .ok e.handle := by
  simp [Resolver.resolve, Resolver.classify, h.registered, h.allowed]

/-- Some rule applies. -/
theorem exists_outcome (s : Resolver) (r : Registry) (p : Placeholder) (now : Registry) :
    ∃ block refusal call now', Outcome s r p now block refusal call now' := by
  cases hget : r.get? p.name with
  | none => exact ⟨_, _, _, _, .unknown hget⟩
  | some e =>
    cases hallowed : s.allowed.isAllowed p.name with
    | false => exact ⟨_, _, _, _, .disallowed hget hallowed⟩
    | true =>
      have hcleared : Cleared s r p e := ⟨hget, hallowed⟩
      cases hprops : p.props with
      | error complaint => exact ⟨_, _, _, _, .unreadable hcleared hprops⟩
      | ok props =>
        cases hmissing : e.required.bind fun required => firstMissing required props with
        | some k =>
          obtain ⟨required, hrequired, hfirst⟩ := Option.bind_eq_some_iff.1 hmissing
          obtain ⟨hk, before, after, rfl, hbefore⟩ := firstMissing_eq_some.1 hfirst
          exact ⟨_, _, _, _, .missing hcleared hprops hrequired hbefore hk⟩
        | none =>
          have hadmitted : Admitted s r p e props := ⟨hcleared, hprops, firstMissing_eq_none.1 hmissing⟩
          rcases hload : now.load e.handle with ⟨f | c, now'⟩
          · exact ⟨_, _, _, _, .unloaded hadmitted hload⟩
          · cases hpaint : c.paint props with
            | error f => exact ⟨_, _, _, _, .unpainted hadmitted hload hpaint⟩
            | ok markup => exact ⟨_, _, _, _, .painted hadmitted hload hpaint⟩

theorem Registry.components_load (now : Registry) (h : Handle) : (now.load h).2.components = now.components := by
  unfold Registry.load
  split
  · rfl
  · split
    · rfl
    · split <;> rfl

theorem Outcome.components (h : Outcome s r p now block refusal call now') : now'.components = now.components := by
  cases h with
  | unknown | disallowed | unreadable | missing => rfl
  | unloaded _ hload | unpainted _ hload _ | painted _ hload _ => rw [← now.components_load, hload]

theorem Admitted.hydrateOne_eq {e : Registered} {props : Value} {w : Painting} (h : Admitted s w.registry p e props) :
    hydrateOne s p w =
      (match (w.registry.load e.handle).1.bind fun c => c.paint props with
        | .ok markup => hydratedBlock p.name markup
        | .error f => errorBlock .hydrationFailed p.name f.message,
      { w with registry := (w.registry.load e.handle).2 }) := by
  simp only [hydrateOne, h.resolve, h.readable, h.registered, Option.bind_some, firstMissing_eq_none.2 h.complete]
  cases (w.registry.load e.handle).1.bind fun c => c.paint props <;> rfl

/-- The rule that applies is the one that is followed. -/
theorem Outcome.hydrateOne_eq {w : Painting} (h : Outcome s r p w.registry block refusal call now')
    (hr : w.registry.components = r.components) :
    hydrateOne s p w = (block, ⟨now', w.refusals ++ refusal.toList⟩) := by
  have hget : w.registry.get? p.name = r.get? p.name := by rw [Registry.get?, Registry.get?, hr]
  have hclear {e : Registered} (hc : Cleared s r p e) : Cleared s w.registry p e := ⟨hget.trans hc.1, hc.2⟩
  have hadmits {e : Registered} {props : Value} (ha : Admitted s r p e props) : Admitted s w.registry p e props :=
    ⟨hclear ha.1, ha.2, ha.3⟩
  cases h with
  | unknown hnone => simp [hydrateOne, Resolver.resolve, Resolver.classify, hget, hnone]
  | disallowed he hno => simp [hydrateOne, Resolver.resolve, Resolver.classify, hget, he, hno]
  | unreadable hc hprops => simp [hydrateOne, (hclear hc).resolve, hprops]
  | @missing e props k before after hc hprops hrequired hbefore hk =>
    have hfirst := firstMissing_eq_some.2 ⟨hk, before, after, rfl, hbefore⟩
    simp [hydrateOne, (hclear hc).resolve, hprops, (hclear hc).registered, hrequired, hfirst]
  | unloaded ha hload => simp [(hadmits ha).hydrateOne_eq, hload, Except.bind]
  | unpainted ha hload hpaint | painted ha hload hpaint =>
    simp [(hadmits ha).hydrateOne_eq, hload, Except.bind, hpaint]

/-! ### One placeholder after the other -/

/-- A placeholder with what became of it, and the text up to the next one. -/
structure Filled where
  located : Located
  block : String
  refusal : Option Refusal
  call : Option Call
  text : List Char

namespace Filled

def placeholder (q : Filled) : Placeholder :=
  q.located.placeholder

def segments (q : Filled) : List Segment :=
  .placeholder q.placeholder :: q.text.map .char

/-- What was read for it. -/
def source (q : Filled) : List Char :=
  q.placeholder.source ++ q.text

/-- What is written for it. -/
def output (q : Filled) : List Char :=
  q.block.toList ++ q.text

end Filled

/-- Each placeholder's outcome begins with the bundles that the ones before it have left loaded. -/
inductive Fills (s : Resolver) (r : Registry) : Registry → List Filled → Registry → Prop
  | nil (now : Registry) : Fills s r now [] now
  | cons {now next last : Registry} {q : Filled} {parts : List Filled} :
      Outcome s r q.placeholder now q.block q.refusal q.call next → Fills s r next parts last →
      Fills s r now (q :: parts) last

/-- The placeholders stand where their spans say: the first at `at_`, each after the one before it and its text. -/
def Spanned : Nat → List Filled → Prop
  | _, [] => True
  | at_, q :: parts =>
    q.located.first = at_ ∧ q.located.last = at_ + byteLength q.placeholder.source ∧
      Spanned (q.located.last + byteLength q.text) parts

variable {parts : List Filled}

theorem Fills.components (h : Fills s r now parts now') : now'.components = now.components := by
  induction h with
  | nil => rfl
  | cons ho _ ih => exact ih.trans ho.components

theorem hydrateSegments_map_char (s : Resolver) (text : List Char) (ks : List Segment) (w : Painting) :
    hydrateSegments s (text.map .char ++ ks) w =
      (text ++ (hydrateSegments s ks w).1, (hydrateSegments s ks w).2) := by
  induction text with
  | nil => rfl
  | cons c text ih => rw [List.map_cons, List.cons_append, hydrateSegments, ih]; rfl

theorem Fills.hydrateSegments_eq {w : Painting} (h : Fills s r w.registry parts now')
    (hr : w.registry.components = r.components) :
    hydrateSegments s (parts.flatMap Filled.segments) w =
      (parts.flatMap Filled.output, ⟨now', w.refusals ++ parts.filterMap Filled.refusal⟩) := by
  generalize hnow : w.registry = now at h
  induction h generalizing w with
  | nil => simp [hydrateSegments, ← hnow]
  | @cons now next last q parts ho _ ih =>
    subst hnow
    have hrest := @ih ⟨next, w.refusals ++ q.refusal.toList⟩ (ho.components.trans hr) rfl
    have hrefusals : w.refusals ++ (q :: parts).filterMap Filled.refusal =
        w.refusals ++ q.refusal.toList ++ parts.filterMap Filled.refusal := by
      rw [List.filterMap_cons, List.append_assoc]
      cases q.refusal <;> rfl
    rw [List.flatMap_cons, List.flatMap_cons, hrefusals, Filled.segments, List.cons_append, hydrateSegments,
      ho.hydrateOne_eq hr]
    simp only [hydrateSegments_map_char, hrest, Filled.output, List.append_assoc]

theorem Spanned.locate_eq {at_ : Nat} (h : Spanned at_ parts) :
    locate at_ (parts.flatMap Filled.segments) = parts.map Filled.located := by
  induction parts generalizing at_ with
  | nil => rfl
  | cons q parts ih =>
    obtain ⟨rfl, hlast, hrest⟩ := h
    rw [List.flatMap_cons, Filled.segments, List.cons_append, locate, locate_append, ← hlast, ih hrest]
    rfl

/-- Any text is a beginning without placeholders, and placeholders with texts behind them. -/
theorem exists_fills (s : Resolver) (r now : Registry) (at_ : Nat) (ks : List Segment) :
    ∃ (head : List Char) (parts : List Filled) (last : Registry),
      ks = head.map .char ++ parts.flatMap Filled.segments ∧ Spanned (at_ + byteLength head) parts ∧
        Fills s r now parts last := by
  induction ks generalizing now at_ with
  | nil => exact ⟨[], [], now, rfl, trivial, .nil now⟩
  | cons k ks ih =>
    cases k with
    | char c =>
      obtain ⟨head, parts, last, rfl, hspanned, hfills⟩ := ih now (at_ + byteLength [c])
      rw [Nat.add_assoc, ← Template.byteLength_append] at hspanned
      exact ⟨c :: head, parts, last, rfl, hspanned, hfills⟩
    | placeholder p =>
      obtain ⟨block, refusal, call, next, ho⟩ := exists_outcome s r p now
      obtain ⟨text, parts, last, rfl, hspanned, hfills⟩ := ih next (at_ + byteLength p.source)
      let q : Filled := ⟨⟨at_, at_ + byteLength p.source, p⟩, block, refusal, call, text⟩
      exact ⟨[], q :: parts, last, rfl, ⟨rfl, rfl, hspanned⟩, .cons (q := q) ho hfills⟩

theorem source_map_char (head : List Char) : (head.map Segment.char).flatMap Segment.source = head := by
  induction head with
  | nil => rfl
  | cons c head ih => rw [List.map_cons, List.flatMap_cons, ih]; rfl

theorem source_flatMap_segments (parts : List Filled) :
    (parts.flatMap Filled.segments).flatMap Segment.source = parts.flatMap Filled.source := by
  induction parts with
  | nil => rfl
  | cons q parts ih =>
    rw [List.flatMap_cons, List.flatMap_append, ih, Filled.segments, List.flatMap_cons, source_map_char]
    rfl

/-! ### Other implementations -/

/-- The implementation that answers as `g` says. -/
def repaint (g : Component → Value → Result String) (c : Component) : Component :=
  { c with paint := g c }

def Handle.repaint (g : Component → Value → Result String) : Handle → Handle
  | ready c => ready (Component.repaint g c)
  | deferred i => deferred i

def Registered.repaint (g : Component → Value → Result String) (e : Registered) : Registered :=
  { e with handle := e.handle.repaint g }

def Bundle.repaint (g : Component → Value → Result String) (b : Bundle) : Bundle :=
  { b with
    loader := fun own all => (b.loader own all).map (Component.repaint g)
    loaded := b.loaded.map (Component.repaint g) }

/-- Everything is registered as before, and every implementation answers as `g` says. -/
def Registry.repaint (g : Component → Value → Result String) (r : Registry) : Registry :=
  ⟨Entries.mapValues (Registered.repaint g) r.components, r.bundles.map (Bundle.repaint g)⟩

def Call.repaint (g : Component → Value → Result String) (k : Call) : Call :=
  { k with component := Component.repaint g k.component }

/-- `g` answers this call as the implementation does. -/
def Call.Kept (g : Component → Value → Result String) (k : Call) : Prop :=
  g k.component k.props = k.component.paint k.props

def Filled.repaint (g : Component → Value → Result String) (q : Filled) : Filled :=
  { q with call := q.call.map (Call.repaint g) }

variable {g : Component → Value → Result String}

theorem Registry.get?_repaint (r : Registry) (name : String) :
    (r.repaint g).get? name = (r.get? name).map (Registered.repaint g) := by
  obtain ⟨components, bundles⟩ := r
  simp only [Registry.get?, Registry.repaint, Entries.mapValues]
  induction components with
  | nil => rfl
  | cons e components ih =>
    simp only [List.map_cons, Entries.get?, ih]
    split <;> rfl

theorem Registry.loads_repaint (r : Registry) : (r.repaint g).loads = r.loads := by
  simp only [Registry.loads, Registry.repaint, List.foldl_map, Bundle.repaint]

theorem Registry.peek_repaint (r : Registry) (h : Handle) :
    (r.repaint g).peek (h.repaint g) = (r.peek h).map (Component.repaint g) := by
  cases h with
  | ready c => rfl
  | deferred i =>
    simp only [Registry.peek, Handle.repaint, Registry.repaint, List.getElem?_map]
    cases r.bundles[i]? <;> rfl

theorem Registry.load_repaint (r : Registry) (h : Handle) :
    (r.repaint g).load (h.repaint g) = ((r.load h).1.map (Component.repaint g), (r.load h).2.repaint g) := by
  unfold Registry.load
  rw [r.peek_repaint h]
  cases r.peek h with
  | some c => rfl
  | none =>
    cases h with
    | ready c => rfl
    | deferred i =>
      simp only [Option.map_none, Handle.repaint]
      rw [r.loads_repaint]
      simp only [Registry.repaint, List.getElem?_map]
      cases hb : r.bundles[i]? with
      | none => rfl
      | some b =>
        have hloaded : ((b.loader b.attempts r.loads).map (Component.repaint g)).toOption =
            (b.loader b.attempts r.loads).toOption.map (Component.repaint g) := by
          cases b.loader b.attempts r.loads <;> rfl
        simp only [Option.map_some, Bundle.repaint, hloaded, List.map_set]

/-- Only the call that was made can tell other implementations. -/
theorem Outcome.repaint (h : Outcome s r p now block refusal call now') (hkept : ∀ k ∈ call, k.Kept g) :
    Outcome s (r.repaint g) p (now.repaint g) block refusal (call.map (Call.repaint g)) (now'.repaint g) := by
  have hget {e : Registered} (he : r.get? p.name = some e) : (r.repaint g).get? p.name = some (e.repaint g) := by
    rw [r.get?_repaint, he]; rfl
  have hclear {e : Registered} (hc : Cleared s r p e) : Cleared s (r.repaint g) p (e.repaint g) :=
    ⟨hget hc.1, hc.2⟩
  have hadmits {e : Registered} {props : Value} (ha : Admitted s r p e props) :
      Admitted s (r.repaint g) p (e.repaint g) props := ⟨hclear ha.1, ha.2, ha.3⟩
  have hload {e : Registered} {outcome : Result Component} (hl : now.load e.handle = (outcome, now')) :
      (now.repaint g).load (e.repaint g).handle = (outcome.map (Component.repaint g), now'.repaint g) := by
    rw [Registered.repaint, now.load_repaint, hl]
  cases h with
  | unknown hnone => exact .unknown (by rw [r.get?_repaint, hnone]; rfl)
  | disallowed he hno => exact .disallowed (hget he) hno
  | unreadable hc hprops => exact .unreadable (hclear hc) hprops
  | missing hc hprops hrequired hbefore hk => exact .missing (hclear hc) hprops hrequired hbefore hk
  | unloaded ha hl => exact .unloaded (hadmits ha) (hload hl)
  | unpainted ha hl hpaint => exact .unpainted (hadmits ha) (hload hl) ((hkept _ rfl).trans hpaint)
  | painted ha hl hpaint => exact .painted (hadmits ha) (hload hl) ((hkept _ rfl).trans hpaint)

theorem Fills.repaint (h : Fills s r now parts now') (hkept : ∀ q ∈ parts, ∀ k ∈ q.call, k.Kept g) :
    Fills s (r.repaint g) (now.repaint g) (parts.map (Filled.repaint g)) (now'.repaint g) := by
  induction h with
  | nil now => exact .nil _
  | cons ho _ ih =>
    obtain ⟨hq, hparts⟩ := List.forall_mem_cons.1 hkept
    exact .cons (ho.repaint hq) (ih hparts)

/-! ### The whole text -/

/-- A call is made for an admitted placeholder only, with its props, and of what its own handle gives. -/
theorem Outcome.admitted (h : Outcome s r p now block refusal call now') (k : Call) (hk : k ∈ call) :
    ∃ e, Admitted s r p e k.props ∧ now.load e.handle = (.ok k.component, now') := by
  cases h with
  | unknown | disallowed | unreadable | missing | unloaded => cases hk
  | unpainted ha hload _ | painted ha hload _ =>
    cases hk
    exact ⟨_, ha, hload⟩

theorem Fills.admitted (h : Fills s r now parts now') :
    ∀ q ∈ parts, ∀ k ∈ q.call, ∃ e, Admitted s r q.placeholder e k.props := by
  induction h with
  | nil => exact fun _ hq => nomatch hq
  | cons ho _ ih =>
    refine List.forall_mem_cons.2 ⟨fun k hk => ?_, ih⟩
    obtain ⟨e, ha, -⟩ := ho.admitted k hk
    exact ⟨e, ha⟩

/-- Any text at all is hydrated: it is a beginning and found placeholders with texts behind them, and the result is the
same with each placeholder's block in its place, exactly as the block stands. What is reported is one refusal for each
unknown or disallowed placeholder. A call is made for admitted placeholders only; whatever the implementations would
answer to other calls, the result is the same. -/
theorem hydrate_fills (s : Resolver) (html : String) (w : Painting) :
    ∃ (head : List Char) (parts : List Filled) (last : Registry),
      html.toList = head ++ parts.flatMap Filled.source ∧
      findPlaceholders html = parts.map Filled.located ∧
      Spanned (byteLength head) parts ∧
      Fills s w.registry w.registry parts last ∧
      hydrate s html w =
        (String.ofList (head ++ parts.flatMap Filled.output), ⟨last, w.refusals ++ parts.filterMap Filled.refusal⟩) ∧
      (∀ q ∈ parts, ∀ k ∈ q.call, ∃ e, Admitted s w.registry q.placeholder e k.props) ∧
      ∀ g : Component → Value → Result String, (∀ q ∈ parts, ∀ k ∈ q.call, k.Kept g) →
        hydrate s html { w with registry := w.registry.repaint g } =
          ((hydrate s html w).1, { (hydrate s html w).2 with registry := last.repaint g }) := by
  obtain ⟨head, parts, last, hsegments, hspanned, hfills⟩ :=
    exists_fills s w.registry w.registry 0 (segments html.toList)
  rw [Nat.zero_add] at hspanned
  have hsource : html.toList = head ++ parts.flatMap Filled.source := by
    rw [← source_segments html.toList, hsegments, List.flatMap_append, source_map_char, source_flatMap_segments]
  have hfound : findPlaceholders html = parts.map Filled.located := by
    rw [findPlaceholders, hsegments, locate_append, Nat.zero_add, hspanned.locate_eq]
  have hout : hydrate s html w = (String.ofList (head ++ parts.flatMap Filled.output),
      ⟨last, w.refusals ++ parts.filterMap Filled.refusal⟩) := by
    rw [hydrate, hsegments, hydrateSegments_map_char, hfills.hydrateSegments_eq rfl]
  refine ⟨head, parts, last, hsource, hfound, hspanned, hfills, hout, hfills.admitted, fun g hkept => ?_⟩
  have hsame : (parts.map (Filled.repaint g)).flatMap Filled.segments = parts.flatMap Filled.segments := by
    rw [List.flatMap_map]; rfl
  have hagain := (hfills.repaint hkept).hydrateSegments_eq (w := { w with registry := w.registry.repaint g }) rfl
  rw [hout, hydrate, hsegments, hydrateSegments_map_char, ← hsame, hagain, List.flatMap_map, List.filterMap_map]
  rfl

end SecureLayout.Component
