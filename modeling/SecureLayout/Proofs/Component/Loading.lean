import Mathlib.Algebra.BigOperators.Group.List.Basic
import SecureLayout.Component.Hydration
import SecureLayout.Proofs.Component.Hydrating
import SecureLayout.Proofs.Entries

/-!
A registry in use: names come and go, handles are kept for later, and bundles are fetched when something is wanted from
them. `Usage` also lists the calls of loaders, in order. Main statements: what one load does, `Registry.load_loads`; the
calls that a hydration makes, `hydrateSegments_calls`; and `loadedOnce_run`, by which the calls for a registration are
failures with at most one success at their end, whose component all its handles have from then on.
-/

namespace SecureLayout.Component

open Json (Value)

/-- A call of a bundle's loader, and what came of it. -/
structure Attempt where
  bundle : Nat
  outcome : Result Component

/-- What came of the calls for one bundle. -/
def outcomesOf (i : Nat) (as : List Attempt) : List (Result Component) :=
  as.filterMap fun a => if a.bundle = i then some a.outcome else none

theorem outcomesOf_append (i : Nat) (as bs : List Attempt) :
    outcomesOf i (as ++ bs) = outcomesOf i as ++ outcomesOf i bs :=
  List.filterMap_append

theorem mem_outcomesOf {i : Nat} {as : List Attempt} {outcome : Result Component} :
    outcome ∈ outcomesOf i as ↔ ⟨i, outcome⟩ ∈ as := by
  rw [outcomesOf, List.mem_filterMap]
  constructor
  · rintro ⟨⟨j, o⟩, hmem, heq⟩
    split_ifs at heq with hj
    cases heq
    exact hj ▸ hmem
  · exact fun h => ⟨⟨i, outcome⟩, h, if_pos rfl⟩

/-! ### One load -/

/-- The bundle after its loader was called once more. -/
def Bundle.note (b : Bundle) (outcome : Result Component) : Bundle :=
  { b with attempts := b.attempts + 1, loaded := outcome.toOption }

namespace Registry

variable {r r' : Registry} {h : Handle} {outcome : Result Component} {call : Option Attempt}

/-- The call that a load makes. -/
def attempt? (r : Registry) : Handle → Option Attempt
  | .ready _ => none
  | .deferred i =>
    match r.bundles[i]? with
    | none => none
    | some b => if b.loaded.isSome then none else some ⟨i, b.loader b.attempts r.loads⟩

/-- `Loads r h outcome call r'`: what is handed out for `h`, the call that was made for it, and the registry then. -/
inductive Loads (r : Registry) : Handle → Result Component → Option Attempt → Registry → Prop
  | ready (c : Component) : Loads r (.ready c) (.ok c) none r
  | gone {i : Nat} : r.bundles[i]? = none → Loads r (.deferred i) (.error (.internal "bundle is gone")) none r
  | kept {i : Nat} {b : Bundle} {c : Component} : r.bundles[i]? = some b → b.loaded = some c →
      Loads r (.deferred i) (.ok c) none r
  | called {i : Nat} {b : Bundle} {outcome : Result Component} : r.bundles[i]? = some b → b.loaded = none →
      b.loader b.attempts r.loads = outcome →
      Loads r (.deferred i) outcome (some ⟨i, outcome⟩) { r with bundles := r.bundles.set i (b.note outcome) }

theorem load_loads (r : Registry) (h : Handle) : Loads r h (r.load h).1 (r.attempt? h) (r.load h).2 := by
  cases h with
  | ready c => exact .ready c
  | deferred i =>
    cases hb : r.bundles[i]? with
    | none =>
      simp only [load, peek, attempt?, hb, Option.bind_none]
      exact .gone hb
    | some b =>
      cases hl : b.loaded with
      | some c =>
        simp only [load, peek, attempt?, hb, hl, Option.bind_some]
        exact .kept hb hl
      | none =>
        simp only [load, peek, attempt?, hb, hl, Option.bind_some]
        exact .called hb hl rfl

theorem loads_eq (r : Registry) : r.loads = (r.bundles.map (·.attempts)).sum := by
  rw [loads, List.sum_eq_foldl, List.foldl_map]

theorem loads_note {i : Nat} {b : Bundle} (hb : r.bundles[i]? = some b) (outcome : Result Component) :
    ({ r with bundles := r.bundles.set i (b.note outcome) } : Registry).loads = r.loads + 1 := by
  obtain ⟨hi, rfl⟩ := List.getElem?_eq_some_iff.1 hb
  have hsplit : r.bundles = r.bundles.take i ++ r.bundles[i] :: r.bundles.drop (i + 1) := by simp
  have hset : r.bundles.set i (r.bundles[i].note outcome) =
      r.bundles.take i ++ r.bundles[i].note outcome :: r.bundles.drop (i + 1) := by
    rw [List.set_eq_take_append_cons_drop, if_pos hi]
  rw [loads_eq, loads_eq, hset]
  conv_rhs => rw [hsplit]
  simp only [List.map_append, List.map_cons, List.sum_append, List.sum_cons, Bundle.note]
  omega

theorem Loads.components (h : Loads r h outcome call r') : r'.components = r.components := by
  cases h <;> rfl

theorem Loads.loaders (h : Loads r h outcome call r') : r'.bundles.map (·.loader) = r.bundles.map (·.loader) := by
  cases h with
  | ready | gone | kept => rfl
  | @called i b _ hb =>
    obtain ⟨hi, rfl⟩ := List.getElem?_eq_some_iff.1 hb
    have hlength : i < (r.bundles.map (·.loader)).length := by rwa [List.length_map]
    have hset := List.set_getElem_self hlength
    rw [List.getElem_map] at hset
    rw [List.map_set]
    exact hset

/-- One load after the other, with the calls that they make. -/
inductive Calls : Registry → List Attempt → Registry → Prop
  | nil (r : Registry) : Calls r [] r
  | cons {r next r' : Registry} {h : Handle} {outcome : Result Component} {call : Option Attempt} {as : List Attempt} :
      Loads r h outcome call next → Calls next as r' → Calls r (call.toList ++ as) r'

theorem Calls.one (r : Registry) (h : Handle) : Calls r (r.attempt? h).toList (r.load h).2 := by
  have hone := Calls.cons (r.load_loads h) (.nil (r.load h).2)
  rwa [List.append_nil] at hone

theorem Calls.trans {r'' : Registry} {as bs : List Attempt} (h : Calls r as r') (h' : Calls r' bs r'') :
    Calls r (as ++ bs) r'' := by
  induction h with
  | nil => exact h'
  | cons hload _ ih =>
    rw [List.append_assoc]
    exact .cons hload (ih h')

theorem Calls.components {as : List Attempt} (h : Calls r as r') : r'.components = r.components := by
  induction h with
  | nil => rfl
  | cons hload _ ih => exact ih.trans hload.components

theorem Calls.loaders {as : List Attempt} (h : Calls r as r') :
    r'.bundles.map (·.loader) = r.bundles.map (·.loader) := by
  induction h with
  | nil => rfl
  | cons hload _ ih => exact ih.trans hload.loaders

end Registry

/-! ### What hydration loads -/

theorem Resolver.exists_of_resolve {s : Resolver} {r : Registry} {name : String} {h : Handle}
    (hr : s.resolve r name = .ok h) : ∃ e, r.get? name = some e ∧ e.handle = h := by
  unfold resolve classify at hr
  cases he : r.get? name with
  | none => simp [he] at hr
  | some e =>
    cases hallowed : s.allowed.isAllowed name <;> simp [he, hallowed] at hr
    exact ⟨e, rfl, hr⟩

/-- The handle that is loaded for a placeholder. -/
def wanted? (s : Resolver) (p : Placeholder) (r : Registry) : Option Handle :=
  match s.resolve r p.name, p.props with
  | .ok h, .ok props =>
    match ((r.get? p.name).bind (·.required)).bind fun required => firstMissing required props with
    | none => some h
    | some _ => none
  | _, _ => none

/-- The calls that filling in a placeholder makes: one at most. -/
def attemptsAt (s : Resolver) (p : Placeholder) (r : Registry) : List Attempt :=
  ((wanted? s p r).bind r.attempt?).toList

/-- The calls that a hydration makes. -/
def attemptsIn (s : Resolver) : List Segment → Painting → List Attempt
  | [], _ => []
  | .char _ :: ks, w => attemptsIn s ks w
  | .placeholder p :: ks, w => attemptsAt s p w.registry ++ attemptsIn s ks (hydrateOne s p w).2

section Wanted

variable {s : Resolver} {r now now' : Registry} {p : Placeholder} {block : String} {refusal : Option Refusal}
  {call : Option Call}

theorem Admitted.wanted?_eq {e : Registered} {props : Value} (h : Admitted s r p e props) :
    wanted? s p r = some e.handle := by
  simp only [wanted?, h.resolve, h.readable, h.registered, Option.bind_some, firstMissing_eq_none.2 h.complete]

/-- Nothing is loaded for a placeholder but what is wanted for it. -/
theorem Outcome.registry_eq (h : Outcome s r p now block refusal call now') :
    now' = match wanted? s p r with
      | none => now
      | some h => (now.load h).2 := by
  cases h with
  | unknown hnone => simp [wanted?, Resolver.resolve, Resolver.classify, hnone]
  | disallowed he hno => simp [wanted?, Resolver.resolve, Resolver.classify, he, hno]
  | unreadable hc hprops => simp [wanted?, hc.resolve, hprops]
  | @missing e props k before after hc hprops hrequired hbefore hk =>
    have hfirst := firstMissing_eq_some.2 ⟨hk, before, after, rfl, hbefore⟩
    simp [wanted?, hc.resolve, hprops, hc.registered, hrequired, hfirst]
  | unloaded ha hload | unpainted ha hload hpaint | painted ha hload hpaint => simp [ha.wanted?_eq, hload]

end Wanted

theorem hydrateOne_calls (s : Resolver) (p : Placeholder) (w : Painting) :
    w.registry.Calls (attemptsAt s p w.registry) (hydrateOne s p w).2.registry := by
  obtain ⟨block, refusal, call, now', ho⟩ := exists_outcome s w.registry p w.registry
  have hnow := ho.registry_eq
  rw [ho.hydrateOne_eq rfl, attemptsAt]
  cases hwanted : wanted? s p w.registry with
  | none =>
    rw [hwanted] at hnow
    exact hnow ▸ .nil w.registry
  | some h =>
    rw [hwanted] at hnow
    exact hnow ▸ .one w.registry h

theorem hydrateSegments_calls (s : Resolver) (ks : List Segment) (w : Painting) :
    w.registry.Calls (attemptsIn s ks w) (hydrateSegments s ks w).2.registry := by
  induction ks generalizing w with
  | nil => exact .nil _
  | cons k ks ih =>
    cases k with
    | char c => exact ih w
    | placeholder p => exact (hydrateOne_calls s p w).trans (ih (hydrateOne s p w).2)

/-! ### Registrations -/

/-- The handle of a registration before which `n` bundles were registered. -/
def Source.handle (n : Nat) : Source → Handle
  | eager c => .ready c
  | lazy _ => .deferred n

def Source.bundles : Source → List Bundle
  | eager _ => []
  | lazy loader => [{ loader }]

/-- The registry with one more registration. -/
def Registry.accept (r : Registry) (name : String) (category : Category) (source : Source)
    (required : Option (List String)) : Registry where
  components := Entries.put name ⟨name, category, required, source.handle r.bundles.length⟩ r.components
  bundles := r.bundles ++ source.bundles

theorem Registry.register_eq (r : Registry) (name : String) (category : Category) (source : Source)
    (required : Option (List String)) :
    r.register name category source required =
      if Text.isBlankText name then .error (.badRequest "component name must not be blank")
      else .ok (r.accept name category source required) := by
  cases source <;> simp [register, accept, Source.handle, Source.bundles]

/-! ### A registry in use -/

inductive Operation where
  | register (name : String) (category : Category) (source : Source) (required : Option (List String))
  | unregister (name : String)
  /-- A handle that is handed out is kept. -/
  | resolve (name : String)
  /-- Loads the `k`-th of the handles that were kept. -/
  | load (k : Nat)
  | hydrate (html : String)

structure Usage where
  registry : Registry := {}
  /-- Handles that were handed out, whatever became of their registrations. -/
  handles : List Handle := []
  refusals : List Refusal := []
  /-- All calls of loaders so far. -/
  attempts : List Attempt := []

namespace Usage

def painting (u : Usage) : Painting :=
  ⟨u.registry, u.refusals⟩

/-- The calls that hydrating a text would make now. -/
def hydrationAttempts (s : Resolver) (u : Usage) (html : String) : List Attempt :=
  attemptsIn s (segments html.toList) u.painting

def perform (s : Resolver) (u : Usage) : Operation → Usage
  | .register name category source required =>
    match u.registry.register name category source required with
    | .ok registry => { u with registry }
    | .error _ => u
  | .unregister name => { u with registry := (u.registry.unregister name).2 }
  | .resolve name =>
    match s.resolve u.registry name with
    | .ok h => { u with handles := u.handles ++ [h] }
    | .error refusal => { u with refusals := u.refusals ++ [refusal] }
  | .load k =>
    match u.handles[k]? with
    | some h =>
      { u with registry := (u.registry.load h).2, attempts := u.attempts ++ (u.registry.attempt? h).toList }
    | none => u
  | .hydrate html =>
    let painted := (Component.hydrate s html u.painting).2
    { u with
      registry := painted.registry
      refusals := painted.refusals
      attempts := u.attempts ++ u.hydrationAttempts s html }

def run (s : Resolver) (ops : List Operation) : Usage :=
  ops.foldl (perform s) {}

theorem run_append (s : Resolver) (ops : List Operation) (op : Operation) :
    run s (ops ++ [op]) = perform s (run s ops) op := by
  rw [run, List.foldl_append]
  rfl

theorem hydrate_calls (s : Resolver) (u : Usage) (html : String) :
    u.registry.Calls (u.hydrationAttempts s html) (Component.hydrate s html u.painting).2.registry :=
  hydrateSegments_calls s (segments html.toList) u.painting

end Usage

/-! ### Calls, bundle by bundle -/

/-- The outcomes of all calls of a bundle's loader are what the bundle says. -/
structure Bundle.Recorded (b : Bundle) (outcomes : List (Result Component)) : Prop where
  counted : b.attempts = outcomes.length
  /-- Only failures are followed by another call. -/
  failures : ∃ fs : List Failure, outcomes = fs.map .error ++ b.loaded.toList.map .ok
  truthful : ∀ (own : Nat) (outcome : Result Component), outcomes[own]? = some outcome →
    ∃ all, b.loader own all = outcome

theorem Bundle.Recorded.new (loader : Loader) : Bundle.Recorded { loader } [] where
  counted := rfl
  failures := ⟨[], rfl⟩
  truthful := nofun

theorem Bundle.Recorded.note {b : Bundle} {outcomes : List (Result Component)} (h : b.Recorded outcomes)
    (hloaded : b.loaded = none) {all : Nat} {outcome : Result Component} (ho : b.loader b.attempts all = outcome) :
    (b.note outcome).Recorded (outcomes ++ [outcome]) where
  counted := by
    rw [List.length_append, ← h.counted]
    rfl
  failures := by
    obtain ⟨fs, hfs⟩ := h.failures
    rw [hloaded, Option.toList_none, List.map_nil, List.append_nil] at hfs
    cases outcome with
    | error f => exact ⟨fs ++ [f], by rw [hfs, List.map_append]; simp [Bundle.note, Except.toOption]⟩
    | ok c => exact ⟨fs, by rw [hfs]; rfl⟩
  truthful := by
    intro own o hown
    rw [List.getElem?_append] at hown
    split_ifs at hown with hlt
    · exact h.truthful own o hown
    · rw [List.getElem?_singleton] at hown
      split_ifs at hown with hzero
      cases hown
      have howns : own = b.attempts := by
        have hcounted := h.counted
        omega
      exact ⟨all, howns ▸ ho⟩

/-- Every call is recorded with its bundle. -/
structure Registry.Accounts (r : Registry) (as : List Attempt) : Prop where
  counted : r.loads = as.length
  placed : ∀ a ∈ as, a.bundle < r.bundles.length
  recorded : ∀ (i : Nat) (b : Bundle), r.bundles[i]? = some b → b.Recorded (outcomesOf i as)

namespace Registry.Accounts

variable {r r' : Registry} {as bs : List Attempt}

theorem step (hr : r.Accounts as) {h : Handle} {outcome : Result Component} {call : Option Attempt}
    (hload : r.Loads h outcome call r') : r'.Accounts (as ++ call.toList) := by
  cases hload with
  | ready | gone | kept => rwa [Option.toList_none, List.append_nil]
  | @called i b _ hb hloaded ho =>
    have hi : i < r.bundles.length := (List.getElem?_eq_some_iff.1 hb).1
    refine ⟨?_, ?_, ?_⟩
    · rw [loads_note hb, hr.counted, List.length_append]
      rfl
    · intro a ha
      rw [List.length_set]
      rcases List.mem_append.1 ha with ha | ha
      · exact hr.placed a ha
      · rw [List.mem_singleton.1 ha]
        exact hi
    · intro j b' hb'
      rw [outcomesOf_append]
      rw [List.getElem?_set] at hb'
      split_ifs at hb' with hij
      · subst hij
        cases hb'
        have hone : outcomesOf i (some (⟨i, outcome⟩ : Attempt)).toList = [outcome] := by simp [outcomesOf]
        rw [hone]
        exact (hr.recorded i b hb).note hloaded ho
      · have hnone : outcomesOf j (some (⟨i, outcome⟩ : Attempt)).toList = [] := by simp [outcomesOf, hij]
        rw [hnone, List.append_nil]
        exact hr.recorded j b' hb'

theorem calls (h : r.Calls bs r') (hr : r.Accounts as) : r'.Accounts (as ++ bs) := by
  induction h generalizing as with
  | nil => rwa [List.append_nil]
  | cons hload _ ih =>
    rw [← List.append_assoc]
    exact ih (hr.step hload)

theorem of_bundles (hr : r.Accounts as) (hb : r'.bundles = r.bundles) : r'.Accounts as where
  counted := by rw [← hr.counted, loads, loads, hb]
  placed := by rw [hb]; exact hr.placed
  recorded := by rw [hb]; exact hr.recorded

theorem accept (hr : r.Accounts as) (name : String) (category : Category) (source : Source)
    (required : Option (List String)) : (r.accept name category source required).Accounts as := by
  cases source with
  | eager c => exact hr.of_bundles (List.append_nil _)
  | lazy loader =>
    refine ⟨?_, ?_, ?_⟩
    · rw [← hr.counted, loads_eq, loads_eq]
      simp [Registry.accept, Source.bundles]
    · intro a ha
      have hplaced := hr.placed a ha
      simp only [Registry.accept, Source.bundles, List.length_append, List.length_singleton]
      omega
    · intro i b hb
      simp only [Registry.accept, Source.bundles, List.getElem?_append, List.getElem?_singleton] at hb
      split_ifs at hb with hlt
      · exact hr.recorded i b hb
      · cases hb
        have hnone : outcomesOf i as = [] := by
          refine List.filterMap_eq_nil_iff.2 fun a ha => if_neg ?_
          have hplaced := hr.placed a ha
          omega
        rw [hnone]
        exact .new loader

theorem settled (hr : r.Accounts as) {i : Nat} {c : Component} (h : ⟨i, .ok c⟩ ∈ as) :
    r.load (.deferred i) = (.ok c, r) ∧ r.attempt? (.deferred i) = none := by
  have hi := hr.placed _ h
  have hb : r.bundles[i]? = some r.bundles[i] := List.getElem?_eq_getElem hi
  obtain ⟨fs, hfs⟩ := (hr.recorded i _ hb).failures
  have hmem := hfs ▸ mem_outcomesOf.2 h
  have hloaded : r.bundles[i].loaded = some c := by
    rcases List.mem_append.1 hmem with hmem | hmem
    · obtain ⟨f, -, hf⟩ := List.mem_map.1 hmem
      cases hf
    · obtain ⟨c', hc', heq⟩ := List.mem_map.1 hmem
      cases heq
      exact Option.mem_toList.1 hc'
  refine ⟨load_of_peek ?_, ?_⟩
  · rw [peek, hb, Option.bind_some, hloaded]
  · rw [attempt?, hb]
    simp only [hloaded, Option.isSome_some, if_true]

end Registry.Accounts

/-! ### Runs -/

namespace Operation

/-- The loader of a bundle that is registered. -/
def loader? : Operation → Option Loader
  | register name _ (.lazy loader) _ => if Text.isBlankText name then none else some loader
  | _ => none

/-- Whether a registration of the name may be replaced or taken away. -/
def concerns (name : String) : Operation → Bool
  | register n _ _ _ | unregister n => n == name
  | _ => false

end Operation

/-- How many bundles are registered. -/
def bundleCount (ops : List Operation) : Nat :=
  (ops.filterMap Operation.loader?).length

/-- `h` is the handle of one of the registrations. -/
def ClonedFrom (ops : List Operation) (h : Handle) : Prop :=
  ∃ before after name category source required, ops = before ++ .register name category source required :: after ∧
    Text.isBlankText name = false ∧ h = source.handle (bundleCount before)

theorem ClonedFrom.append {ops : List Operation} {h : Handle} (hc : ClonedFrom ops h) (op : Operation) :
    ClonedFrom (ops ++ [op]) h := by
  obtain ⟨before, after, name, category, source, required, rfl, hname, hh⟩ := hc
  exact ⟨before, after ++ [op], name, category, source, required, by simp, hname, hh⟩

namespace Usage

variable {s : Resolver} {u : Usage} {ops : List Operation}

/-- What holds whenever a registry is used. -/
structure Sound (ops : List Operation) (u : Usage) : Prop where
  sorted : Entries.Sorted u.registry.components
  loaders : u.registry.bundles.map (·.loader) = ops.filterMap Operation.loader?
  registered : ∀ e ∈ u.registry.components, ClonedFrom ops e.2.handle
  handles : ∀ h ∈ u.handles, ClonedFrom ops h
  accounts : u.registry.Accounts u.attempts

theorem Sound.length_bundles (h : Sound ops u) : u.registry.bundles.length = bundleCount ops := by
  rw [bundleCount, ← h.loaders, List.length_map]

theorem Sound.loaded (hu : Sound ops u) {op : Operation} (hop : op.loader? = none) {r : Registry} {as : List Attempt}
    (hr : u.registry.Calls as r) (refusals : List Refusal) :
    Sound (ops ++ [op]) ⟨r, u.handles, refusals, u.attempts ++ as⟩ where
  sorted := hr.components ▸ hu.sorted
  loaders := by
    rw [List.filterMap_append, List.filterMap_cons_none hop, List.filterMap_nil, List.append_nil, ← hu.loaders]
    exact hr.loaders
  registered e he := (hu.registered e (hr.components ▸ he)).append op
  handles h hh := (hu.handles h hh).append op
  accounts := hu.accounts.calls hr

theorem Sound.perform (hu : Sound ops u) (s : Resolver) (op : Operation) : Sound (ops ++ [op]) (perform s u op) := by
  have hidle (hop : op.loader? = none) : Sound (ops ++ [op]) u := by
    have hnil := hu.loaded hop (.nil u.registry) u.refusals
    rwa [List.append_nil] at hnil
  cases op with
  | register name category source required =>
    cases hname : Text.isBlankText name with
    | true =>
      have hsame : Usage.perform s u (.register name category source required) = u := by
        rw [Usage.perform, Registry.register_eq, if_pos hname]
      rw [hsame]
      refine hidle ?_
      cases source <;> simp [Operation.loader?, hname]
    | false =>
      have hnew : Usage.perform s u (.register name category source required) =
          { u with registry := u.registry.accept name category source required } := by
        rw [Usage.perform, Registry.register_eq, if_neg (by simp [hname])]
      rw [hnew]
      refine ⟨Entries.sorted_put hu.sorted _ _, ?_, ?_, fun h hh => (hu.handles h hh).append _,
        hu.accounts.accept name category source required⟩
      · rw [List.filterMap_append, ← hu.loaders, Registry.accept, List.map_append]
        cases source <;> simp [Source.bundles, Operation.loader?, hname]
      · intro e he
        rcases Entries.mem_put he with rfl | he
        · exact ⟨ops, [], name, category, source, required, rfl, hname, by rw [← hu.length_bundles]⟩
        · exact (hu.registered e he).append _
  | unregister name =>
    have hidle := hidle rfl
    exact ⟨Entries.sorted_remove hu.sorted name, hidle.loaders,
      fun e he => hidle.registered e (List.mem_of_mem_filter he), hidle.handles, hu.accounts.of_bundles rfl⟩
  | resolve name =>
    have hidle := hidle rfl
    rw [Usage.perform]
    split
    · next h hresolve =>
      refine ⟨hidle.sorted, hidle.loaders, hidle.registered, ?_, hidle.accounts⟩
      intro h' hh'
      rcases List.mem_append.1 hh' with hh' | hh'
      · exact hidle.handles h' hh'
      · rw [List.mem_singleton.1 hh']
        obtain ⟨e, he, rfl⟩ := Resolver.exists_of_resolve hresolve
        exact hidle.registered (name, e) (Entries.mem_of_get? he)
    · exact ⟨hidle.sorted, hidle.loaders, hidle.registered, hidle.handles, hidle.accounts⟩
  | load k =>
    rw [Usage.perform]
    split
    · exact hu.loaded rfl (.one _ _) u.refusals
    · exact hidle rfl
  | hydrate html => exact hu.loaded rfl (u.hydrate_calls s html) _

theorem sound_run (s : Resolver) (ops : List Operation) : Sound ops (run s ops) := by
  induction ops using List.reverseRecOn with
  | nil => exact ⟨.nil, rfl, nofun, nofun, ⟨rfl, nofun, nofun⟩⟩
  | append_singleton ops op ih =>
    rw [run_append]
    exact ih.perform s op

theorem get?_perform {name : String} {op : Operation} (hop : op.concerns name = false) :
    (perform s u op).registry.get? name = u.registry.get? name := by
  cases op with
  | register n category source required =>
    have hne : name ≠ n := fun h => by simp [Operation.concerns, h] at hop
    rw [perform, Registry.register_eq]
    split_ifs
    · rfl
    · exact (Entries.get?_put _ _ _ _).trans (if_neg hne)
  | unregister n =>
    have hne : name ≠ n := fun h => by simp [Operation.concerns, h] at hop
    exact (Entries.get?_remove _ _ _).trans (if_neg hne)
  | resolve n => rw [perform]; split <;> rfl
  | load k =>
    rw [perform]
    split
    · rw [Registry.get?, Registry.get?, Registry.components_load]
    · rfl
  | hydrate html => rw [Registry.get?, Registry.get?, ← (u.hydrate_calls s html).components]; rfl

/-- A registration stands until its name is registered again or taken away. -/
theorem get?_run {name : String} (before : List Operation) (category : Category) (source : Source)
    (required : Option (List String)) (hname : Text.isBlankText name = false) {after : List Operation}
    (hafter : ∀ op ∈ after, op.concerns name = false) :
    (run s (before ++ .register name category source required :: after)).registry.get? name =
      some ⟨name, category, required, source.handle (bundleCount before)⟩ := by
  induction after using List.reverseRecOn with
  | nil =>
    rw [run_append, perform, Registry.register_eq, if_neg (by simp [hname])]
    refine (Entries.get?_put _ _ _ _).trans ((if_pos rfl).trans ?_)
    rw [(sound_run s before).length_bundles]
  | append_singleton after op ih =>
    obtain ⟨hafter, hop⟩ := List.forall_mem_append.1 hafter
    have hop := hop op (List.mem_singleton_self op)
    rw [← List.cons_append, ← List.append_assoc, run_append, get?_perform hop, ih hafter]

/-- No call is forgotten. -/
theorem attempts_grow (s : Resolver) (before after : List Operation) :
    (run s before).attempts <+: (run s (before ++ after)).attempts := by
  induction after using List.reverseRecOn with
  | nil => rw [List.append_nil]
  | append_singleton after op ih =>
    rw [← List.append_assoc, run_append]
    refine ih.trans ?_
    cases op with
    | register | resolve => rw [perform]; split <;> exact List.prefix_rfl
    | unregister => exact List.prefix_rfl
    | load =>
      rw [perform]
      split
      · exact List.prefix_append ..
      · exact List.prefix_rfl
    | hydrate => exact List.prefix_append ..

/-- Per registration of a bundle, its loader is called again after failures only. -/
structure LoadedOnce (s : Resolver) (ops : List Operation) : Prop where
  /-- Every registration of a bundle has its own, with its own loader. -/
  loaders : (run s ops).registry.bundles.map (·.loader) = ops.filterMap Operation.loader?
  standing : ∀ {before after name category source required},
    ops = before ++ .register name category source required :: after → Text.isBlankText name = false →
      (∀ op ∈ after, op.concerns name = false) →
      (run s ops).registry.get? name = some ⟨name, category, required, source.handle (bundleCount before)⟩
  handles : ∀ h ∈ (run s ops).handles, ClonedFrom ops h
  accounts : (run s ops).registry.Accounts (run s ops).attempts
  /-- From when it was loaded, for whichever handle, a bundle gives its component without another call. -/
  settled : ∀ {before after i c}, ops = before ++ after → ⟨i, .ok c⟩ ∈ (run s before).attempts →
    (run s ops).registry.load (.deferred i) = (.ok c, (run s ops).registry) ∧
      (run s ops).registry.attempt? (.deferred i) = none

theorem loadedOnce_run (s : Resolver) (ops : List Operation) : LoadedOnce s ops where
  loaders := (sound_run s ops).loaders
  standing := by
    rintro before after name category source required rfl hname hafter
    exact get?_run before category source required hname hafter
  handles := (sound_run s ops).handles
  accounts := (sound_run s ops).accounts
  settled := by
    rintro before after i c rfl hmem
    exact (sound_run s _).accounts.settled ((attempts_grow s before after).mem hmem)

end Usage

end SecureLayout.Component
