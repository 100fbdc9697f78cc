import SecureLayout.Component.Stock
import SecureLayout.Proofs.Component.Loading
import SecureLayout.Proofs.Gives

/-!
Two registries in the same use, of which one may fetch a component that the other has at hand. `Level` relates them: the
same names, and for each a component that is all either of them will ever hand out. Loads on one side alone keep it,
since they depend on nothing but what is registered there. Main statement: resolution does not tell the two apart,
whatever was done before, and hydration only by loads that fail, `Usage.lazy_loading_unnoticed`.
-/

namespace SecureLayout.Component

/-! ### What a source may come to -/

/-- It is `c` whenever it is anything. -/
def Source.Yields (c : Component) : Source → Prop
  | eager c' => c' = c
  | lazy loader => ∀ own all, Gives (loader own all) (· = c)

/-- The same operation, but for a registration that may take the same component from elsewhere. -/
inductive Operation.Twin : Operation → Operation → Prop
  | register {source source' : Source} {c : Component} (name : String) (category : Category)
      (required : Option (List String)) : source.Yields c → source'.Yields c →
      Twin (.register name category source required) (.register name category source' required)
  | unregister (name : String) : Twin (.unregister name) (.unregister name)
  | resolve (name : String) : Twin (.resolve name) (.resolve name)
  | load (k : Nat) : Twin (.load k) (.load k)
  | hydrate (html : String) : Twin (.hydrate html) (.hydrate html)

/-- Every call gave a component. -/
def Succeed (as : List Attempt) : Prop :=
  ∀ a ∈ as, ∃ c, a.outcome = .ok c

theorem succeed_append {as bs : List Attempt} : Succeed (as ++ bs) ↔ Succeed as ∧ Succeed bs :=
  List.forall_mem_append

namespace Registry

variable {r r' r₁ : Registry} {c : Component} {h : Handle} {outcome : Result Component} {call : Option Attempt}
  {as : List Attempt}

/-- Loading the handle gives `c` or fails, now and later. -/
def Yields (r : Registry) (c : Component) : Handle → Prop
  | .ready c' => c' = c
  | .deferred i => ∃ b, r.bundles[i]? = some b ∧ (Source.lazy b.loader).Yields c ∧ ∀ c', b.loaded = some c' → c' = c

/-- What handles may come to stays as it is. -/
def Grows (r r₁ : Registry) : Prop :=
  ∀ c h, r.Yields c h → r₁.Yields c h

theorem Loads.grows (hload : r.Loads h outcome call r₁) : r.Grows r₁ := by
  intro c h' hyields
  cases hload with
  | ready | gone | kept => exact hyields
  | @called i b _ hb hloaded ho =>
    cases h' with
    | ready c' => exact hyields
    | deferred j =>
      obtain ⟨b', hb', hloader, hkept⟩ := hyields
      by_cases hij : i = j
      · subst hij
        obtain rfl : b = b' := Option.some.inj (hb.symm.trans hb')
        have hi : i < r.bundles.length := (List.getElem?_eq_some_iff.1 hb).1
        refine ⟨b.note outcome, List.getElem?_set_self hi, hloader, fun c' hc' => ?_⟩
        cases outcome with
        | error f => cases hc'
        | ok c₁ =>
          obtain rfl : c₁ = c' := Option.some.inj hc'
          exact (hloader b.attempts r.loads).result c₁ ho
      · exact ⟨b', (List.getElem?_set_ne hij).trans hb', hloader, hkept⟩

theorem Calls.grows (hc : r.Calls as r₁) : r.Grows r₁ := by
  induction hc with
  | nil => exact fun _ _ => id
  | cons hload _ ih => exact fun c h hyields => ih c h (hload.grows c h hyields)

theorem grows_accept (r : Registry) (name : String) (category : Category) (source : Source)
    (required : Option (List String)) : r.Grows (r.accept name category source required) := by
  intro c h hyields
  cases h with
  | ready c' => exact hyields
  | deferred i =>
    obtain ⟨b, hb, hloader, hkept⟩ := hyields
    refine ⟨b, ?_, hloader, hkept⟩
    rw [accept, List.getElem?_append_left (List.getElem?_eq_some_iff.1 hb).1, hb]

theorem grows_unregister (r : Registry) (name : String) : r.Grows (r.unregister name).2 := by
  intro c h hyields
  cases h <;> exact hyields

/-- A new handle comes to what its source does. -/
theorem accept_yields {source : Source} (hs : source.Yields c) (r : Registry) (name : String) (category : Category)
    (required : Option (List String)) :
    (r.accept name category source required).Yields c (source.handle r.bundles.length) := by
  cases source with
  | eager c' => exact hs
  | lazy loader => exact ⟨{ loader }, by simp [accept, Source.bundles], hs, nofun⟩

theorem Loads.gives (hload : r.Loads h outcome call r₁) (hy : r.Yields c h) : Gives outcome (· = c) := by
  cases hload with
  | ready c' => exact .ok hy
  | gone => exact .error
  | kept hb hloaded =>
    obtain ⟨b, hb', -, hkept⟩ := hy
    obtain rfl := Option.some.inj (hb.symm.trans hb')
    exact .ok (hkept _ hloaded)
  | called hb _ ho =>
    obtain ⟨b, hb', hloader, -⟩ := hy
    obtain rfl := Option.some.inj (hb.symm.trans hb')
    exact ho ▸ hloader _ _

theorem Loads.eq_ok (hload : r.Loads h outcome call r₁) (hy : r.Yields c h) (hs : Succeed call.toList) :
    outcome = .ok c := by
  have hok : ∃ c', outcome = .ok c' := by
    cases hload with
    | ready c' | kept => exact ⟨_, rfl⟩
    | gone hnone =>
      obtain ⟨b, hb, -⟩ := hy
      cases hnone.symm.trans hb
    | called => exact hs _ (List.mem_singleton_self _)
  obtain ⟨c', rfl⟩ := hok
  rw [(hload.gives hy).result c' rfl]

/-! ### Registries side by side -/

/-- Both handles come to the same component. -/
def Paired (r r' : Registry) (h h' : Handle) : Prop :=
  ∃ c, r.Yields c h ∧ r'.Yields c h'

theorem Paired.mono {r₁' : Registry} {h h' : Handle} (hp : Paired r r' h h') (hr : r.Grows r₁) (hr' : r'.Grows r₁') :
    Paired r₁ r₁' h h' := by
  obtain ⟨c, hc, hc'⟩ := hp
  exact ⟨c, hr c h hc, hr' c h' hc'⟩

/-- Registrations that differ only in where the component comes from. -/
structure Matches (r r' : Registry) (e e' : Registered) : Prop where
  name : e.name = e'.name
  category : e.category = e'.category
  required : e.required = e'.required
  handle : Paired r r' e.handle e'.handle

def Level (r r' : Registry) : Prop :=
  List.Forall₂ (fun e e' => e.1 = e'.1 ∧ Matches r r' e.2 e'.2) r.components r'.components

namespace Level

theorem mono {r₁' : Registry} (hl : Level r r') (hr : r.Grows r₁) (hr' : r'.Grows r₁')
    (hcomponents : r₁.components = r.components) (hcomponents' : r₁'.components = r'.components) : Level r₁ r₁' := by
  rw [Level, hcomponents, hcomponents']
  exact hl.imp fun e e' h => ⟨h.1, { h.2 with handle := h.2.handle.mono hr hr' }⟩

theorem calls {r₁' : Registry} {as' : List Attempt} (hl : Level r r') (hc : r.Calls as r₁) (hc' : r'.Calls as' r₁') :
    Level r₁ r₁' :=
  hl.mono hc.grows hc'.grows hc.components hc'.components

theorem accept (hl : Level r r') {source source' : Source} (hs : source.Yields c) (hs' : source'.Yields c)
    (name : String) (category : Category) (required : Option (List String)) :
    Level (r.accept name category source required) (r'.accept name category source' required) := by
  have hr := r.grows_accept name category source required
  have hr' := r'.grows_accept name category source' required
  have hnew : Matches (r.accept name category source required) (r'.accept name category source' required)
      ⟨name, category, required, source.handle r.bundles.length⟩
      ⟨name, category, required, source'.handle r'.bundles.length⟩ :=
    ⟨rfl, rfl, rfl, c, accept_yields hs r name category required, accept_yields hs' r' name category required⟩
  refine Entries.forall₂_put name hnew (hl.imp fun e e' h => ?_)
  exact ⟨h.1, { h.2 with handle := h.2.handle.mono hr hr' }⟩

theorem unregister (hl : Level r r') (name : String) : Level (r.unregister name).2 (r'.unregister name).2 :=
  Entries.forall₂_remove name <| hl.imp fun _ _ h =>
    ⟨h.1, { h.2 with handle := h.2.handle.mono (r.grows_unregister name) (r'.grows_unregister name) }⟩

theorem get? (hl : Level r r') (name : String) :
    (r.get? name = none ∧ r'.get? name = none) ∨
      ∃ e e', r.get? name = some e ∧ r'.get? name = some e' ∧ Matches r r' e e' := by
  have hrel : Option.Rel (Matches r r') (r.get? name) (r'.get? name) := Entries.forall₂_get? name hl
  revert hrel
  generalize r.get? name = e, r'.get? name = e'
  rintro (hmatches | _)
  · exact .inr ⟨_, _, rfl, rfl, hmatches⟩
  · exact .inl ⟨rfl, rfl⟩

theorem names (hl : Level r r') : r.names = r'.names :=
  Entries.forall₂_keys hl

end Level

end Registry

open Registry (Paired Matches Level)

section Hydration

variable {w w' : Painting}

/-- A placeholder is refused on both sides or on neither, and where what is loaded for it loads, the blocks agree. -/
theorem hydrateOne_level (s : Resolver) (p : Placeholder) (hl : Level w.registry w'.registry)
    (hr : w.refusals = w'.refusals) :
    (hydrateOne s p w).2.refusals = (hydrateOne s p w').2.refusals ∧
      (Succeed (attemptsAt s p w.registry) → Succeed (attemptsAt s p w'.registry) →
        (hydrateOne s p w).1 = (hydrateOne s p w').1) := by
  rcases hl.get? p.name with ⟨hnone, hnone'⟩ | ⟨e, e', he, he', hmatches⟩
  · simp [hydrateOne, Resolver.resolve, Resolver.classify, hnone, hnone', hr]
  cases hallowed : s.allowed.isAllowed p.name with
  | false => simp [hydrateOne, Resolver.resolve, Resolver.classify, he, he', hallowed, hr]
  | true =>
    have hcleared : Cleared s w.registry p e := ⟨he, hallowed⟩
    have hcleared' : Cleared s w'.registry p e' := ⟨he', hallowed⟩
    cases hprops : p.props with
    | error complaint => simp [hydrateOne, hcleared.resolve, hcleared'.resolve, hprops, hr]
    | ok props =>
      cases hmissing : e.required.bind fun required => firstMissing required props with
      | some k =>
        have hmissing' := hmatches.required ▸ hmissing
        simp [hydrateOne, hcleared.resolve, hcleared'.resolve, hprops, he, he', hmissing, hmissing', hr]
      | none =>
        have ha : Admitted s w.registry p e props := ⟨hcleared, hprops, firstMissing_eq_none.1 hmissing⟩
        have ha' : Admitted s w'.registry p e' props :=
          ⟨hcleared', hprops, firstMissing_eq_none.1 (hmatches.required ▸ hmissing)⟩
        rw [ha.hydrateOne_eq, ha'.hydrateOne_eq, attemptsAt, attemptsAt, ha.wanted?_eq, ha'.wanted?_eq]
        refine ⟨hr, fun hs hs' => ?_⟩
        obtain ⟨c, hc, hc'⟩ := hmatches.handle
        simp only [(Registry.load_loads _ _).eq_ok hc hs, (Registry.load_loads _ _).eq_ok hc' hs']

theorem hydrateSegments_level (s : Resolver) (ks : List Segment) (hl : Level w.registry w'.registry)
    (hr : w.refusals = w'.refusals) :
    (hydrateSegments s ks w).2.refusals = (hydrateSegments s ks w').2.refusals ∧
      (Succeed (attemptsIn s ks w) → Succeed (attemptsIn s ks w') →
        (hydrateSegments s ks w).1 = (hydrateSegments s ks w').1) := by
  induction ks generalizing w w' with
  | nil => exact ⟨hr, fun _ _ => rfl⟩
  | cons k ks ih =>
    cases k with
    | char c =>
      obtain ⟨hrefusals, hsame⟩ := ih hl hr
      exact ⟨hrefusals, fun hs hs' => congrArg (c :: ·) (hsame hs hs')⟩
    | placeholder p =>
      obtain ⟨hr₁, hblock⟩ := hydrateOne_level s p hl hr
      have hl₁ : Level (hydrateOne s p w).2.registry (hydrateOne s p w').2.registry :=
        hl.calls (hydrateOne_calls s p w) (hydrateOne_calls s p w')
      obtain ⟨hrefusals, hsame⟩ := ih hl₁ hr₁
      refine ⟨hrefusals, fun hs hs' => ?_⟩
      obtain ⟨hs₁, hs₂⟩ := succeed_append.1 hs
      obtain ⟨hs₁', hs₂'⟩ := succeed_append.1 hs'
      exact congrArg₂ (fun block cs => String.toList block ++ cs) (hblock hs₁ hs₁') (hsame hs₂ hs₂')

end Hydration

/-! ### What can be told apart -/

/-- Where both load, they load the same. -/
def SameComponent (r r' : Registry) (h h' : Handle) : Prop :=
  ∀ c c', (r.load h).1 = .ok c → (r'.load h').1 = .ok c' → c = c'

theorem Registry.Paired.sameComponent {r r' : Registry} {h h' : Handle} (hp : Paired r r' h h') :
    SameComponent r r' h h' := by
  obtain ⟨c, hc, hc'⟩ := hp
  intro c₁ c₁' h₁ h₁'
  rw [((r.load_loads h).gives hc).result c₁ h₁, ((r'.load_loads h').gives hc').result c₁' h₁']

/-- The same resolution, with handles that are related. -/
inductive Resolution.Agrees (R : Handle → Handle → Prop) : Resolution → Resolution → Prop
  | unknown : Agrees R .unknown .unknown
  | disallowed : Agrees R .disallowed .disallowed
  | resolved {h h' : Handle} : R h h' → Agrees R (.resolved h) (.resolved h')

/-- The same refusal, or handles that are related. -/
inductive Resolver.Answers (R : Handle → Handle → Prop) : Except Refusal Handle → Except Refusal Handle → Prop
  | refused (refusal : Refusal) : Answers R (.error refusal) (.error refusal)
  | handed {h h' : Handle} : R h h' → Answers R (.ok h) (.ok h')

section Resolving

variable {s : Resolver} {r r' : Registry} {R : Handle → Handle → Prop} {name : String}

theorem Registry.Level.classify (hl : Level r r') (s : Resolver) (name : String) :
    Resolution.Agrees (Paired r r') (s.classify r name) (s.classify r' name) := by
  unfold Resolver.classify
  rcases hl.get? name with ⟨hnone, hnone'⟩ | ⟨e, e', he, he', hmatches⟩
  · rw [hnone, hnone']
    exact .unknown
  · rw [he, he']
    cases s.allowed.isAllowed name with
    | false => exact .disallowed
    | true => exact .resolved hmatches.handle

theorem Resolution.Agrees.imp {R' : Handle → Handle → Prop} {a b : Resolution} (h : Agrees R a b)
    (hR : ∀ {h h'}, R h h' → R' h h') : Agrees R' a b := by
  cases h with
  | unknown => exact .unknown
  | disallowed => exact .disallowed
  | resolved h => exact .resolved (hR h)

theorem Resolution.Agrees.resolve (h : Agrees R (s.classify r name) (s.classify r' name)) :
    Resolver.Answers R (s.resolve r name) (s.resolve r' name) := by
  unfold Resolver.resolve
  revert h
  generalize s.classify r name = a, s.classify r' name = b
  rintro (_ | _ | h)
  · exact .refused _
  · exact .refused _
  · exact .handed h

theorem Resolution.Agrees.canResolve (h : Agrees R (s.classify r name) (s.classify r' name)) :
    s.canResolve r name = s.canResolve r' name := by
  unfold Resolver.canResolve
  revert h
  generalize s.classify r name = a, s.classify r' name = b
  rintro (_ | _ | h) <;> rfl

end Resolving

/-- What resolution says of a name, in any of its forms. -/
structure Coherent (s : Resolver) (r : Registry) : Prop where
  resolves : ∀ name, s.canResolve r name = true ↔ ∃ h, s.resolve r name = .ok h
  listed : ∀ name, s.canResolve r name = true ↔ name ∈ s.allowedNames r
  increasing : (s.allowedNames r).Pairwise (· < ·)

theorem coherent_of_sorted (s : Resolver) {r : Registry} (hr : Entries.Sorted r.components) : Coherent s r where
  resolves name := by
    unfold Resolver.canResolve Resolver.resolve
    cases s.classify r name <;> simp
  listed name := by
    rw [Resolver.allowedNames, List.mem_filter, Registry.names, Entries.mem_keys hr]
    unfold Resolver.canResolve Resolver.classify Registry.get?
    cases Entries.get? name r.components <;> cases s.allowed.isAllowed name <;> simp
  increasing := (Entries.pairwise_keys hr).filter _

namespace Usage

variable {s : Resolver} {u u' : Usage}

/-- Neither resolution nor what is loaded without a failure tells the two apart. -/
structure Indistinguishable (s : Resolver) (u u' : Usage) : Prop where
  classify : ∀ name,
    Resolution.Agrees (SameComponent u.registry u'.registry) (s.classify u.registry name) (s.classify u'.registry name)
  resolve : ∀ name,
    Resolver.Answers (SameComponent u.registry u'.registry) (s.resolve u.registry name) (s.resolve u'.registry name)
  canResolve : ∀ name, s.canResolve u.registry name = s.canResolve u'.registry name
  allowedNames : s.allowedNames u.registry = s.allowedNames u'.registry
  unregister : ∀ name, (u.registry.unregister name).1 = (u'.registry.unregister name).1
  handles : List.Forall₂ (SameComponent u.registry u'.registry) u.handles u'.handles
  refusals : u.refusals = u'.refusals
  hydrate : ∀ html, Succeed (u.hydrationAttempts s html) → Succeed (u'.hydrationAttempts s html) →
    (Component.hydrate s html u.painting).1 = (Component.hydrate s html u'.painting).1

structure Lockstep (u u' : Usage) : Prop where
  level : Level u.registry u'.registry
  handles : List.Forall₂ (Paired u.registry u'.registry) u.handles u'.handles
  refusals : u.refusals = u'.refusals

theorem Lockstep.hydrate (h : Lockstep u u') (s : Resolver) (html : String) :
    (Component.hydrate s html u.painting).2.refusals = (Component.hydrate s html u'.painting).2.refusals ∧
      (Succeed (u.hydrationAttempts s html) → Succeed (u'.hydrationAttempts s html) →
        (Component.hydrate s html u.painting).1 = (Component.hydrate s html u'.painting).1) := by
  obtain ⟨hrefusals, hsame⟩ :=
    @hydrateSegments_level u.painting u'.painting s (segments html.toList) h.level h.refusals
  exact ⟨hrefusals, fun hs hs' => congrArg String.ofList (hsame hs hs')⟩

theorem Lockstep.indistinguishable (h : Lockstep u u') (s : Resolver) : Indistinguishable s u u' where
  classify name := (h.level.classify s name).imp (·.sameComponent)
  resolve name := ((h.level.classify s name).imp (·.sameComponent)).resolve
  canResolve name := (h.level.classify s name).canResolve
  allowedNames := by rw [Resolver.allowedNames, Resolver.allowedNames, h.level.names]
  unregister name := by
    change (u.registry.get? name).isSome = (u'.registry.get? name).isSome
    rcases h.level.get? name with ⟨hnone, hnone'⟩ | ⟨e, e', he, he', -⟩
    · rw [hnone, hnone']
    · rw [he, he']
      rfl
  handles := h.handles.imp fun _ _ hp => hp.sameComponent
  refusals := h.refusals
  hydrate html := (h.hydrate s html).2

/-- Any two loads may happen, on either side: nothing that is compared here hears of it. -/
theorem Lockstep.calls (h : Lockstep u u') {r r' : Registry} {as as' bs bs' : List Attempt} (hr : u.registry.Calls as r)
    (hr' : u'.registry.Calls as' r') {refusals refusals' : List Refusal} (hrefusals : refusals = refusals') :
    Lockstep ⟨r, u.handles, refusals, bs⟩ ⟨r', u'.handles, refusals', bs'⟩ where
  level := h.level.calls hr hr'
  handles := h.handles.imp fun _ _ hp => hp.mono hr.grows hr'.grows
  refusals := hrefusals

theorem Lockstep.perform (h : Lockstep u u') (s : Resolver) {op op' : Operation} (hop : op.Twin op') :
    Lockstep (perform s u op) (perform s u' op') := by
  cases hop with
  | @register source source' c name category required hs hs' =>
    rw [Usage.perform, Usage.perform, Registry.register_eq, Registry.register_eq]
    split_ifs
    · exact h
    · exact ⟨h.level.accept hs hs' name category required,
        h.handles.imp fun _ _ hp => hp.mono (u.registry.grows_accept name category source required)
          (u'.registry.grows_accept name category source' required), h.refusals⟩
  | unregister name =>
    exact ⟨h.level.unregister name,
      h.handles.imp fun _ _ hp => hp.mono (u.registry.grows_unregister name) (u'.registry.grows_unregister name),
      h.refusals⟩
  | resolve name =>
    rw [Usage.perform, Usage.perform]
    have hanswers := (h.level.classify s name).resolve
    revert hanswers
    generalize s.resolve u.registry name = a, s.resolve u'.registry name = b
    rintro (refusal | hp)
    · exact ⟨h.level, h.handles, by rw [h.refusals]⟩
    · exact ⟨h.level, List.rel_append h.handles (.cons hp .nil), h.refusals⟩
  | load k =>
    rw [Usage.perform, Usage.perform]
    split <;> split
    · exact h.calls (.one ..) (.one ..) h.refusals
    · exact h.calls (.one ..) (.nil _) h.refusals
    · exact h.calls (.nil _) (.one ..) h.refusals
    · exact h
  | hydrate html => exact h.calls (u.hydrate_calls s html) (u'.hydrate_calls s html) (h.hydrate s html).1

theorem lockstep_run (s : Resolver) {ops ops' : List Operation} (h : List.Forall₂ Operation.Twin ops ops') :
    Lockstep (run s ops) (run s ops') := by
  have hfold : ∀ {u u' : Usage}, Lockstep u u' → Lockstep (ops.foldl (perform s) u) (ops'.foldl (perform s) u') := by
    induction h with
    | nil => exact fun hu => hu
    | cons hop _ ih => exact fun hu => ih (hu.perform s hop)
  exact hfold ⟨.nil, .nil, rfl⟩

/-- Whether components are at hand or fetched shows in nothing but the loads that fail, and these are over once one
does not. -/
theorem lazy_loading_unnoticed (s : Resolver) {ops ops' : List Operation} (h : List.Forall₂ Operation.Twin ops ops') :
    Indistinguishable s (run s ops) (run s ops') ∧
      (Coherent s (run s ops).registry ∧ LoadedOnce s ops) ∧
        Coherent s (run s ops').registry ∧ LoadedOnce s ops' :=
  ⟨(lockstep_run s h).indistinguishable s,
    ⟨coherent_of_sorted s (sound_run s ops).sorted, loadedOnce_run s ops⟩,
    coherent_of_sorted s (sound_run s ops').sorted, loadedOnce_run s ops'⟩

def stamp : Component :=
  (Stock.fixed "<b>paid</b>").toComponent "Stamp"

/-- The stamp is asked for before and after its registration is taken away. -/
def stampUse (source : Source) : List Operation :=
  [.register "Stamp" .custom source none, .resolve "Stamp", .load 0, .hydrate (livePlaceholder "Stamp" (.object [])),
    .unregister "Stamp", .load 0]

theorem lazy_loading_unnoticed_flaky :
    let loader := flaky (fun own _ => own) 1 stamp
    List.Forall₂ Operation.Twin (stampUse (.eager stamp)) (stampUse (.lazy loader)) ∧
      (run {} (stampUse (.lazy loader))).attempts.map (·.outcome.toBool) = [false, true] ∧
      Indistinguishable {} (run {} (stampUse (.eager stamp))) (run {} (stampUse (.lazy loader))) ∧
      LoadedOnce {} (stampUse (.lazy loader)) := by
  intro loader
  have hyields : (Source.lazy loader).Yields stamp := by
    intro own all
    unfold loader flaky
    split_ifs
    · exact .error
    · exact .ok rfl
  have htwins : List.Forall₂ Operation.Twin (stampUse (.eager stamp)) (stampUse (.lazy loader)) :=
    .cons (.register "Stamp" .custom none rfl hyields) <| .cons (.resolve _) <| .cons (.load _) <|
      .cons (.hydrate _) <| .cons (.unregister _) <| .cons (.load _) .nil
  have hboth := lazy_loading_unnoticed {} htwins
  exact ⟨htwins, by decide +kernel, hboth.1, hboth.2.2.2⟩

end Usage

end SecureLayout.Component
