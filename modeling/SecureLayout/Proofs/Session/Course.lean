import SecureLayout.Proofs.Collab.Observing
import SecureLayout.Proofs.Session.Steps

/-!
What a session does, told as what happens to its document. A session works on its store, which has the manager beside
the scene; put back, that is the document after some writes of its own, with the manager changed in its place. Main
statement: whatever is asked of a session, it writes output fields only, and the page is as it was but for its document,
its manager and what observers make of the writes.
-/

namespace SecureLayout

open Collab (Document Observer Origin Request Shared)
open Json (Value)
open Sandbox (HostWindow IsolatedFrame Manager MessageEvent Notice Watched)
open Wire (FieldUpdate)

/-! ### Documents under a further state -/

namespace Collab.Shared

variable {σ τ : Type} {there there' : σ → τ} {back : τ → σ} {s : Shared σ} {t : Shared τ}

/-- Seen through `back`, `t` is `s`. -/
structure Shows (there : σ → τ) (back : τ → σ) (s : Shared σ) (t : Shared τ) : Prop where
  document : t.document = s.document
  observers : t.observers = s.observers.map (Observer.carry there back)
  nextId : t.nextId = s.nextId
  state : back t.state = s.state

theorem shows_carry (hback : ∀ x, back (there x) = x) (s : Shared σ) : Shows there back s (s.carry there back) :=
  ⟨rfl, rfl, rfl, hback s.state⟩

theorem Shows.withDocument (h : Shows there back s t) (document : Document) :
    Shows there back { s with document } { t with document } :=
  { h with document := rfl }

theorem Shows.unobserve (h : Shows there back s t) (id : Nat) : Shows there back (s.unobserve id) (t.unobserve id) where
  document := h.document
  observers := by
    simp only [Shared.unobserve, h.observers, List.filter_map]
    rfl
  nextId := h.nextId
  state := h.state

variable {write : String → Value → Shared σ → Shared σ} {write' : String → Value → Shared τ → Shared τ}

theorem Shows.serve
    (hwrite : ∀ field value {s t}, Shows there back s t → Shows there back (write field value s) (write' field value t))
    (requests : List Request) (h : Shows there back s t) :
    Shows there back (serve write requests s) (serve write' requests t) := by
  induction requests generalizing s t with
  | nil => exact h
  | cons r requests ih =>
    cases r with
    | write field value => exact ih (hwrite field value h)
    | unsubscribe id => exact ih (h.unobserve id)

theorem Shows.tell (hback : ∀ x, back (there x) = x)
    (hwrite : ∀ field value {s t}, Shows there back s t → Shows there back (write field value s) (write' field value t))
    (u : FieldUpdate) (origin : Origin) (os : List (Observer σ)) (h : Shows there back s t) :
    Shows there back (tell write u origin os s) (tell write' u origin (os.map (Observer.carry there back)) t) := by
  induction os generalizing s t with
  | nil => exact h
  | cons o os ih =>
    have htold : Shows there back { s with state := (o.call u origin s.state).1 }
        { t with state := there (o.call u origin (back t.state)).1 } := by
      refine ⟨h.document, h.observers, h.nextId, ?_⟩
      rw [hback, h.state]
    have hserved := htold.serve hwrite (o.call u origin s.state).2
    rw [List.map_cons]
    refine ih ?_
    dsimp only [Observer.carry]
    rw [h.state] at hserved ⊢
    exact hserved

theorem Shows.setWithin (hback : ∀ x, back (there x) = x) (n : Nat) (field : String) (value : Value)
    (h : Shows there back s t) :
    Shows there back (setWithin n field value s).2 (setWithin n field value t).2 := by
  induction n generalizing s t field value with
  | zero => exact h
  | succ n ih =>
    rw [Shared.setWithin, Shared.setWithin, h.document]
    cases s.document.set field value with
    | error e => exact h
    | ok w =>
      have hwatching : t.observers.filter (·.watches field) =
          (s.observers.filter (·.watches field)).map (Observer.carry there back) := by
        rw [h.observers, List.filter_map]
        rfl
      dsimp only
      rw [hwatching]
      exact (h.withDocument w.2).tell hback (fun f v _ _ hs => ih f v hs) w.1 .own _

theorem Shows.set (hback : ∀ x, back (there x) = x) (h : Shows there back s t) (field : String) (value : Value) :
    Shows there back (s.set field value).2 (t.set field value).2 :=
  h.setWithin hback room field value

/-- Put back, it is the same again. -/
theorem Shows.carry_back (hback : ∀ x, back (there x) = x) (hback' : ∀ x, back (there' x) = x)
    (h : Shows there back s t) : t.carry back there' = s := by
  have hsame : (Observer.carry back there') ∘ (Observer.carry there back) = id := by
    funext o
    simp only [Function.comp, Observer.carry, hback, hback', id]
  obtain ⟨document, observers, nextId, state⟩ := s
  obtain ⟨rfl, hobservers, rfl, rfl⟩ := h
  simp only [Shared.carry, hobservers, List.map_map, hsame, List.map_id]

end Collab.Shared

variable {α φ : Type} {k : Nat} {m : Manager (Watched φ)}

/-! ### Sessions at work -/

/-- One after the other: manager `k` is changed, a write in `Q` is made, a watch in `Q` is ended. -/
inductive Scene.Course (k : Nat) (Q : Request → Prop) (s : Shared (Scene α φ)) : Shared (Scene α φ) → Prop
  | refl : Course k Q s s
  | manager {s' : Shared (Scene α φ)} (m : Manager (Watched φ)) : Course k Q s s' →
      Course k Q s { s' with state := (s'.state.1, s'.state.2.set k m) }
  | write {s' : Shared (Scene α φ)} {field : String} {value : Value} : Q (.write field value) → Course k Q s s' →
      Course k Q s (s'.set field value).2
  | stop {s' : Shared (Scene α φ)} {id : Nat} : Q (.unsubscribe id) → Course k Q s s' → Course k Q s (s'.unobserve id)

/-- What is kept by everything that observers ask for is kept by a session that does nothing else. -/
theorem Scene.Course.kept {P Q : Request → Prop} {I : Shared (Scene α φ) → Prop} {s s' : Shared (Scene α φ)}
    (h : Scene.Course k Q s s') (hI : Shared.Kept P I) (hQ : ∀ r, Q r → P r) (hs : I s) : I s' := by
  induction h with
  | refl => exact hs
  | manager m _ ih => exact hI.withState _ ih
  | write hr _ ih => exact hI.set (hQ _ hr) ih
  | stop hr _ ih => exact hI.unsubscribe (hQ _ hr) ih

namespace LayoutSession

variable {Q : Request → Prop} {s : Shared (Scene α φ)} {session session' : LayoutSession (Scene α φ) (Watched φ)}
  {m' : Manager (Watched φ)}

/-- A session that was over `s` has become `session'`. -/
structure Keeping (k : Nat) (m : Manager (Watched φ)) (Q : Request → Prop) (s : Shared (Scene α φ))
    (session session' : LayoutSession (Scene α φ) (Watched φ)) : Prop where
  store : ∃ s', Shared.Shows (Scene.beside k m) (Scene.back k) s' session'.store ∧ Scene.Course k Q s s'
  policy : session'.environment.policy = session.environment.policy
  subscription : session'.subscription = session.subscription

theorem Keeping.withManager (h : Keeping k m Q s session session') (m' : Manager (Watched φ)) :
    Keeping k m Q s session (session'.withManager m') := by
  obtain ⟨⟨s', hshows, hcourse⟩, hpolicy, hsubscription⟩ := h
  refine ⟨⟨{ s' with state := (s'.state.1, s'.state.2.set k m') }, ?_, hcourse.manager m'⟩, hpolicy, hsubscription⟩
  refine ⟨hshows.document, hshows.observers, hshows.nextId, ?_⟩
  rw [← hshows.state]
  exact Prod.ext rfl (List.set_set _).symm

theorem Keeping.react (h : Keeping k m Q s session session')
    (hQ : ∀ field value, session.environment.policy.isOutputField field = true → Q (.write field value)) (n : Notice) :
    Keeping k m Q s session (session'.react n) := by
  cases n with
  | rendered => exact h
  | outputChange field value =>
    unfold LayoutSession.react
    dsimp only
    split
    · next hfield =>
      obtain ⟨⟨s', hshows, hcourse⟩, hpolicy, hsubscription⟩ := h
      rw [hpolicy] at hfield
      exact ⟨⟨_, hshows.set (Scene.back_beside k m) field value, hcourse.write (hQ field value hfield)⟩, hpolicy,
        hsubscription⟩
    · exact h
  | failed e => exact ⟨h.store, h.policy, h.subscription⟩

variable [IsolatedFrame φ]

theorem Keeping.handle (h : Keeping k m Q s session session')
    (hQ : ∀ field value, session.environment.policy.isOutputField field = true → Q (.write field value))
    (e : MessageEvent) : Keeping k m Q s session (session'.handle e) := by
  have hheard := h.withManager (session'.manager.handleEvent e).2
  unfold LayoutSession.handle
  cases (session'.manager.handleEvent e).1 with
  | none => exact hheard
  | some n => exact hheard.react hQ n

theorem Keeping.pump (h : Keeping k m Q s session session')
    (hQ : ∀ field value, session.environment.policy.isOutputField field = true → Q (.write field value)) :
    Keeping k m Q s session session'.pump.2 := by
  rw [pump_eq]
  refine List.foldlRecOn (motive := fun t => Keeping k m Q s session t) session'.manager.takeEvents.1
    LayoutSession.handle (h.withManager _) fun t ht e _ => ?_
  exact ht.handle hQ e

omit [IsolatedFrame φ] in
theorem policy_renderPass (env : TemplateEnvironment) (template : String) (task : TaskContext) (output : Value) :
    (renderPass env template task output).2.policy = env.policy :=
  env.policy_render template (task.withOutput output)

theorem Keeping.rerender (h : Keeping k m Q s session session') : Keeping k m Q s session session'.rerender.2 := by
  have hpolicy := policy_renderPass session'.environment session'.template session'.task
    session'.store.document.toValue
  unfold LayoutSession.rerender
  split
  · exact h
  · split
    · next hr =>
      rw [hr] at hpolicy
      exact ⟨h.store, hpolicy.trans h.policy, h.subscription⟩
    · next html context environment hr =>
      rw [hr] at hpolicy
      have hrendered : Keeping k m Q s session { session' with environment } :=
        ⟨h.store, hpolicy.trans h.policy, h.subscription⟩
      have hsent := hrendered.withManager (session'.manager.render html context).2
      have hsame : ({ session' with environment } : LayoutSession (Scene α φ) (Watched φ)).manager = session'.manager :=
        rfl
      dsimp only
      rw [hsame]
      rcases hm : session'.manager.render html context with ⟨_ | _, m'⟩ <;> rw [hm] at hsent
      · exact hsent
      · exact ⟨hsent.store, hsent.policy, hsent.subscription⟩

theorem Keeping.unmount (h : Keeping k m Q s session session') (hQ : Q (.unsubscribe session.subscription)) :
    Keeping k m Q s session session'.unmount := by
  unfold LayoutSession.unmount
  split
  · exact h
  · obtain ⟨⟨s', hshows, hcourse⟩, hpolicy, hsubscription⟩ := h
    have hstopped : Keeping k m Q s session
        { session' with store := session'.store.unobserve session'.subscription, isUnmounted := true } := by
      rw [hsubscription]
      exact ⟨⟨_, hshows.unobserve session.subscription, hcourse.stop hQ⟩, hpolicy, rfl⟩
    exact hstopped.withManager _

end LayoutSession

/-! ### Pages -/

/-- What of a session never changes. -/
structure Card where
  document : Nat
  subscription : Nat
  policy : SecurityPolicy

def Seat.card (seat : Seat α φ) : Card :=
  ⟨seat.document, seat.session.subscription, seat.session.environment.policy⟩

/-- What a session may do to its document when `a` is asked of it. -/
def Action.Grants (a : Action) (card : Card) : Request → Prop
  | .write field _ => card.policy.isOutputField field = true
  | .unsubscribe id => (a = .unmount ∨ a = .drop) ∧ id = card.subscription

namespace Page

variable {p : Page α φ} {seat : Seat α φ} {d : Nat}

/-- A session is put back over what its store shows. -/
theorem putSession_eq {s : Shared (Scene α φ)} {seat : Seat α φ}
    (h : Shared.Shows (Scene.beside k m) (Scene.back k) s seat.session.store) :
    p.putSession k seat =
      { host := seat.session.manager.host, own := s.state.1, managers := s.state.2,
        seats := p.seats.set k (some seat), documents := p.documents.set seat.document s } := by
  have hstore := h.carry_back (Scene.back_beside k m) (Scene.back_beside k seat.session.manager)
  rw [putSession, putDocument, hstore]

theorem keeping_of_session? {Q : Request → Prop} (h : p.session? k m = some seat) :
    ∃ rest s, p.seats[k]? = some (some rest) ∧ rest.card = seat.card ∧ p.document? seat.document = some s ∧
      LayoutSession.Keeping k m Q s seat.session seat.session := by
  obtain ⟨rest, s, hrest, hs, rfl⟩ := exists_of_session? h
  exact ⟨rest, { s with state := p.scene }, hrest, rfl, by rw [document?, hs]; rfl,
    ⟨_, Shared.shows_carry (Scene.back_beside k m) _, .refl⟩, rfl, rfl⟩

/-- The card of each session. -/
def cards (p : Page α φ) : List (Option Card) :=
  p.seats.map (Option.map Seat.card)

/-- What a page has become when something was asked of manager `k`: sessions are what they were, and if a document has
changed, it is that of the session of `k`. -/
structure Turn (k : Nat) (a : Action) (p p' : Page α φ) : Prop where
  cards : p'.cards = p.cards
  documents : p'.documents = p.documents ∨ ∃ seat s s', p.seats[k]? = some (some seat) ∧
    p.document? seat.document = some s ∧ Scene.Course k (a.Grants seat.card) s s' ∧
    p'.documents = p.documents.set seat.document s'

theorem turn_putSession {a : Action} {session' : LayoutSession (Scene α φ) (Watched φ)}
    (h : p.session? k m = some seat)
    (hsession : ∀ s, LayoutSession.Keeping k m (a.Grants seat.card) s seat.session seat.session →
      LayoutSession.Keeping k m (a.Grants seat.card) s seat.session session') :
    Turn k a p (p.putSession k { seat with session := session' }) := by
  obtain ⟨rest, s, hrest, hcard, hs, hkeeping⟩ := keeping_of_session? (Q := a.Grants seat.card) h
  obtain ⟨⟨s', hshows, hcourse⟩, hpolicy, hsubscription⟩ := hsession s hkeeping
  rw [putSession_eq hshows]
  constructor
  case cards =>
    have hsame : Option.map Seat.card (some { seat with session := session' }) = Option.map Seat.card (some rest) := by
      rw [Option.map_some, Option.map_some, hcard]
      simp only [Seat.card, hpolicy, hsubscription]
    obtain ⟨hlt, he⟩ := List.getElem?_eq_some_iff.1 hrest
    rw [cards, List.map_set, hsame, ← he, ← List.map_set, List.set_getElem_self]
    rfl
  case documents =>
    have hdocument : rest.document = seat.document := congrArg Card.document hcard
    exact .inr ⟨rest, s, s', hrest, hdocument ▸ hs, hcard ▸ hcourse, hdocument ▸ rfl⟩

variable [IsolatedFrame φ]

theorem turn_perform (a : Action) : Turn k a p (p.perform k m a).2 := by
  have hsame {p' : Page α φ} (hseats : p'.seats = p.seats) (hdocuments : p'.documents = p.documents) : Turn k a p p' :=
    ⟨by rw [cards, hseats, cards], .inl hdocuments⟩
  unfold perform
  cases a with
  | render | updateContext | destroy => exact hsame rfl rfl
  | event e =>
    cases hseat : p.session? k m with
    | none => exact hsame rfl rfl
    | some seat => exact turn_putSession hseat fun s h => h.handle (fun _ _ hf => hf) e
  | pump =>
    cases hseat : p.session? k m with
    | none => exact hsame rfl rfl
    | some seat => exact turn_putSession hseat fun s h => h.pump fun _ _ hf => hf
  | rerender =>
    cases hseat : p.session? k m with
    | none => exact hsame rfl rfl
    | some seat => exact turn_putSession hseat fun s h => h.rerender
  | unmount =>
    cases hseat : p.session? k m with
    | none => exact hsame rfl rfl
    | some seat => exact turn_putSession hseat fun s h => h.unmount ⟨.inl rfl, rfl⟩
  | drop =>
    cases hseat : p.session? k m with
    | none => exact hsame rfl rfl
    | some seat => exact turn_putSession hseat fun s h => h.unmount ⟨.inr rfl, rfl⟩

end Page

end SecureLayout
