import SecureLayout.Proofs.Collab.Observing
import SecureLayout.Proofs.Sandbox.Alike
import SecureLayout.Proofs.Session.Steps

/-!
Pages on which everything is the same but where managers listen. Main statement: a mount that fails is not noticed by
anybody else, then or later.
-/

namespace SecureLayout

open Collab (Document Observer Origin Request Shared)
open Json (Value)
open Sandbox (HostWindow IgnoresListeners IsolatedFrame Manager MessageEvent MountFailure Notice Watched)
open Sandbox.Manager (Talked Talks inbox?)
open Wire (FieldUpdate)

variable {α φ : Type}

/-! ### Sessions -/

namespace LayoutSession

variable {σ : Type} {Q : σ → σ → Prop}

/-- States that are related by `Q`, each with a manager beside it. -/
def Twin (Q : σ → σ → Prop) (x y : σ × Manager φ) : Prop :=
  Q x.1 y.1 ∧ x.2.Alike y.2

/-- Sessions that differ in their stores only, and these in states that observers cannot tell apart. -/
structure Alike (Q : σ → σ → Prop) (s s' : LayoutSession σ φ) : Prop where
  rest : s' = { s with store := s'.store }
  store : s.store.Matches (Twin Q) s'.store

variable {s s' : LayoutSession σ φ} {m m' : Manager φ}

theorem Alike.manager (h : s.Alike Q s') : s.manager.Alike s'.manager :=
  h.store.state.2

theorem Alike.withManager (h : s.Alike Q s') (hm : m.Alike m') : (s.withManager m).Alike Q (s'.withManager m') where
  rest := by
    rw [h.rest]
    rfl
  store := h.store.withState ⟨h.store.state.1, hm⟩

theorem Alike.react (h : s.Alike Q s') (n : Notice) : (s.react n).Alike Q (s'.react n) := by
  obtain ⟨hrest, hstore⟩ := h
  rw [hrest]
  cases n with
  | rendered => exact ⟨rfl, hstore⟩
  | outputChange field value =>
    unfold LayoutSession.react
    dsimp only
    split
    · exact ⟨rfl, (hstore.set field value).2⟩
    · exact ⟨rfl, hstore⟩
  | failed e => exact ⟨rfl, hstore⟩

variable [IsolatedFrame φ]

theorem Alike.handle (h : s.Alike Q s') (e : MessageEvent) : (s.handle e).Alike Q (s'.handle e) := by
  obtain ⟨hnotice, hmanager⟩ := h.manager.handleEvent e
  have hheard := h.withManager hmanager
  unfold LayoutSession.handle
  rw [hnotice]
  cases (s.manager.handleEvent e).1 with
  | none => exact hheard
  | some n => exact hheard.react n

theorem Alike.pump (h : s.Alike Q s') (hevents : s'.manager.takeEvents.1 = s.manager.takeEvents.1) :
    s'.pump.1 = s.pump.1 ∧ s.pump.2.Alike Q s'.pump.2 := by
  have hpump (r : LayoutSession σ φ) : r.pump = r.manager.takeEvents.1.foldl
      (fun x e => (x.1 ++ (x.2.manager.handleEvent e).1.toList, x.2.handle e))
      ([], r.withManager r.manager.takeEvents.2) := rfl
  rw [hpump, hpump, hevents]
  refine List.foldl_rel (r := fun x y : List Notice × LayoutSession σ φ => y.1 = x.1 ∧ x.2.Alike Q y.2)
    ⟨rfl, h.withManager h.manager.takeEvents⟩ fun e _ x y hxy => ?_
  exact ⟨by rw [hxy.1, (hxy.2.manager.handleEvent e).1], hxy.2.handle e⟩

theorem Alike.rerender (h : s.Alike Q s') : s'.rerender.1 = s.rerender.1 ∧ s.rerender.2.Alike Q s'.rerender.2 := by
  obtain ⟨hrest, hstore⟩ := h
  generalize s'.store = store at hrest hstore
  subst hrest
  unfold LayoutSession.rerender
  dsimp only
  rw [hstore.document]
  split
  · exact ⟨rfl, rfl, hstore⟩
  · split
    · exact ⟨rfl, rfl, hstore⟩
    · next html context environment _ =>
      have hrendered : Alike Q { s with environment } { s with environment, store } := ⟨rfl, hstore⟩
      obtain ⟨hresult, hmanager⟩ := hrendered.manager.render html context
      have hsent := hrendered.withManager hmanager
      rcases hr : ({ s with environment } : LayoutSession σ φ).manager.render html context with ⟨r, m⟩
      rcases hr' : ({ s with environment, store } : LayoutSession σ φ).manager.render html context with ⟨r', m'⟩
      rw [hr, hr'] at hresult hsent
      cases hresult
      cases r with
      | error e => exact ⟨rfl, hsent⟩
      | ok _ => exact ⟨rfl, rfl, hsent.store⟩

theorem Alike.unmount (h : s.Alike Q s') : s.unmount.Alike Q s'.unmount := by
  obtain ⟨hrest, hstore⟩ := h
  generalize s'.store = store at hrest hstore
  subst hrest
  unfold LayoutSession.unmount
  dsimp only
  split
  · exact ⟨rfl, hstore⟩
  · have hended : Alike Q { s with store := s.store.unobserve s.subscription, isUnmounted := true }
        { s with store := store.unobserve s.subscription, isUnmounted := true } :=
      ⟨rfl, hstore.unobserve s.subscription⟩
    exact hended.withManager hended.manager.destroy

/-- What passes writes on to the frame looks at the manager only. -/
theorem matches_forward (policy : SecurityPolicy) (id : Nat) (field : Option String) :
    Observer.Matches (Twin Q) ⟨id, field, forward policy⟩ ⟨id, field, forward (φ := φ) policy⟩ := by
  refine ⟨rfl, rfl, fun u origin x y hxy => ?_⟩
  unfold forward
  dsimp only
  split
  · exact ⟨⟨hxy.1, (hxy.2.updateContext _ _).2⟩, rfl⟩
  · exact ⟨hxy, rfl⟩

variable {env : TemplateEnvironment} {template : String} {task : TaskContext} {store store' : Shared σ}
  {w w' : HostWindow} {frame : φ}

theorem mount_alike (hignores : IgnoresListeners φ) (hstore : store.Matches Q store')
    (hruns : w'.runsTasks = w.runsTasks) (h : mount env template task store w frame = .ok s) :
    ∃ s', mount env template task store' w' frame = .ok s' ∧ s.Alike Q s' := by
  unfold mount at h ⊢
  rw [hstore.document]
  split at h
  · cases h
  · next html context _ _ =>
    split at h
    · cases h
    · next m hmount =>
      obtain ⟨m', hmount', hm⟩ := Manager.mount_alike hignores hruns hmount
      obtain ⟨hresult, hsent⟩ := hm.render html context
      dsimp only at h ⊢
      rw [hmount']
      dsimp only
      split at h
      · cases h
      · next n hn =>
        cases h
        rcases hn' : m'.render html context with ⟨r, n'⟩
        rw [hn, hn'] at hresult hsent
        cases hresult
        refine ⟨_, rfl, ?_, (hstore.beside hsent).observe none fun id => matches_forward env.policy id none⟩
        simp only [Shared.observe, Shared.beside, hstore.nextId]

theorem mount_error_alike (hignores : IgnoresListeners φ) (hstore : store.Matches Q store')
    (hruns : w'.runsTasks = w.runsTasks) {f : MountFailure φ} (h : mount env template task store w frame = .error f) :
    ∃ f', mount env template task store' w' frame = .error f' ∧ f'.cause = f.cause := by
  unfold mount at h ⊢
  rw [hstore.document]
  split at h
  · cases h
    exact ⟨_, rfl, rfl⟩
  · next html context _ _ =>
    dsimp only
    split at h
    · next hmount =>
      cases h
      obtain ⟨f', hmount', hcause⟩ := Manager.mount_error_alike hignores hruns hmount
      rw [hmount']
      exact ⟨f', rfl, hcause⟩
    · next m hmount =>
      obtain ⟨m', hmount', hm⟩ := Manager.mount_alike hignores hruns hmount
      obtain ⟨hresult, -⟩ := hm.render html context
      rw [hmount']
      dsimp only at h ⊢
      split at h
      · next hn =>
        cases h
        rcases hn' : m'.render html context with ⟨r, n'⟩
        rw [hn, hn'] at hresult
        cases hresult
        exact ⟨_, rfl, rfl⟩
      · cases h

end LayoutSession

/-! ### Pages -/

/-- The same for the application, and managers that are alike. -/
def Scene.Alike (x y : Scene α φ) : Prop :=
  y.1 = x.1 ∧ List.Forall₂ Manager.Alike x.2 y.2

/-- At rest, stores do not count. -/
def Seat.Alike (a b : Seat α φ) : Prop :=
  ∃ store, b = { a with session := { a.session with store } }

variable {k d : Nat} {m m' m₁ m₁' m₂ m₂' : Manager (Watched φ)}

theorem Scene.Alike.beside {x y : Scene α φ} (h : Scene.Alike x y) (hm : m.Alike m') :
    LayoutSession.Twin Scene.Alike (Scene.beside k m x) (Scene.beside k m' y) := by
  refine ⟨h, ?_⟩
  have hk := Sandbox.forall₂_getElem? h.2 k
  unfold Scene.beside
  cases hx : x.2[k]? <;> cases hy : y.2[k]? <;> rw [hx, hy] at hk <;> cases hk
  · exact hm
  · assumption

theorem Scene.Alike.back {x y : Scene α φ × Manager (Watched φ)} (h : LayoutSession.Twin Scene.Alike x y) :
    Scene.Alike (Scene.back k x) (Scene.back k y) :=
  ⟨h.1.1, Sandbox.forall₂_set h.1.2 h.2 k⟩

namespace Page

/-- Nothing is different but where managers listen, and there the same is waiting for them. -/
structure Alike (p p' : Page α φ) : Prop where
  own : p'.own = p.own
  runs : p'.host.runsTasks = p.host.runsTasks
  managers : List.Forall₂ Manager.Alike p.managers p'.managers
  inboxes : ∀ k, inbox? p'.host p'.managers k = inbox? p.host p.managers k
  seats : List.Forall₂ (Option.Rel Seat.Alike) p.seats p'.seats
  documents : List.Forall₂ (Shared.Matches Scene.Alike) p.documents p'.documents

variable {p p' : Page α φ} {n n' : Nat} {seat seat' : Seat α φ}

theorem Alike.seated (h : p.Alike p') : List.Forall₂ Manager.Alike p.seated p'.seated :=
  List.rel_map (fun _ _ hm => hm.within p.host p'.host) h.managers

theorem Alike.scene (h : p.Alike p') : Scene.Alike p.scene p'.scene :=
  ⟨h.own, h.seated⟩

theorem inbox?_seated (p : Page α φ) (k : Nat) : inbox? p.host p.seated k = inbox? p.host p.managers k := by
  rw [inbox?, inbox?, seated, List.getElem?_map, Option.bind_map]
  rfl

theorem Alike.documents? (h : p.Alike p') (d : Nat) :
    p.document? d = none ∧ p'.document? d = none ∨
      ∃ s s', p.document? d = some s ∧ p'.document? d = some s' ∧ s.Matches Scene.Alike s' := by
  have hd := Sandbox.forall₂_getElem? h.documents d
  unfold document?
  cases hs : p.documents[d]? <;> cases hs' : p'.documents[d]? <;> rw [hs, hs'] at hd <;> cases hd
  · exact .inl ⟨rfl, rfl⟩
  · next hmatch => exact .inr ⟨_, _, rfl, rfl, hmatch.withState h.scene⟩

theorem Alike.session? (h : p.Alike p') (k : Nat) (hm : m.Alike m') :
    p.session? k m = none ∧ p'.session? k m' = none ∨
      ∃ seat seat', p.session? k m = some seat ∧ p'.session? k m' = some seat' ∧
        seat'.document = seat.document ∧ seat.session.Alike Scene.Alike seat'.session := by
  have hk := Sandbox.forall₂_getElem? h.seats k
  unfold Page.session?
  generalize p.seats[k]? = o at hk
  generalize p'.seats[k]? = o' at hk
  cases hk with
  | none => exact .inl ⟨rfl, rfl⟩
  | some hseat =>
    cases hseat with
    | none => exact .inl ⟨rfl, rfl⟩
    | @some rest rest' hrest =>
      obtain ⟨store, rfl⟩ := hrest
      simp only [Option.join_some, Option.bind_eq_bind, Option.bind_some]
      rcases h.documents? rest.document with ⟨hs, hs'⟩ | ⟨s, s', hs, hs', hmatch⟩ <;> rw [hs, hs']
      · exact .inl ⟨rfl, rfl⟩
      · refine .inr ⟨_, _, rfl, rfl, rfl, rfl, ?_⟩
        exact hmatch.carry (fun _ _ hxy => hxy.beside hm) fun _ _ hxy => Scene.Alike.back hxy

theorem Alike.putDocument {s s' : Shared (Scene α φ)} (h : p.Alike p') (hs : s.Matches Scene.Alike s')
    (t : Talks p.seated s.state.2) (t' : Talks p'.seated s'.state.2) (d : Nat) :
    (p.putDocument d s).Alike (p'.putDocument d s') where
  own := hs.state.1
  runs := h.runs
  managers := hs.state.2
  inboxes k := by
    change inbox? p'.host s'.state.2 k = inbox? p.host s.state.2 k
    rw [Manager.inbox?_talks t', Manager.inbox?_talks t, inbox?_seated, inbox?_seated, h.inboxes]
  seats := h.seats
  documents := Sandbox.forall₂_set h.documents hs d

/-! ### One manager at work -/

/-- Alike managers in alike windows, ready to be put back. -/
structure Poised (p p' : Page α φ) (k : Nat) (m m' : Manager (Watched φ)) : Prop where
  alike : m.Alike m'
  runs : m'.host.runsTasks = m.host.runsTasks
  inboxes : ∀ j, inbox? m'.host (p'.seated.set k m') j = inbox? m.host (p.seated.set k m) j

theorem Alike.poised (h : p.Alike p') (hm : m.Alike m') (hk : p.seated[k]? = some m) (hk' : p'.seated[k]? = some m') :
    Poised p p' k m m' where
  alike := hm
  runs := by rw [host_of_seated hk, host_of_seated hk', h.runs]
  inboxes j := by
    rw [set_seated hk, set_seated hk', host_of_seated hk, host_of_seated hk', inbox?_seated, inbox?_seated, h.inboxes]

/-- Each does the same to its own listener. -/
theorem Alike.poised_set (hp : p.Tidy n) (hp' : p'.Tidy n') (h : p.Alike p') (hm : m₁.Alike m₁')
    (hk : p.seated[k]? = some m) (hk' : p'.seated[k]? = some m') (hlistener : m₁.listener = m.listener)
    (hlistener' : m₁'.listener = m'.listener) (hruns : m₁.host.runsTasks = p.host.runsTasks)
    (hruns' : m₁'.host.runsTasks = p'.host.runsTasks) (f : Sandbox.Inbox → Sandbox.Inbox)
    (hhost : ∀ i, m₁.host.inboxes[i]? = if i = m.listener then (p.host.inboxes[i]?).map f else p.host.inboxes[i]?)
    (hhost' : ∀ i, m₁'.host.inboxes[i]? =
      if i = m'.listener then (p'.host.inboxes[i]?).map f else p'.host.inboxes[i]?) :
    Poised p p' k m₁ m₁' := by
  refine ⟨hm, by rw [hruns, hruns', h.runs], fun j => ?_⟩
  rw [Manager.inbox?_set hp.seated hk hlistener hhost, Manager.inbox?_set hp'.seated hk' hlistener' hhost',
    inbox?_seated, inbox?_seated, h.inboxes]

theorem Alike.poised_takeEvents (hp : p.Tidy n) (hp' : p'.Tidy n') (h : p.Alike p') (hm : m.Alike m')
    (hk : p.seated[k]? = some m) (hk' : p'.seated[k]? = some m') :
    Poised p p' k m.takeEvents.2 m'.takeEvents.2 := by
  have hhost := host_of_seated hk
  have hhost' := host_of_seated hk'
  refine h.poised_set hp hp' hm.takeEvents hk hk' rfl rfl (by rw [← hhost]; rfl) (by rw [← hhost']; rfl)
    (fun b => { b with events := [] }) (fun i => ?_) fun i => ?_
  · rw [← hhost]
    exact m.host.inboxes_drain i m.listener
  · rw [← hhost']
    exact m'.host.inboxes_drain i m'.listener

theorem Alike.takeEvents (h : p.Alike p') (hk : p.seated[k]? = some m) (hk' : p'.seated[k]? = some m') :
    m'.takeEvents.1 = m.takeEvents.1 := by
  have hsame : m'.host.inboxes[m'.listener]? = m.host.inboxes[m.listener]? := by
    have hinbox := h.inboxes k
    rw [← inbox?_seated, ← inbox?_seated, inbox?, inbox?, hk, hk'] at hinbox
    rw [host_of_seated hk, host_of_seated hk']
    exact hinbox
  exact congrArg (fun b => (b.map Sandbox.Inbox.events).getD []) hsame

variable [IsolatedFrame φ]

theorem Alike.poised_destroy (hp : p.Tidy n) (hp' : p'.Tidy n') (h : p.Alike p') (hm : m.Alike m')
    (hk : p.seated[k]? = some m) (hk' : p'.seated[k]? = some m') : Poised p p' k m.destroy m'.destroy := by
  have hhost := host_of_seated hk
  have hhost' := host_of_seated hk'
  rcases m.destroy_cases with ⟨hgone, he⟩ | ⟨halive, hrelease, hlistener, -⟩
  · rw [he, m'.destroy_of_destroyed (hm.phase.trans hgone)]
    exact h.poised hm hk hk'
  · rcases m'.destroy_cases with ⟨hgone', -⟩ | ⟨-, hrelease', hlistener', -⟩
    · exact absurd (hm.phase.symm.trans hgone') halive
    · rw [hhost] at hrelease
      rw [hhost'] at hrelease'
      refine h.poised_set hp hp' hm.destroy hk hk' hlistener hlistener' (by rw [hrelease]; rfl)
        (by rw [hrelease']; rfl) (fun _ => { isRead := false, isRegistered := false }) (fun i => ?_) fun i => ?_
      · rw [hrelease, HostWindow.inboxes_release]
      · rw [hrelease', HostWindow.inboxes_release]

omit [IsolatedFrame φ] in
theorem Poised.putManager (h : Poised p p' k m₁ m₁') (hpage : p.Alike p') (hm : m₂.Alike m₂') (t : Talked m₁ m₂)
    (t' : Talked m₁' m₂') : (p.putManager k m₂).Alike (p'.putManager k m₂') where
  own := hpage.own
  runs := by
    change m₂'.host.runsTasks = m₂.host.runsTasks
    rw [t.host, t'.host, h.runs]
  managers := Sandbox.forall₂_set hpage.seated hm k
  inboxes j := by
    change inbox? m₂'.host (p'.seated.set k m₂') j = inbox? m₂.host (p.seated.set k m₂) j
    rw [Manager.inbox?_talks (Talks.set (Talks.refl _) t'), Manager.inbox?_talks (Talks.set (Talks.refl _) t), t.host,
      t'.host, h.inboxes]
  seats := hpage.seats
  documents := hpage.documents

omit [IsolatedFrame φ] in
theorem Poised.putSession {seat₂ seat₂' : Seat α φ} (h : Poised p p' k m₁ m₁') (hpage : p.Alike p')
    (hk : p.seated[k]? = some m) (hk' : p'.seated[k]? = some m') (hready : p.Ready k m₁ seat seat₂)
    (hready' : p'.Ready k m₁' seat' seat₂') (hdocument : seat₂'.document = seat₂.document)
    (hsession : seat₂.session.Alike Scene.Alike seat₂'.session) :
    (p.putSession k seat₂).Alike (p'.putSession k seat₂') := by
  obtain ⟨t, -, htalked⟩ := talked_putSession hk hready
  obtain ⟨t', -, htalked'⟩ := talked_putSession hk' hready'
  have hhost : (p.putSession k seat₂).host = m₁.host := htalked.host
  have hhost' : (p'.putSession k seat₂').host = m₁'.host := htalked'.host
  have hback := Scene.Alike.back (k := k) hsession.store.state
  constructor
  case own => exact hback.1
  case runs => rw [hhost, hhost', h.runs]
  case managers => exact hback.2
  case inboxes =>
    intro j
    rw [Manager.inbox?_talks t', Manager.inbox?_talks t, hhost, hhost', h.inboxes]
  case seats =>
    refine Sandbox.forall₂_set hpage.seats (.some ⟨seat₂'.session.store, ?_⟩) k
    rw [← hsession.rest, ← hdocument]
  case documents =>
    change List.Forall₂ _ (p.documents.set seat₂.document _) (p'.documents.set seat₂'.document _)
    rw [hdocument]
    exact Sandbox.forall₂_set hpage.documents
      (hsession.store.carry (fun _ _ hxy => Scene.Alike.back hxy) fun _ _ hxy => hxy.beside hsession.manager) _

theorem Alike.perform (hp : p.Tidy n) (hp' : p'.Tidy n') (h : p.Alike p') (hm : m.Alike m')
    (hk : p.seated[k]? = some m) (hk' : p'.seated[k]? = some m') (a : Action) :
    (p'.perform k m' a).1 = (p.perform k m a).1 ∧ (p.perform k m a).2.Alike (p'.perform k m' a).2 := by
  have hself := h.poised hm hk hk'
  have htaken := h.poised_takeEvents hp hp' hm hk hk'
  have hgone := h.poised_destroy hp hp' hm hk hk'
  unfold Page.perform
  cases a with
  | render html context =>
    obtain ⟨hresult, hsent⟩ := hm.render html context
    exact ⟨congrArg (fun result => ({ result } : Reply)) hresult,
      hself.putManager h hsent (Manager.talked_render ..) (Manager.talked_render ..)⟩
  | updateContext path value =>
    obtain ⟨hresult, hsent⟩ := hm.updateContext path value
    exact ⟨congrArg (fun result => ({ result } : Reply)) hresult,
      hself.putManager h hsent (Manager.talked_updateContext ..) (Manager.talked_updateContext ..)⟩
  | destroy => exact ⟨rfl, hgone.putManager h hgone.alike (.refl _) (.refl _)⟩
  | event e =>
    obtain ⟨hnotice, hheard⟩ := hm.handleEvent e
    rcases h.session? k hm with ⟨hs, hs'⟩ | ⟨seat, seat', hs, hs', hdocument, hsession⟩ <;> dsimp only <;>
      rw [hs, hs', hnotice]
    · exact ⟨rfl, hself.putManager h hheard (Manager.talked_handleEvent ..) (Manager.talked_handleEvent ..)⟩
    · exact ⟨rfl, hself.putSession h hk hk' (ready_handle hp hk hs e) (ready_handle hp' hk' hs' e) hdocument
        (hsession.handle e)⟩
  | pump =>
    have hevents := h.takeEvents hk hk'
    rcases h.session? k hm with ⟨hs, hs'⟩ | ⟨seat, seat', hs, hs', hdocument, hsession⟩ <;> dsimp only <;> rw [hs, hs']
    · obtain ⟨hnotices, hheard⟩ := hm.pump hevents
      exact ⟨congrArg (fun ns => ({ fired := ns.map fun n => (k, n) } : Reply)) hnotices,
        htaken.putManager h hheard (Manager.talked_pump m) (Manager.talked_pump m')⟩
    · have hmanager : seat.session.manager = m := congrArg Prod.snd (along_of_session? hp hk hs).2
      have hmanager' : seat'.session.manager = m' := congrArg Prod.snd (along_of_session? hp' hk' hs').2
      obtain ⟨hnotices, hheard⟩ := hsession.pump (by rw [hmanager, hmanager', hevents])
      exact ⟨congrArg (fun ns => ({ fired := ns.map fun n => (k, n) } : Reply)) hnotices,
        htaken.putSession h hk hk' (ready_pump hp hk hs) (ready_pump hp' hk' hs') hdocument hheard⟩
  | rerender =>
    rcases h.session? k hm with ⟨hs, hs'⟩ | ⟨seat, seat', hs, hs', hdocument, hsession⟩ <;> dsimp only <;> rw [hs, hs']
    · exact ⟨rfl, h⟩
    · obtain ⟨hresult, hrendered⟩ := hsession.rerender
      exact ⟨congrArg (fun result => ({ result } : Reply)) hresult,
        hself.putSession h hk hk' (ready_rerender hp hk hs) (ready_rerender hp' hk' hs') hdocument hrendered⟩
  | unmount =>
    rcases h.session? k hm with ⟨hs, hs'⟩ | ⟨seat, seat', hs, hs', hdocument, hsession⟩ <;> dsimp only <;> rw [hs, hs']
    · exact ⟨rfl, h⟩
    · exact ⟨rfl, hgone.putSession h hk hk' (ready_unmount hp hk hs) (ready_unmount hp' hk' hs') hdocument
        hsession.unmount⟩
  | drop =>
    rcases h.session? k hm with ⟨hs, hs'⟩ | ⟨seat, seat', hs, hs', hdocument, hsession⟩ <;> dsimp only <;> rw [hs, hs']
    · exact ⟨rfl, hgone.putManager h hgone.alike (.refl _) (.refl _)⟩
    · exact ⟨rfl, hgone.putSession h hk hk' (ready_unmount hp hk hs) (ready_unmount hp' hk' hs') hdocument
        hsession.unmount⟩

/-! ### Every step -/

omit [IsolatedFrame φ] in
/-- Something is done to the windows that no inbox of a manager can tell. -/
theorem Alike.withHosts (h : p.Alike p') {w w' : HostWindow} (hruns : w'.runsTasks = w.runsTasks)
    (hinboxes : ∀ k, inbox? w' p'.managers k = inbox? w p.managers k) :
    Alike { p with host := w } { p' with host := w' } :=
  { h with runs := hruns, inboxes := hinboxes }

/-- What a refused mount does to a window is nobody's business. -/
theorem inbox?_of_refused (hp : p.Tidy n) {frame : φ} {f : MountFailure (Watched φ)}
    (hf : f.host = p.host ∨ Manager.mount p.host { frame } = .error f) :
    f.host.runsTasks = p.host.runsTasks ∧ ∀ k, inbox? f.host p.managers k = inbox? p.host p.managers k := by
  rcases hf with hf | hf
  · rw [hf]
    exact ⟨rfl, fun _ => rfl⟩
  · exact Manager.inbox?_refuse hp.roster hf

theorem Alike.withRefusals (hp : p.Tidy n) (hp' : p'.Tidy n') (h : p.Alike p') {frame frame' : φ}
    {f f' : MountFailure (Watched φ)} (hf : f.host = p.host ∨ Manager.mount p.host { frame } = .error f)
    (hf' : f'.host = p'.host ∨ Manager.mount p'.host { frame := frame' } = .error f') :
    Alike { p with host := f.host } { p' with host := f'.host } := by
  obtain ⟨hruns, hinboxes⟩ := inbox?_of_refused hp hf
  obtain ⟨hruns', hinboxes'⟩ := inbox?_of_refused hp' hf'
  exact h.withHosts (by rw [hruns, hruns', h.runs]) fun k => by rw [hinboxes, hinboxes', h.inboxes]

/-- Managers that were mounted side by side, and may have talked since. -/
theorem Alike.mounted (hp : p.Tidy n) (hp' : p'.Tidy n') (h : p.Alike p') {frame : φ}
    (hmount : Manager.mount p.host { frame } = .ok m₁) (hmount' : Manager.mount p'.host { frame } = .ok m₁')
    (t : Talked m₁ m₂) (t' : Talked m₁' m₂') (hm : m₂.Alike m₂') {new new' : Option (Seat α φ)}
    (hnew : Option.Rel Seat.Alike new new') {documents documents' : List (Shared (Scene α φ))}
    (hdocuments : List.Forall₂ (Shared.Matches Scene.Alike) documents documents') :
    Alike { host := m₂.host, own := p.own, managers := p.seated ++ [m₂], seats := p.seats ++ [new], documents }
      { host := m₂'.host, own := p'.own, managers := p'.seated ++ [m₂'], seats := p'.seats ++ [new'],
        documents := documents' } where
  own := h.own
  runs := by
    obtain ⟨hhost, -⟩ := Manager.listener_of_mount hmount
    obtain ⟨hhost', -⟩ := Manager.listener_of_mount hmount'
    change m₂'.host.runsTasks = m₂.host.runsTasks
    rw [t.host, t'.host, hhost, hhost']
    exact h.runs
  managers := List.rel_append h.seated (.cons hm .nil)
  inboxes j := by
    change inbox? m₂'.host (p'.seated ++ [m₂']) j = inbox? m₂.host (p.seated ++ [m₂]) j
    rw [Manager.inbox?_talks (Manager.talks_concat p'.seated t'),
      Manager.inbox?_talks (Manager.talks_concat p.seated t), t.host, t'.host, Manager.inbox?_mount hp'.seated hmount',
      Manager.inbox?_mount hp.seated hmount, inbox?_seated, inbox?_seated, h.inboxes, h.seated.length_eq]
  seats := List.rel_append h.seats (.cons hnew .nil)
  documents := hdocuments

theorem mounted_of_session {env : TemplateEnvironment} {template : String} {task : TaskContext} {frame : φ}
    {store : Shared (Scene α φ)} {session : LayoutSession (Scene α φ) (Watched φ)} (hp : p.Tidy n)
    (hs : p.document? d = some store)
    (hmount : LayoutSession.mount env template task store p.host { frame } = .ok session) :
    ∃ m, Manager.mount p.host { frame } = .ok m ∧ Talked m session.manager := by
  have halong := along_of_document? hp hs
  obtain ⟨s, -, rfl⟩ := Option.map_eq_some_iff.1 hs
  obtain ⟨-, -, -, -, -, hmounted⟩ := LayoutSession.along_mount hmount halong 0
  exact hmounted

/-- Alike pages answer alike, and they stay alike. -/
theorem Alike.act (hignores : IgnoresListeners φ) (hp : p.Tidy n) (hp' : p'.Tidy n') (h : p.Alike p')
    (i : Input α φ) : (p'.act i).1 = (p.act i).1 ∧ (p.act i).2.Alike (p'.act i).2 := by
  have hwatched := Sandbox.Manager.ignoresListeners_watched hignores
  cases i with
  | mount frame =>
    cases hmount : Manager.mount p.host ({ frame } : Watched φ) with
    | error f =>
      obtain ⟨f', hmount', hcause⟩ := Manager.mount_error_alike hwatched h.runs hmount
      simp only [Page.act, hmount, hmount', hcause, true_and]
      exact h.withRefusals hp hp' (.inr hmount) (.inr hmount')
    | ok m =>
      obtain ⟨m', hmount', hm⟩ := Manager.mount_alike hwatched h.runs hmount
      simp only [Page.act, hmount, hmount', true_and]
      exact h.mounted hp hp' hmount hmount' (.refl m) (.refl m') hm .none h.documents
  | mountSession d env template task frame =>
    rcases h.documents? d with ⟨hs, hs'⟩ | ⟨store, store', hs, hs', hmatch⟩
    · simp only [Page.act, hs, hs', true_and]
      exact h
    · cases hmount : LayoutSession.mount env template task store p.host ({ frame } : Watched φ) with
      | error f =>
        obtain ⟨f', hmount', hcause⟩ := LayoutSession.mount_error_alike hwatched hmatch h.runs hmount
        simp only [Page.act, hs, hs', hmount, hmount', hcause, true_and]
        exact h.withRefusals hp hp' (LayoutSession.host_of_mount_eq_error hmount)
          (LayoutSession.host_of_mount_eq_error hmount')
      | ok session =>
        obtain ⟨session', hmount', hsession⟩ := LayoutSession.mount_alike hwatched hmatch h.runs hmount
        obtain ⟨m, hm, t⟩ := mounted_of_session hp hs hmount
        obtain ⟨m', hm', t'⟩ := mounted_of_session hp' hs' hmount'
        simp only [Page.act, hs, hs', hmount, hmount', true_and]
        refine h.mounted hp hp' hm hm' t t' hsession.manager (.some ⟨session'.store, ?_⟩) ?_
        · rw [← hsession.rest]
        · rw [h.managers.length_eq]
          exact Sandbox.forall₂_set h.documents (hsession.store.carry (fun _ _ hxy => Scene.Alike.back hxy)
            fun _ _ hxy => hxy.beside hsession.manager) d
  | on k a =>
    have hk := Sandbox.forall₂_getElem? h.seated k
    cases hm : p.seated[k]? <;> cases hm' : p'.seated[k]? <;> rw [hm, hm'] at hk <;> cases hk
    · simp only [Page.act, hm, hm', true_and]
      exact h
    · next halike =>
      simp only [Page.act, hm, hm']
      exact h.perform hp hp' halike hm hm' a
  | arrive e =>
    refine ⟨rfl, h.withHosts h.runs fun k => ?_⟩
    rw [Manager.inbox?_post, Manager.inbox?_post, h.inboxes]
  | frame k go =>
    refine ⟨rfl, { h with managers := ?_, inboxes := fun j => ?_ }⟩
    · refine Sandbox.forall₂_modify h.managers (fun m m' hm => ?_) k
      obtain ⟨w, l, rfl⟩ := hm
      exact ⟨w, l, rfl⟩
    · refine (Manager.inbox?_modify (fun m => ?_) ..).trans ((h.inboxes j).trans
        (Manager.inbox?_modify (fun m => ?_) ..).symm) <;> rfl
  | runtime runsTasks => exact ⟨rfl, h.withHosts rfl h.inboxes⟩
  | create replica =>
    exact ⟨rfl, { h with documents := List.rel_append h.documents (.cons ⟨rfl, .nil, rfl, h.scene⟩ .nil) }⟩
  | write d field value =>
    rcases h.documents? d with ⟨hs, hs'⟩ | ⟨s, s', hs, hs', hmatch⟩ <;> simp only [Page.act, hs, hs']
    · exact ⟨trivial, h⟩
    · obtain ⟨hresult, hwritten⟩ := hmatch.set field value
      rw [hresult]
      exact ⟨rfl, h.putDocument hwritten ((along_of_document? hp hs).set field value).state
        ((along_of_document? hp' hs').set field value).state d⟩
  | merge d u =>
    rcases h.documents? d with ⟨hs, hs'⟩ | ⟨s, s', hs, hs', hmatch⟩ <;> simp only [Page.act, hs, hs', true_and]
    · exact h
    · exact h.putDocument (hmatch.merge u) ((along_of_document? hp hs).merge u).state
        ((along_of_document? hp' hs').merge u).state d
  | watch d field call =>
    rcases h.documents? d with ⟨hs, hs'⟩ | ⟨s, s', hs, hs', hmatch⟩ <;> simp only [Page.act, hs, hs', true_and]
    · exact h
    · refine h.putDocument (hmatch.observe field fun id => ⟨rfl, rfl, fun u origin x y hxy => ?_⟩)
        (along_of_document? hp hs).state (along_of_document? hp' hs').state d
      dsimp only
      rw [hxy.1]
      exact ⟨⟨rfl, hxy.2⟩, rfl⟩

/-! ### Runs -/

/-- What the callers get back, one after the other. -/
def replies (p : Page α φ) : List (Input α φ) → List Reply
  | [] => []
  | i :: inputs => (p.act i).1 :: (p.act i).2.replies inputs

omit [IsolatedFrame φ] in
theorem alike_start (host : HostWindow) (own : α) : Alike ({ host, own } : Page α φ) { host, own } :=
  ⟨rfl, rfl, .nil, fun _ => rfl, .nil, .nil⟩

theorem Alike.run (hignores : IgnoresListeners φ) (hp : p.Tidy n) (hp' : p'.Tidy n') (h : p.Alike p')
    (inputs : List (Input α φ)) :
    p'.replies inputs = p.replies inputs ∧ (p.run inputs).Alike (p'.run inputs) := by
  induction inputs generalizing p p' with
  | nil => exact ⟨rfl, h⟩
  | cons i inputs ih =>
    obtain ⟨hreply, hnext⟩ := h.act hignores hp hp' i
    obtain ⟨hreplies, hlast⟩ := ih ((step_act hp i).tidy hp) ((step_act hp' i).tidy hp') hnext
    exact ⟨List.cons_eq_cons.2 ⟨hreply, hreplies⟩, hlast⟩

/-- A manager is to be mounted, for a session or by itself. -/
def Input.IsMount : Input α φ → Prop
  | .mount _ => True
  | .mountSession .. => True
  | _ => False

/-- A mount that fails does nothing to the page but to its window. -/
theorem act_of_failed {i : Input α φ} (hi : i.IsMount) {e : Failure} (hfail : (p.act i).1.result = .error e) :
    ∃ (frame : φ) (f : MountFailure (Watched φ)),
      (f.host = p.host ∨ Manager.mount p.host { frame } = .error f) ∧ (p.act i).2 = { p with host := f.host } := by
  cases i with
  | mount frame =>
    simp only [act] at hfail ⊢
    split at hfail
    · next f hmount => exact ⟨frame, f, .inr hmount, rfl⟩
    · cases hfail
  | mountSession d env template task frame =>
    simp only [act] at hfail ⊢
    split at hfail
    · cases hfail
    · split at hfail
      · next f hmount => exact ⟨frame, f, LayoutSession.host_of_mount_eq_error hmount, rfl⟩
      · cases hfail
  | _ => exact hi.elim

theorem isRegistered_of_refused {frame : φ} {f : MountFailure (Watched φ)}
    (hf : f.host = p.host ∨ Manager.mount p.host { frame } = .error f) (j : Nat) :
    f.host.isRegistered j = p.host.isRegistered j := by
  rcases hf with hf | hf
  · rw [hf]
  · rcases Manager.mount_eq_error hf with ⟨he, -⟩ | ⟨he, -⟩ <;> rw [he]
    rw [HostWindow.isRegistered, HostWindow.isRegistered, HostWindow.inboxes_release, HostWindow.inboxes_addListener]
    split
    · next hend =>
      rw [hend, List.getElem?_eq_none (Nat.le_refl _)]
      rfl
    · rfl

/-- Whatever has happened on a page and for whatever reason a mount fails: the same listeners are registered as before,
managers, sessions and documents are as they were, and whatever happens later, every reply is the one that would have
been given without that mount, and every frame is in the state it would have been in. What becomes of the frame that was
to be mounted, see `Manager.mount_eq_error`. -/
theorem failed_mount_unnoticed (hignores : IgnoresListeners φ) (host : HostWindow) (own : α)
    (inputs : List (Input α φ)) (p : Page α φ) (hp : p = ({ host, own } : Page α φ).run inputs) {i : Input α φ}
    (hi : i.IsMount) {e : Failure} (hfail : (p.act i).1.result = .error e) :
    (∀ j, (p.act i).2.host.isRegistered j = p.host.isRegistered j) ∧
    (∃ w, (p.act i).2 = { p with host := w }) ∧
    ∀ later : List (Input α φ),
      (p.act i).2.replies later = p.replies later ∧ (p.run later).Alike ((p.act i).2.run later) := by
  subst hp
  have hstart := tidy_start (φ := φ) host own
  obtain ⟨htidy, -⟩ := tidy_run hstart inputs
  have hself := ((alike_start host own).run hignores hstart hstart inputs).2
  obtain ⟨frame, f, hf, hact⟩ := act_of_failed hi hfail
  obtain ⟨hruns, hinboxes⟩ := inbox?_of_refused htidy hf
  have halike := hself.withHosts hruns hinboxes
  rw [hact]
  exact ⟨isRegistered_of_refused hf, ⟨_, rfl⟩, fun later =>
    Alike.run hignores htidy (hact ▸ (step_act htidy i).tidy htidy) halike later⟩

end Page

end SecureLayout
