import SecureLayout.Proofs.Session.Page

/-!
What one step does to a page. Sessions and documents do nothing to managers but talk to them, teardown apart. Main
statement: whatever happens, a page stays in order: its managers make up a roster of the host window, each session has
its document, and an unmounted one watches no more and has lost its manager.
-/

namespace SecureLayout

open Collab (Document Observer Origin Request Shared)
open Json (Value)
open Sandbox (HostWindow IsolatedFrame Manager MessageEvent Notice Watched)
open Sandbox.Manager (Moves Roster Talked Talks)
open Wire (FieldUpdate FrameMessage)

variable {α φ : Type}

/-! ### Sessions that go on -/

/-- The managers of a scene have talked. -/
def Scene.Talks (x y : Scene α φ) : Prop :=
  Manager.Talks x.2 y.2

/-- The same where one manager is beside the scene. -/
def Scene.TalksBeside (k : Nat) (x y : Scene α φ × Manager (Watched φ)) : Prop :=
  Scene.Talks (Scene.back k x) (Scene.back k y)

/-- With the manager put back, the document is as it was with the manager beside. -/
theorem Scene.along_back {k : Nat} {x : Scene α φ × Manager (Watched φ)}
    {s : Shared (Scene α φ × Manager (Watched φ))} (h : s.Along (Scene.TalksBeside k) x) (m : Manager (Watched φ)) :
    (s.carry (Scene.back k) (Scene.beside k m)).Along Scene.Talks (Scene.back k x) := by
  have hbeside : s.Along (fun y z => Scene.Talks (Scene.back k y) (Scene.back k z)) x := h
  exact hbeside.carry_back (Scene.back_beside k m)

namespace LayoutSession

variable {k : Nat} {x : Scene α φ × Manager (Watched φ)} {s s' s'' : LayoutSession (Scene α φ) (Watched φ)}
  {m : Manager (Watched φ)}

/-- The session `s` has become `s'` without unmounting, and managers have only talked since `x`. -/
structure Going (k : Nat) (x : Scene α φ × Manager (Watched φ)) (s s' : LayoutSession (Scene α φ) (Watched φ)) :
    Prop where
  store : s'.store.Along (Scene.TalksBeside k) x
  later : s.store.Later s'.store
  subscription : s'.subscription = s.subscription
  isUnmounted : s'.isUnmounted = s.isUnmounted

theorem Going.withManager (h : Going k x s s') (hm : Talked s'.manager m) : Going k x s (s'.withManager m) :=
  ⟨h.store.withState (h.store.state.set hm), h.later.trans (Shared.later_withState ..), h.subscription, h.isUnmounted⟩

theorem Going.react (h : Going k x s s') (n : Notice) : Going k x s (s'.react n) := by
  cases n with
  | rendered => exact h
  | outputChange field value =>
    unfold LayoutSession.react
    dsimp only
    split
    · exact ⟨h.store.set field value, h.later.trans (Shared.later_set ..), h.subscription, h.isUnmounted⟩
    · exact h
  | failed e => exact ⟨h.store, h.later, h.subscription, h.isUnmounted⟩

variable [IsolatedFrame φ]

theorem Going.handle (h : Going k x s s') (e : MessageEvent) : Going k x s (s'.handle e) := by
  have hheard := h.withManager (Manager.talked_handleEvent s'.manager e)
  unfold LayoutSession.handle
  cases (s'.manager.handleEvent e).1 with
  | none => exact hheard
  | some n => exact hheard.react n

theorem Going.handleAll (h : Going k x s s') (es : List MessageEvent) :
    Going k x s (es.foldl LayoutSession.handle s') := by
  induction es generalizing s' with
  | nil => exact h
  | cons e es ih => exact ih (h.handle e)

theorem Going.rerender (h : Going k x s s') : Going k x s s'.rerender.2 := by
  unfold LayoutSession.rerender
  split
  · exact h
  · split
    · exact ⟨h.store, h.later, h.subscription, h.isUnmounted⟩
    · next html context environment _ =>
      have hrendered : Going k x s { s' with environment } := ⟨h.store, h.later, h.subscription, h.isUnmounted⟩
      have hsent := hrendered.withManager (Manager.talked_render s'.manager html context)
      have hsame : ({ s' with environment } : LayoutSession (Scene α φ) (Watched φ)).manager = s'.manager := rfl
      dsimp only
      rw [hsame]
      rcases hr : s'.manager.render html context with ⟨_ | _, m⟩ <;> rw [hr] at hsent
      · exact hsent
      · exact ⟨hsent.store, hsent.later, hsent.subscription, hsent.isUnmounted⟩

omit [IsolatedFrame φ] in
/-- Whatever is done to the manager first, the session can go on from there. -/
theorem going_withManager {y : Scene α φ × Manager (Watched φ)} (h : s.store.Along (Scene.TalksBeside k) y)
    (m : Manager (Watched φ)) : Going k (s.store.state.1, m) s (s.withManager m) :=
  ⟨h.withState (Talks.refl _), Shared.later_withState .., rfl, rfl⟩

/-- What a new session adds to a document only talks to its manager. -/
theorem along_mount {env : TemplateEnvironment} {template : String} {task : TaskContext}
    {store : Shared (Scene α φ)} {host : HostWindow} {frame : Watched φ}
    (hm : mount env template task store host frame = .ok s) (hstore : store.Along Scene.Talks store.state) (k : Nat) :
    s.store.Along (Scene.TalksBeside k) s.store.state ∧ store.Later s.store ∧ s.store.state.1 = store.state ∧
      s.subscription < s.store.nextId ∧ s.isUnmounted = false ∧
      ∃ m, Manager.mount host frame = .ok m ∧ Talked m s.manager := by
  unfold mount at hm
  split at hm
  · cases hm
  · next html context environment _ =>
    split at hm
    · cases hm
    · next m hmount =>
      have htalked := Manager.talked_send m (.render html context)
      dsimp only at hm
      split at hm
      · cases hm
      · next m' hr =>
        change m.send _ = _ at hr
        rw [hr] at htalked
        cases hm
        have hlater := (Shared.later_beside store m').trans
          (Shared.later_observe (store.beside m') none fun _ => forward env.policy)
        refine ⟨?_, hlater, rfl, Nat.lt_succ_self _, rfl, m, hmount, htalked⟩
        have hbeside : (store.beside m').Along (Scene.TalksBeside k) (store.state, m') := by
          refine ⟨hstore.wellFormed, fun o ho y => ?_, Talks.refl _⟩
          obtain ⟨o, hmem, rfl⟩ := List.mem_map.1 ho
          intro u origin z _ hz
          have hstep := (hstore.observers o hmem z.1 u origin z.1 trivial (Talks.refl _)).1
          exact ⟨Talks.trans hz (Talks.set_same hstep k z.2), fun _ _ _ => trivial⟩
        have hforward (id : Nat) (y : Scene α φ × Manager (Watched φ)) :
            Observer.Keeps (fun _ => True) (Scene.TalksBeside k y) ⟨id, none, forward env.policy⟩ := by
          intro u origin z _ hz
          refine ⟨?_, fun _ _ _ => trivial⟩
          unfold forward
          dsimp only
          split
          · exact Talks.set hz (Manager.talked_updateContext z.2 ..)
          · exact hz
        exact hbeside.observe none hforward

/-- A message always waits for a guest that has not started, so only what is to be mounted can refuse. -/
theorem host_of_mount_eq_error {env : TemplateEnvironment} {template : String} {task : TaskContext}
    {store : Shared (Scene α φ)} {host : HostWindow} {frame : Watched φ} {f : Sandbox.MountFailure (Watched φ)}
    (hm : mount env template task store host frame = .error f) :
    f.host = host ∨ Manager.mount host frame = .error f := by
  unfold mount at hm
  split at hm
  · cases hm
    exact .inl rfl
  · next html context environment _ =>
    split at hm
    · next hmount =>
      cases hm
      exact .inr hmount
    · next m hmount =>
      have hwaits : m.render html context = _ := m.send_waiting _ (Manager.mount_eq_ok hmount).1
      rw [hwaits] at hm
      cases hm

end LayoutSession

/-! ### What a page is like -/

variable {ends : Nat → Prop} {n k d : Nat} {p p' p'' : Page α φ} {m m₁ m' : Manager (Watched φ)} {seat : Seat α φ}

/-- A session over a document of the page: once it is unmounted, its watch has ended and its manager is gone. -/
structure Seat.Sound (p : Page α φ) (k : Nat) (seat : Seat α φ) : Prop where
  given : ∃ s, p.documents[seat.document]? = some s ∧ seat.session.subscription < s.nextId ∧
    (seat.session.isUnmounted = true → s.Ended seat.session.subscription)
  gone : seat.session.isUnmounted = true → ∃ m, p.managers[k]? = some m ∧ m.phase = .destroyed

namespace Page

/-- What holds on a page whose window had `n` listeners at first. -/
structure Tidy (n : Nat) (p : Page α φ) : Prop where
  roster : Roster n p.host p.managers
  aligned : p.seats.length = p.managers.length
  spoken : ∀ s ∈ p.documents, s.Along Scene.Talks s.state
  sound : ∀ {k : Nat} {seat : Seat α φ}, p.seats[k]? = some (some seat) → seat.Sound p k

variable [IsolatedFrame φ]

/-- What stays from one moment of a page to a later one, while only managers in `ends` are torn down. -/
structure Onward (ends : Nat → Prop) (p p' : Page α φ) : Prop where
  moves : Moves ends (p.host, p.managers) (p'.host, p'.managers)
  documents : ∀ {d : Nat} {s : Shared (Scene α φ)}, p.documents[d]? = some s →
    ∃ s', p'.documents[d]? = some s' ∧ s.Later s'
  seats : ∀ {k : Nat} {seat : Seat α φ}, p.seats[k]? = some (some seat) →
    ∃ seat', p'.seats[k]? = some (some seat') ∧ seat'.document = seat.document ∧
      seat'.session.subscription = seat.session.subscription ∧
      (seat.session.isUnmounted = true → seat'.session.isUnmounted = true)

theorem Onward.refl (p : Page α φ) : Onward ends p p :=
  ⟨.refl, fun hd => ⟨_, hd, .refl _⟩, fun hk => ⟨_, hk, rfl, rfl, id⟩⟩

theorem Onward.trans (h : Onward ends p p') (h' : Onward ends p' p'') : Onward ends p p'' where
  moves := h.moves.trans h'.moves
  documents hd := by
    obtain ⟨s', hd', hlater⟩ := h.documents hd
    obtain ⟨s'', hd'', hlater'⟩ := h'.documents hd'
    exact ⟨s'', hd'', hlater.trans hlater'⟩
  seats hk := by
    obtain ⟨seat', hk', hdocument, hsubscription, hunmounted⟩ := h.seats hk
    obtain ⟨seat'', hk'', hdocument', hsubscription', hunmounted'⟩ := h'.seats hk'
    exact ⟨seat'', hk'', hdocument'.trans hdocument, hsubscription'.trans hsubscription, hunmounted' ∘ hunmounted⟩

/-- A session that nothing was done to stays sound. -/
theorem Onward.sound (h : Onward ends p p') (hseat : seat.Sound p k) : seat.Sound p' k := by
  obtain ⟨⟨s, hd, hgiven, hended⟩, hgone⟩ := hseat
  obtain ⟨s', hd', hlater⟩ := h.documents hd
  refine ⟨⟨s', hd', Nat.lt_of_lt_of_le hgiven hlater.nextId, fun hu => hlater.ended (hended hu)⟩, fun hu => ?_⟩
  obtain ⟨m, hk, hm⟩ := hgone hu
  obtain ⟨m', hk', hm', -⟩ := h.moves.gone hk hm
  exact ⟨m', hk', hm'⟩

/-- One step of a page: it goes on from `p`, and what is new is in order. -/
structure Step (ends : Nat → Prop) (p p' : Page α φ) : Prop extends Onward ends p p' where
  aligned : p'.seats.length = p'.managers.length
  spoken : ∀ s ∈ p'.documents, s.Along Scene.Talks s.state
  settled : ∀ {k : Nat} {seat : Seat α φ}, p'.seats[k]? = some (some seat) →
    p.seats[k]? = some (some seat) ∨ seat.Sound p' k

theorem Step.tidy (h : Step ends p p') (hp : p.Tidy n) : p'.Tidy n where
  roster := h.moves.roster hp.roster
  aligned := h.aligned
  spoken := h.spoken
  sound hk := (h.settled hk).elim (fun hk => h.toOnward.sound (hp.sound hk)) id

/-- Nothing is done to sessions and documents. -/
theorem step_of_moves (hp : p.Tidy n) (hmoves : Moves ends (p.host, p.managers) (p'.host, p'.managers))
    (hlength : p'.managers.length = p.managers.length) (hseats : p'.seats = p.seats)
    (hdocuments : p'.documents = p.documents) : Step ends p p' where
  moves := hmoves
  documents hd := ⟨_, hdocuments ▸ hd, .refl _⟩
  seats hk := ⟨_, hseats ▸ hk, rfl, rfl, id⟩
  aligned := by rw [hseats, hlength, hp.aligned]
  spoken := hdocuments ▸ hp.spoken
  settled hk := .inl (hseats ▸ hk)

theorem step_self (hp : p.Tidy n) : Step ends p p :=
  step_of_moves hp .refl rfl rfl rfl

omit [IsolatedFrame φ] in
theorem map_card_seated (p : Page α φ) : p.seated.map Manager.card = p.managers.map Manager.card := by
  rw [seated, List.map_map]
  rfl

omit [IsolatedFrame φ] in
theorem Tidy.seated (hp : p.Tidy n) : Roster n p.host p.seated :=
  hp.roster.aside p.map_card_seated

/-! ### Documents -/

theorem moves_seated (p : Page α φ) : Moves ends (p.host, p.managers) (p.host, p.seated) :=
  .single (.aside p.map_card_seated)

omit [IsolatedFrame φ] in
theorem later_set {documents : List (Shared (Scene α φ))} {s s' : Shared (Scene α φ)} (hs : documents[d]? = some s)
    (hlater : s.Later s') {j : Nat} {s₁ : Shared (Scene α φ)} (hj : documents[j]? = some s₁) :
    ∃ s₂, (documents.set d s')[j]? = some s₂ ∧ s₁.Later s₂ := by
  by_cases he : d = j
  · subst he
    cases hs.symm.trans hj
    exact ⟨s', List.getElem?_set_self (List.getElem?_eq_some_iff.1 hs).1, hlater⟩
  · exact ⟨s₁, by rw [List.getElem?_set_ne he, hj], .refl s₁⟩

omit [IsolatedFrame φ] in
theorem spoken_set (hp : p.Tidy n) {s' : Shared (Scene α φ)} {x : Scene α φ} (hs' : s'.Along Scene.Talks x) (d : Nat) :
    ∀ s ∈ p.documents.set d s', s.Along Scene.Talks s.state := by
  intro s hs
  rcases List.mem_or_eq_of_mem_set hs with hs | rfl
  · exact hp.spoken s hs
  · exact hs'.withState (Talks.refl _)

omit [IsolatedFrame φ] in
theorem along_of_document? {s : Shared (Scene α φ)} (hp : p.Tidy n) (hs : p.document? d = some s) :
    s.Along Scene.Talks p.scene := by
  obtain ⟨s₀, hd, rfl⟩ := Option.map_eq_some_iff.1 hs
  exact (hp.spoken s₀ (List.mem_of_getElem? hd)).withState (Talks.refl _)

theorem step_putDocument {s s' : Shared (Scene α φ)} (hp : p.Tidy n) (hs : p.document? d = some s)
    (h : s'.Along Scene.Talks p.scene) (hlater : s.Later s') : Step ends p (p.putDocument d s') := by
  obtain ⟨s₀, hd, rfl⟩ := Option.map_eq_some_iff.1 hs
  have htalks : Talks p.seated s'.state.2 := h.state
  have hlength : s'.state.2.length = p.managers.length := by simpa [seated] using htalks.length
  have hsince : s₀.Later s' := (Shared.later_withState s₀ p.scene).trans hlater
  exact ⟨⟨p.moves_seated.trans (.single (.talk htalks)), later_set hd hsince, fun hk => ⟨_, hk, rfl, rfl, id⟩⟩,
    hp.aligned.trans hlength.symm, spoken_set hp h d, .inl⟩

/-! ### One manager at work -/

omit [IsolatedFrame φ] in
theorem host_of_seated (hk : p.seated[k]? = some m) : m.host = p.host := by
  rw [seated, List.getElem?_map] at hk
  obtain ⟨m, -, rfl⟩ := Option.map_eq_some_iff.1 hk
  rfl

omit [IsolatedFrame φ] in
theorem set_seated (hk : p.seated[k]? = some m) : p.seated.set k m = p.seated := by
  obtain ⟨hlt, rfl⟩ := List.getElem?_eq_some_iff.1 hk
  exact List.set_getElem_self hlt

/-- Something was done to a manager first, which is `m₁` now and has told the window. -/
abbrev Prepared (ends : Nat → Prop) (p : Page α φ) (k : Nat) (m₁ : Manager (Watched φ)) : Prop :=
  Moves ends (p.host, p.seated) (m₁.host, p.seated.set k m₁)

theorem prepared_self (hk : p.seated[k]? = some m) : Prepared ends p k m := by
  rw [Prepared, set_seated hk, host_of_seated hk]

theorem prepared_takeEvents (hk : p.seated[k]? = some m) : Prepared ends p k m.takeEvents.2 := by
  have hcards : (p.seated.set k m.takeEvents.2).map Manager.card = p.seated.map Manager.card := by
    rw [← set_seated hk, List.set_set, List.map_set, List.map_set]
    rfl
  have hdrain : m.takeEvents.2.host = (p.host.drain m.listener).2 := by
    rw [← host_of_seated hk]
    rfl
  rw [Prepared, hdrain]
  exact .trans (.single (.drain m.listener)) (.single (.aside hcards))

theorem prepared_destroy (hends : ends k) (hk : p.seated[k]? = some m) : Prepared ends p k m.destroy := by
  rw [Prepared, ← host_of_seated hk]
  exact .single (.destroy hends hk)

theorem step_putManager (hp : p.Tidy n) (hprepared : Prepared ends p k m₁) (htalked : Talked m₁ m') :
    Step ends p (p.putManager k m') := by
  have hset : Talks (p.seated.set k m₁) (p.seated.set k m') := Talks.set (Talks.refl _) htalked
  refine step_of_moves hp ((p.moves_seated.trans hprepared).trans ?_) (by simp [putManager, seated]) rfl rfl
  rw [← htalked.host]
  exact .single (.talk hset)

/-! ### One session at work -/

omit [IsolatedFrame φ] in
/-- A session at work is one of the page, over its document as the page has it. -/
theorem exists_of_session? (h : p.session? k m = some seat) :
    ∃ rest s, p.seats[k]? = some (some rest) ∧ p.documents[rest.document]? = some s ∧
      seat = { rest with session := { rest.session with
        store := ({ s with state := p.scene } : Shared (Scene α φ)).carry (Scene.beside k m) (Scene.back k) } } := by
  simp only [session?, document?, Option.bind_eq_bind, Option.bind_eq_some_iff, Option.map_eq_some_iff,
    Option.join_eq_some_iff, Option.pure_def, Option.some.injEq] at h
  obtain ⟨rest, hk, store, ⟨s, hd, rfl⟩, rfl⟩ := h
  exact ⟨rest, s, hk, hd, rfl⟩

omit [IsolatedFrame φ] in
theorem isSome_of_session? (h : p.session? k m = some seat) : (p.seats[k]?.join).isSome := by
  obtain ⟨rest, s, hk, -⟩ := exists_of_session? h
  rw [hk]
  rfl

omit [IsolatedFrame φ] in
theorem beside_scene (hk : p.seated[k]? = some m) : Scene.beside k m p.scene = (p.scene, m) := by
  rw [Scene.beside, scene, hk]
  rfl

/-- Where a session at work may be put back: managers have only talked since `m₁` was prepared, and if it is unmounted
its watch has ended and its manager is gone. -/
structure Ready (p : Page α φ) (k : Nat) (m₁ : Manager (Watched φ)) (seat seat' : Seat α φ) : Prop where
  store : seat'.session.store.Along (Scene.TalksBeside k) (p.scene, m₁)
  later : seat.session.store.Later seat'.session.store
  document : seat'.document = seat.document
  subscription : seat'.session.subscription = seat.session.subscription
  stays : seat.session.isUnmounted = true → seat'.session.isUnmounted = true
  unmounted : seat'.session.isUnmounted = true →
    seat'.session.store.Ended seat'.session.subscription ∧ m₁.phase = .destroyed

omit [IsolatedFrame φ] in
/-- The manager that was prepared has talked to become the one that is put back. -/
theorem talked_putSession {seat' : Seat α φ} (hk : p.seated[k]? = some m) (h : p.Ready k m₁ seat seat') :
    Talks (p.seated.set k m₁) (p.putSession k seat').managers ∧
      (p.putSession k seat').managers[k]? = some seat'.session.manager ∧ Talked m₁ seat'.session.manager := by
  have htalks : Talks (p.seated.set k m₁) (p.putSession k seat').managers := h.store.state
  obtain ⟨m', hm', htalked⟩ := htalks.talked (List.getElem?_set_self (List.getElem?_eq_some_iff.1 hk).1)
  rcases Sandbox.getElem?_set_cases hm' with ⟨-, rfl⟩ | ⟨hne, -⟩
  · exact ⟨htalks, hm', htalked⟩
  · exact absurd rfl hne

theorem step_putSession {seat' : Seat α φ} (hp : p.Tidy n) (hk : p.seated[k]? = some m)
    (hprepared : Prepared ends p k m₁) (hseat : p.session? k m = some seat) (h : p.Ready k m₁ seat seat') :
    Step ends p (p.putSession k seat') := by
  obtain ⟨rest, s, hrest, hs, rfl⟩ := exists_of_session? hseat
  obtain ⟨⟨_, hs', hgiven, -⟩, -⟩ := hp.sound hrest
  cases hs.symm.trans hs'
  obtain ⟨htalks, hput, htalked⟩ := talked_putSession hk h
  have hhost : (p.putSession k seat').host = m₁.host := htalked.host
  have hlength : (p.putSession k seat').managers.length = p.managers.length := by
    simpa [seated] using htalks.length
  have hlater : s.Later (seat'.session.store.carry (Scene.back k) (Scene.beside k seat'.session.manager)) :=
    ((Shared.later_withState s p.scene).trans (Shared.later_carry ..)).trans (h.later.trans (Shared.later_carry ..))
  have hd : p.documents[seat'.document]? = some s := h.document ▸ hs
  refine ⟨⟨(p.moves_seated.trans hprepared).trans ?_, later_set hd hlater, fun {j seat₁} hj => ?_⟩, ?_,
    spoken_set hp (Scene.along_back h.store _) seat'.document, fun {j seat₁} hj => ?_⟩
  · rw [hhost]
    exact .single (.talk htalks)
  · by_cases he : k = j
    · subst he
      cases hrest.symm.trans hj
      exact ⟨seat', List.getElem?_set_self (List.getElem?_eq_some_iff.1 hj).1, h.document, h.subscription, h.stays⟩
    · exact ⟨seat₁, (List.getElem?_set_ne he).trans hj, rfl, rfl, id⟩
  · rw [hlength, ← hp.aligned]
    exact List.length_set ..
  · rcases Sandbox.getElem?_set_cases hj with ⟨rfl, he⟩ | ⟨-, hj⟩
    · cases he
      have hstored := List.getElem?_set_self (a := seat'.session.store.carry (Scene.back j)
        (Scene.beside j seat'.session.manager)) (List.getElem?_eq_some_iff.1 hd).1
      refine .inr ⟨⟨_, hstored, ?_, fun hu => ?_⟩, fun hu => ⟨_, hput, ?_⟩⟩
      · exact h.subscription ▸ Nat.lt_of_lt_of_le hgiven hlater.nextId
      · exact (Shared.later_carry ..).ended (h.unmounted hu).1
      · have hgone := (h.unmounted hu).2
        rw [htalked.gone hgone, hgone]
    · exact .inl hj

omit [IsolatedFrame φ] in
/-- A session at work finds its store and its manager as the page has them. -/
theorem along_of_session? (hp : p.Tidy n) (hk : p.seated[k]? = some m) (hseat : p.session? k m = some seat) :
    seat.session.store.Along (Scene.TalksBeside k) (p.scene, m) ∧ seat.session.store.state = (p.scene, m) := by
  obtain ⟨rest, s, -, hs, rfl⟩ := exists_of_session? hseat
  have hspoken : ({ s with state := p.scene } : Shared (Scene α φ)).Along Scene.Talks p.scene :=
    (hp.spoken s (List.mem_of_getElem? hs)).withState (Talks.refl _)
  have hcarried := hspoken.carry (Scene.back_beside k m)
  rw [beside_scene hk] at hcarried
  exact ⟨hcarried, beside_scene hk⟩

omit [IsolatedFrame φ] in
theorem sound_of_session? (hp : p.Tidy n) (hk : p.seated[k]? = some m) (hseat : p.session? k m = some seat) :
    seat.session.subscription < seat.session.store.nextId ∧
      (seat.session.isUnmounted = true →
        seat.session.store.Ended seat.session.subscription ∧ m.phase = .destroyed) := by
  obtain ⟨rest, s, hrest, hs, rfl⟩ := exists_of_session? hseat
  obtain ⟨⟨_, hs', hgiven, hended⟩, hgone⟩ := hp.sound hrest
  cases hs.symm.trans hs'
  refine ⟨hgiven, fun hu => ⟨?_, ?_⟩⟩
  · exact ((Shared.later_withState s p.scene).trans (Shared.later_carry ..)).ended (hended hu)
  · obtain ⟨m₀, hm₀, hphase⟩ := hgone hu
    rw [seated, List.getElem?_map, hm₀] at hk
    cases hk
    exact hphase

omit [IsolatedFrame φ] in
/-- What a session does without unmounting. -/
theorem ready_of_going {session : LayoutSession (Scene α φ) (Watched φ)} (hp : p.Tidy n)
    (hk : p.seated[k]? = some m) (hseat : p.session? k m = some seat) (hphase : m₁.phase = m.phase)
    (h : LayoutSession.Going k (p.scene, m₁) seat.session session) :
    p.Ready k m₁ seat { seat with session } where
  store := h.store
  later := h.later
  document := rfl
  subscription := h.subscription
  stays hu := h.isUnmounted.trans hu
  unmounted hu := by
    obtain ⟨hended, hgone⟩ := (sound_of_session? hp hk hseat).2 (h.isUnmounted.symm.trans hu)
    exact ⟨h.subscription ▸ h.later.ended hended, hphase.trans hgone⟩

omit [IsolatedFrame φ] in
theorem going_of_session? (hp : p.Tidy n) (hk : p.seated[k]? = some m) (hseat : p.session? k m = some seat) :
    LayoutSession.Going k (p.scene, m) seat.session seat.session :=
  ⟨(along_of_session? hp hk hseat).1, .refl _, rfl, rfl⟩

theorem ready_handle (hp : p.Tidy n) (hk : p.seated[k]? = some m) (hseat : p.session? k m = some seat)
    (e : MessageEvent) : p.Ready k m seat { seat with session := seat.session.handle e } :=
  ready_of_going hp hk hseat rfl ((going_of_session? hp hk hseat).handle e)

theorem ready_rerender (hp : p.Tidy n) (hk : p.seated[k]? = some m) (hseat : p.session? k m = some seat) :
    p.Ready k m seat { seat with session := seat.session.rerender.2 } :=
  ready_of_going hp hk hseat rfl (going_of_session? hp hk hseat).rerender

theorem ready_pump (hp : p.Tidy n) (hk : p.seated[k]? = some m) (hseat : p.session? k m = some seat) :
    p.Ready k m.takeEvents.2 seat { seat with session := seat.session.pump.2 } := by
  obtain ⟨halong, hstate⟩ := along_of_session? hp hk hseat
  have hpump := (LayoutSession.going_withManager halong m.takeEvents.2).handleAll m.takeEvents.1
  have hmanager : seat.session.manager = m := congrArg Prod.snd hstate
  have hsame : seat.session.pump.2 = m.takeEvents.1.foldl LayoutSession.handle
      (seat.session.withManager m.takeEvents.2) := by
    rw [LayoutSession.pump_eq, hmanager]
  rw [hstate, ← hsame] at hpump
  exact ready_of_going hp hk hseat rfl hpump

theorem ready_unmount (hp : p.Tidy n) (hk : p.seated[k]? = some m) (hseat : p.session? k m = some seat) :
    p.Ready k m.destroy seat { seat with session := seat.session.unmount } := by
  obtain ⟨halong, hstate⟩ := along_of_session? hp hk hseat
  obtain ⟨hgiven, hsound⟩ := sound_of_session? hp hk hseat
  have hmanager : seat.session.manager = m := congrArg Prod.snd hstate
  cases hu : seat.session.isUnmounted with
  | true =>
    have hsame : seat.session.unmount = seat.session := by simp [LayoutSession.unmount, hu]
    obtain ⟨hended, hgone⟩ := hsound hu
    rw [hsame, m.destroy_of_destroyed hgone]
    exact ⟨halong, .refl _, rfl, rfl, id, fun _ => ⟨hended, hgone⟩⟩
  | false =>
    have hunmount : seat.session.unmount = ({ seat.session with
        store := seat.session.store.unobserve seat.session.subscription, isUnmounted := true } :
          LayoutSession (Scene α φ) (Watched φ)).withManager m.destroy := by
      simp only [LayoutSession.unmount, hu, Bool.false_eq_true, if_false, ← hmanager]
      rfl
    have hended := Shared.ended_unobserve hgiven
    rw [hunmount]
    refine ⟨?_, (Shared.later_unobserve ..).trans (Shared.later_withState ..), rfl, rfl, fun _ => rfl, fun _ =>
      ⟨(Shared.later_withState ..).ended hended, m.phase_destroy⟩⟩
    have hscene : seat.session.store.state.1 = p.scene := congrArg Prod.fst hstate
    refine (halong.unobserve seat.session.subscription).withState ?_
    change Scene.TalksBeside k (p.scene, m.destroy) (seat.session.store.state.1, m.destroy)
    rw [hscene]
    exact Talks.refl _

/-! ### Every step -/

theorem step_perform (hp : p.Tidy n) (hk : p.seated[k]? = some m) (a : Action) :
    Step (p.Ends (.on k a)) p (p.perform k m a).2 := by
  have hself : Prepared (p.Ends (.on k a)) p k m := prepared_self hk
  have htake : Prepared (p.Ends (.on k a)) p k m.takeEvents.2 := prepared_takeEvents hk
  cases a with
  | render html context => exact step_putManager hp hself (Manager.talked_render m html context)
  | updateContext path value => exact step_putManager hp hself (Manager.talked_updateContext m path value)
  | destroy => exact step_putManager hp (prepared_destroy (.inl rfl) hk) (.refl _)
  | event e =>
    unfold perform
    cases hseat : p.session? k m with
    | none => exact step_putManager hp hself (Manager.talked_handleEvent m e)
    | some seat => exact step_putSession hp hk hself hseat (ready_handle hp hk hseat e)
  | pump =>
    unfold perform
    cases hseat : p.session? k m with
    | none => exact step_putManager hp htake (Manager.talked_pump m)
    | some seat => exact step_putSession hp hk htake hseat (ready_pump hp hk hseat)
  | rerender =>
    unfold perform
    cases hseat : p.session? k m with
    | none => exact step_self hp
    | some seat => exact step_putSession hp hk hself hseat (ready_rerender hp hk hseat)
  | unmount =>
    unfold perform
    cases hseat : p.session? k m with
    | none => exact step_self hp
    | some seat =>
      have hends : p.Ends (.on k .unmount) k := .inr (.inr ⟨rfl, isSome_of_session? hseat⟩)
      exact step_putSession hp hk (prepared_destroy hends hk) hseat (ready_unmount hp hk hseat)
  | drop =>
    have hdestroy : Prepared (p.Ends (.on k .drop)) p k m.destroy := prepared_destroy (.inr (.inl rfl)) hk
    unfold perform
    cases hseat : p.session? k m with
    | none => exact step_putManager hp hdestroy (.refl _)
    | some seat => exact step_putSession hp hk hdestroy hseat (ready_unmount hp hk hseat)

/-- Managers and seats go side by side, one for each mount. -/
theorem step_mount {frame : φ} (hp : p.Tidy n) (hm : Manager.mount p.host { frame } = .ok m) (htalked : Talked m m')
    (new : Option (Seat α φ)) (own : α) {documents : List (Shared (Scene α φ))}
    (hdocuments : ∀ {d : Nat} {s : Shared (Scene α φ)}, p.documents[d]? = some s →
      ∃ s', documents[d]? = some s' ∧ s.Later s')
    (hspoken : ∀ s ∈ documents, s.Along Scene.Talks s.state)
    (hnew : ∀ seat ∈ new, seat.session.isUnmounted = false ∧
      ∃ s, documents[seat.document]? = some s ∧ seat.session.subscription < s.nextId) :
    Step ends p { host := m'.host, own, managers := p.seated ++ [m'], seats := p.seats ++ [new], documents } := by
  have hlength : p.seats.length = p.seated.length := by rw [hp.aligned, seated, List.length_map]
  have hmounted : Moves ends (p.host, p.managers) (m'.host, p.seated ++ [m']) := by
    rw [htalked.host]
    exact (p.moves_seated.tail (.mount hm)).tail (.talk (Manager.talks_concat p.seated htalked))
  refine ⟨⟨hmounted, hdocuments, fun {k seat} hk => ?_⟩, by simp [hlength], hspoken, fun {k seat} hk => ?_⟩
  · exact ⟨seat, by rw [List.getElem?_append_left (List.getElem?_eq_some_iff.1 hk).1, hk], rfl, rfl, id⟩
  · rcases Sandbox.getElem?_concat_cases hk with ⟨-, he⟩ | hk
    · obtain ⟨hmounted, s, hd, hgiven⟩ := hnew seat he.symm
      refine .inr ⟨⟨s, hd, hgiven, fun hu => ?_⟩, fun hu => ?_⟩ <;> cases hmounted.symm.trans hu
    · exact .inl hk

theorem step_mountSession {frame : φ} {env : TemplateEnvironment} {template : String} {task : TaskContext}
    {store : Shared (Scene α φ)} {session : LayoutSession (Scene α φ) (Watched φ)} (hp : p.Tidy n)
    (hs : p.document? d = some store)
    (hm : LayoutSession.mount env template task store p.host { frame } = .ok session) :
    Step ends p (p.act (.mountSession d env template task frame)).2 := by
  have hact : (p.act (.mountSession d env template task frame)).2 =
      { host := session.manager.host, own := p.own, managers := p.seated ++ [session.manager],
        seats := p.seats ++ [some ⟨d, session⟩],
        documents := p.documents.set d
          (session.store.carry (Scene.back p.managers.length) (Scene.beside p.managers.length session.manager)) } := by
    simp only [act, hs, hm]
  have hstate : store.state = p.scene := by
    obtain ⟨s, -, rfl⟩ := Option.map_eq_some_iff.1 hs
    rfl
  have halong := along_of_document? hp hs
  rw [← hstate] at halong
  obtain ⟨hspoken, hlater, hscene, hgiven, hmounted, m, hmount, htalked⟩ :=
    LayoutSession.along_mount hm halong p.managers.length
  have hcarried := hlater.trans
    (Shared.later_carry session.store (Scene.back p.managers.length) (Scene.beside p.managers.length session.manager))
  obtain ⟨s₀, hd, rfl⟩ := Option.map_eq_some_iff.1 hs
  have hput := List.getElem?_set_self (a := session.store.carry (Scene.back p.managers.length)
    (Scene.beside p.managers.length session.manager)) (List.getElem?_eq_some_iff.1 hd).1
  rw [hact]
  refine step_mount hp hmount htalked (some ⟨d, session⟩) p.own
    (later_set hd ((Shared.later_withState s₀ p.scene).trans hcarried))
    (spoken_set hp (Scene.along_back hspoken _) d) fun seat hseat => ?_
  cases hseat
  exact ⟨hmounted, _, hput, Nat.lt_of_lt_of_le hgiven (Shared.later_carry ..).nextId⟩

/-- Whatever happens next, the page goes on in order, and only what is asked to be torn down is. -/
theorem step_act (hp : p.Tidy n) (i : Input α φ) : Step (p.Ends i) p (p.act i).2 := by
  cases i with
  | mount frame =>
    cases hm : Manager.mount p.host ({ frame } : Watched φ) with
    | error f =>
      simp only [act, hm]
      exact step_of_moves hp (.single (.refuse hm)) rfl rfl rfl
    | ok m =>
      simp only [act, hm]
      exact step_mount hp hm (.refl m) none p.own (fun hd => ⟨_, hd, .refl _⟩) hp.spoken fun seat hseat =>
        absurd hseat (Option.not_mem_none seat)
  | mountSession d env template task frame =>
    cases hs : p.document? d with
    | none =>
      simp only [act, hs]
      exact step_self hp
    | some store =>
      cases hm : LayoutSession.mount env template task store p.host ({ frame } : Watched φ) with
      | ok session => exact step_mountSession hp hs hm
      | error f =>
        simp only [act, hs, hm]
        rcases LayoutSession.host_of_mount_eq_error hm with hf | hf
        · rw [hf]
          exact step_self hp
        · exact step_of_moves hp (.single (.refuse hf)) rfl rfl rfl
  | on k a =>
    cases hk : p.seated[k]? with
    | none =>
      simp only [act, hk]
      exact step_self hp
    | some m =>
      simp only [act, hk]
      exact step_perform hp hk a
  | arrive e => exact step_of_moves hp (.single (.post e)) rfl rfl rfl
  | frame k go =>
    refine step_of_moves hp (.single (.aside (List.ext_getElem? fun j => ?_))) (List.length_modify ..) rfl rfl
    simp only [act, List.getElem?_map, List.getElem?_modify]
    split <;> cases p.managers[j]? <;> rfl
  | runtime runsTasks => exact step_of_moves hp (.single (.runs runsTasks)) rfl rfl rfl
  | create replica =>
    refine ⟨⟨.refl, fun {d s} hd => ⟨s, ?_, .refl s⟩, fun hk => ⟨_, hk, rfl, rfl, id⟩⟩, hp.aligned,
      fun s hs => ?_, .inl⟩
    · exact (List.getElem?_append_left (List.getElem?_eq_some_iff.1 hd).1).trans hd
    · rcases List.mem_append.1 hs with hs | hs
      · exact hp.spoken s hs
      · rw [List.mem_singleton.1 hs]
        exact ⟨(Document.Reachable.new replica).wellFormed, nofun, Talks.refl _⟩
  | write d field value =>
    cases hs : p.document? d with
    | none =>
      simp only [act, hs]
      exact step_self hp
    | some s =>
      simp only [act, hs]
      exact step_putDocument hp hs ((along_of_document? hp hs).set field value) (Shared.later_set ..)
  | merge d u =>
    cases hs : p.document? d with
    | none =>
      simp only [act, hs]
      exact step_self hp
    | some s =>
      simp only [act, hs]
      exact step_putDocument hp hs ((along_of_document? hp hs).merge u) (Shared.later_merge ..)
  | watch d field call =>
    cases hs : p.document? d with
    | none =>
      simp only [act, hs]
      exact step_self hp
    | some s =>
      simp only [act, hs]
      refine step_putDocument hp hs ((along_of_document? hp hs).observe field fun id y => ?_) (Shared.later_observe ..)
      exact fun u origin x _ hx => ⟨hx, fun _ _ _ => trivial⟩

/-! ### Runs -/

omit [IsolatedFrame φ] in
theorem tidy_start (host : HostWindow) (own : α) : Tidy host.inboxes.length ({ host, own } : Page α φ) where
  roster := Manager.roster_nil host
  aligned := rfl
  spoken := nofun
  sound hk := nomatch hk

theorem Onward.mono {ends' : Nat → Prop} (h : Onward ends p p') (hends : ∀ k, ends k → ends' k) : Onward ends' p p' :=
  ⟨h.moves.mono hends, h.documents, h.seats⟩

theorem tidy_run (hp : p.Tidy n) (inputs : List (Input α φ)) :
    (p.run inputs).Tidy n ∧ Onward (fun _ => True) p (p.run inputs) := by
  induction inputs generalizing p with
  | nil => exact ⟨hp, .refl p⟩
  | cons i inputs ih =>
    have hstep := step_act hp i
    obtain ⟨htidy, honward⟩ := ih (hstep.tidy hp)
    exact ⟨htidy, (hstep.toOnward.mono fun _ _ => trivial).trans honward⟩

end Page

end SecureLayout
