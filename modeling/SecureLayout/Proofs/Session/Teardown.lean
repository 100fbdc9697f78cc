import SecureLayout.Proofs.Session.Repainting
import SecureLayout.Proofs.Session.Steps

/-!
Teardown on a page. Main statement: whatever happens on a page, the listeners of the host window are those of the
managers that are still there; and once a manager is destroyed, or the session it was mounted for unmounted, nothing
that happens later calls its frame or its callbacks, writes a document for it, or is sent through it.
-/

namespace SecureLayout

open Collab (Document Shared)
open Sandbox (FrameCall HostWindow IsolatedFrame Manager MessageEvent Notice Watched)
open Wire (FrameMessage)

variable {α φ : Type} {n k : Nat} {p : Page α φ} {m m' : Manager (Watched φ)} {seat : Seat α φ}

/-! ### Managers that are gone -/

namespace Sandbox.Manager

variable [IsolatedFrame φ] {m : Manager (Watched φ)}

theorem handleEvent_of_gone (hm : m.phase = .destroyed) (e : MessageEvent) : m.handleEvent e = (none, m) :=
  if_pos (.inr hm)

theorem send_of_gone (hm : m.phase = .destroyed) (x : FrameMessage) :
    m.send x = (.error (.transport "sandbox transport destroyed"), m) := by
  simp only [send, hm]

theorem pump_of_gone (hm : m.phase = .destroyed) : m.pump = ([], m.takeEvents.2) := by
  have htaken : m.takeEvents.2.phase = .destroyed := hm
  refine List.foldl_fixed' (fun e => ?_) m.takeEvents.1
  exact congrArg (fun x => ([] ++ x.1.toList, x.2)) (handleEvent_of_gone htaken e)

end Sandbox.Manager

namespace LayoutSession

variable [IsolatedFrame φ] {s : LayoutSession (Scene α φ) (Watched φ)}

theorem handle_of_gone (hs : s.manager.phase = .destroyed) (e : MessageEvent) : s.handle e = s := by
  unfold LayoutSession.handle
  rw [Manager.handleEvent_of_gone hs]
  rfl

theorem pump_of_gone (hs : s.manager.phase = .destroyed) :
    s.pump = ([], s.withManager s.manager.takeEvents.2) := by
  have htaken : (s.withManager s.manager.takeEvents.2).manager.phase = .destroyed := hs
  refine List.foldl_fixed' (fun e => Prod.ext ?_ (handle_of_gone htaken e)) s.manager.takeEvents.1
  exact congrArg (fun x => [] ++ x.1.toList) (Manager.handleEvent_of_gone htaken e)

theorem document_rerender (s : LayoutSession (Scene α φ) (Watched φ)) :
    s.rerender.2.store.document = s.store.document := by
  unfold LayoutSession.rerender
  split
  · rfl
  · split
    · rfl
    · dsimp only
      split <;> rfl

theorem document_unmount (s : LayoutSession (Scene α φ) (Watched φ)) : s.unmount.store.document = s.store.document := by
  unfold LayoutSession.unmount
  split <;> rfl

theorem isUnmounted_unmount (s : LayoutSession (Scene α φ) (Watched φ)) : s.unmount.isUnmounted = true := by
  unfold LayoutSession.unmount
  split
  · assumption
  · rfl

end LayoutSession

namespace Page

variable [IsolatedFrame φ]

/-- What was written. -/
def contents (p : Page α φ) : List Document :=
  p.documents.map Shared.document

omit [IsolatedFrame φ] in
theorem contents_putSession {seat' : Seat α φ} (hseat : p.session? k m = some seat)
    (hdocument : seat'.document = seat.document)
    (hsame : seat'.session.store.document = seat.session.store.document) :
    (p.putSession k seat').contents = p.contents := by
  obtain ⟨rest, s, -, hs, rfl⟩ := exists_of_session? hseat
  have hcontents : (p.putSession k seat').contents =
      p.contents.set seat'.document seat'.session.store.document := List.map_set ..
  have hput : p.contents[rest.document]? = some s.document := by rw [contents, List.getElem?_map, hs]; rfl
  rw [hcontents, hdocument, hsame]
  obtain ⟨hlt, he⟩ := List.getElem?_eq_some_iff.1 hput
  exact (congrArg (p.contents.set rest.document ·) he.symm).trans (List.set_getElem_self hlt)

/-- A manager that is gone has nothing to report, and nobody writes for it. -/
theorem perform_of_gone (hp : p.Tidy n) (hk : p.seated[k]? = some m) (hm : m.phase = .destroyed) (a : Action) :
    (p.perform k m a).1.fired = [] ∧ (p.perform k m a).2.contents = p.contents := by
  have hgone {seat : Seat α φ} (hseat : p.session? k m = some seat) : seat.session.manager.phase = .destroyed := by
    have hmanager : seat.session.manager = m := congrArg Prod.snd (along_of_session? hp hk hseat).2
    rw [hmanager, hm]
  unfold perform
  cases hseat : p.session? k m with
  | none =>
    cases a <;> simp [Manager.handleEvent_of_gone hm, Manager.pump_of_gone hm, putManager, contents]
  | some seat =>
    cases a with
    | render | updateContext | destroy => exact ⟨rfl, rfl⟩
    | event e =>
      dsimp only
      rw [Manager.handleEvent_of_gone hm, LayoutSession.handle_of_gone (hgone hseat)]
      exact ⟨rfl, contents_putSession hseat rfl rfl⟩
    | pump =>
      dsimp only
      rw [LayoutSession.pump_of_gone (hgone hseat)]
      exact ⟨rfl, contents_putSession hseat rfl rfl⟩
    | rerender => exact ⟨rfl, contents_putSession hseat rfl (LayoutSession.document_rerender _)⟩
    | unmount | drop => exact ⟨rfl, contents_putSession hseat rfl (LayoutSession.document_unmount _)⟩

/-- Callbacks of other managers stay out of it. -/
theorem fired_act {i : Input α φ} {x : Notice} (h : (k, x) ∈ (p.act i).1.fired) :
    ∃ a m, i = .on k a ∧ p.seated[k]? = some m ∧ (k, x) ∈ (p.perform k m a).1.fired := by
  cases i with
  | on j a =>
    cases hj : p.seated[j]? with
    | none => simp [act, hj] at h
    | some m =>
      simp only [act, hj] at h
      have hown : ∀ entry ∈ (p.perform j m a).1.fired, entry.1 = j := by
        unfold perform
        cases a <;> dsimp only <;> (try split) <;> simp
      obtain rfl : k = j := hown _ h
      exact ⟨a, m, rfl, hj, h⟩
  | mount | write | merge | watch =>
    simp only [act] at h
    split at h <;> cases h
  | mountSession d env template task frame =>
    simp only [act] at h
    split at h
    · cases h
    · split at h <;> cases h
  | arrive | frame | runtime | create => cases h

omit [IsolatedFrame φ] in
theorem exists_seated (hk : p.managers[k]? = some m) : ∃ m₀, p.seated[k]? = some m₀ ∧ m₀.phase = m.phase := by
  refine ⟨m.within p.host, ?_, rfl⟩
  rw [seated, List.getElem?_map, hk]
  rfl

omit [IsolatedFrame φ] in
/-- Where a session was mounted, it can be put to work. -/
theorem exists_session? (hp : p.Tidy n) {rest : Seat α φ} (hrest : p.seats[k]? = some (some rest)) :
    ∃ m seat, p.seated[k]? = some m ∧ p.session? k m = some seat ∧
      seat.session.isUnmounted = rest.session.isUnmounted := by
  obtain ⟨⟨s, hs, -⟩, -⟩ := hp.sound hrest
  have hlt : k < p.managers.length := hp.aligned ▸ (List.getElem?_eq_some_iff.1 hrest).1
  obtain ⟨m, hk, -⟩ := exists_seated (List.getElem?_eq_getElem hlt)
  have hseat : p.session? k m = some { rest with session := { rest.session with
      store := ({ s with state := p.scene } : Shared (Scene α φ)).carry (Scene.beside k m) (Scene.back k) } } := by
    simp [session?, document?, hrest, hs]
  exact ⟨m, _, hk, hseat, rfl⟩

theorem phase_unmount (hp : p.Tidy n) (hk : p.seated[k]? = some m) (hseat : p.session? k m = some seat) :
    seat.session.unmount.manager.phase = .destroyed := by
  have hmanager : seat.session.manager = m := congrArg Prod.snd (along_of_session? hp hk hseat).2
  unfold LayoutSession.unmount
  split
  · next hu => rw [hmanager, ((sound_of_session? hp hk hseat).2 hu).2]
  · exact Manager.phase_destroy _

theorem phase_of_ends (hp : p.Tidy n) {i : Input α φ} (hends : p.Ends i k) (hk : (p.act i).2.managers[k]? = some m') :
    m'.phase = .destroyed := by
  obtain ⟨a, rfl⟩ : ∃ a, i = .on k a := by
    rcases hends with rfl | rfl | ⟨rfl, -⟩ <;> exact ⟨_, rfl⟩
  cases hm : p.seated[k]? with
  | none =>
    simp only [act, hm] at hk
    obtain ⟨m, hseated, -⟩ := exists_seated hk
    cases hm.symm.trans hseated
  | some m =>
    simp only [act, hm] at hk
    have hset {m₁ : Manager (Watched φ)} {ms : List (Manager (Watched φ))} (h : (ms.set k m₁)[k]? = some m') :
        m' = m₁ :=
      (Sandbox.getElem?_set_cases h).elim And.right fun h => absurd rfl h.1
    rcases hends with he | he | ⟨he, hsome⟩ <;> cases he
    · rw [hset hk, m.phase_destroy]
    · unfold perform at hk
      cases hseat : p.session? k m with
      | none =>
        simp only [hseat] at hk
        rw [hset hk, m.phase_destroy]
      | some seat =>
        simp only [hseat] at hk
        exact (congrArg Manager.phase (hset hk)).trans (phase_unmount hp hm hseat)
    · obtain ⟨rest, hrest⟩ := Option.isSome_iff_exists.1 hsome
      obtain ⟨m₁, seat, hm₁, hseat, -⟩ := exists_session? hp (Option.join_eq_some_iff.1 hrest)
      cases hm.symm.trans hm₁
      simp only [perform, hseat] at hk
      exact (congrArg Manager.phase (hset hk)).trans (phase_unmount hp hm hseat)

/-- Teardown tears down, and nothing else does. -/
theorem gone_act_iff (hp : p.Tidy n) (i : Input α φ) (hk : (p.act i).2.managers[k]? = some m') :
    m'.phase = .destroyed ↔ p.Ends i k ∨ ∃ m, p.managers[k]? = some m ∧ m.phase = .destroyed := by
  have hstep := step_act hp i
  constructor
  · intro hm'
    by_cases hends : p.Ends i k
    · exact .inl hends
    · exact .inr (hstep.moves.gone_before hends hk hm')
  · rintro (hends | ⟨m, hm, hgone⟩)
    · exact phase_of_ends hp hends hk
    · obtain ⟨m₁, hm₁, hgone', -⟩ := hstep.moves.gone hm hgone
      cases hk.symm.trans hm₁
      exact hgone'

/-! ### The end of a manager -/

/-- It is over with manager `k`: its frame was taken out once, and `calls` is all that was ever done to it; none of its
callbacks is called, no document is written for it, and what is to be sent through it is refused. -/
structure Over (k : Nat) (calls : List FrameCall) (p : Page α φ) : Prop where
  gone : ∃ m, p.managers[k]? = some m ∧ m.phase = .destroyed ∧ m.frame.calls = calls
  removed : calls.count .remove = 1
  silent : ∀ i x, (k, x) ∉ (p.act i).1.fired
  unwritten : ∀ a, (p.act (.on k a)).2.contents = p.contents
  render : ∀ html context, (p.act (.on k (.render html context))).1.result =
    .error (.transport "sandbox transport destroyed")
  updateContext : ∀ path value, (p.act (.on k (.updateContext path value))).1.result =
    .error (.transport "sandbox transport destroyed")

/-- The session of manager `k` is not rendered again, and it does not watch its document any more. -/
structure Unmounted (k : Nat) (p : Page α φ) : Prop where
  rerender : (p.act (.on k .rerender)).1.result = .error (.transport "session unmounted")
  unwatched : ∃ seat s, p.seats[k]? = some (some seat) ∧ p.documents[seat.document]? = some s ∧
    s.Ended seat.session.subscription

theorem over_of_gone (hp : p.Tidy n) (hk : p.managers[k]? = some m) (hm : m.phase = .destroyed) :
    p.Over k m.frame.calls := by
  obtain ⟨m₀, hk₀, hphase⟩ := exists_seated hk
  have hgone := hphase.trans hm
  have hremovals := (hp.roster.standing hk).removals
  rw [if_pos hm] at hremovals
  constructor
  case gone => exact ⟨m, hk, hm, rfl⟩
  case removed => exact hremovals
  case silent =>
    intro i x hx
    obtain ⟨a, m₁, rfl, hm₁, hx⟩ := fired_act hx
    cases hk₀.symm.trans hm₁
    rw [(perform_of_gone hp hk₀ hgone a).1] at hx
    cases hx
  case unwritten =>
    intro a
    simp only [act, hk₀]
    exact (perform_of_gone hp hk₀ hgone a).2
  case render =>
    intro html context
    simp only [act, hk₀, perform]
    exact congrArg Prod.fst (Manager.send_of_gone hgone _)
  case updateContext =>
    intro path value
    simp only [act, hk₀, perform]
    exact congrArg Prod.fst (Manager.send_of_gone hgone _)

theorem unmounted_of_isUnmounted (hp : p.Tidy n) (hk : p.seats[k]? = some (some seat))
    (hu : seat.session.isUnmounted = true) : p.Unmounted k := by
  obtain ⟨m, seat₁, hm, hseat₁, hsame⟩ := exists_session? hp hk
  obtain ⟨⟨s, hs, -, hended⟩, -⟩ := hp.sound hk
  refine ⟨?_, seat, s, hk, hs, hended hu⟩
  simp only [act, hm, perform, hseat₁, LayoutSession.rerender_unmounted _ (hsame.trans hu)]

theorem isUnmounted_act (hp : p.Tidy n) (hk : p.seats[k]? = some (some seat)) {a : Action}
    (ha : a = .unmount ∨ a = .drop) :
    ∃ seat', (p.act (.on k a)).2.seats[k]? = some (some seat') ∧ seat'.session.isUnmounted = true := by
  obtain ⟨m, seat₁, hm, hseat₁, -⟩ := exists_session? hp hk
  have hput : (p.act (.on k a)).2 = p.putSession k { seat₁ with session := seat₁.session.unmount } := by
    rcases ha with rfl | rfl <;> simp only [act, hm, perform, hseat₁]
  rw [hput]
  exact ⟨_, List.getElem?_set_self (List.getElem?_eq_some_iff.1 hk).1, LayoutSession.isUnmounted_unmount _⟩

/-- Whatever has happened on a page: managers have listeners of their own, which are registered as long as their
managers are there, and nobody else's are; teardown is what takes a manager away, and only that; and then, whatever
happens later, it is over with the manager, and with its session once that is unmounted. -/
theorem teardown_is_final (host : HostWindow) (own : α) (inputs : List (Input α φ)) (p : Page α φ)
    (hp : p = ({ host, own } : Page α φ).run inputs) :
    (∀ {j k : Nat} {m m' : Manager (Watched φ)}, p.managers[j]? = some m → p.managers[k]? = some m' →
      m.listener = m'.listener → j = k) ∧
    (∀ {k : Nat} {m : Manager (Watched φ)}, p.managers[k]? = some m → host.inboxes.length ≤ m.listener) ∧
    (∀ i, host.inboxes.length ≤ i → (p.host.isRegistered i = true ↔
      ∃ (k : Nat) (m : Manager (Watched φ)), p.managers[k]? = some m ∧ m.listener = i ∧ m.phase ≠ .destroyed)) ∧
    (∀ (i : Input α φ) {k : Nat} {m' : Manager (Watched φ)}, (p.act i).2.managers[k]? = some m' →
      (m'.phase = .destroyed ↔ p.Ends i k ∨ ∃ m, p.managers[k]? = some m ∧ m.phase = .destroyed)) ∧
    (∀ {k : Nat} {m : Manager (Watched φ)}, p.managers[k]? = some m → m.phase = .destroyed →
      ∀ later : List (Input α φ), (p.run later).Over k m.frame.calls) ∧
    ∀ {k : Nat} {seat : Seat α φ}, p.seats[k]? = some (some seat) →
      (∀ {a : Action}, a = .unmount ∨ a = .drop →
        ∃ seat', (p.act (.on k a)).2.seats[k]? = some (some seat') ∧ seat'.session.isUnmounted = true) ∧
      (seat.session.isUnmounted = true →
        (∃ m, p.managers[k]? = some m ∧ m.phase = .destroyed) ∧
          ∀ later : List (Input α φ), (p.run later).Unmounted k) := by
  subst hp
  obtain ⟨htidy, -⟩ := tidy_run (tidy_start host own) inputs
  refine ⟨htidy.roster.distinct, fun hk => (htidy.roster.standing hk).lower,
    fun i hi => htidy.roster.isRegistered_iff hi, fun i => gone_act_iff htidy i, fun hk hm later => ?_,
    fun hk => ⟨isUnmounted_act htidy hk, fun hu => ⟨(htidy.sound hk).gone hu, fun later => ?_⟩⟩⟩
  · obtain ⟨hlater, honward⟩ := tidy_run htidy later
    obtain ⟨m', hk', hm', hcalls⟩ := honward.moves.gone hk hm
    rw [← hcalls]
    exact over_of_gone hlater hk' hm'
  · obtain ⟨hlater, honward⟩ := tidy_run htidy later
    obtain ⟨seat', hk', -, -, hstays⟩ := honward.seats hk
    exact unmounted_of_isUnmounted hlater hk' (hstays hu)

/-- A session in the first of two frames, which was unmounted. -/
def twoFrames : List (Input Unit Sandbox.RecordingFrame) :=
  [.create "tab",
    .mountSession 0 inputPage "page" (taskOf "ann") { window := ⟨1⟩, attributes := "allow-scripts" },
    .mount { window := ⟨2⟩, attributes := "allow-scripts" },
    .on 0 .unmount]

/-- Nobody listens for the first frame any more, and it is over with its manager and its session; the second one still
has its listener. -/
theorem teardown_is_final_twoFrames :
    ∃ p : Page Unit Sandbox.RecordingFrame, p = ({ host := {}, own := () } : Page _ _).run twoFrames ∧
      p.host.isRegistered 0 = false ∧ p.host.isRegistered 1 = true ∧
      ∀ later, (∃ calls, (p.run later).Over 0 calls) ∧ (p.run later).Unmounted 0 := by
  obtain ⟨p, hp⟩ : ∃ p, p = ({ host := {}, own := () } : Page Unit Sandbox.RecordingFrame).run twoFrames := ⟨_, rfl⟩
  have hfirst : (p.managers[0]?).map (fun m => (m.listener, m.phase)) = some (0, .destroyed) := by
    rw [hp]
    decide +kernel
  have hsecond : (p.managers[1]?).map (fun m => (m.listener, m.phase)) = some (1, .waiting) := by
    rw [hp]
    decide +kernel
  have hseat : p.seats[0]?.join.map (·.session.isUnmounted) = some true := by
    rw [hp]
    decide +kernel
  obtain ⟨first, hfirst, hgone⟩ := Option.map_eq_some_iff.1 hfirst
  obtain ⟨second, hsecond, hwaiting⟩ := Option.map_eq_some_iff.1 hsecond
  obtain ⟨seat, hseat, hunmounted⟩ := Option.map_eq_some_iff.1 hseat
  rw [Prod.mk.injEq] at hgone hwaiting
  obtain ⟨hdistinct, -, hlisteners, -, hover, hsession⟩ := teardown_is_final {} () twoFrames p hp
  refine ⟨p, hp, Bool.eq_false_iff.2 fun hreg => ?_, (hlisteners 1 (Nat.zero_le _)).2 ?_, fun later => ⟨?_, ?_⟩⟩
  · obtain ⟨k, m, hk, hm, halive⟩ := (hlisteners 0 (Nat.zero_le _)).1 hreg
    obtain rfl := hdistinct hk hfirst (hm.trans hgone.1.symm)
    cases hk.symm.trans hfirst
    exact halive hgone.2
  · exact ⟨1, second, hsecond, hwaiting.1, hwaiting.2 ▸ nofun⟩
  · exact ⟨_, hover hfirst hgone.2 later⟩
  · exact ((hsession (Option.join_eq_some_iff.1 hseat)).2 hunmounted).2 later

end Page

end SecureLayout
