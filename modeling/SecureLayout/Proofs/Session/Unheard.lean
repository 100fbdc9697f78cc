import SecureLayout.Proofs.Sandbox.Heeding
import SecureLayout.Proofs.Session.Teardown
import SecureLayout.Proofs.Session.Unnoticed

/-!
Managers of one window, without sessions. Main statement: a manager does what it would have done, and calls back what
it would have called back, had no event been posted that does not concern it.
-/

namespace SecureLayout

open Json (Value)
open Sandbox (HostWindow IgnoresListeners Inbox IsolatedFrame KeepsWindow Manager MessageEvent MountFailure Notice
  Watched WindowRef)
open Sandbox.Manager (Talked Talks Tends inbox?)

variable {α φ : Type} [IsolatedFrame φ]

/-- What a manager without a session does, with its reports. -/
def Action.alone (m : Manager φ) : Action → List Notice × Manager φ
  | .render html context => ([], (m.render html context).2)
  | .updateContext path value => ([], (m.updateContext path value).2)
  | .event e => ((m.handleEvent e).1.toList, (m.handleEvent e).2)
  | .pump => m.pump
  | .destroy | .drop => ([], m.destroy)
  | .rerender | .unmount => ([], m)

namespace Action

theorem window_alone (hkeeps : KeepsWindow φ) (m : Manager φ) (a : Action) : (a.alone m).2.window = m.window := by
  cases a with
  | render | updateContext => exact Manager.window_send hkeeps m _
  | event e => exact Manager.window_handleEvent hkeeps m e
  | pump => exact Manager.window_pump hkeeps m
  | destroy | drop => exact Manager.window_destroy hkeeps m
  | rerender | unmount => rfl

/-- Of two managers that are alike, one may be spared what does not concern it. -/
theorem alike_alone (hkeeps : KeepsWindow φ) {m m' : Manager φ} (h : m.Alike m')
    (hevents : m'.takeEvents.1 = m.takeEvents.1.filter (MessageEvent.concerns m.window)) (a : Action) :
    (a.alone m').1 = (a.alone m).1 ∧ (a.alone m).2.Alike (a.alone m').2 := by
  cases a with
  | render | updateContext => exact ⟨rfl, (h.send _).2⟩
  | event e =>
    obtain ⟨hnotice, hnext⟩ := h.handleEvent e
    exact ⟨congrArg Option.toList hnotice, hnext⟩
  | pump => exact h.pump_only hkeeps hevents
  | destroy | drop => exact ⟨rfl, h.destroy⟩
  | rerender | unmount => exact ⟨rfl, h⟩

/-- Whatever a manager does, it tells the window of its own listener only; and two managers that are alike do the
same there. -/
theorem tends_alone {m m' : Manager (Watched φ)} (h : m.Alike m') (a : Action) :
    ∃ f : Inbox → Inbox,
      (∀ b w, (f b).only w = f (b.only w)) ∧ Tends f m (a.alone m).2 ∧ Tends f m' (a.alone m').2 := by
  have htalks {n n' : Manager (Watched φ)} (t : Talked m n) (t' : Talked m' n') :
      ∃ f : Inbox → Inbox, (∀ b w, (f b).only w = f (b.only w)) ∧ Tends f m n ∧ Tends f m' n' :=
    ⟨id, fun _ _ => rfl, (Manager.tends_self m).talked t, (Manager.tends_self m').talked t'⟩
  have hgone : ∃ f : Inbox → Inbox, (∀ b w, (f b).only w = f (b.only w)) ∧ Tends f m m.destroy ∧
      Tends f m' m'.destroy := by
    by_cases hm : m.phase = .destroyed
    · rw [m.destroy_of_destroyed hm, m'.destroy_of_destroyed (h.phase.trans hm)]
      exact htalks (.refl m) (.refl m')
    · exact ⟨_, fun _ _ => rfl, Manager.tends_destroy hm, Manager.tends_destroy (h.phase ▸ hm)⟩
  cases a with
  | render | updateContext => exact htalks (Manager.talked_send m _) (Manager.talked_send m' _)
  | event e => exact htalks (Manager.talked_handleEvent m e) (Manager.talked_handleEvent m' e)
  | pump =>
    exact ⟨_, fun _ _ => rfl, (Manager.tends_takeEvents m).talked (Manager.talked_pump m),
      (Manager.tends_takeEvents m').talked (Manager.talked_pump m')⟩
  | destroy | drop => exact hgone
  | rerender | unmount => exact htalks (.refl m) (.refl m')

end Action

namespace Page

/-- What is asked of managers and what happens to the window, but nothing that sessions or documents take part in. A
frame that goes on by itself stays in its window. -/
def Input.IsPlain : Input α φ → Prop
  | .mount _ | .on _ _ | .arrive _ | .runtime _ => True
  | .frame _ go => ∀ f, IsolatedFrame.window (go f) = IsolatedFrame.window f
  | .mountSession .. | .create _ | .write .. | .merge .. | .watch .. => False

omit [IsolatedFrame φ] in
/-- Everything but the events that do not concern manager `k`, whose window is `w`. -/
def Input.isKept (k : Nat) (w : WindowRef) : Input α φ → Bool
  | .arrive e => e.concerns w
  | .on j (.event e) => j != k || e.concerns w
  | _ => true

/-- The reports of manager `k`. -/
def callbacks (k : Nat) (rs : List Reply) : List Notice :=
  rs.flatMap fun r => r.fired.filterMap fun x => if x.1 = k then some x.2 else none

/-- No manager was mounted for a session. -/
def Plain (p : Page α φ) : Prop :=
  ∀ s ∈ p.seats, s = none

variable {p p' : Page α φ} {n n' j k : Nat} {w : WindowRef} {m m' : Manager (Watched φ)}

omit [IsolatedFrame φ] in
theorem Plain.session? (h : p.Plain) (k : Nat) (m : Manager (Watched φ)) : p.session? k m = none := by
  unfold Page.session?
  cases hs : p.seats[k]? with
  | none => rfl
  | some s =>
    rw [h s (List.mem_of_getElem? hs)]
    rfl

omit [IsolatedFrame φ] in
theorem callbacks_cons (k : Nat) (r : Reply) (rs : List Reply) :
    callbacks k (r :: rs) = callbacks k [r] ++ callbacks k rs := by
  simp [callbacks]

/-! ### What managers can see of a page -/

/-- Two pages with the same window and the same managers in it. -/
structure SameView (p p' : Page α φ) : Prop where
  host : p'.host = p.host
  seated : p'.seated = p.seated
  seats : p'.seats = p.seats

omit [IsolatedFrame φ] in
theorem seated_putManager (p : Page α φ) (k : Nat) (m : Manager (Watched φ)) :
    (p.putManager k m).seated = (p.seated.set k m).map (Manager.within m.host) :=
  rfl

omit [IsolatedFrame φ] in
theorem sameView_putManager (hk : p.seated[k]? = some m) : SameView p (p.putManager k m) := by
  refine ⟨host_of_seated hk, ?_, rfl⟩
  rw [seated_putManager, set_seated hk, host_of_seated hk, seated, List.map_map]
  rfl

/-- On its own, a manager does what it does alone. -/
theorem Plain.perform (h : p.Plain) (hk : p.seated[k]? = some m) (a : Action) :
    (p.perform k m a).1.fired = (a.alone m).1.map (fun n => (k, n)) ∧
      SameView (p.putManager k (a.alone m).2) (p.perform k m a).2 := by
  have hnone := h.session? k m
  cases a with
  | render | updateContext | destroy => exact ⟨rfl, rfl, rfl, rfl⟩
  | event | pump | drop =>
    simp only [Page.perform, hnone]
    exact ⟨rfl, rfl, rfl, rfl⟩
  | rerender | unmount =>
    simp only [Page.perform, hnone]
    obtain ⟨hhost, hseated, hseats⟩ := sameView_putManager hk
    exact ⟨rfl, hhost.symm, hseated.symm, hseats.symm⟩

omit [IsolatedFrame φ] in
/-- What a manager does to its own inbox is done there, and nowhere else. -/
theorem inbox?_putManager {f : Inbox → Inbox} (hp : p.Tidy n) (hj : p.seated[j]? = some m) (h : Tends f m m')
    (k : Nat) : inbox? (p.putManager j m').host (p.putManager j m').seated k =
      if k = j then (inbox? p.host p.seated k).map f else inbox? p.host p.seated k := by
  rw [inbox?_seated]
  refine Manager.inbox?_set hp.seated hj h.listener (fun i => ?_) k
  rw [← host_of_seated hj]
  exact h.inboxes i

/-! ### A page without the events that do not concern manager `k` -/

/-- Manager `k` has window `w`, and is alike in `p'`, where of what is waiting for it there is only what concerns it. -/
structure Shadows (k : Nat) (w : WindowRef) (p p' : Page α φ) : Prop where
  plain : p.Plain
  plain' : p'.Plain
  runs : p'.host.runsTasks = p.host.runsTasks
  length : p'.seated.length = p.seated.length
  manager : Option.Rel Manager.Alike p.seated[k]? p'.seated[k]?
  window : ∀ m ∈ p.seated[k]?, m.window = w
  inbox : inbox? p'.host p'.seated k = (inbox? p.host p.seated k).map (·.only w)

variable {q q' : Page α φ}

theorem Shadows.of_sameView (h : Shadows k w p p') (hq : SameView p q) (hq' : SameView p' q') : Shadows k w q q' where
  plain := by
    unfold Plain
    rw [hq.seats]
    exact h.plain
  plain' := by
    unfold Plain
    rw [hq'.seats]
    exact h.plain'
  runs := by rw [hq.host, hq'.host, h.runs]
  length := by rw [hq.seated, hq'.seated, h.length]
  manager := by
    rw [hq.seated, hq'.seated]
    exact h.manager
  window := by
    rw [hq.seated]
    exact h.window
  inbox := by rw [hq.host, hq.seated, hq'.host, hq'.seated, h.inbox]

omit [IsolatedFrame φ] in
theorem rel_within {o o' : Option (Manager (Watched φ))} (h : Option.Rel Manager.Alike o o') (host host' : HostWindow) :
    Option.Rel Manager.Alike (o.map (Manager.within host)) (o'.map (Manager.within host')) := by
  cases h with
  | none => exact .none
  | some hm => exact .some (hm.within host host')

variable {f f' : Inbox → Inbox} {m₁ m₁' : Manager (Watched φ)}

/-- Another manager has done something. -/
theorem Shadows.putOther (hp : p.Tidy n) (hp' : p'.Tidy n') (h : Shadows k w p p') (hjk : j ≠ k)
    (hj : p.seated[j]? = some m) (hj' : p'.seated[j]? = some m') (ht : Tends f m m₁) (ht' : Tends f' m' m₁') :
    Shadows k w (p.putManager j m₁) (p'.putManager j m₁') where
  plain := h.plain
  plain' := h.plain'
  runs := by
    change m₁'.host.runsTasks = m₁.host.runsTasks
    rw [ht.runs, ht'.runs, host_of_seated hj, host_of_seated hj', h.runs]
  length := by simpa [seated_putManager] using h.length
  manager := by
    rw [seated_putManager, seated_putManager, List.getElem?_map, List.getElem?_map, List.getElem?_set_ne hjk,
      List.getElem?_set_ne hjk]
    exact rel_within h.manager m₁.host m₁'.host
  window := by
    rw [seated_putManager, List.getElem?_map, List.getElem?_set_ne hjk]
    intro m₂ hm₂
    obtain ⟨m₀, hm₀, rfl⟩ := Option.map_eq_some_iff.1 hm₂
    exact h.window m₀ hm₀
  inbox := by
    rw [inbox?_putManager hp hj ht, inbox?_putManager hp' hj' ht', if_neg hjk.symm, if_neg hjk.symm, h.inbox]

/-- Manager `k` has done something, and the same in both pages. -/
theorem Shadows.putOwn (hp : p.Tidy n) (hp' : p'.Tidy n') (h : Shadows k w p p') (hk : p.seated[k]? = some m)
    (hk' : p'.seated[k]? = some m') (ht : Tends f m m₁) (ht' : Tends f m' m₁') (hf : ∀ b w, (f b).only w = f (b.only w))
    (hm : m₁.Alike m₁') (hw : m₁.window = w) : Shadows k w (p.putManager k m₁) (p'.putManager k m₁') where
  plain := h.plain
  plain' := h.plain'
  runs := by
    change m₁'.host.runsTasks = m₁.host.runsTasks
    rw [ht.runs, ht'.runs, host_of_seated hk, host_of_seated hk', h.runs]
  length := by simpa [seated_putManager] using h.length
  manager := by
    rw [seated_putManager, seated_putManager, List.getElem?_map, List.getElem?_map,
      List.getElem?_set_self (List.getElem?_eq_some_iff.1 hk).1,
      List.getElem?_set_self (List.getElem?_eq_some_iff.1 hk').1]
    exact rel_within (.some hm) m₁.host m₁'.host
  window := by
    rw [seated_putManager, List.getElem?_map, List.getElem?_set_self (List.getElem?_eq_some_iff.1 hk).1]
    intro m₂ hm₂
    cases hm₂
    exact hw
  inbox := by
    rw [inbox?_putManager hp hk ht, inbox?_putManager hp' hk' ht', if_pos rfl, if_pos rfl, h.inbox, Option.map_map,
      Option.map_map]
    exact congrArg (Option.map · _) (funext fun b => (hf b w).symm)

/-- What waits for manager `k` is, in `p'`, what concerns it. -/
theorem Shadows.takeEvents (h : Shadows k w p p') (hk : p.seated[k]? = some m) (hk' : p'.seated[k]? = some m') :
    m'.takeEvents.1 = m.takeEvents.1.filter (MessageEvent.concerns m.window) := by
  have hinbox := h.inbox
  rw [inbox?, inbox?, hk, hk', Option.bind_some, Option.bind_some, ← host_of_seated hk, ← host_of_seated hk'] at hinbox
  have hevents (n : Manager (Watched φ)) :
      n.takeEvents.1 = ((n.host.inboxes[n.listener]?).map Inbox.events).getD [] := rfl
  rw [hevents, hevents, hinbox, h.window m hk]
  cases m.host.inboxes[m.listener]? <;> rfl

/-- A manager acts in both pages. -/
theorem Shadows.perform (hkeeps : KeepsWindow φ) (hp : p.Tidy n) (hp' : p'.Tidy n') (h : Shadows k w p p')
    (hj : p.seated[j]? = some m) (hj' : p'.seated[j]? = some m') (a : Action) :
    Shadows k w (p.perform j m a).2 (p'.perform j m' a).2 ∧
      callbacks k [(p'.perform j m' a).1] = callbacks k [(p.perform j m a).1] := by
  obtain ⟨hfired, hview⟩ := h.plain.perform hj a
  obtain ⟨hfired', hview'⟩ := h.plain'.perform hj' a
  by_cases hjk : j = k
  · subst hjk
    have hm : m.Alike m' := by
      have hrel := h.manager
      rw [hj, hj'] at hrel
      cases hrel
      assumption
    have hwatched := Sandbox.keepsWindow_watched hkeeps
    obtain ⟨hnotices, hnext⟩ := a.alike_alone hwatched hm (h.takeEvents hj hj')
    obtain ⟨f, hf, ht, ht'⟩ := a.tends_alone hm
    refine ⟨(h.putOwn hp hp' hj hj' ht ht' hf hnext ?_).of_sameView hview hview', ?_⟩
    · rw [a.window_alone hwatched, h.window m hj]
    · simp only [callbacks, List.flatMap_cons, hfired, hfired', hnotices]
  · have hself (n : Manager (Watched φ)) : n.Alike n := ⟨n.host, n.listener, rfl⟩
    obtain ⟨f, -, ht, -⟩ := a.tends_alone (hself m)
    obtain ⟨f', -, ht', -⟩ := a.tends_alone (hself m')
    refine ⟨(h.putOther hp hp' hjk hj hj' ht ht').of_sameView hview hview', ?_⟩
    simp [callbacks, hfired, hfired', List.filterMap_map, hjk]

/-! ### Every step -/

omit [IsolatedFrame φ] in
theorem rel_concat {xs ys : List (Manager (Watched φ))} (hlength : ys.length = xs.length)
    (h : Option.Rel Manager.Alike xs[k]? ys[k]?) (hm : m.Alike m') :
    Option.Rel Manager.Alike (xs ++ [m])[k]? (ys ++ [m'])[k]? := by
  rcases Nat.lt_trichotomy k xs.length with hlt | rfl | hgt
  · rw [List.getElem?_append_left hlt, List.getElem?_append_left (hlength ▸ hlt)]
    exact h
  · rw [List.getElem?_concat_length, ← hlength, List.getElem?_concat_length]
    exact .some hm
  · have hend (zs : List (Manager (Watched φ))) (z : Manager (Watched φ)) (hz : zs.length = xs.length) :
        (zs ++ [z])[k]? = none := by
      rw [List.getElem?_eq_none_iff, List.length_append, List.length_singleton, hz]
      exact hgt
    rw [hend xs m rfl, hend ys m' hlength]
    exact .none

omit [IsolatedFrame φ] in
theorem seated_withHost (p : Page α φ) (v : HostWindow) :
    ({ p with host := v } : Page α φ).seated = p.seated.map (Manager.within v) := by
  rw [seated, seated, List.map_map]
  rfl

/-- The frame of a manager has gone on by itself. -/
def stirred (go : φ → φ) (m : Manager (Watched φ)) : Manager (Watched φ) :=
  { m with frame := { m.frame with frame := go m.frame.frame } }

omit [IsolatedFrame φ] in
/-- What is done to a frame is done wherever its manager is looked at. -/
theorem seated_modify (p : Page α φ) (j : Nat) (go : φ → φ) :
    ({ p with managers := p.managers.modify j (stirred go) } : Page α φ).seated = p.seated.modify j (stirred go) := by
  refine List.ext_getElem? fun i => ?_
  simp only [seated, List.getElem?_map, List.getElem?_modify, Option.map_eq_map, Option.map_map]
  refine congrArg (Option.map · _) (funext fun m => ?_)
  by_cases hji : j = i <;> simp [hji, Manager.within, stirred]

omit [IsolatedFrame φ] in
theorem rel_modify {xs ys : List (Manager (Watched φ))} (h : Option.Rel Manager.Alike xs[k]? ys[k]?) (j : Nat)
    (go : φ → φ) : Option.Rel Manager.Alike (xs.modify j (stirred go))[k]? (ys.modify j (stirred go))[k]? := by
  rw [List.getElem?_modify, List.getElem?_modify]
  generalize xs[k]? = o at h
  generalize ys[k]? = o' at h
  cases h with
  | none => exact .none
  | some hm =>
    refine .some ?_
    split
    · obtain ⟨v, l, rfl⟩ := hm
      exact ⟨v, l, rfl⟩
    · exact hm

/-- The window is another one, with the same for manager `k`. -/
theorem Shadows.withHosts {v v' : HostWindow} (h : Shadows k w p p') (hruns : v'.runsTasks = v.runsTasks)
    (hinbox : inbox? v' p'.managers k = (inbox? v p.managers k).map (·.only w)) :
    Shadows k w { p with host := v } { p' with host := v' } where
  plain := h.plain
  plain' := h.plain'
  runs := hruns
  length := by
    rw [seated_withHost p v, seated_withHost p' v', List.length_map, List.length_map, h.length]
  manager := by
    rw [seated_withHost p v, seated_withHost p' v', List.getElem?_map, List.getElem?_map]
    exact rel_within h.manager v v'
  window := by
    rw [seated_withHost p v, List.getElem?_map]
    intro m hm
    obtain ⟨m₀, hm₀, rfl⟩ := Option.map_eq_some_iff.1 hm
    exact h.window m₀ hm₀
  inbox := by
    rw [inbox?_seated, inbox?_seated]
    exact hinbox

omit [IsolatedFrame φ] in
/-- Whoever listens for a manager reads it, or it is not registered any more. -/
theorem isRead_of_inbox? (hp : p.Tidy n) {b : Inbox} (hb : inbox? p.host p.managers k = some b)
    (hreg : b.isRegistered = true) : b.isRead = true := by
  obtain ⟨m, hm, hinbox⟩ := Option.bind_eq_some_iff.1 hb
  have hstanding := hp.roster.standing hm
  have hflags : p.host.flags m.listener = some (b.isRegistered, b.isRead) := by rw [HostWindow.flags, hinbox]; rfl
  by_cases hgone : m.phase = .destroyed
  · have hunregistered := hstanding.gone hgone
    rw [HostWindow.isRegistered_eq, hflags, Option.any_some, hreg] at hunregistered
    cases hunregistered
  · have halive : (true, true) = (b.isRegistered, b.isRead) :=
      Option.some.inj ((hstanding.alive hgone).symm.trans hflags)
    exact (congrArg Prod.snd halive).symm

theorem Shadows.act (hignores : IgnoresListeners φ) (hkeeps : KeepsWindow φ) (hp : p.Tidy n) (hp' : p'.Tidy n')
    (h : Shadows k w p p') {i : Input α φ} (hi : i.IsPlain) (hkept : i.isKept k w = true)
    (hw : ∀ m ∈ (p.act i).2.seated[k]?, m.window = w) :
    Shadows k w (p.act i).2 (p'.act i).2 ∧ callbacks k [(p'.act i).1] = callbacks k [(p.act i).1] := by
  have hinbox : inbox? p'.host p'.managers k = (inbox? p.host p.managers k).map (·.only w) := by
    rw [← inbox?_seated, ← inbox?_seated, h.inbox]
  cases i with
  | mount frame =>
    have hwatched := Sandbox.Manager.ignoresListeners_watched hignores
    cases hmount : Manager.mount p.host ({ frame } : Watched φ) with
    | error f =>
      obtain ⟨f', hmount', hcause⟩ := Manager.mount_error_alike hwatched h.runs hmount
      obtain ⟨hruns, hsame⟩ := Manager.inbox?_refuse hp.roster hmount
      obtain ⟨hruns', hsame'⟩ := Manager.inbox?_refuse hp'.roster hmount'
      simp only [Page.act, hmount, hmount']
      refine ⟨h.withHosts (by rw [hruns, hruns', h.runs]) ?_, rfl⟩
      rw [hsame, hsame', hinbox]
    | ok m =>
      obtain ⟨m', hmount', hm⟩ := Manager.mount_alike hwatched h.runs hmount
      simp only [Page.act, hmount, hmount'] at hw ⊢
      refine ⟨?_, trivial⟩
      constructor
      case plain => exact fun s hs => (List.mem_append.1 hs).elim (h.plain s) List.mem_singleton.1
      case plain' => exact fun s hs => (List.mem_append.1 hs).elim (h.plain' s) List.mem_singleton.1
      case runs =>
        rw [(Manager.listener_of_mount hmount).1, (Manager.listener_of_mount hmount').1]
        exact h.runs
      case length => simpa [seated] using h.length
      case manager =>
        change Option.Rel Manager.Alike (((p.seated ++ [m]).map (Manager.within m.host))[k]?)
          (((p'.seated ++ [m']).map (Manager.within m'.host))[k]?)
        rw [List.getElem?_map, List.getElem?_map]
        exact rel_within (rel_concat h.length h.manager hm) m.host m'.host
      case window => exact hw
      case inbox =>
        rw [inbox?_seated, inbox?_seated, Manager.inbox?_mount hp.seated hmount,
          Manager.inbox?_mount hp'.seated hmount', h.inbox, h.length]
        split <;> rfl
  | on j a =>
    simp only [Page.act]
    cases hj : p.seated[j]? with
    | none =>
      have hj' : p'.seated[j]? = none := by
        rw [List.getElem?_eq_none_iff, h.length, ← List.getElem?_eq_none_iff, hj]
      rw [hj']
      exact ⟨h, rfl⟩
    | some m =>
      have hlt : j < p'.seated.length := h.length ▸ (List.getElem?_eq_some_iff.1 hj).1
      rw [List.getElem?_eq_getElem hlt]
      exact h.perform hkeeps hp hp' hj (List.getElem?_eq_getElem hlt) a
  | arrive e =>
    refine ⟨h.withHosts h.runs ?_, rfl⟩
    rw [Manager.inbox?_post, Manager.inbox?_post, hinbox, Option.map_map, Option.map_map]
    exact congrArg (Option.map · _) (funext fun b => (Inbox.only_take hkept).symm)
  | frame j go =>
    change Shadows k w { p with managers := p.managers.modify j (stirred go) }
      { p' with managers := p'.managers.modify j (stirred go) } ∧ _
    have hsame (q : Page α φ) : inbox? q.host (q.managers.modify j (stirred go)) k = inbox? q.host q.managers k :=
      Manager.inbox?_modify (f := stirred go) (fun _ => rfl) ..
    refine ⟨⟨h.plain, h.plain', h.runs, ?_, ?_, hw, ?_⟩, rfl⟩
    · rw [seated_modify, seated_modify, List.length_modify, List.length_modify, h.length]
    · rw [seated_modify, seated_modify]
      exact rel_modify h.manager j go
    · rw [inbox?_seated, inbox?_seated]
      exact (hsame p').trans (hinbox.trans (congrArg (Option.map _) (hsame p).symm))
  | runtime runsTasks => exact ⟨h.withHosts rfl hinbox, rfl⟩
  | mountSession | create | write | merge | watch => exact hi.elim

omit [IsolatedFrame φ] in
theorem isKept_event {e : MessageEvent} (h : (Input.on j (.event e) : Input α φ).isKept k w = false) :
    j = k ∧ e.concerns w = false := by
  simpa [Input.isKept] using h

/-- An event that does not concern manager `k` leaves it as it is. -/
theorem Shadows.act_spared (hp : p.Tidy n) (h : Shadows k w p p') {i : Input α φ} (hkept : i.isKept k w = false) :
    Shadows k w (p.act i).2 p' ∧ callbacks k [(p.act i).1] = [] := by
  have hview : SameView p' p' := ⟨rfl, rfl, rfl⟩
  cases i with
  | arrive e =>
    have hinbox : inbox? p'.host p'.managers k = (inbox? (p.host.post e) p.managers k).map (·.only w) := by
      rw [Manager.inbox?_post, Option.map_map, ← inbox?_seated p', h.inbox, inbox?_seated]
      refine Option.map_congr fun b hb => ?_
      exact (Inbox.only_take_of_not hkept (isRead_of_inbox? hp hb)).symm
    exact ⟨h.withHosts h.runs hinbox, rfl⟩
  | on j a =>
    cases a with
    | event e =>
      obtain ⟨rfl, he⟩ := isKept_event hkept
      simp only [Page.act]
      cases hj : p.seated[j]? with
      | none => exact ⟨h, rfl⟩
      | some m =>
        have hnone : Action.alone m (.event e) = ([], m) := by
          rw [Action.alone, Manager.handleEvent_of_not_concerns (by rw [h.window m hj, he]), Option.toList_none]
        obtain ⟨hfired, hsame⟩ := h.plain.perform hj (.event e)
        rw [hnone] at hfired hsame
        refine ⟨(h.of_sameView (sameView_putManager hj) hview).of_sameView hsame hview, ?_⟩
        simp [callbacks, hfired]
    | _ => cases hkept
  | _ => cases hkept

/-! ### Runs -/

/-- A manager stays, and in its window. -/
theorem window_act (hkeeps : KeepsWindow φ) (hp : p.Plain) {i : Input α φ} (hi : i.IsPlain)
    (hk : p.seated[k]? = some m) : ∃ m', (p.act i).2.seated[k]? = some m' ∧ m'.window = m.window := by
  have hthere {v : HostWindow} {ms : List (Manager (Watched φ))} {m' : Manager (Watched φ)} (hm' : ms[k]? = some m')
      (hw : m'.window = m.window) : ∃ m', (ms.map (Manager.within v))[k]? = some m' ∧ m'.window = m.window :=
    ⟨m'.within v, by rw [List.getElem?_map, hm', Option.map_some], hw⟩
  have hlt : k < p.seated.length := (List.getElem?_eq_some_iff.1 hk).1
  cases i with
  | mount frame =>
    simp only [Page.act]
    split
    · rw [seated_withHost p]
      exact hthere hk rfl
    · exact hthere (by rw [List.getElem?_append_left hlt, hk]) rfl
  | on j a =>
    simp only [Page.act]
    cases hj : p.seated[j]? with
    | none => exact ⟨m, hk, rfl⟩
    | some m₀ =>
      obtain ⟨-, hview⟩ := hp.perform hj a
      dsimp only
      rw [hview.seated, seated_putManager]
      by_cases hjk : j = k
      · subst hjk
        cases hj.symm.trans hk
        exact hthere (List.getElem?_set_self hlt) (a.window_alone (Sandbox.keepsWindow_watched hkeeps) m)
      · exact hthere (by rw [List.getElem?_set_ne hjk, hk]) rfl
  | arrive e =>
    change ∃ m', ({ p with host := p.host.post e } : Page α φ).seated[k]? = some m' ∧ _
    rw [seated_withHost p]
    exact hthere hk rfl
  | runtime runsTasks =>
    change ∃ m', ({ p with host := { p.host with runsTasks } } : Page α φ).seated[k]? = some m' ∧ _
    rw [seated_withHost p]
    exact hthere hk rfl
  | frame j go =>
    change ∃ m', ({ p with managers := p.managers.modify j (stirred go) } : Page α φ).seated[k]? = some m' ∧ _
    rw [seated_modify, List.getElem?_modify, hk]
    refine ⟨_, rfl, ?_⟩
    split
    · exact hi m.frame.frame
    · rfl
  | mountSession | create | write | merge | watch => exact hi.elim

theorem plain_act (hp : p.Plain) {i : Input α φ} (hi : i.IsPlain) : (p.act i).2.Plain := by
  cases i with
  | mount frame =>
    simp only [Page.act]
    split
    · exact hp
    · exact fun s hs => (List.mem_append.1 hs).elim (hp s) List.mem_singleton.1
  | on j a =>
    simp only [Page.act]
    cases hj : p.seated[j]? with
    | none => exact hp
    | some m =>
      have hseats := (hp.perform hj a).2.seats
      unfold Plain
      rw [hseats]
      exact hp
  | arrive | runtime | frame => exact hp
  | mountSession | create | write | merge | watch => exact hi.elim

theorem plain_run (hp : p.Plain) {inputs : List (Input α φ)} (hinputs : ∀ i ∈ inputs, i.IsPlain) :
    (p.run inputs).Plain := by
  induction inputs generalizing p with
  | nil => exact hp
  | cons i inputs ih =>
    obtain ⟨hi, hrest⟩ := List.forall_mem_cons.1 hinputs
    exact ih (plain_act hp hi) hrest

theorem window_run (hkeeps : KeepsWindow φ) (hp : p.Plain) {inputs : List (Input α φ)} (hinputs : ∀ i ∈ inputs, i.IsPlain)
    (hk : p.seated[k]? = some m) : ∃ m', (p.run inputs).seated[k]? = some m' ∧ m'.window = m.window := by
  induction inputs generalizing p m with
  | nil => exact ⟨m, hk, rfl⟩
  | cons i inputs ih =>
    obtain ⟨hi, hrest⟩ := List.forall_mem_cons.1 hinputs
    obtain ⟨m₁, hm₁, hw₁⟩ := window_act hkeeps hp hi hk
    obtain ⟨m₂, hm₂, hw₂⟩ := ih (plain_act hp hi) hrest hm₁
    exact ⟨m₂, hm₂, hw₂.trans hw₁⟩

/-- However long a page goes on, manager `k` is not told apart from one that was spared what does not concern it. -/
theorem Shadows.run (hignores : IgnoresListeners φ) (hkeeps : KeepsWindow φ) (hp : p.Tidy n) (hp' : p'.Tidy n')
    (h : Shadows k w p p') {inputs : List (Input α φ)} (hinputs : ∀ i ∈ inputs, i.IsPlain)
    (hw : ∀ m ∈ (p.run inputs).seated[k]?, m.window = w) :
    Shadows k w (p.run inputs) (p'.run (inputs.filter (Input.isKept k w))) ∧
      callbacks k (p'.replies (inputs.filter (Input.isKept k w))) = callbacks k (p.replies inputs) := by
  induction inputs generalizing p p' with
  | nil => exact ⟨h, rfl⟩
  | cons i inputs ih =>
    obtain ⟨hi, hrest⟩ := List.forall_mem_cons.1 hinputs
    have hnext : (p.act i).2.Tidy n := (step_act hp i).tidy hp
    have hwindow : ∀ m ∈ (p.act i).2.seated[k]?, m.window = w := by
      intro m hm
      obtain ⟨m', hm', hw'⟩ := window_run hkeeps (plain_act h.plain hi) hrest hm
      exact hw'.symm.trans (hw m' hm')
    cases hkept : i.isKept k w with
    | true =>
      obtain ⟨hstep, hcalls⟩ := h.act hignores hkeeps hp hp' hi hkept hwindow
      obtain ⟨hlast, hlater⟩ := ih hnext ((step_act hp' i).tidy hp') hstep hrest hw
      rw [List.filter_cons_of_pos hkept]
      refine ⟨hlast, ?_⟩
      rw [replies, replies, callbacks_cons, callbacks_cons k (p.act i).1, hcalls, hlater]
    | false =>
      obtain ⟨hstep, hcalls⟩ := h.act_spared hp hkept
      obtain ⟨hlast, hlater⟩ := ih hnext hp' hstep hrest hw
      rw [List.filter_cons_of_neg (Bool.eq_false_iff.1 hkept)]
      refine ⟨hlast, ?_⟩
      rw [replies, callbacks_cons, hcalls, hlater, List.nil_append]

omit [IsolatedFrame φ] in
/-- How the window is now does not matter to what managers are like. -/
theorem rel_of_seated (h : Option.Rel Manager.Alike p.seated[k]? p'.seated[k]?) :
    Option.Rel Manager.Alike p.managers[k]? p'.managers[k]? := by
  rw [seated, seated, List.getElem?_map, List.getElem?_map] at h
  generalize p.managers[k]? = o at h ⊢
  generalize p'.managers[k]? = o' at h ⊢
  cases o <;> cases o' <;> cases h
  · exact .none
  · next m m' hm =>
    obtain ⟨v, l, hm⟩ := hm
    obtain ⟨host, frame, phase, queue, lastError, listener⟩ := m
    obtain ⟨host', frame', phase', queue', lastError', listener'⟩ := m'
    cases hm
    exact .some ⟨host', listener', rfl⟩

omit [IsolatedFrame φ] in
theorem plain_start (host : HostWindow) (own : α) : ({ host, own } : Page α φ).Plain :=
  fun _ hs => absurd hs List.not_mem_nil

theorem shadows_start (k : Nat) (w : WindowRef) (host : HostWindow) (own : α) :
    Shadows k w ({ host, own } : Page α φ) { host, own } :=
  ⟨plain_start host own, plain_start host own, rfl, rfl, .none, fun _ hm => (nomatch hm), rfl⟩

/-- However calls, events and frames follow one another in a window, and whatever was posted there: at any point of the
run manager `k` has done to its frame what it would have done, is in the same phase with the same queue and the same last
error, and has made the same callbacks, had no event been posted that is from another window than its frame's, or whose
text is no message or one for the guest. -/
theorem foreign_events_unheard (hignores : IgnoresListeners φ) (hkeeps : KeepsWindow φ) (host : HostWindow) (own : α)
    (inputs : List (Input α φ)) (hinputs : ∀ i ∈ inputs, i.IsPlain) {m : Manager (Watched φ)}
    (hk : (({ host, own } : Page α φ).run inputs).managers[k]? = some m) {past : List (Input α φ)}
    (hpast : past <+: inputs) :
    let start : Page α φ := { host, own }
    let spared := past.filter (Input.isKept k m.window)
    Option.Rel Manager.Alike (start.run past).managers[k]? (start.run spared).managers[k]? ∧
      callbacks k (start.replies spared) = callbacks k (start.replies past) := by
  intro start spared
  obtain ⟨later, rfl⟩ := hpast
  have hstart : start.Tidy host.inboxes.length := tidy_start host own
  have hpast : ∀ i ∈ past, i.IsPlain := fun i hi => hinputs i (List.mem_append_left later hi)
  have hwindow : ∀ m' ∈ (start.run past).seated[k]?, m'.window = m.window := by
    intro m' hm'
    have hplain : (start.run past).Plain := plain_run (plain_start host own) hpast
    obtain ⟨m₁, hm₁, hw₁⟩ := window_run hkeeps hplain (fun i hi => hinputs i (List.mem_append_right past hi)) hm'
    have hrun : (start.run past).run later = start.run (past ++ later) := (List.foldl_append ..).symm
    rw [hrun, seated, List.getElem?_map, hk] at hm₁
    cases hm₁
    exact hw₁.symm
  obtain ⟨hlast, hcalls⟩ := (shadows_start k m.window host own).run hignores hkeeps hstart hstart hpast hwindow
  exact ⟨rel_of_seated hlast.manager, hcalls⟩

/-- Two windows. A message for the guest, a text that is none and the other guest's greeting are posted before the first
guest greets. -/
def twoWindows : List (Input Unit Sandbox.RecordingFrame) :=
  [.mount { window := ⟨1⟩, attributes := "allow-scripts" },
    .mount { window := ⟨2⟩, attributes := "allow-scripts" },
    .on 0 (.render "<p>" .null),
    .arrive ⟨⟨1⟩, "[\"RENDER\", \"<b>\", null]"⟩,
    .arrive ⟨⟨1⟩, "READY"⟩,
    .arrive ⟨⟨2⟩, "[\"READY\"]"⟩,
    .arrive ⟨⟨1⟩, "[\"READY\"]"⟩,
    .on 0 .pump]

/-- The first manager is ready and has posted what it was to render, and so it would be without these three events. -/
theorem foreign_events_unheard_twoWindows :
    let start : Page Unit Sandbox.RecordingFrame := { host := {}, own := () }
    let spared := twoWindows.filter (Input.isKept 0 ⟨1⟩)
    spared.length = 5 ∧ ∃ m m', (start.run twoWindows).managers[0]? = some m ∧ m.phase = .ready ∧
      m.frame.calls.length = 2 ∧ (start.run spared).managers[0]? = some m' ∧ m.Alike m' := by
  intro start spared
  have hplain : ∀ i ∈ twoWindows, i.IsPlain := by
    simp only [twoWindows, List.forall_mem_cons]
    exact ⟨trivial, trivial, trivial, trivial, trivial, trivial, trivial, trivial, fun _ hi => absurd hi List.not_mem_nil⟩
  have hfirst : ((start.run twoWindows).managers[0]?).map (fun m => (m.window, m.phase, m.frame.calls.length)) =
      some (⟨1⟩, .ready, 2) := by
    decide +kernel
  obtain ⟨m, hm, hfacts⟩ := Option.map_eq_some_iff.1 hfirst
  rw [Prod.mk.injEq, Prod.mk.injEq] at hfacts
  obtain ⟨hwindow, hready, hcalls⟩ := hfacts
  have hspared {o : Option (Manager (Watched Sandbox.RecordingFrame))} (h : Option.Rel Manager.Alike (some m) o) :
      ∃ m', o = some m' ∧ m.Alike m' := by
    cases h with
    | some halike => exact ⟨_, rfl, halike⟩
  have hrel := (foreign_events_unheard Sandbox.ignoresListeners_recording Sandbox.keepsWindow_recording {} ()
    twoWindows hplain hm (List.prefix_refl twoWindows)).1
  rw [hwindow, hm] at hrel
  obtain ⟨m', hm', halike⟩ := hspared hrel
  exact ⟨by decide +kernel, m, m', hm, hready, hcalls, hm', halike⟩

end Page

end SecureLayout
