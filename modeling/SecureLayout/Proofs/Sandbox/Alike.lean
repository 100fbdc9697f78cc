import Mathlib.Data.List.Forall2
import SecureLayout.Proofs.Sandbox.Teardown
import SecureLayout.Sandbox.Guest

/-!
Managers that differ in where they listen and in nothing else. Main statement: they answer alike, and go on being alike,
whatever is done to them.
-/

namespace SecureLayout.Sandbox

open Json (Value)
open Wire (FrameMessage)

variable {φ : Type}

/-! ### Lists in pairs -/

section

variable {α β : Type} {R : α → β → Prop} {xs : List α} {ys : List β}

theorem forall₂_getElem? (h : List.Forall₂ R xs ys) (i : Nat) : Option.Rel R xs[i]? ys[i]? := by
  induction h generalizing i with
  | nil => exact .none
  | cons hxy _ ih =>
    cases i with
    | zero => exact .some hxy
    | succ i => exact ih i

theorem forall₂_set (h : List.Forall₂ R xs ys) {x : α} {y : β} (hxy : R x y) (i : Nat) :
    List.Forall₂ R (xs.set i x) (ys.set i y) := by
  induction h generalizing i with
  | nil => exact .nil
  | cons hab hrest ih =>
    cases i with
    | zero => exact .cons hxy hrest
    | succ i => exact .cons hab (ih i)

theorem forall₂_modify (h : List.Forall₂ R xs ys) {f : α → α} {g : β → β} (hfg : ∀ x y, R x y → R (f x) (g y))
    (i : Nat) : List.Forall₂ R (xs.modify i f) (ys.modify i g) := by
  induction h generalizing i with
  | nil => simp
  | cons hab hrest ih =>
    cases i with
    | zero => exact .cons (hfg _ _ hab) hrest
    | succ i => exact .cons hab (ih i)

end

/-! ### Managers that listen elsewhere -/

/-- What a frame does when it is attached has nothing to do with the listeners of the window. -/
def IgnoresListeners (φ : Type) [IsolatedFrame φ] : Prop :=
  ∀ (w w' : HostWindow) (f : φ), w'.runsTasks = w.runsTasks → IsolatedFrame.attach w' f = IsolatedFrame.attach w f

theorem ignoresListeners_guest : IgnoresListeners Guest := by
  intro w w' g hruns
  change Guest.attach w' g = Guest.attach w g
  rw [Guest.attach, Guest.attach, hruns]

namespace Manager

/-- The manager, listening elsewhere. -/
def moved (m : Manager φ) (w : HostWindow) (l : Nat) : Manager φ :=
  { m with host := w, listener := l }

def Alike (m m' : Manager φ) : Prop :=
  ∃ w l, m' = m.moved w l

theorem alike_moved (m : Manager φ) (w : HostWindow) (l : Nat) : m.Alike (m.moved w l) :=
  ⟨w, l, rfl⟩

variable {m m' : Manager φ}

theorem Alike.phase (h : m.Alike m') : m'.phase = m.phase := by
  obtain ⟨w, l, rfl⟩ := h
  rfl

theorem Alike.within (h : m.Alike m') (w w' : HostWindow) : (m.within w).Alike (m'.within w') := by
  obtain ⟨v, l, rfl⟩ := h
  exact ⟨w', l, rfl⟩

theorem Alike.takeEvents (h : m.Alike m') : m.takeEvents.2.Alike m'.takeEvents.2 := by
  obtain ⟨w, l, rfl⟩ := h
  exact ⟨_, l, rfl⟩

variable [IsolatedFrame φ]

theorem send_moved (m : Manager φ) (w : HostWindow) (l : Nat) (x : FrameMessage) :
    (m.moved w l).send x = ((m.send x).1, (m.send x).2.moved w l) := by
  have hphase : (m.moved w l).phase = m.phase := rfl
  unfold send
  rw [hphase]
  cases m.phase <;> rfl

theorem Alike.send (h : m.Alike m') (x : FrameMessage) :
    (m'.send x).1 = (m.send x).1 ∧ (m.send x).2.Alike (m'.send x).2 := by
  obtain ⟨w, l, rfl⟩ := h
  rw [send_moved]
  exact ⟨rfl, alike_moved ..⟩

theorem Alike.render (h : m.Alike m') (html : String) (context : Value) :
    (m'.render html context).1 = (m.render html context).1 ∧
      (m.render html context).2.Alike (m'.render html context).2 :=
  h.send _

theorem Alike.updateContext (h : m.Alike m') (path : String) (value : Value) :
    (m'.updateContext path value).1 = (m.updateContext path value).1 ∧
      (m.updateContext path value).2.Alike (m'.updateContext path value).2 :=
  h.send _

theorem flush_moved (m : Manager φ) (w : HostWindow) (l : Nat) : (m.moved w l).flush = m.flush.moved w l := by
  have hposted : m.queue.foldl (fun m x => (m.post x).2) (m.moved w l) =
      (m.queue.foldl (fun m x => (m.post x).2) m).moved w l :=
    List.foldl_hom (fun m : Manager φ => m.moved w l) fun _ _ => rfl
  exact congrArg (fun m : Manager φ => { m with queue := [] }) hposted

theorem receive_moved (m : Manager φ) (w : HostWindow) (l : Nat) (x : FrameMessage) :
    (m.moved w l).receive x = ((m.receive x).1, (m.receive x).2.moved w l) := by
  cases x with
  | ready =>
    unfold receive
    by_cases h : m.phase = .waiting
    · have hflush := flush_moved { m with phase := .ready } w l
      simp only [moved, h, if_true] at hflush ⊢
      exact congrArg (Prod.mk none) hflush
    · simp only [moved, h, if_false]
  | rendered | outputChange | error | render | updateContext => rfl

theorem Alike.handleEvent (h : m.Alike m') (e : MessageEvent) :
    (m'.handleEvent e).1 = (m.handleEvent e).1 ∧ (m.handleEvent e).2.Alike (m'.handleEvent e).2 := by
  obtain ⟨w, l, rfl⟩ := h
  have hmoved : (m.moved w l).handleEvent e = ((m.handleEvent e).1, (m.handleEvent e).2.moved w l) := by
    have hframe : (m.moved w l).frame = m.frame := rfl
    have hphase : (m.moved w l).phase = m.phase := rfl
    unfold handleEvent
    rw [hframe, hphase]
    split
    · rfl
    · cases FrameMessage.decode e.data with
      | error _ => rfl
      | ok x => exact receive_moved m w l x
  rw [hmoved]
  exact ⟨rfl, alike_moved ..⟩

theorem Alike.pump (h : m.Alike m') (hevents : m'.takeEvents.1 = m.takeEvents.1) :
    m'.pump.1 = m.pump.1 ∧ m.pump.2.Alike m'.pump.2 := by
  have hpump (n : Manager φ) : n.pump = n.takeEvents.1.foldl
      (fun x e => (x.1 ++ (x.2.handleEvent e).1.toList, (x.2.handleEvent e).2)) ([], n.takeEvents.2) := rfl
  rw [hpump, hpump, hevents]
  refine List.foldl_rel (r := fun x y : List Notice × Manager φ => y.1 = x.1 ∧ x.2.Alike y.2)
    ⟨rfl, h.takeEvents⟩ fun e _ x y hxy => ?_
  obtain ⟨hnotice, hnext⟩ := hxy.2.handleEvent e
  exact ⟨by rw [hxy.1, hnotice], hnext⟩

theorem Alike.destroy (h : m.Alike m') : m.destroy.Alike m'.destroy := by
  by_cases hm : m.phase = .destroyed
  · rw [m.destroy_of_destroyed hm, m'.destroy_of_destroyed (h.phase.trans hm)]
    exact h
  · obtain ⟨w, l, rfl⟩ := h
    unfold Manager.destroy
    split
    · contradiction
    · split
      · contradiction
      · exact ⟨_, l, rfl⟩

/-- They can be mounted in one window just as in another. -/
theorem mount_alike (hignores : IgnoresListeners φ) {w w' : HostWindow} (hruns : w'.runsTasks = w.runsTasks)
    {frame : φ} (h : mount w frame = .ok m) : ∃ m', mount w' frame = .ok m' ∧ m.Alike m' := by
  have hattach := hignores w.addListener.2 w'.addListener.2 frame hruns
  unfold mount at h ⊢
  rw [hruns]
  split at h
  · cases h
  · split at h
    · cases h
    · next hvalid htasks =>
      rw [if_neg htasks]
      dsimp only at h ⊢
      rw [hattach]
      split at h
      · cases h
        exact ⟨_, rfl, _, _, rfl⟩
      · cases h

theorem mount_error_alike (hignores : IgnoresListeners φ) {w w' : HostWindow} (hruns : w'.runsTasks = w.runsTasks)
    {frame : φ} {f : MountFailure φ} (h : mount w frame = .error f) :
    ∃ f', mount w' frame = .error f' ∧ f'.cause = f.cause := by
  have hattach := hignores w.addListener.2 w'.addListener.2 frame hruns
  unfold mount at h ⊢
  rw [hruns]
  split at h
  · cases h
    exact ⟨_, rfl, rfl⟩
  · split at h
    · next htasks =>
      cases h
      rw [if_pos htasks]
      exact ⟨_, rfl, rfl⟩
    · next htasks =>
      rw [if_neg htasks]
      dsimp only at h ⊢
      rw [hattach]
      split at h
      · cases h
      · cases h
        exact ⟨_, rfl, rfl⟩

/-! ### Inboxes of managers -/

omit [IsolatedFrame φ] in
/-- What was posted for one of several managers of a window. -/
def inbox? (host : HostWindow) (ms : List (Manager φ)) (k : Nat) : Option Inbox :=
  (ms[k]?).bind fun m => host.inboxes[m.listener]?

variable {host : HostWindow} {n k : Nat} {ms ms' : List (Manager (Watched φ))} {m m' : Manager (Watched φ)}

omit [IsolatedFrame φ] in
theorem inbox?_talks (t : Talks ms ms') (host : HostWindow) (k : Nat) : inbox? host ms' k = inbox? host ms k := by
  unfold inbox?
  cases hk : ms[k]? with
  | none =>
    have hk' : ms'[k]? = none := by rw [List.getElem?_eq_none_iff, t.length, ← List.getElem?_eq_none_iff, hk]
    rw [hk']
  | some m =>
    obtain ⟨m', hm', htalked⟩ := t.talked hk
    rw [hm', Option.bind_some, Option.bind_some, htalked.listener]

omit [IsolatedFrame φ] in
/-- Where one manager does something to its listener, the others are not concerned. -/
theorem inbox?_set (h : Roster n host ms) (hk : ms[k]? = some m) (hlistener : m'.listener = m.listener)
    {host' : HostWindow} {f : Inbox → Inbox}
    (hhost : ∀ i, host'.inboxes[i]? = if i = m.listener then (host.inboxes[i]?).map f else host.inboxes[i]?) (j : Nat) :
    inbox? host' (ms.set k m') j = if j = k then (inbox? host ms j).map f else inbox? host ms j := by
  unfold inbox?
  split
  · next he =>
    subst he
    rw [List.getElem?_set_self (List.getElem?_eq_some_iff.1 hk).1, hk, Option.bind_some, Option.bind_some, hhost,
      if_pos hlistener, hlistener]
  · next he =>
    rw [List.getElem?_set_ne (Ne.symm he)]
    cases hj : ms[j]? with
    | none => rfl
    | some m₁ => rw [Option.bind_some, Option.bind_some, hhost, if_neg fun hl => he (h.distinct hj hk hl)]

omit [IsolatedFrame φ] in
theorem inbox?_modify {f : Manager (Watched φ) → Manager (Watched φ)} (hf : ∀ m, (f m).listener = m.listener)
    (host : HostWindow) (ms : List (Manager (Watched φ))) (j k : Nat) :
    inbox? host (ms.modify k f) j = inbox? host ms j := by
  rw [inbox?, inbox?, List.getElem?_modify]
  split
  · rw [Option.map_eq_map, Option.bind_map]
    exact congrArg (Option.bind ms[j]?) (funext fun m => congrArg (host.inboxes[·]?) (hf m))
  · rw [Option.map_eq_map, Option.map_id']

omit [IsolatedFrame φ] in
theorem inbox?_post (host : HostWindow) (ms : List (Manager (Watched φ))) (e : MessageEvent) (k : Nat) :
    inbox? (host.post e) ms k = (inbox? host ms k).map fun b => HostWindow.Inbox.take b e := by
  rw [inbox?, inbox?, Option.map_bind]
  exact congrArg (Option.bind ms[k]?) (funext fun m => List.getElem?_map ..)

theorem inbox?_mount (h : Roster n host ms) {frame : φ} (hm : mount host ({ frame } : Watched φ) = .ok m) (j : Nat) :
    inbox? m.host (ms ++ [m]) j = if j = ms.length then some {} else inbox? host ms j := by
  obtain ⟨hhost, hlistener, -⟩ := listener_of_mount hm
  rw [inbox?, inbox?, hhost]
  split
  · next he => rw [he, List.getElem?_concat_length, Option.bind_some, hlistener, host.inboxes_addListener, if_pos rfl]
  · next he =>
    cases hj : ms[j]? with
    | none =>
      have hend : (ms ++ [m])[j]? = none := by
        rw [List.getElem?_eq_none_iff] at hj ⊢
        rw [List.length_append, List.length_singleton]
        omega
      rw [hend]
      rfl
    | some m₁ =>
      rw [List.getElem?_append_left (List.getElem?_eq_some_iff.1 hj).1, hj, Option.bind_some, Option.bind_some,
        host.inboxes_addListener, if_neg (Nat.ne_of_lt (h.standing hj).upper)]

/-- The listener that a failed mount leaves behind is nobody's. -/
theorem inbox?_refuse (h : Roster n host ms) {frame : φ} {f : MountFailure (Watched φ)}
    (hf : mount host { frame } = .error f) :
    f.host.runsTasks = host.runsTasks ∧ ∀ j, inbox? f.host ms j = inbox? host ms j := by
  rcases mount_eq_error hf with ⟨he, -⟩ | ⟨he, -⟩ <;> rw [he]
  · exact ⟨rfl, fun _ => rfl⟩
  · refine ⟨rfl, fun j => ?_⟩
    rw [inbox?, inbox?]
    cases hj : ms[j]? with
    | none => rfl
    | some m =>
      have hother := Nat.ne_of_lt (h.standing hj).upper
      rw [Option.bind_some, Option.bind_some, HostWindow.inboxes_release, if_neg hother, host.inboxes_addListener,
        if_neg hother]

theorem ignoresListeners_watched (h : IgnoresListeners φ) : IgnoresListeners (Watched φ) := by
  intro w w' f hruns
  simp only [IsolatedFrame.attach, h w w' f.frame hruns]

end Manager

end SecureLayout.Sandbox
