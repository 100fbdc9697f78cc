import Mathlib.Logic.Relation
import SecureLayout.Proofs.Sandbox.Transport

/-!
Several managers of one host window. `Talked` is what happens to a manager as long as nobody takes its frame out, and
`Roster` is what a window and its managers are like at any time. Main statements: mounting, talking and teardown keep
the roster, so a listener is registered just as long as its manager lives, and a frame is taken out once.
-/

namespace SecureLayout.Sandbox

open Json (Value)
open Wire (FrameMessage)

/-! ### One of a list -/

section

variable {α : Type} {xs : List α} {x y : α} {i k : Nat}

theorem getElem?_set_cases (h : (xs.set k x)[i]? = some y) : i = k ∧ y = x ∨ i ≠ k ∧ xs[i]? = some y := by
  rw [List.getElem?_set] at h
  split at h
  · next he =>
    split at h
    · cases h
      exact .inl ⟨he.symm, rfl⟩
    · cases h
  · next he => exact .inr ⟨fun hi => he hi.symm, h⟩

theorem getElem?_concat_cases (h : (xs ++ [x])[i]? = some y) : i = xs.length ∧ y = x ∨ xs[i]? = some y := by
  rw [List.getElem?_append] at h
  split at h
  · exact .inr h
  · rw [List.getElem?_singleton] at h
    split at h
    · cases h
      exact .inl ⟨by omega, rfl⟩
    · cases h

end

/-! ### Frames that keep count -/

/-- What is done to a frame. -/
inductive FrameCall where
  | attach
  | post (raw : String)
  | remove
  deriving DecidableEq

/-- A frame and all that was done to it so far, refused or not. -/
structure Watched (φ : Type) where
  frame : φ
  calls : List FrameCall := []

variable {φ : Type}

instance [IsolatedFrame φ] : IsolatedFrame (Watched φ) where
  window f := IsolatedFrame.window f.frame
  attributes f := IsolatedFrame.attributes f.frame
  attach host f :=
    let (r, frame) := IsolatedFrame.attach host f.frame
    (r, ⟨frame, f.calls ++ [.attach]⟩)
  post raw f :=
    let (r, frame) := IsolatedFrame.post raw f.frame
    (r, ⟨frame, f.calls ++ [.post raw]⟩)
  remove f := ⟨IsolatedFrame.remove f.frame, f.calls ++ [.remove]⟩
  isAttached f := IsolatedFrame.isAttached f.frame

namespace Watched

/-- How often the frame was taken out of the page. -/
def removals (f : Watched φ) : Nat :=
  f.calls.count .remove

variable [IsolatedFrame φ]

theorem removals_attach (host : HostWindow) (f : Watched φ) :
    (IsolatedFrame.attach host f).2.removals = f.removals := by
  simp [removals, IsolatedFrame.attach]

theorem removals_post (raw : String) (f : Watched φ) : (IsolatedFrame.post raw f).2.removals = f.removals := by
  simp [removals, IsolatedFrame.post]

theorem removals_remove (f : Watched φ) : (IsolatedFrame.remove f).removals = f.removals + 1 := by
  simp [removals, IsolatedFrame.remove]

end Watched

/-! ### Listeners -/

namespace HostWindow

/-- Whether a listener is registered, and whether it is read. -/
def flags (w : HostWindow) (i : Nat) : Option (Bool × Bool) :=
  (w.inboxes[i]?).map fun b => (b.isRegistered, b.isRead)

/-- Nobody listens there any more. -/
def release (w : HostWindow) (i : Nat) : HostWindow :=
  (w.removeListener i).2.abandon i

variable (w : HostWindow) (i j : Nat)

theorem inboxes_addListener :
    w.addListener.2.inboxes[i]? = if i = w.inboxes.length then some {} else w.inboxes[i]? := by
  simp only [addListener, List.getElem?_append, List.getElem?_singleton]
  rcases Nat.lt_trichotomy i w.inboxes.length with h | h | h
  · rw [if_pos h, if_neg (Nat.ne_of_lt h)]
  · simp [h]
  · rw [if_neg (by omega), if_neg (by omega), if_neg (Nat.ne_of_gt h), List.getElem?_eq_none (by omega)]

theorem inboxes_drain :
    (w.drain j).2.inboxes[i]? =
      if i = j then (w.inboxes[i]?).map fun b => { b with events := [] } else w.inboxes[i]? := by
  simp only [drain, List.getElem?_modify, eq_comm (a := j)]
  split <;> simp

theorem inboxes_release :
    (w.release j).inboxes[i]? =
      if i = j then (w.inboxes[i]?).map fun _ => { isRead := false, isRegistered := false } else w.inboxes[i]? := by
  simp only [release, removeListener, abandon, List.getElem?_modify, eq_comm (a := j)]
  split <;> simp [Function.comp_def]

theorem isRegistered_eq : w.isRegistered i = (w.flags i).any Prod.fst := by
  rw [isRegistered, flags, Option.any_map]

theorem flags_addListener :
    w.addListener.2.flags i = if i = w.inboxes.length then some (true, true) else w.flags i := by
  rw [flags, inboxes_addListener]
  split <;> rfl

theorem flags_drain : (w.drain j).2.flags i = w.flags i := by
  rw [flags, inboxes_drain]
  split <;> simp [flags, Function.comp_def]

theorem flags_post (e : MessageEvent) : (w.post e).flags i = (w.flags i).map fun b => (b.1 && b.2, b.2) := by
  simp only [flags, post, List.getElem?_map, Option.map_map]
  refine congrArg (Option.map · _) (funext fun b => ?_)
  cases hr : b.isRegistered <;> cases hd : b.isRead <;> simp [Inbox.take, hr, hd]

theorem flags_release :
    (w.release j).flags i = if i = j then (w.flags i).map fun _ => (false, false) else w.flags i := by
  rw [flags, inboxes_release]
  split <;> simp [flags, Function.comp_def]

theorem length_release : (w.release j).inboxes.length = w.inboxes.length := by
  simp [release, removeListener, abandon]

end HostWindow

namespace Manager

variable {m m' m'' : Manager (Watched φ)} {ms ms' ms'' : List (Manager (Watched φ))} {host : HostWindow} {n k : Nat}

/-! ### What is not teardown -/

/-- `m` becomes `m'` without being torn down: it keeps its listener and leaves the window alone, its frame is not taken
out, and if it is gone already nothing becomes of it. -/
structure Talked (m m' : Manager (Watched φ)) : Prop where
  host : m'.host = m.host
  listener : m'.listener = m.listener
  removals : m'.frame.removals = m.frame.removals
  alive : m.phase ≠ .destroyed → m'.phase ≠ .destroyed
  gone : m.phase = .destroyed → m' = m

theorem Talked.refl (m : Manager (Watched φ)) : Talked m m :=
  ⟨rfl, rfl, rfl, id, fun _ => rfl⟩

theorem Talked.trans (h : Talked m m') (h' : Talked m' m'') : Talked m m'' where
  host := h'.host.trans h.host
  listener := h'.listener.trans h.listener
  removals := h'.removals.trans h.removals
  alive hm := h'.alive (h.alive hm)
  gone hm := by
    obtain rfl := h.gone hm
    exact h'.gone hm

/-- For a manager that is there, the clause on those that are gone says nothing. -/
theorem Talked.of_alive (hm : m.phase ≠ .destroyed) (hhost : m'.host = m.host) (hlistener : m'.listener = m.listener)
    (hremovals : m'.frame.removals = m.frame.removals) (hphase : m'.phase ≠ .destroyed) : Talked m m' :=
  ⟨hhost, hlistener, hremovals, fun _ => hphase, fun h => absurd h hm⟩

variable [IsolatedFrame φ]

theorem talked_post (hm : m.phase ≠ .destroyed) (x : FrameMessage) : Talked m (m.post x).2 :=
  .of_alive hm rfl rfl (Watched.removals_post x.encode m.frame) hm

theorem talked_send (m : Manager (Watched φ)) (x : FrameMessage) : Talked m (m.send x).2 := by
  unfold send
  cases hm : m.phase with
  | waiting => exact .of_alive (by simp [hm]) rfl rfl rfl nofun
  | ready => exact talked_post (by simp [hm]) x
  | destroyed => exact .refl m

theorem talked_render (m : Manager (Watched φ)) (html : String) (context : Value) :
    Talked m (m.render html context).2 :=
  talked_send m _

theorem talked_updateContext (m : Manager (Watched φ)) (path : String) (value : Value) :
    Talked m (m.updateContext path value).2 :=
  talked_send m _

theorem talked_flush (hm : m.phase ≠ .destroyed) : Talked m m.flush := by
  have hfold : ∀ (xs : List FrameMessage) (m' : Manager (Watched φ)), Talked m m' →
      Talked m (xs.foldl (fun m x => (m.post x).2) m') := by
    intro xs
    induction xs with
    | nil => exact fun m' h => h
    | cons x xs ih => exact fun m' h => ih _ (h.trans (talked_post (h.alive hm) x))
  have hposted := hfold m.queue m (.refl m)
  exact .of_alive hm hposted.host hposted.listener hposted.removals (hposted.alive hm)

theorem talked_receive (hm : m.phase ≠ .destroyed) (x : FrameMessage) : Talked m (m.receive x).2 := by
  cases x with
  | ready =>
    unfold receive
    dsimp only
    split
    · have hready : ({ m with phase := .ready } : Manager (Watched φ)).phase ≠ .destroyed := nofun
      have hflush := talked_flush hready
      exact .of_alive hm hflush.host hflush.listener hflush.removals (hflush.alive hready)
    · exact .refl m
  | rendered | error text => exact .of_alive hm rfl rfl rfl hm
  | outputChange | render | updateContext => exact .refl m

theorem talked_handleEvent (m : Manager (Watched φ)) (e : MessageEvent) : Talked m (m.handleEvent e).2 := by
  rcases handleEvent_cases m e with ⟨-, he⟩ | ⟨x, -, hm, he⟩ <;> rw [he]
  · exact .refl m
  · exact talked_receive hm x

theorem talked_handleAll (m : Manager (Watched φ)) (es : List MessageEvent) : Talked m (m.handleAll es) := by
  induction es generalizing m with
  | nil => exact .refl m
  | cons e es ih => exact (talked_handleEvent m e).trans (ih _)

theorem talked_pump (m : Manager (Watched φ)) : Talked m.takeEvents.2 m.pump.2 := by
  rw [pump_eq]
  exact talked_handleAll m.takeEvents.2 m.takeEvents.1

/-- Each of several managers has talked. -/
structure Talks (ms ms' : List (Manager (Watched φ))) : Prop where
  length : ms'.length = ms.length
  talked : ∀ {k : Nat} {m : Manager (Watched φ)}, ms[k]? = some m → ∃ m', ms'[k]? = some m' ∧ Talked m m'

omit [IsolatedFrame φ] in
theorem Talks.refl (ms : List (Manager (Watched φ))) : Talks ms ms :=
  ⟨rfl, fun hk => ⟨_, hk, .refl _⟩⟩

omit [IsolatedFrame φ] in
theorem Talks.exists_before (h : Talks ms ms') (hk : ms'[k]? = some m') : ∃ m, ms[k]? = some m ∧ Talked m m' := by
  have hlt : k < ms.length := h.length ▸ (List.getElem?_eq_some_iff.1 hk).1
  obtain ⟨m'', hm'', htalked⟩ := h.talked (List.getElem?_eq_getElem hlt)
  cases hk.symm.trans hm''
  exact ⟨_, List.getElem?_eq_getElem hlt, htalked⟩

omit [IsolatedFrame φ] in
theorem Talks.trans (h : Talks ms ms') (h' : Talks ms' ms'') : Talks ms ms'' := by
  refine ⟨h'.length.trans h.length, fun hk => ?_⟩
  obtain ⟨m', hm', htalked⟩ := h.talked hk
  obtain ⟨m'', hm'', htalked'⟩ := h'.talked hm'
  exact ⟨m'', hm'', htalked.trans htalked'⟩

omit [IsolatedFrame φ] in
/-- What the others do is done all the same beside one that is put in its place. -/
theorem Talks.set_same (h : Talks ms ms') (k : Nat) (m : Manager (Watched φ)) : Talks (ms.set k m) (ms'.set k m) := by
  refine ⟨by simpa using h.length, fun {i m₀} hi => ?_⟩
  rcases getElem?_set_cases hi with ⟨rfl, rfl⟩ | ⟨hne, hi⟩
  · have hlt : i < ms.length := by simpa using (List.getElem?_eq_some_iff.1 hi).1
    exact ⟨m₀, List.getElem?_set_self (h.length ▸ hlt), .refl m₀⟩
  · obtain ⟨m', hm', htalked⟩ := h.talked hi
    exact ⟨m', (List.getElem?_set_ne hne.symm).trans hm', htalked⟩

omit [IsolatedFrame φ] in
/-- One of them may talk on. -/
theorem Talks.set (h : Talks ms (ms'.set k m)) (hm : Talked m m') : Talks ms (ms'.set k m') := by
  refine ⟨by simpa using h.length, fun {i m₀} hi => ?_⟩
  obtain ⟨m₁, hm₁, htalked⟩ := h.talked hi
  rcases getElem?_set_cases hm₁ with ⟨rfl, rfl⟩ | ⟨hne, hm₁⟩
  · have hlt : i < ms'.length := by simpa using (List.getElem?_eq_some_iff.1 hm₁).1
    exact ⟨m', List.getElem?_set_self hlt, htalked.trans hm⟩
  · exact ⟨m₁, (List.getElem?_set_ne hne.symm).trans hm₁, htalked⟩

omit [IsolatedFrame φ] in
/-- The last one may talk on. -/
theorem talks_concat (ms : List (Manager (Watched φ))) (hm : Talked m m') : Talks (ms ++ [m]) (ms ++ [m']) := by
  have hset (m₀ : Manager (Watched φ)) : (ms ++ [m]).set ms.length m₀ = ms ++ [m₀] := by simp
  have hsame := hset m
  rw [← hset m']
  refine Talks.set ?_ hm
  rw [hsame]
  exact .refl _

/-! ### Managers of one window -/

variable {host' : HostWindow}

/-- The listener of a manager is registered for as long as the manager is there, and its frame is taken out once. -/
structure Standing (n : Nat) (host : HostWindow) (m : Manager (Watched φ)) : Prop where
  lower : n ≤ m.listener
  upper : m.listener < host.inboxes.length
  alive : m.phase ≠ .destroyed → host.flags m.listener = some (true, true)
  gone : m.phase = .destroyed → host.isRegistered m.listener = false
  removals : m.frame.removals = if m.phase = .destroyed then 1 else 0

/-- The managers of a window that had `n` listeners before. Nobody listens beside them. -/
structure Roster (n : Nat) (host : HostWindow) (ms : List (Manager (Watched φ))) : Prop where
  start : n ≤ host.inboxes.length
  standing : ∀ {k : Nat} {m : Manager (Watched φ)}, ms[k]? = some m → m.Standing n host
  distinct : ∀ {j k : Nat} {m m' : Manager (Watched φ)}, ms[j]? = some m → ms[k]? = some m' →
    m.listener = m'.listener → j = k
  owned : ∀ {i : Nat}, n ≤ i → host.isRegistered i = true →
    ∃ (k : Nat) (m : Manager (Watched φ)), ms[k]? = some m ∧ m.listener = i

omit [IsolatedFrame φ] in
theorem roster_nil (host : HostWindow) : Roster (φ := φ) host.inboxes.length host [] where
  start := Nat.le_refl _
  standing hk := nomatch hk
  distinct hj := nomatch hj
  owned hi hreg := by
    rw [HostWindow.isRegistered, List.getElem?_eq_none hi] at hreg
    cases hreg

omit [IsolatedFrame φ] in
theorem Roster.isRegistered_iff (h : Roster n host ms) {i : Nat} (hi : n ≤ i) :
    host.isRegistered i = true ↔
      ∃ (k : Nat) (m : Manager (Watched φ)), ms[k]? = some m ∧ m.listener = i ∧ m.phase ≠ .destroyed := by
  constructor
  · intro hreg
    obtain ⟨k, m, hk, rfl⟩ := h.owned hi hreg
    refine ⟨k, m, hk, rfl, fun hm => ?_⟩
    rw [(h.standing hk).gone hm] at hreg
    cases hreg
  · rintro ⟨k, m, hk, rfl, hm⟩
    rw [host.isRegistered_eq, (h.standing hk).alive hm]
    rfl

/-! ### What happens to a window -/

omit [IsolatedFrame φ] in
/-- What is done to the listeners of others does not matter. -/
theorem Standing.of_flags (h : m.Standing n host) (hlength : host.inboxes.length ≤ host'.inboxes.length)
    (hsame : host'.flags m.listener = host.flags m.listener) : m.Standing n host' :=
  { h with
    upper := Nat.lt_of_lt_of_le h.upper hlength
    alive := fun ha => hsame.trans (h.alive ha)
    gone := fun hg => by rw [HostWindow.isRegistered_eq, hsame, ← host.isRegistered_eq, h.gone hg] }

omit [IsolatedFrame φ] in
/-- What leaves the listeners that are read registered, and registers none, keeps the roster. -/
theorem Roster.of_flags (h : Roster n host ms) (hlength : host.inboxes.length ≤ host'.inboxes.length)
    (halive : ∀ i, host.flags i = some (true, true) → host'.flags i = some (true, true))
    (hreg : ∀ i, host'.isRegistered i = true → host.isRegistered i = true) : Roster n host' ms where
  start := Nat.le_trans h.start hlength
  standing hk :=
    let hm := h.standing hk
    { hm with
      upper := Nat.lt_of_lt_of_le hm.upper hlength
      alive := fun ha => halive _ (hm.alive ha)
      gone := fun hg => Bool.eq_false_iff.2 fun hr => Bool.eq_false_iff.1 (hm.gone hg) (hreg _ hr) }
  distinct := h.distinct
  owned hi hr := h.owned hi (hreg _ hr)

omit [IsolatedFrame φ] in
theorem Roster.drain (h : Roster n host ms) (i : Nat) : Roster n (host.drain i).2 ms := by
  refine h.of_flags (by simp [HostWindow.drain]) (fun j hj => ?_) fun j hj => ?_
  · rw [host.flags_drain, hj]
  · rwa [HostWindow.isRegistered_eq, host.flags_drain, ← host.isRegistered_eq] at hj

omit [IsolatedFrame φ] in
theorem Roster.post (h : Roster n host ms) (e : MessageEvent) : Roster n (host.post e) ms := by
  refine h.of_flags (by simp [HostWindow.post]) (fun j hj => ?_) fun j hj => ?_
  · rw [host.flags_post, hj]
    rfl
  · rw [HostWindow.isRegistered_eq, host.flags_post] at hj
    rw [host.isRegistered_eq]
    revert hj
    cases host.flags j <;> simp +contextual

/-- A mount that fails leaves everything as it was, or a listener behind that nobody hears. In the latter case the frame
has refused, and it is taken out of the page, whoever put it there. -/
theorem mount_eq_error {ψ : Type} [IsolatedFrame ψ] {frame : ψ} {f : MountFailure ψ}
    (hf : mount host frame = .error f) :
    f.host = host ∧ f.frame = frame ∨
      f.host = host.addListener.2.release host.inboxes.length ∧
        ∃ frame', IsolatedFrame.attach host.addListener.2 frame = (.error f.cause, frame') ∧
          f.frame = IsolatedFrame.remove frame' := by
  unfold mount at hf
  split at hf
  · cases hf
    exact .inl ⟨rfl, rfl⟩
  · split at hf
    · cases hf
      exact .inl ⟨rfl, rfl⟩
    · dsimp only at hf
      split at hf
      · cases hf
      · next hattach =>
        cases hf
        exact .inr ⟨rfl, _, hattach, rfl⟩

/-- A listener that was added for a frame that could not be attached is not registered any more. -/
theorem Roster.refuse (h : Roster n host ms) {frame : Watched φ} {f : MountFailure (Watched φ)}
    (hf : mount host frame = .error f) : Roster n f.host ms := by
  rcases mount_eq_error hf with ⟨he, -⟩ | ⟨he, -⟩ <;> rw [he]
  · exact h
  · have hflags (i : Nat) : (host.addListener.2.release host.inboxes.length).flags i =
        if i = host.inboxes.length then some (false, false) else host.flags i := by
      rw [HostWindow.flags_release, host.flags_addListener]
      split <;> rfl
    have hend : host.flags host.inboxes.length = none := by simp [HostWindow.flags]
    refine h.of_flags ?_ (fun i hi => ?_) fun i hi => ?_
    · rw [HostWindow.length_release]
      simp [HostWindow.addListener]
    · rw [hflags, if_neg ?_, hi]
      rintro rfl
      rw [hend] at hi
      cases hi
    · rw [HostWindow.isRegistered_eq, hflags] at hi
      split at hi
      · cases hi
      · rwa [host.isRegistered_eq]

theorem listener_of_mount {frame : Watched φ} (hm : mount host frame = .ok m) :
    m.host = host.addListener.2 ∧ m.listener = host.inboxes.length ∧ m.frame.removals = frame.removals := by
  unfold mount at hm
  split at hm
  · cases hm
  · split at hm
    · cases hm
    · have hremovals := frame.removals_attach host.addListener.2
      dsimp only at hm
      split at hm
      · next he =>
        rw [he] at hremovals
        cases hm
        exact ⟨rfl, rfl, hremovals⟩
      · cases hm

theorem Roster.mount (h : Roster n host ms) {frame : φ} (hm : Manager.mount host { frame } = .ok m) :
    Roster n m.host (ms ++ [m]) := by
  obtain ⟨hhost, hlistener, hremovals⟩ := listener_of_mount hm
  have hphase := (mount_eq_ok hm).1
  have hflags (i : Nat) : m.host.flags i = if i = m.listener then some (true, true) else host.flags i := by
    rw [hhost, hlistener, host.flags_addListener]
  have hreg {i : Nat} (hi : i ≠ m.listener) : m.host.isRegistered i = host.isRegistered i := by
    rw [HostWindow.isRegistered_eq, hflags, if_neg hi, host.isRegistered_eq]
  have hlength : m.host.inboxes.length = host.inboxes.length + 1 := by
    rw [hhost]
    simp [HostWindow.addListener]
  have hother {k : Nat} {m' : Manager (Watched φ)} (hk : ms[k]? = some m') : m'.listener ≠ m.listener :=
    Nat.ne_of_lt (hlistener ▸ (h.standing hk).upper)
  constructor
  case start => exact hlength ▸ Nat.le_succ_of_le h.start
  case standing =>
    intro k m' hk
    rcases getElem?_concat_cases hk with ⟨-, rfl⟩ | hk
    · refine ⟨hlistener ▸ h.start, by omega, fun _ => ?_, fun hg => ?_, ?_⟩
      · rw [hflags, if_pos rfl]
      · cases hphase.symm.trans hg
      · rw [hremovals, hphase]
        rfl
    · have hsame : m.host.flags m'.listener = host.flags m'.listener := by rw [hflags, if_neg (hother hk)]
      exact (h.standing hk).of_flags (hlength ▸ Nat.le_succ _) hsame
  case distinct =>
    intro j k m₁ m₂ hj hk he
    rcases getElem?_concat_cases hj with ⟨rfl, rfl⟩ | hj' <;>
      rcases getElem?_concat_cases hk with ⟨rfl, rfl⟩ | hk'
    · rfl
    · exact absurd he.symm (hother hk')
    · exact absurd he (hother hj')
    · exact h.distinct hj' hk' he
  case owned =>
    intro i hn hi
    by_cases he : i = m.listener
    · exact ⟨ms.length, m, by simp, he.symm⟩
    · rw [hreg he] at hi
      obtain ⟨k, m', hk, rfl⟩ := h.owned hn hi
      exact ⟨k, m', by rw [List.getElem?_append_left (List.getElem?_eq_some_iff.1 hk).1, hk], rfl⟩

/-! ### What happens to a manager -/

omit [IsolatedFrame φ] in
theorem Standing.talked (h : m.Standing n host) (t : Talked m m') : m'.Standing n host := by
  have hiff : m'.phase = .destroyed ↔ m.phase = .destroyed :=
    ⟨fun hg => not_not.1 fun ha => t.alive ha hg, fun hg => t.gone hg ▸ hg⟩
  constructor
  case lower => exact t.listener ▸ h.lower
  case upper => exact t.listener ▸ h.upper
  case alive => exact fun ha => t.listener ▸ h.alive fun hg => ha (hiff.2 hg)
  case gone => exact fun hg => t.listener ▸ h.gone (hiff.1 hg)
  case removals => rw [t.removals, h.removals]; exact if_congr hiff.symm rfl rfl

omit [IsolatedFrame φ] in
/-- The managers may change, as long as they keep their listeners and stand as before. -/
theorem Roster.of_listeners (h : Roster n host ms)
    (hbefore : ∀ {k : Nat} {m' : Manager (Watched φ)}, ms'[k]? = some m' →
      ∃ m, ms[k]? = some m ∧ m'.listener = m.listener ∧ (m.Standing n host → m'.Standing n host))
    (hafter : ∀ {k : Nat} {m : Manager (Watched φ)}, ms[k]? = some m →
      ∃ m', ms'[k]? = some m' ∧ m'.listener = m.listener) : Roster n host ms' where
  start := h.start
  standing hk := by
    obtain ⟨m, hm, -, hstanding⟩ := hbefore hk
    exact hstanding (h.standing hm)
  distinct hj hk he := by
    obtain ⟨m₁, hm₁, hl₁, -⟩ := hbefore hj
    obtain ⟨m₂, hm₂, hl₂, -⟩ := hbefore hk
    exact h.distinct hm₁ hm₂ (hl₁.symm.trans (he.trans hl₂))
  owned hi hreg := by
    obtain ⟨k, m, hk, rfl⟩ := h.owned hi hreg
    obtain ⟨m', hm', hl⟩ := hafter hk
    exact ⟨k, m', hm', hl⟩

omit [IsolatedFrame φ] in
theorem Roster.talks (h : Roster n host ms) (t : Talks ms ms') : Roster n host ms' := by
  refine h.of_listeners (fun hk => ?_) fun hk => ?_
  · obtain ⟨m, hm, htalked⟩ := t.exists_before hk
    exact ⟨m, hm, htalked.listener, fun hstanding => hstanding.talked htalked⟩
  · obtain ⟨m', hm', htalked⟩ := t.talked hk
    exact ⟨m', hm', htalked.listener⟩

theorem destroy_cases (m : Manager (Watched φ)) :
    m.phase = .destroyed ∧ m.destroy = m ∨
      m.phase ≠ .destroyed ∧ m.destroy.host = m.host.release m.listener ∧ m.destroy.listener = m.listener ∧
        m.destroy.frame.removals = m.frame.removals + 1 := by
  by_cases hm : m.phase = .destroyed
  · exact .inl ⟨hm, m.destroy_of_destroyed hm⟩
  · refine .inr ⟨hm, ?_⟩
    unfold Manager.destroy
    split
    · next h => exact absurd h hm
    · exact ⟨rfl, rfl, m.frame.removals_remove⟩

theorem Roster.destroy (h : Roster n host ms) (hk : ms[k]? = some m) (hhost : m.host = host) :
    Roster n m.destroy.host (ms.set k m.destroy) := by
  rcases m.destroy_cases with ⟨-, he⟩ | ⟨halive, hrelease, hlistener, hremovals⟩
  · have hsame : ms.set k m = ms := by
      obtain ⟨hlt, rfl⟩ := List.getElem?_eq_some_iff.1 hk
      exact List.set_getElem_self hlt
    rw [he, hsame, hhost]
    exact h
  have hflags (i : Nat) : m.destroy.host.flags i =
      if i = m.listener then (host.flags i).map fun _ => (false, false) else host.flags i := by
    rw [hrelease, hhost, host.flags_release]
  have hlength : m.destroy.host.inboxes.length = host.inboxes.length := by
    rw [hrelease, hhost, host.length_release]
  have hreg {i : Nat} (hi : i ≠ m.listener) : m.destroy.host.isRegistered i = host.isRegistered i := by
    rw [HostWindow.isRegistered_eq, hflags, if_neg hi, host.isRegistered_eq]
  have hunreg : m.destroy.host.isRegistered m.listener = false := by
    rw [HostWindow.isRegistered_eq, hflags, if_pos rfl]
    cases host.flags m.listener <;> rfl
  constructor
  case start => exact hlength ▸ h.start
  case standing =>
    intro i m' hi
    rcases getElem?_set_cases hi with ⟨-, rfl⟩ | ⟨hne, hi⟩
    · have hm := h.standing hk
      have hphase := m.phase_destroy
      refine ⟨hlistener ▸ hm.lower, ?_, fun ha => absurd hphase ha, fun _ => hlistener ▸ hunreg, ?_⟩
      · rw [hlength, hlistener]
        exact hm.upper
      · rw [hremovals, hm.removals, if_neg halive, if_pos hphase]
    · have hother : m'.listener ≠ m.listener := fun he => hne (h.distinct hi hk he)
      have hsame : m.destroy.host.flags m'.listener = host.flags m'.listener := by rw [hflags, if_neg hother]
      exact (h.standing hi).of_flags (Nat.le_of_eq hlength.symm) hsame
  case distinct =>
    have hbefore {i : Nat} {m' : Manager (Watched φ)} (hi : (ms.set k m.destroy)[i]? = some m') :
        ∃ m₀, ms[i]? = some m₀ ∧ m₀.listener = m'.listener := by
      rcases getElem?_set_cases hi with ⟨rfl, rfl⟩ | ⟨-, hi⟩
      · exact ⟨m, hk, hlistener.symm⟩
      · exact ⟨m', hi, rfl⟩
    intro i j m₁ m₂ hi hj he
    obtain ⟨m₁', hi', he₁⟩ := hbefore hi
    obtain ⟨m₂', hj', he₂⟩ := hbefore hj
    exact h.distinct hi' hj' (he₁.trans (he.trans he₂.symm))
  case owned =>
    intro i hn hi
    have hne : i ≠ m.listener := by
      rintro rfl
      rw [hunreg] at hi
      cases hi
    rw [hreg hne] at hi
    obtain ⟨j, m', hj, rfl⟩ := h.owned hn hi
    refine ⟨j, m', ?_, rfl⟩
    rw [List.getElem?_set_ne, hj]
    rintro rfl
    cases hk.symm.trans hj
    exact hne rfl

/-! ### Everything that happens -/

/-- The manager in the window as it is. -/
def within {φ : Type} (host : HostWindow) (m : Manager φ) : Manager φ :=
  { m with host }

/-- What of a manager has to do with teardown. -/
def card (m : Manager (Watched φ)) : Nat × Phase × List FrameCall :=
  (m.listener, m.phase, m.frame.calls)

/-- One thing that happens to a window and its managers, of which those in `ends` may be torn down. -/
inductive Move (ends : Nat → Prop) :
    HostWindow × List (Manager (Watched φ)) → HostWindow × List (Manager (Watched φ)) → Prop
  /-- A frame does something by itself, or a manager is shown the window as it is. -/
  | aside {host : HostWindow} {ms ms' : List (Manager (Watched φ))} :
      ms'.map card = ms.map card → Move ends (host, ms) (host, ms')
  | talk {host : HostWindow} {ms ms' : List (Manager (Watched φ))} : Talks ms ms' → Move ends (host, ms) (host, ms')
  | post {host : HostWindow} {ms : List (Manager (Watched φ))} (e : MessageEvent) :
      Move ends (host, ms) (host.post e, ms)
  | drain {host : HostWindow} {ms : List (Manager (Watched φ))} (i : Nat) :
      Move ends (host, ms) ((host.drain i).2, ms)
  | runs {host : HostWindow} {ms : List (Manager (Watched φ))} (runsTasks : Bool) :
      Move ends (host, ms) ({ host with runsTasks }, ms)
  | mount {host : HostWindow} {ms : List (Manager (Watched φ))} {frame : φ} {m : Manager (Watched φ)} :
      Manager.mount host { frame } = .ok m → Move ends (host, ms) (m.host, ms ++ [m])
  | refuse {host : HostWindow} {ms : List (Manager (Watched φ))} {frame : φ} {f : MountFailure (Watched φ)} :
      Manager.mount host { frame } = .error f → Move ends (host, ms) (f.host, ms)
  | destroy {ms : List (Manager (Watched φ))} {k : Nat} {m : Manager (Watched φ)} : ends k →
      ms[k]? = some m → Move ends (m.host, ms) (m.destroy.host, ms.set k m.destroy)

/-- One thing after the other. -/
abbrev Moves (ends : Nat → Prop) :
    HostWindow × List (Manager (Watched φ)) → HostWindow × List (Manager (Watched φ)) → Prop :=
  Relation.ReflTransGen (Move ends)

omit [IsolatedFrame φ] in
theorem card_eq_iff :
    m'.card = m.card ↔ m'.listener = m.listener ∧ m'.phase = m.phase ∧ m'.frame.calls = m.frame.calls := by
  simp only [card, Prod.mk.injEq]

omit [IsolatedFrame φ] in
theorem exists_card (h : ms'.map card = ms.map card) (hk : ms[k]? = some m) :
    ∃ m', ms'[k]? = some m' ∧ m'.card = m.card := by
  have hcards := congrArg (·[k]?) h
  simp only [List.getElem?_map, hk, Option.map_some] at hcards
  exact Option.map_eq_some_iff.1 hcards

omit [IsolatedFrame φ] in
theorem Standing.card (h : m.Standing n host) (he : m'.card = m.card) : m'.Standing n host := by
  obtain ⟨hlistener, hphase, hcalls⟩ := card_eq_iff.1 he
  have hremovals : m'.frame.removals = m.frame.removals := by rw [Watched.removals, hcalls, Watched.removals]
  exact ⟨hlistener ▸ h.lower, hlistener ▸ h.upper, fun ha => hlistener ▸ h.alive (hphase ▸ ha),
    fun hg => hlistener ▸ h.gone (hphase ▸ hg), by rw [hremovals, hphase, h.removals]⟩

omit [IsolatedFrame φ] in
theorem Roster.aside (h : Roster n host ms) (he : ms'.map Manager.card = ms.map Manager.card) : Roster n host ms' := by
  refine h.of_listeners (fun hk => ?_) fun hk => ?_
  · obtain ⟨m, hm, hcard⟩ := exists_card he.symm hk
    exact ⟨m, hm, (card_eq_iff.1 hcard.symm).1, fun hstanding => hstanding.card hcard.symm⟩
  · obtain ⟨m', hm', hcard⟩ := exists_card he hk
    exact ⟨m', hm', (card_eq_iff.1 hcard).1⟩

variable {ends ends' : Nat → Prop} {x y : HostWindow × List (Manager (Watched φ))}

theorem Move.mono (h : Move ends x y) (hends : ∀ k, ends k → ends' k) : Move ends' x y := by
  cases h with
  | aside he => exact .aside he
  | talk t => exact .talk t
  | post e => exact .post e
  | drain i => exact .drain i
  | runs runsTasks => exact .runs runsTasks
  | mount hm => exact .mount hm
  | refuse hf => exact .refuse hf
  | destroy hk hm => exact .destroy (hends _ hk) hm

theorem Moves.mono (h : Moves ends x y) (hends : ∀ k, ends k → ends' k) : Moves ends' x y := by
  induction h with
  | refl => exact .refl
  | tail _ hmove ih => exact ih.tail (hmove.mono hends)

theorem Move.roster (h : Move ends x y) (hx : Roster n x.1 x.2) : Roster n y.1 y.2 := by
  cases h with
  | aside he => exact hx.aside he
  | talk t => exact hx.talks t
  | post e => exact hx.post e
  | drain i => exact hx.drain i
  | runs => exact hx.of_flags (Nat.le_refl _) (fun _ => id) fun _ => id
  | mount hm => exact hx.mount hm
  | refuse hf => exact hx.refuse hf
  | destroy _ hk => exact hx.destroy hk rfl

/-- Whatever happens, the roster is right. -/
theorem Moves.roster (h : Moves ends x y) (hx : Roster n x.1 x.2) : Roster n y.1 y.2 := by
  induction h with
  | refl => exact hx
  | tail _ hmove ih => exact hmove.roster ih

/-- Nothing is done to a frame that was taken out. -/
theorem Move.gone (h : Move ends x y) (hk : x.2[k]? = some m) (hm : m.phase = .destroyed) :
    ∃ m', y.2[k]? = some m' ∧ m'.phase = .destroyed ∧ m'.frame.calls = m.frame.calls := by
  cases h with
  | aside he =>
    obtain ⟨m', hm', hcard⟩ := exists_card he hk
    obtain ⟨-, hphase, hcalls⟩ := card_eq_iff.1 hcard
    exact ⟨m', hm', hphase.trans hm, hcalls⟩
  | talk t =>
    obtain ⟨m', hm', htalked⟩ := t.talked hk
    obtain rfl := htalked.gone hm
    exact ⟨m', hm', hm, rfl⟩
  | post | drain | runs | refuse => exact ⟨m, hk, hm, rfl⟩
  | mount => exact ⟨m, by rw [List.getElem?_append_left (List.getElem?_eq_some_iff.1 hk).1, hk], hm, rfl⟩
  | @destroy ms j m₁ _ hj =>
    by_cases he : j = k
    · subst he
      cases hj.symm.trans hk
      rw [destroy_of_destroyed m hm]
      exact ⟨m, by rw [List.getElem?_set_self (List.getElem?_eq_some_iff.1 hk).1], hm, rfl⟩
    · exact ⟨m, by rw [List.getElem?_set_ne he]; exact hk, hm, rfl⟩

theorem Moves.gone (h : Moves ends x y) (hk : x.2[k]? = some m) (hm : m.phase = .destroyed) :
    ∃ m', y.2[k]? = some m' ∧ m'.phase = .destroyed ∧ m'.frame.calls = m.frame.calls := by
  induction h with
  | refl => exact ⟨m, hk, hm, rfl⟩
  | tail _ hmove ih =>
    obtain ⟨m', hm', hphase, hcalls⟩ := ih
    obtain ⟨m'', hm'', hphase', hcalls'⟩ := hmove.gone hm' hphase
    exact ⟨m'', hm'', hphase', hcalls'.trans hcalls⟩

/-- Only teardown takes a manager away, and none is mounted that is gone. -/
theorem Move.gone_before (h : Move ends x y) (hends : ¬ends k) (hk : y.2[k]? = some m) (hm : m.phase = .destroyed) :
    ∃ m', x.2[k]? = some m' ∧ m'.phase = .destroyed := by
  cases h with
  | aside he =>
    obtain ⟨m', hm', hcard⟩ := exists_card he.symm hk
    exact ⟨m', hm', (card_eq_iff.1 hcard).2.1.trans hm⟩
  | talk t =>
    obtain ⟨m', hm', htalked⟩ := t.exists_before hk
    exact ⟨m', hm', not_not.1 fun ha => htalked.alive ha hm⟩
  | post | drain | runs | refuse => exact ⟨m, hk, hm⟩
  | mount hmount =>
    rcases getElem?_concat_cases hk with ⟨-, rfl⟩ | hk
    · cases (mount_eq_ok hmount).1.symm.trans hm
    · exact ⟨m, hk, hm⟩
  | destroy hj _ =>
    rcases getElem?_set_cases hk with ⟨rfl, -⟩ | ⟨-, hk⟩
    · exact absurd hj hends
    · exact ⟨m, hk, hm⟩

theorem Moves.gone_before (h : Moves ends x y) (hends : ¬ends k) (hk : y.2[k]? = some m) (hm : m.phase = .destroyed) :
    ∃ m', x.2[k]? = some m' ∧ m'.phase = .destroyed := by
  induction h generalizing m with
  | refl => exact ⟨m, hk, hm⟩
  | tail _ hmove ih =>
    obtain ⟨m', hk', hm'⟩ := hmove.gone_before hends hk hm
    exact ih hk' hm'

end Manager

end SecureLayout.Sandbox
