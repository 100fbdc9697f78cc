import SecureLayout.Proofs.Sandbox.Runs
import SecureLayout.Proofs.Wire.Texts
import SecureLayout.Sandbox.Guest

/-!
Managers that are asked to send only what can be read back. Main statements: whatever reaches such a manager,
it posts nothing else, and a guest that is posted nothing else paints every markup and says so.
-/

namespace SecureLayout.Sandbox

open Json (Value)
open Wire (FrameMessage)

/-! ### What a listener has not read yet -/

namespace HostWindow

theorem mem_drain_post {w : HostWindow} {e e' : MessageEvent} {i : Nat}
    (h : e' ∈ ((w.post e).drain i).1) : e' ∈ (w.drain i).1 ∨ e' = e := by
  unfold drain post at *
  rw [List.getElem?_map] at h
  cases hb : w.inboxes[i]? with
  | none =>
    rw [hb] at h
    exact absurd h List.not_mem_nil
  | some b =>
    rw [hb] at h
    change e' ∈ (Inbox.take b e).events at h
    unfold Inbox.take at h
    split at h
    · exact .inl h
    · split at h
      · simpa using h
      · exact .inl h

theorem drain_drain (w : HostWindow) (i : Nat) : ((w.drain i).2.drain i).1 = [] := by
  unfold drain
  cases hb : w.inboxes[i]? <;> simp [hb]

theorem drain_abandon (w : HostWindow) (i : Nat) : ((w.abandon i).drain i).1 = [] := by
  unfold drain abandon
  cases hb : w.inboxes[i]? <;> simp [hb]

theorem drain_addListener (w : HostWindow) : (w.addListener.2.drain w.addListener.1).1 = [] := by
  simp [drain, addListener]

end HostWindow

/-! ### Frames -/

variable {φ : Type} [IsolatedFrame φ] {I : φ → Prop} {E : MessageEvent → Prop}

/-- What a frame keeps for as long as it is posted nothing but messages that can be read back. -/
structure Lasts (I : φ → Prop) : Prop where
  post : ∀ {f : φ} {x : FrameMessage}, x.Readable → I f → I (IsolatedFrame.post x.encode f).2
  attach : ∀ {f : φ} (host : HostWindow), I f → I (IsolatedFrame.attach host f).2
  remove : ∀ {f : φ}, I f → I (IsolatedFrame.remove f)

/-- Only messages that can be read back were logged. -/
def Logged.Clear (f : Logged φ) : Prop :=
  ∀ raw ∈ f.log, ∃ x : FrameMessage, x.Readable ∧ raw = x.encode

theorem Logged.lasts_clear : Lasts (Logged.Clear (φ := φ)) where
  post := by
    intro f x hx hf raw hraw
    rcases Logged.mem_log_post hraw with hraw | rfl
    · exact hf raw hraw
    · exact ⟨x, hx, rfl⟩
  attach _ hf := hf
  remove hf := hf

namespace Manager

/-- The frame is in `I`, what waits for it can be read back, and events that wait are in `E`. -/
structure Clear (I : φ → Prop) (E : MessageEvent → Prop) (m : Manager φ) : Prop where
  frame : I m.frame
  queue : ∀ x ∈ m.queue, x.Readable
  events : ∀ e ∈ m.takeEvents.1, E e

variable {m : Manager φ} {x : FrameMessage}

theorem Clear.post (h : m.Clear I E) (hI : Lasts I) (hx : x.Readable) : (m.post x).2.Clear I E :=
  ⟨hI.post hx h.frame, h.queue, h.events⟩

theorem Clear.send (h : m.Clear I E) (hI : Lasts I) (hx : x.Readable) : (m.send x).2.Clear I E := by
  unfold Manager.send
  cases m.phase with
  | destroyed => exact h
  | waiting =>
    refine ⟨h.frame, fun y hy => ?_, h.events⟩
    rcases List.mem_append.1 hy with hy | hy
    · exact h.queue y hy
    · rw [List.mem_singleton.1 hy]
      exact hx
  | ready => exact h.post hI hx

theorem Clear.flush (h : m.Clear I E) (hI : Lasts I) : m.flush.Clear I E := by
  have hfold : ∀ (xs : List FrameMessage) (m : Manager φ), m.Clear I E → (∀ x ∈ xs, x.Readable) →
      (xs.foldl (fun m x => (m.post x).2) m).Clear I E := by
    intro xs
    induction xs with
    | nil => exact fun m h _ => h
    | cons x xs ih =>
      intro m h hxs
      obtain ⟨hx, hxs⟩ := List.forall_mem_cons.1 hxs
      exact ih _ (h.post hI hx) hxs
  have hposted := hfold m.queue m h h.queue
  exact ⟨hposted.frame, nofun, hposted.events⟩

theorem Clear.receive (h : m.Clear I E) (hI : Lasts I) (x : FrameMessage) : (m.receive x).2.Clear I E := by
  have hsame {lastError : Option Failure} : Clear I E { m with lastError } := ⟨h.frame, h.queue, h.events⟩
  cases x with
  | ready =>
    unfold Manager.receive
    dsimp only
    split
    · exact Clear.flush ⟨h.frame, h.queue, h.events⟩ hI
    · exact h
  | rendered => exact hsame
  | error text => exact hsame
  | render html context => exact h
  | updateContext path value => exact h
  | outputChange field value => exact h

theorem Clear.handleEvent (h : m.Clear I E) (hI : Lasts I) (e : MessageEvent) :
    (m.handleEvent e).2.Clear I E := by
  rcases handleEvent_cases m e with ⟨-, he⟩ | ⟨x, -, -, he⟩ <;> rw [he]
  · exact h
  · exact h.receive hI x

/-- An edit that is reported was in the event. -/
theorem decode_of_outputChange {e : MessageEvent} {field : String} {value : Value}
    (h : (m.handleEvent e).1 = some (.outputChange field value)) :
    FrameMessage.decode e.data = .ok (.outputChange field value) := by
  unfold Manager.handleEvent at h
  split at h
  · cases h
  · cases hd : FrameMessage.decode e.data with
    | error f =>
      rw [hd] at h
      cases h
    | ok x =>
      rw [hd] at h
      cases x with
      | outputChange field value =>
        cases h
        rfl
      | _ => cases h

omit [IsolatedFrame φ] in
theorem Clear.arrive (h : m.Clear I E) {e : MessageEvent} (he : E e) :
    Clear I E { m with host := m.host.post e } := by
  refine ⟨h.frame, h.queue, fun e' he' => ?_⟩
  rcases HostWindow.mem_drain_post he' with he' | rfl
  · exact h.events e' he'
  · exact he

omit [IsolatedFrame φ] in
theorem Clear.takeEvents (h : m.Clear I E) : m.takeEvents.2.Clear I E := by
  refine ⟨h.frame, h.queue, fun e he => ?_⟩
  change e ∈ ((m.host.drain m.listener).2.drain m.listener).1 at he
  rw [HostWindow.drain_drain] at he
  exact absurd he List.not_mem_nil

theorem Clear.destroy (h : m.Clear I E) (hI : Lasts I) : m.destroy.Clear I E := by
  unfold Manager.destroy
  split
  · exact h
  · refine ⟨hI.remove h.frame, nofun, fun e he => ?_⟩
    change e ∈ (((m.host.removeListener m.listener).2.abandon m.listener).drain m.listener).1 at he
    rw [HostWindow.drain_abandon] at he
    exact absurd he List.not_mem_nil

/-- A listener that was just added has heard nothing. -/
theorem clear_mount {host : HostWindow} {frame : φ} (hm : mount host frame = .ok m) (hI : Lasts I)
    (hf : I frame) : m.Clear I E := by
  unfold mount at hm
  split at hm
  · cases hm
  · split at hm
    · cases hm
    · dsimp only at hm
      split at hm
      · next frame' ha =>
        cases hm
        refine ⟨?_, nofun, fun e he => ?_⟩
        · have hattached := hI.attach host.addListener.2 hf
          rwa [ha] at hattached
        · change e ∈ (host.addListener.2.drain host.addListener.1).1 at he
          rw [HostWindow.drain_addListener] at he
          exact absurd he List.not_mem_nil
      · cases hm

end Manager

/-! ### Guests -/

namespace Guest

/-- Only messages that can be read back wait. -/
def Clear (g : Guest) : Prop :=
  ∀ raws ∈ g.inbox, ∃ xs : List FrameMessage, (∀ x ∈ xs, x.Readable) ∧ raws = xs.map FrameMessage.encode

theorem lasts_clear : Lasts Clear where
  post := by
    intro g x hx hg
    change Clear (g.post x.encode).2
    unfold Guest.post
    cases hi : g.inbox with
    | none => exact hg
    | some raws =>
      obtain ⟨xs, hxs, rfl⟩ := hg raws hi
      rintro _ ⟨⟩
      refine ⟨xs ++ [x], fun y hy => ?_, by simp⟩
      rcases List.mem_append.1 hy with hy | hy
      · exact hxs y hy
      · exact List.mem_singleton.1 hy ▸ hx
  attach := by
    intro g host hg
    change Clear (g.attach host).2
    unfold Guest.attach
    split
    · exact hg
    · split
      · exact hg
      · rintro _ ⟨⟩
        exact ⟨[], nofun, rfl⟩
  remove _ := nofun

theorem receiveAll_cons (g : Guest) (raw : String) (raws : List String) :
    g.receiveAll (raw :: raws) =
      ((g.receive raw).1.toList ++ ((g.receive raw).2.receiveAll raws).1,
        ((g.receive raw).2.receiveAll raws).2) := rfl

/-- What is to be painted is painted and answered, and nothing else is. -/
theorem receive_encode {x : FrameMessage} (hx : x.Readable) (g : Guest) :
    (g.receive x.encode).1.toList.countP (·.kind == "RENDERED") = [x].countP (·.kind == "RENDER") ∧
      (g.receive x.encode).2.document.renders = g.document.renders + [x].countP (·.kind == "RENDER") := by
  unfold receive
  rw [hx]
  cases x with
  | render html context => exact ⟨rfl, rfl⟩
  | updateContext path value =>
    dsimp only
    cases g.document.context.setPath path value <;> exact ⟨rfl, rfl⟩
  | _ => exact ⟨rfl, rfl⟩

theorem receiveAll_encode {xs : List FrameMessage} (hxs : ∀ x ∈ xs, x.Readable) (g : Guest) :
    (g.receiveAll (xs.map FrameMessage.encode)).1.countP (·.kind == "RENDERED") =
        xs.countP (·.kind == "RENDER") ∧
      (g.receiveAll (xs.map FrameMessage.encode)).2.document.renders =
        g.document.renders + xs.countP (·.kind == "RENDER") := by
  induction xs generalizing g with
  | nil => exact ⟨rfl, rfl⟩
  | cons x xs ih =>
    obtain ⟨hx, hxs⟩ := List.forall_mem_cons.1 hxs
    obtain ⟨hanswer, hpaint⟩ := receive_encode hx g
    obtain ⟨hsaid, hpainted⟩ := ih hxs (g.receive x.encode).2
    rw [List.map_cons, receiveAll_cons, List.countP_append, hanswer, hsaid, hpainted, hpaint, Nat.add_assoc,
      ← List.countP_append]
    exact ⟨rfl, rfl⟩

/-- What a guest says has no value in it. -/
theorem value?_receive {g : Guest} {raw : String} {x : FrameMessage} (h : x ∈ (g.receive raw).1) :
    x.value? = none := by
  unfold receive at h
  split at h
  · cases h
    rfl
  · cases h
    rfl
  · split at h
    · cases h
    · cases h
      rfl
  · cases h

theorem value?_receiveAll {raws : List String} {g : Guest} {x : FrameMessage}
    (h : x ∈ (g.receiveAll raws).1) : x.value? = none := by
  induction raws generalizing g with
  | nil => exact absurd h List.not_mem_nil
  | cons raw raws ih =>
    rw [receiveAll_cons] at h
    rcases List.mem_append.1 h with h | h
    · exact value?_receive (Option.mem_toList.1 h)
    · exact ih h

theorem value?_run {g : Guest} {x : FrameMessage} (h : x ∈ g.run.1) : x.value? = none := by
  unfold run at h
  split at h
  · exact absurd h List.not_mem_nil
  · rcases List.mem_append.1 h with h | h
    · split at h
      · rw [List.mem_singleton.1 h]
        rfl
      · exact absurd h List.not_mem_nil
    · exact value?_receiveAll h

theorem inbox_receiveAll (g : Guest) (raws : List String) : (g.receiveAll raws).2.inbox = g.inbox := by
  induction raws generalizing g with
  | nil => rfl
  | cons raw raws ih =>
    have hone : (g.receive raw).2.inbox = g.inbox := by
      unfold receive
      split
      · rfl
      · rfl
      · split <;> rfl
      · rfl
    rw [receiveAll_cons]
    exact (ih (g.receive raw).2).trans hone

/-- A guest reads all that waits. -/
theorem clear_run (g : Guest) : g.run.2.Clear := by
  unfold run
  split
  · next h => exact fun raws hraws => absurd (h ▸ hraws) nofun
  · intro raws hraws
    rw [inbox_receiveAll] at hraws
    cases hraws
    exact ⟨[], nofun, rfl⟩

/-- Of all that waits, each message that is to be painted is painted and answered. -/
theorem run_encode {xs : List FrameMessage} {g : Guest} (hi : g.inbox = some (xs.map FrameMessage.encode))
    (hxs : ∀ x ∈ xs, x.Readable) :
    g.run.1.countP (·.kind == "RENDERED") = xs.countP (·.kind == "RENDER") ∧
      g.run.2.document.renders = g.document.renders + xs.countP (·.kind == "RENDER") := by
  obtain ⟨hsaid, hpainted⟩ := receiveAll_encode hxs { g with inbox := some [], isStarting := false }
  unfold run
  rw [hi]
  refine ⟨?_, hpainted⟩
  rw [List.countP_append, hsaid]
  cases g.isStarting <;> simp [FrameMessage.kind]

end Guest

end SecureLayout.Sandbox
