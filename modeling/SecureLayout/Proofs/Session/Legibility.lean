import SecureLayout.Proofs.Collab.Observing
import SecureLayout.Proofs.Sandbox.Legibility
import SecureLayout.Session.Settling

/-!
What the guest of a session can read. A value of the document is painted under its field, in the output, in the
context, in a message: three levels further down than where it is written. Main statements: a render can be
read just if no value of the document needs more levels than that leaves, and a session to which no other
value is written posts nothing that cannot be read.
-/

namespace SecureLayout

open Collab (Document Observer Origin Request Shared)
open Json (Value Raw)
open Json.Reader (greatestDepth)
open Sandbox (Guest HostWindow IsolatedFrame Lasts Logged Manager MessageEvent MountFailure Notice)
open Wire (FieldUpdate FrameMessage)

/-! ### What a render wraps around a value -/

variable {n : Nat}

theorem Collab.Document.fits_toValue_iff {d : Document} (h : d.WellFormed) :
    d.toValue.Fits (n + 1) ↔ ∀ u ∈ d.snapshot, u.value.Fits n := by
  have hsorted : Entries.Sorted (d.entries.map fun e => (e.1, e.2.value)) := List.pairwise_map.2 h.sorted
  rw [toValue, Value.fits_object_iff, and_iff_right hsorted, snapshot, List.forall_mem_map,
    List.forall_mem_map]

/-- Each part has so many levels at most. -/
def TaskContext.Fits (n : Nat) (t : TaskContext) : Prop :=
  ∀ v ∈ [t.input, t.context, t.config, t.user], v.Fits n

theorem TaskContext.member?_output (t : TaskContext) (output : Value) :
    (t.withOutput output).member? "output" = some output := by
  simp [withOutput, Value.ofMembers, Value.member?, Entries.ofList, Entries.get?_put]

theorem TaskContext.fits_withOutput {t : TaskContext} {output : Value} (ht : t.Fits n)
    (ho : output.Fits n) : (t.withOutput output).Fits (n + 1) := by
  refine Value.fits_object_iff.2 ⟨Entries.sorted_ofList _, fun m hm => ?_⟩
  have hparts := Entries.mem_ofList hm
  simp only [TaskContext.Fits, List.forall_mem_cons] at ht
  simp only [List.mem_cons, List.not_mem_nil, or_false] at hparts
  rcases hparts with rfl | rfl | rfl | rfl | rfl
  · exact ht.1
  · exact ho
  · exact ht.2.1
  · exact ht.2.2.1
  · exact ht.2.2.2.1

theorem SecurityPolicy.fits_secureContext (p : SecurityPolicy) {data : Value} (h : data.Fits (n + 1)) :
    (p.secureContext data).Fits (n + 1) := by
  cases data with
  | object ms =>
    obtain ⟨hs, hms⟩ := Value.fits_object_iff.1 h
    exact Value.fits_object_iff.2 ⟨hs.filter _, fun m hm => hms m (List.mem_filter.1 hm).1⟩
  | _ => exact Value.fits_object_iff.2 ⟨.nil, nofun⟩

theorem TemplateEnvironment.policy_render (env : TemplateEnvironment) (name : String) (data : Value) :
    (env.render name data).2.policy = env.policy := by
  unfold render
  split <;> rfl

/-- A message has room for a value one level below its own text. -/
theorem Wire.FrameMessage.readable_iff_fits {m : FrameMessage} {v : Value} (hm : m.value? = some v)
    (hv : v.Fits n) : m.Readable ↔ v.Fits (greatestDepth - 1) := by
  have hiff : m.Readable ↔ ∀ v ∈ m.value?, v.depth ≤ greatestDepth - 1 := by
    refine readable_iff ?_ ?_ <;> rw [hm] <;> rintro _ ⟨⟩
    · exact hv.ordered
    · exact hv.integral
  rw [hiff, hm]
  constructor
  · exact fun hd => ⟨⟨hv.ordered, hd v rfl⟩, hv.integral⟩
  · rintro hfits _ ⟨⟩
    exact hfits.depth_le

namespace LayoutSession

/-- Levels that a message, the context in it and the output in that leave for the value of a field. -/
def fieldRoom : Nat :=
  greatestDepth - 3

variable {env env' : TemplateEnvironment} {template html : String} {task : TaskContext}
  {context output : Value}

theorem renderPass_eq_ok (h : renderPass env template task output = (.ok (html, context), env')) :
    context = env.policy.secureContext (task.withOutput output) := by
  have hpolicy := env.policy_render template (task.withOutput output)
  unfold renderPass at h
  dsimp only at h
  rcases hr : env.render template (task.withOutput output) with ⟨_ | text, env₁⟩ <;> rw [hr] at h hpolicy
  · cases h
  · cases h
    exact congrArg (SecurityPolicy.secureContext · _) hpolicy

theorem fits_renderPass (h : renderPass env template task output = (.ok (html, context), env'))
    (ht : task.Fits n) (ho : output.Fits n) : context.Fits (n + 1) := by
  rw [renderPass_eq_ok h]
  exact env.policy.fits_secureContext (TaskContext.fits_withOutput ht ho)

/-- What a render makes can be read if all parts of its data have room. -/
theorem readable_renderPass (h : renderPass env template task output = (.ok (html, context), env'))
    (ht : task.Fits (fieldRoom + 1)) (ho : output.Fits (fieldRoom + 1)) :
    (FrameMessage.render html context).Readable := by
  have hcontext := fits_renderPass h ht ho
  exact (FrameMessage.readable_iff_fits rfl hcontext).2 hcontext

/-- Where layouts see the output, one value of the document that has no room makes every render unreadable. -/
theorem readable_renderPass_iff {d : Document} (hd : d.WellFormed)
    (h : renderPass env template task d.toValue = (.ok (html, context), env'))
    (hroot : env.policy.roots.contains "output" = true) (ht : task.Fits (fieldRoom + 1))
    (hv : ∀ u ∈ d.snapshot, u.value.Fits n) :
    (FrameMessage.render html context).Readable ↔ ∀ u ∈ d.snapshot, u.value.Fits fieldRoom := by
  constructor
  · intro hr
    have hall : context.Fits (max n fieldRoom + 2) :=
      fits_renderPass h (fun v hv => (ht v hv).mono (Nat.succ_le_succ (le_max_right _ _)))
        ((Document.fits_toValue_iff hd).2 fun u hu => (hv u hu).mono (le_max_left _ _))
    have hcontext : context.Fits (fieldRoom + 2) :=
      (FrameMessage.readable_iff_fits rfl hall).1 hr
    rw [renderPass_eq_ok h, SecurityPolicy.secureContext, Value.fits_object_iff] at hcontext
    have houtput : ("output", d.toValue) ∈ (task.withOutput d.toValue).members.filter
        fun m => env.policy.roots.contains m.1 :=
      List.mem_filter.2 ⟨Entries.mem_of_get? (task.member?_output d.toValue), hroot⟩
    exact (Document.fits_toValue_iff hd).1 (hcontext.2 _ houtput)
  · exact fun hfits => readable_renderPass h ht ((Document.fits_toValue_iff hd).2 hfits)

/-! ### Sessions -/

/-- An edit that the event reports has room. -/
def Modest (e : MessageEvent) : Prop :=
  ∀ field value, FrameMessage.decode e.data = .ok (.outputChange field value) → value.Fits fieldRoom

variable {σ φ : Type} {J : σ → Prop} {I : φ → Prop} {s : LayoutSession σ φ}

/-- Task and document have room in a render, and the other observers keep the document so. -/
structure Clear (J : σ → Prop) (I : φ → Prop) (s : LayoutSession σ φ) : Prop where
  task : s.task.Fits (fieldRoom + 1)
  store : s.store.Steady (Value.Fits fieldRoom) fun x => J x.1 ∧ x.2.Clear I Modest

theorem Clear.manager (h : s.Clear J I) : s.manager.Clear I Modest :=
  h.store.state.2

theorem Clear.withManager (h : s.Clear J I) {m : Manager φ} (hm : m.Clear I Modest) :
    (s.withManager m).Clear J I :=
  ⟨h.task, h.store.withState ⟨h.store.state.1, hm⟩⟩

theorem Clear.react (h : s.Clear J I) {n : Notice}
    (hn : ∀ field value, n = .outputChange field value → value.Fits fieldRoom) : (s.react n).Clear J I := by
  cases n with
  | rendered => exact h
  | outputChange field value =>
    unfold LayoutSession.react
    dsimp only
    split
    · exact ⟨h.task, h.store.set field (hn field value rfl)⟩
    · exact h
  | failed e => exact ⟨h.task, h.store⟩

variable [IsolatedFrame φ]

theorem keeps_forward (hI : Lasts I) (policy : SecurityPolicy) (id : Nat) :
    Observer.Keeps (Value.Fits fieldRoom) (fun x : σ × Manager φ => J x.1 ∧ x.2.Clear I Modest)
      ⟨id, none, forward policy⟩ := by
  intro u origin x hu hx
  unfold forward
  dsimp only
  split
  · have hread : (FrameMessage.updateContext ("output." ++ u.field) u.value).Readable :=
      (FrameMessage.readable_iff_fits rfl hu).2 (hu.mono (by decide))
    exact ⟨⟨hx.1, hx.2.send hI hread⟩, nofun⟩
  · exact ⟨hx, nofun⟩

theorem Clear.rerender (h : s.Clear J I) (hI : Lasts I) : s.rerender.2.Clear J I := by
  unfold LayoutSession.rerender
  split
  · exact h
  · split
    · exact ⟨h.task, h.store⟩
    · next html context environment hr =>
      have houtput := (Document.fits_toValue_iff h.store.wellFormed).2 h.store.values
      have hnext : (s.withManager (s.manager.render html context).2).Clear J I :=
        h.withManager (h.manager.send hI (readable_renderPass hr h.task houtput))
      have hsame : ({ s with environment } : LayoutSession σ φ).manager = s.manager := rfl
      dsimp only
      rw [hsame]
      rcases hm : s.manager.render html context with ⟨_ | _, m⟩ <;> rw [hm] at hnext
      · exact ⟨hnext.task, hnext.store⟩
      · exact ⟨hnext.task, hnext.store⟩

theorem Clear.unmount (h : s.Clear J I) (hI : Lasts I) : s.unmount.Clear J I := by
  unfold LayoutSession.unmount
  split
  · exact h
  · have hstill : Clear J I { s with store := s.store.unobserve s.subscription, isUnmounted := true } :=
      ⟨h.task, h.store.unobserve s.subscription⟩
    exact hstill.withManager (h.manager.destroy hI)

/-- Handles an event that was posted. -/
def handle (s : LayoutSession σ φ) (e : MessageEvent) : LayoutSession σ φ :=
  (s.manager.handleEvent e).1.toList.foldl react (s.withManager (s.manager.handleEvent e).2)

theorem pump_eq (s : LayoutSession σ φ) :
    s.pump.2 = s.manager.takeEvents.1.foldl handle (s.withManager s.manager.takeEvents.2) :=
  (List.foldl_hom Prod.snd fun _ _ => rfl).symm

/-- An edit that is acted on was reported by an event. -/
theorem Clear.handle (h : s.Clear J I) (hI : Lasts I) {e : MessageEvent} (he : Modest e) :
    (s.handle e).Clear J I := by
  have hheard := h.withManager (h.manager.handleEvent hI e)
  unfold LayoutSession.handle
  cases hn : (s.manager.handleEvent e).1 with
  | none => exact hheard
  | some n => exact hheard.react fun field value hv => he field value (Manager.decode_of_outputChange (hv ▸ hn))

theorem Clear.handleAll (h : s.Clear J I) (hI : Lasts I) {es : List MessageEvent} (hes : ∀ e ∈ es, Modest e) :
    (es.foldl LayoutSession.handle s).Clear J I := by
  induction es generalizing s with
  | nil => exact h
  | cons e es ih =>
    obtain ⟨he, hes⟩ := List.forall_mem_cons.1 hes
    exact ih (h.handle hI he) hes

theorem Clear.pump (h : s.Clear J I) (hI : Lasts I) : s.pump.2.Clear J I := by
  rw [pump_eq]
  exact (h.withManager h.manager.takeEvents).handleAll hI h.manager.events

/-! ### Runs -/

/-- What happens to a session. -/
inductive Input (φ : Type) where
  | write (field : String) (value : Value)
  | merge (u : FieldUpdate)
  /-- An event is posted to the host window. -/
  | arrive (e : MessageEvent)
  | pump
  | rerender
  /-- The frame goes on by itself. -/
  | frame (go : φ → φ)
  | unmount

def act (s : LayoutSession σ φ) : Input φ → LayoutSession σ φ
  | .write field value => { s with store := (s.store.set field value).2 }
  | .merge u => { s with store := (s.store.merge u).2 }
  | .arrive e => s.withManager { s.manager with host := s.manager.host.post e }
  | .pump => s.pump.2
  | .rerender => s.rerender.2
  | .frame go => s.withManager { s.manager with frame := go s.manager.frame }
  | .unmount => s.unmount

def run (s : LayoutSession σ φ) (inputs : List (Input φ)) : LayoutSession σ φ :=
  inputs.foldl act s

/-- The values in it have room, and the frame keeps what is to be kept. -/
def Input.Fits (I : φ → Prop) : Input φ → Prop
  | .write _ value => value.Fits fieldRoom
  | .merge u => u.value.Fits fieldRoom
  | .arrive e => Modest e
  | .frame go => ∀ f, I f → I (go f)
  | _ => True

theorem Clear.act (h : s.Clear J I) (hI : Lasts I) {i : Input φ} (hi : i.Fits I) : (s.act i).Clear J I := by
  cases i with
  | write field value => exact ⟨h.task, h.store.set field hi⟩
  | merge u => exact ⟨h.task, h.store.merge hi⟩
  | arrive e => exact h.withManager (h.manager.arrive hi)
  | pump => exact h.pump hI
  | rerender => exact h.rerender hI
  | frame go => exact h.withManager ⟨hi _ h.manager.frame, h.manager.queue, h.manager.events⟩
  | unmount => exact h.unmount hI

theorem Clear.run (h : s.Clear J I) (hI : Lasts I) {inputs : List (Input φ)} (hi : ∀ i ∈ inputs, i.Fits I) :
    (s.run inputs).Clear J I := by
  induction inputs generalizing s with
  | nil => exact h
  | cons i inputs ih =>
    obtain ⟨hone, hrest⟩ := List.forall_mem_cons.1 hi
    exact ih (h.act hI hone) hrest

variable {store : Shared σ} {host : HostWindow} {frame : φ}

theorem clear_mount (hm : mount env template task store host frame = .ok s) (hI : Lasts I) (hf : I frame)
    (ht : task.Fits (fieldRoom + 1)) (hs : store.Steady (Value.Fits fieldRoom) J) : s.Clear J I := by
  unfold mount at hm
  split at hm
  · cases hm
  · next html context environment hr =>
    split at hm
    · cases hm
    · next m hmount =>
      have houtput := (Document.fits_toValue_iff hs.wellFormed).2 hs.values
      have hsent := (Manager.clear_mount (E := Modest) hmount hI hf).send hI (readable_renderPass hr ht houtput)
      split at hm
      · cases hm
      · next m' hrender =>
        change m.send _ = _ at hrender
        rw [hrender] at hsent
        dsimp only at hm
        cases hm
        exact ⟨ht, (hs.beside hsent).observe none fun id => keeps_forward hI env.policy id⟩

/-- Whatever happens to a session, if every value that is written to it has room: its frame is posted nothing
but messages that can be read back. -/
theorem posted_readable {s : LayoutSession σ (Logged φ)}
    (hm : mount env template task store host { frame } = .ok s) (ht : task.Fits (fieldRoom + 1))
    (hs : store.Steady (Value.Fits fieldRoom) J) {inputs : List (Input (Logged φ))}
    (hi : ∀ i ∈ inputs, i.Fits Logged.Clear) {raw : String} (hraw : raw ∈ (s.run inputs).manager.frame.log) :
    ∃ x : FrameMessage, FrameMessage.decode raw = .ok x ∧ raw = x.encode := by
  have hclear := (clear_mount hm Logged.lasts_clear (fun _ h => absurd h List.not_mem_nil) ht hs).run
    Logged.lasts_clear hi
  obtain ⟨x, hx, rfl⟩ := hclear.manager.frame raw hraw
  exact ⟨x, hx, rfl⟩

/-! ### Guests -/

/-- Answers of a guest report no edits. -/
theorem modest_of_value? {x : FrameMessage} (hx : x.value? = none) (source : Sandbox.WindowRef) :
    Modest ⟨source, x.encode⟩ := by
  have hread : x.Readable := by
    refine (FrameMessage.readable_iff ?_ ?_).2 ?_ <;> rw [hx] <;> exact nofun
  intro field value h
  rw [hread] at h
  cases h
  cases hx

theorem Clear.take {s : LayoutSession σ Guest} (h : s.Clear J Guest.Clear) (turn : Turn) :
    (s.take turn).2.Clear J Guest.Clear := by
  cases turn with
  | host => exact h.pump Guest.lasts_clear
  | guest =>
    have hsay : ∀ (xs : List FrameMessage), (∀ x ∈ xs, x.value? = none) →
        ∀ {m : Manager Guest} (g : Guest), m.Clear Guest.Clear Modest →
          Manager.Clear Guest.Clear Modest { m with host := xs.foldl g.say m.host } := by
      intro xs
      induction xs with
      | nil => exact fun _ m g hm => hm
      | cons x xs ih =>
        intro hxs m g hm
        obtain ⟨hx, hxs⟩ := List.forall_mem_cons.1 hxs
        exact ih hxs g (hm.arrive (modest_of_value? hx g.window))
    have hsaid := hsay s.manager.frame.run.1 (fun x hx => Guest.value?_run hx) s.manager.frame.run.2 h.manager
    exact h.withManager ⟨Guest.clear_run s.manager.frame, hsaid.queue, hsaid.events⟩

/-- Settling is a run of turns. -/
theorem settle_eq (s : LayoutSession σ Guest) (first : Turn) :
    ∃ turns : List Turn, (s.settle first).2 = turns.foldl (fun s t => (s.take t).2) s :=
  ⟨_, (List.foldl_hom Prod.snd fun _ _ => rfl).symm⟩

theorem Clear.settle {s : LayoutSession σ Guest} (h : s.Clear J Guest.Clear) (first : Turn) :
    (s.settle first).2.Clear J Guest.Clear := by
  obtain ⟨turns, hturns⟩ := settle_eq s first
  rw [hturns]
  clear hturns
  induction turns generalizing s with
  | nil => exact h
  | cons t turns ih => exact ih (h.take t)

/-- Then also each render that waits for the guest is painted and answered when it runs, and nothing else is. -/
theorem renders_answered {s : LayoutSession σ Guest} {guest : Guest}
    (hm : mount env template task store host guest = .ok s) (hg : guest.Clear)
    (ht : task.Fits (fieldRoom + 1)) (hs : store.Steady (Value.Fits fieldRoom) J)
    {inputs : List (Input Guest)} (hi : ∀ i ∈ inputs, i.Fits Guest.Clear) {raws : List String}
    (hraws : (s.run inputs).manager.frame.inbox = some raws) :
    ∃ xs : List FrameMessage, raws = xs.map FrameMessage.encode ∧
      (s.run inputs).manager.frame.run.1.countP (·.kind == "RENDERED") = xs.countP (·.kind == "RENDER") ∧
      (s.run inputs).manager.frame.run.2.document.renders =
        (s.run inputs).manager.frame.document.renders + xs.countP (·.kind == "RENDER") := by
  have hclear := (clear_mount hm Guest.lasts_clear hg ht hs).run Guest.lasts_clear hi
  obtain ⟨xs, hxs, rfl⟩ := hclear.manager.frame raws hraws
  exact ⟨xs, rfl, Guest.run_encode hraws hxs⟩

end LayoutSession

end SecureLayout
