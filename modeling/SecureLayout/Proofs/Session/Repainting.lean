import Mathlib.Data.List.Forall2
import SecureLayout.Proofs.Policy.Context
import SecureLayout.Proofs.Sandbox.Transport
import SecureLayout.Proofs.Session.Legibility

/-!
What a session has painted. Main statements: whatever happens to a mounted session, the renders among the texts that
it posts are those of the data it was rendered from, in that order, and sessions whose data agree on the allowed roots
post the same ones.
-/

namespace SecureLayout

open Collab (Document Observer Shared)
open Json (Value)
open Sandbox (HostWindow IsolatedFrame Logged Manager MessageEvent MountFailure NeverRefuses Notice)
open Wire (FieldUpdate FrameMessage)

/-! ### Renders among the texts of messages -/

namespace Wire.FrameMessage

/-- A text that asks for a render. -/
def isRenderText (raw : String) : Bool :=
  "\x7b\"type\":\"RENDER\",".toList.isPrefixOf raw.toList

theorem toList_encode (m : FrameMessage) :
    m.encode.toList = "\x7b\"type\":".toList ++ (Json.renderText m.kind.toList ++ Json.renderFields m.fields) := by
  rw [encode, String.toList_ofList]
  rfl

theorem isRenderText_render (html : String) (context : Value) : isRenderText (render html context).encode = true := by
  have hkind : Json.renderText "RENDER".toList = "\"RENDER\"".toList := by decide
  rw [isRenderText, toList_encode, kind, hkind, fields, Json.renderFields]
  simp

theorem isRenderText_updateContext (path : String) (value : Value) :
    isRenderText (updateContext path value).encode = false := by
  have hkind : Json.renderText "UPDATE_CONTEXT".toList = "\"UPDATE_CONTEXT\"".toList := by decide
  rw [isRenderText, toList_encode, kind, hkind]
  simp
  rfl

end Wire.FrameMessage

open Wire.FrameMessage (isRenderText)

namespace Sandbox.Manager

variable {φ : Type} [IsolatedFrame φ] {m n : Manager (Logged φ)} {asked told : List FrameMessage} {rs : List String}

/-- The renders that were posted, and after them those that wait for the guest. -/
def renders (n : Manager (Logged φ)) : List String :=
  (n.frame.log ++ n.queue.map FrameMessage.encode).filter isRenderText

theorem Transport.of_eq (t : Transport asked told n) (hphase : m.phase = n.phase) (hqueue : m.queue = n.queue)
    (hlog : m.frame.log = n.frame.log) (hframe : NeverRefuses n.frame.frame → NeverRefuses m.frame.frame)
    (hlast : m.lastError = n.lastError) : Transport asked told m where
  takes h := hframe (t.takes (hphase ▸ h))
  waiting h := hlog ▸ hqueue ▸ t.waiting (hphase ▸ h)
  ready h := hlog ▸ hqueue ▸ t.ready (hphase ▸ h)
  destroyed h := hlog ▸ hqueue ▸ t.destroyed (hphase ▸ h)
  reported := hlast.trans t.reported

theorem frame_of_mount {φ : Type} [IsolatedFrame φ] {m : Manager φ} {host : HostWindow} {frame : φ}
    (h : mount host frame = .ok m) : ∃ host', m.frame = (IsolatedFrame.attach host' frame).2 := by
  unfold mount at h
  split at h
  · cases h
  · split at h
    · cases h
    · dsimp only at h
      split at h
      · next he =>
        cases h
        exact ⟨_, (congrArg Prod.snd he).symm⟩
      · cases h

/-- The frame is there, and these are the renders it was asked for. -/
def Painted (rs : List String) (n : Manager (Logged φ)) : Prop :=
  n.phase ≠ .destroyed ∧
    ∃ asked told, Transport asked told n ∧ (asked.map FrameMessage.encode).filter isRenderText = rs

theorem Painted.renders_eq (h : n.Painted rs) : n.renders = rs := by
  obtain ⟨hphase, asked, told, t, rfl⟩ := h
  rw [renders, t.log_append_queue hphase]

/-- What was asked for before the guest is ready waits, and nothing waits afterwards. -/
theorem Painted.posted_eq (h : n.Painted rs) :
    n.frame.log.filter isRenderText = if n.phase = .ready then rs else [] := by
  obtain ⟨hphase, asked, told, t, rfl⟩ := h
  cases hp : n.phase with
  | waiting => simp [(t.waiting hp).2.1]
  | ready => simp [(t.ready hp).2.1]
  | destroyed => exact absurd hp hphase

theorem Painted.send (h : n.Painted rs) (x : FrameMessage) :
    (n.send x).2.Painted (rs ++ [x.encode].filter isRenderText) := by
  obtain ⟨hphase, asked, told, t, rfl⟩ := h
  refine ⟨(phase_send n x).symm ▸ hphase, _, _, t.send x, ?_⟩
  rw [List.map_append, List.filter_append, List.map_singleton]

theorem Painted.updateContext (h : n.Painted rs) (path : String) (value : Value) :
    (n.updateContext path value).2.Painted rs := by
  have hsent := h.send (.updateContext path value)
  rwa [List.filter_cons_of_neg (by simp [FrameMessage.isRenderText_updateContext]), List.filter_nil,
    List.append_nil] at hsent

theorem Painted.render (h : n.Painted rs) (html : String) (context : Value) :
    (n.render html context).2.Painted (rs ++ [(FrameMessage.render html context).encode]) := by
  have hsent := h.send (.render html context)
  rwa [List.filter_cons_of_pos (FrameMessage.isRenderText_render html context), List.filter_nil] at hsent

theorem Painted.handleEvent (h : n.Painted rs) (e : MessageEvent) : (n.handleEvent e).2.Painted rs := by
  obtain ⟨hphase, asked, told, t, hrs⟩ := h
  refine ⟨?_, _, _, t.handleEvent e, hrs⟩
  rcases phase_handleEvent_cases n e with he | ⟨-, he⟩ <;> rw [he]
  · exact hphase
  · exact nofun

theorem Painted.of_eq (h : n.Painted rs) (hphase : m.phase = n.phase) (hqueue : m.queue = n.queue)
    (hlog : m.frame.log = n.frame.log) (hframe : NeverRefuses n.frame.frame → NeverRefuses m.frame.frame)
    (hlast : m.lastError = n.lastError) : m.Painted rs := by
  obtain ⟨hn, asked, told, t, hrs⟩ := h
  exact ⟨hphase ▸ hn, asked, told, t.of_eq hphase hqueue hlog hframe hlast, hrs⟩

theorem Painted.withHost (h : n.Painted rs) (host : HostWindow) : Painted rs { n with host } :=
  h.of_eq rfl rfl rfl id rfl

theorem painted_mount {host : HostWindow} {frame : φ} (hm : mount host ({ frame } : Logged φ) = .ok n)
    (hf : NeverRefuses n.frame.frame) : n.Painted [] := by
  obtain ⟨hphase, hqueue, hlast⟩ := mount_eq_ok hm
  have hlog : n.frame.log = [] := by
    obtain ⟨host', hframe⟩ := frame_of_mount hm
    rw [hframe]
    rfl
  exact ⟨hphase ▸ nofun, [], [], .of_waiting hphase hf nofun hlog hqueue hlast, rfl⟩

end Sandbox.Manager

/-! ### The renders of a session -/

/-- What is painted when a template is rendered from these data one after the other; a render that fails paints
nothing. -/
def TemplateEnvironment.replay (template : String) : TemplateEnvironment → List Value → List String
  | _, [] => []
  | env, data :: rest =>
    match env.render template data with
    | (.ok html, env') =>
      (FrameMessage.render html (env.policy.secureContext data)).encode :: replay template env' rest
    | (.error _, env') => replay template env' rest

theorem TemplateEnvironment.replay_cons (env : TemplateEnvironment) (template : String) (d : Value) (ds : List Value) :
    env.replay template (d :: ds) = env.replay template [d] ++ (env.render template d).2.replay template ds := by
  rw [replay, replay]
  rcases env.render template d with ⟨_ | html, env'⟩ <;> simp only [replay, List.nil_append, List.singleton_append]

theorem TemplateEnvironment.replay_eq {env : TemplateEnvironment} (template : String) {ds es : List Value}
    (h : List.Forall₂ env.policy.Agree ds es) : env.replay template ds = env.replay template es := by
  induction ds generalizing env es with
  | nil =>
    cases h
    rfl
  | cons d ds ih =>
    obtain ⟨e, es, hde, hrest, rfl⟩ := List.forall₂_cons_left_iff.1 h
    have hpolicy := env.policy_render template e
    rw [replay, replay, render_eq hde, hde.secureContext_eq]
    rcases hr : env.render template e with ⟨_ | html, env'⟩ <;> rw [hr] at hpolicy <;> rw [← hpolicy] at hrest
    · exact ih hrest
    · exact congrArg _ (ih hrest)

namespace LayoutSession

variable {σ φ : Type} [IsolatedFrame φ]

/-- The data of a render now. -/
def payload (s : LayoutSession σ φ) : Value :=
  s.task.withOutput s.store.document.toValue

/-- The data of the renders that a run asks for. -/
def payloads (s : LayoutSession σ φ) : List (Input φ) → List Value
  | [] => []
  | .rerender :: inputs => s.payload :: (s.act .rerender).payloads inputs
  | i :: inputs => (s.act i).payloads inputs

/-- It leaves the session mounted and the frame's log alone. -/
def Input.Stays : Input (Logged φ) → Prop
  | .unmount => False
  | .frame go => ∀ f, (go f).log = f.log ∧ (NeverRefuses f.frame → NeverRefuses (go f).frame)
  | _ => True

/-- A mounted session, and the renders it has asked for. -/
structure Paints (env : TemplateEnvironment) (template : String) (task : TaskContext) (rs : List String)
    (s : LayoutSession σ (Logged φ)) : Prop where
  mounted : s.isUnmounted = false
  environment : s.environment = env
  template : s.template = template
  task : s.task = task
  wellFormed : s.store.document.WellFormed
  /-- No observer asks for a render. -/
  observers : ∀ rs, ∀ o ∈ s.store.observers, o.Keeps (fun _ => True) fun x => x.2.Painted rs
  manager : s.manager.Painted rs

variable {env : TemplateEnvironment} {template : String} {task : TaskContext} {rs : List String}
  {s : LayoutSession σ (Logged φ)}

theorem Paints.steady (h : Paints env template task rs s) :
    s.store.Steady (fun _ => True) fun x => x.2.Painted rs :=
  ⟨h.wellFormed, fun _ _ => trivial, h.observers rs, h.manager⟩

theorem Paints.withManager (h : Paints env template task rs s) {m : Manager (Logged φ)} {rs' : List String}
    (hm : m.Painted rs') : Paints env template task rs' (s.withManager m) :=
  { h with manager := hm, wellFormed := h.wellFormed }

theorem Paints.withStore (h : Paints env template task rs s) {store : Shared (σ × Manager (Logged φ))}
    (hs : store.Steady (fun _ => True) fun x => x.2.Painted rs) (ho : store.observers ⊆ s.store.observers) :
    Paints env template task rs { s with store } :=
  { h with
    wellFormed := hs.wellFormed, observers := fun rs o hmem => h.observers rs o (ho hmem), manager := hs.state }

theorem Paints.react (h : Paints env template task rs s) (n : Notice) :
    Paints env template task rs (s.react n) := by
  cases n with
  | rendered => exact h
  | outputChange field value =>
    unfold LayoutSession.react
    dsimp only
    split
    · exact h.withStore (h.steady.set field trivial) (Shared.observers_set ..)
    · exact h
  | failed e => exact { h with }

theorem Paints.handle (h : Paints env template task rs s) (e : MessageEvent) :
    Paints env template task rs (s.handle e) := by
  have hheard := h.withManager (h.manager.handleEvent e)
  unfold LayoutSession.handle
  cases (s.manager.handleEvent e).1 with
  | none => exact hheard
  | some n => exact hheard.react n

theorem Paints.pump (h : Paints env template task rs s) : Paints env template task rs s.pump.2 := by
  have hfold : ∀ (es : List MessageEvent) {s : LayoutSession σ (Logged φ)}, Paints env template task rs s →
      Paints env template task rs (es.foldl LayoutSession.handle s) := by
    intro es
    induction es with
    | nil => exact id
    | cons e es ih => exact fun h => ih (h.handle e)
  rw [pump_eq]
  exact hfold _ (h.withManager (h.manager.withHost _))

theorem renderPass_eq (env : TemplateEnvironment) (template : String) (task : TaskContext) (output : Value) :
    renderPass env template task output =
      ((env.render template (task.withOutput output)).1.map fun html =>
          (html, env.policy.secureContext (task.withOutput output)),
        (env.render template (task.withOutput output)).2) := by
  rw [← env.policy_render template (task.withOutput output)]
  rfl

theorem Paints.rerender (h : Paints env template task rs s) :
    Paints (env.render template s.payload).2 template task (rs ++ env.replay template [s.payload]) s.rerender.2 := by
  obtain ⟨hmounted, rfl, rfl, rfl, hdocument, hobservers, hmanager⟩ := h
  have hnext (environment : TemplateEnvironment) : Paints environment s.template s.task rs { s with environment } :=
    ⟨hmounted, rfl, rfl, rfl, hdocument, hobservers, hmanager⟩
  rw [LayoutSession.rerender, if_neg (by simp [hmounted]), renderPass_eq, TemplateEnvironment.replay]
  unfold payload
  rcases s.environment.render s.template (s.task.withOutput s.store.document.toValue) with ⟨_ | html, env'⟩
  · simp only [TemplateEnvironment.replay, List.append_nil]
    exact hnext env'
  · have hpainted := (hnext env').withManager (hmanager.render html (s.environment.policy.secureContext s.payload))
    unfold payload at hpainted
    have hsame : ({ s with environment := env' } : LayoutSession σ (Logged φ)).manager = s.manager := rfl
    dsimp only [Except.map, TemplateEnvironment.replay]
    rw [hsame]
    rcases hm : s.manager.render html _ with ⟨_ | _, m⟩ <;> rw [hm] at hpainted
    · exact hpainted
    · exact { hpainted with }

theorem Paints.act (h : Paints env template task rs s) {i : Input (Logged φ)} (hi : i.Stays)
    (hr : i ≠ .rerender) :
    Paints env template task rs (s.act i) := by
  cases i with
  | write field value => exact h.withStore (h.steady.set field trivial) (Shared.observers_set ..)
  | merge u => exact h.withStore (h.steady.merge trivial) (Shared.observers_merge ..)
  | arrive e => exact h.withManager (h.manager.withHost _)
  | pump => exact h.pump
  | rerender => exact absurd rfl hr
  | frame go => exact h.withManager (h.manager.of_eq rfl rfl (hi _).1 (hi _).2 rfl)
  | unmount => exact hi.elim

theorem Paints.run {inputs : List (Input (Logged φ))} (h : Paints env template task rs s) (hi : ∀ i ∈ inputs, i.Stays) :
    (s.run inputs).manager.Painted (rs ++ env.replay template (s.payloads inputs)) := by
  induction inputs generalizing s env rs with
  | nil => exact (List.append_nil rs).symm ▸ h.manager
  | cons i inputs ih =>
    obtain ⟨hone, hrest⟩ := List.forall_mem_cons.1 hi
    by_cases hr : i = .rerender
    · subst hr
      rw [payloads, TemplateEnvironment.replay_cons, ← List.append_assoc]
      exact ih h.rerender hrest
    · have hsame : s.payloads (i :: inputs) = (s.act i).payloads inputs := by
        cases i with
        | rerender => exact absurd rfl hr
        | _ => rfl
      rw [hsame]
      exact ih (h.act hone hr) hrest

variable {store : Shared σ} {host : HostWindow} {frame : φ}

theorem keeps_forward_painted (policy : SecurityPolicy) (id : Nat) (rs : List String) :
    Observer.Keeps (fun _ => True) (fun x : σ × Manager (Logged φ) => x.2.Painted rs) ⟨id, none, forward policy⟩ := by
  intro u origin x _ hx
  refine ⟨?_, fun _ _ _ => trivial⟩
  unfold forward
  dsimp only
  split
  · exact hx.updateContext _ _
  · exact hx

/-- A session that could be mounted has asked for one render. -/
theorem paints_mount (hm : mount env template task store host ({ frame } : Logged φ) = .ok s)
    (hf : NeverRefuses s.manager.frame.frame) (hs : store.document.WellFormed) :
    Paints (env.render template (task.withOutput store.document.toValue)).2 template task
      (env.replay template [task.withOutput store.document.toValue]) s := by
  rw [mount, renderPass_eq] at hm
  rw [TemplateEnvironment.replay]
  rcases hr : env.render template (task.withOutput store.document.toValue) with ⟨_ | html, env'⟩ <;> rw [hr] at hm
  · cases hm
  · dsimp only [Except.map] at hm
    split at hm
    · cases hm
    · next m hmount =>
      have hwaits (context : Value) :
          m.render html context = (.ok (), { m with queue := m.queue ++ [.render html context] }) :=
        m.send_waiting (.render html context) (Manager.mount_eq_ok hmount).1
      rw [hwaits] at hm
      dsimp only at hm
      cases hm
      have hpainted := (Manager.painted_mount hmount hf).render html
        (env.policy.secureContext (task.withOutput store.document.toValue))
      rw [hwaits] at hpainted
      refine ⟨rfl, rfl, rfl, rfl, hs, fun rs o ho => ?_, hpainted⟩
      rcases List.mem_append.1 ho with ho | ho
      · obtain ⟨o, -, rfl⟩ := List.mem_map.1 ho
        exact fun u origin x _ hx => ⟨hx, fun _ _ _ => trivial⟩
      · rw [List.mem_singleton.1 ho]
        exact keeps_forward_painted env.policy _ rs

/-- Over the same frame, payloads that agree are refused alike or leave the same manager, with the same render waiting. -/
theorem mount_eq {σ' : Type} {task' : TaskContext} {store' : Shared σ'} {frame : φ}
    (h : env.policy.Agree (task.withOutput store.document.toValue) (task'.withOutput store'.document.toValue)) :
    (mount env template task store host frame).map manager =
      (mount env template task' store' host frame).map manager := by
  unfold mount
  rw [renderPass_eq, renderPass_eq, TemplateEnvironment.render_eq h, h.secureContext_eq]
  rcases env.render template (task'.withOutput store'.document.toValue) with ⟨_ | html, env'⟩
  · rfl
  · dsimp only [Except.map]
    cases Manager.mount host frame with
    | error e => rfl
    | ok m =>
      dsimp only
      rcases m.render html _ with ⟨_ | _, m⟩ <;> rfl

/-- A session that was mounted in a frame that takes every text, and what has happened to it since. -/
structure Shown (env : TemplateEnvironment) (template : String) (σ φ : Type) [IsolatedFrame φ] where
  task : TaskContext
  store : Shared σ
  host : HostWindow
  frame : φ
  start : LayoutSession σ (Logged φ)
  mounted : mount env template task store host { frame } = .ok start
  wellFormed : store.document.WellFormed
  takes : NeverRefuses start.manager.frame.frame
  inputs : List (Input (Logged φ))
  stays : ∀ i ∈ inputs, i.Stays

namespace Shown

variable (r : Shown env template σ φ)

/-- The data that the session was mounted over, and then those of its later renders. -/
def data : List Value :=
  r.task.withOutput r.store.document.toValue :: r.start.payloads r.inputs

def manager : Manager (Logged φ) :=
  (r.start.run r.inputs).manager

/-- The renders that the frame took. -/
def posted : List String :=
  r.manager.frame.log.filter isRenderText

/-- A session asks for the renders of its data, and for no other. -/
theorem painted : r.manager.Painted (env.replay template r.data) := by
  have hrun := (paints_mount r.mounted r.takes r.wellFormed).run r.stays
  rwa [← TemplateEnvironment.replay_cons] at hrun

end Shown

end LayoutSession

open LayoutSession in
/-- Whatever stands outside the allowed roots shows nowhere: not in what is rendered or in how a render fails, nor in
what it costs, nor in the renders that a session posts. -/
theorem TemplateEnvironment.only_allowed_roots_show (env : TemplateEnvironment) :
    (∀ {d e : Value}, env.policy.Agree d e → (∀ name, env.render name d = env.render name e) ∧
      ∀ source, env.renderString source d = env.renderString source e) ∧
    (∀ {σ₁ σ₂ φ : Type} [IsolatedFrame φ] (template : String) (task₁ task₂ : TaskContext) (store₁ : Shared σ₁)
      (store₂ : Shared σ₂) (host : HostWindow) (frame : φ),
      env.policy.Agree (task₁.withOutput store₁.document.toValue) (task₂.withOutput store₂.document.toValue) →
        (mount env template task₁ store₁ host frame).map manager =
          (mount env template task₂ store₂ host frame).map manager) ∧
    (∀ {σ₁ σ₂ φ₁ φ₂ : Type} [IsolatedFrame φ₁] [IsolatedFrame φ₂] {template : String} (r₁ : Shown env template σ₁ φ₁)
      (r₂ : Shown env template σ₂ φ₂), List.Forall₂ env.policy.Agree r₁.data r₂.data →
        ∃ renders, r₁.manager.renders = renders ∧ r₂.manager.renders = renders ∧
          r₁.posted = (if r₁.manager.phase = .ready then renders else []) ∧
          r₂.posted = (if r₂.manager.phase = .ready then renders else [])) ∧
    ∀ data, ∃ ms, env.policy.secureContext data = .object ms ∧
      (∀ k v, (k, v) ∈ ms ↔ env.policy.roots.contains k = true ∧ (k, v) ∈ data.members) ∧
      env.policy.secureContext (.object ms) = .object ms := by
  refine ⟨fun h => ⟨render_eq h, renderString_eq h⟩, fun template task₁ task₂ store₁ store₂ host frame h => mount_eq h,
    fun {_ _ _ _} _ _ template r₁ r₂ h => ?_, fun data => ?_⟩
  · have h₂ := r₂.painted
    rw [← replay_eq template h] at h₂
    exact ⟨_, r₁.painted.renders_eq, h₂.renders_eq, r₁.painted.posted_eq, h₂.posted_eq⟩
  · exact ⟨_, rfl, env.policy.mem_secureContext data, env.policy.secureContext_idem data⟩

/-- A page that shows the input, which is all that it may see. -/
def inputPage : TemplateEnvironment where
  policy :=
    { components := .allowAll, roots := .compile ["input"], bindingPath := .empty, maxDepth := 10, maxIterations := 10 }
  registry := none
  templates := [("page", [.emit (.var 1 "input")])]
  budget := { max := 10 }

def taskOf (user : String) : TaskContext :=
  { input := .text "<p>", user := .text user }

theorem agree_taskOf (user user' : String) (output : Value) :
    inputPage.policy.Agree ((taskOf user).withOutput output) ((taskOf user').withOutput output) := by
  refine .objects (Entries.sorted_ofList _) (Entries.sorted_ofList _) fun k hk => ?_
  obtain rfl : k = "input" := List.mem_singleton.1 (Policy.RootAllowlist.contains_compile.1 hk)
  simp [Entries.ofList, Entries.get?_put, taskOf]

/-- The page in a frame, with nothing in the document. -/
def mountPage (user : String) :=
  LayoutSession.mount inputPage "page" (taskOf user) ({ document := { replica := "tab" }, state := () } : Shared Unit) {}
    ({ frame := { window := ⟨1⟩, attributes := "allow-scripts" } } : Logged Sandbox.RecordingFrame)

theorem mountPage_takes : ∀ user ∈ ["ann", "bob"],
    ((mountPage user).toOption.all fun s => s.manager.frame.frame.refusesPosts) = false := by decide +kernel

theorem exists_shown {user : String} (hu : user ∈ ["ann", "bob"]) :
    ∃ r : LayoutSession.Shown inputPage "page" Unit Sandbox.RecordingFrame,
      r.data = [(taskOf user).withOutput (.object [])] := by
  have htakes := mountPage_takes user hu
  cases hs : mountPage user with
  | error e =>
    rw [hs] at htakes
    cases htakes
  | ok s =>
    rw [hs] at htakes
    exact ⟨⟨taskOf user, _, _, _, s, hs, (Collab.Document.Reachable.new "tab").wellFormed,
      Sandbox.Manager.neverRefuses_recording htakes, [], nofun⟩, rfl⟩

/-- Ann and Bob are shown one page, and what it renders and posts does not tell them apart. -/
theorem only_allowed_roots_show_users :
    (inputPage.render "page" ((taskOf "ann").withOutput .null) =
      inputPage.render "page" ((taskOf "bob").withOutput .null)) ∧
    (mountPage "ann").map LayoutSession.manager = (mountPage "bob").map LayoutSession.manager ∧
    ∃ r₁ r₂ : LayoutSession.Shown inputPage "page" Unit Sandbox.RecordingFrame,
      r₁.data ≠ r₂.data ∧ r₁.manager.renders = r₂.manager.renders := by
  obtain ⟨hrender, hmount, hposts, -⟩ := inputPage.only_allowed_roots_show
  refine ⟨(hrender (agree_taskOf ..)).1 "page", hmount _ _ _ _ _ _ _ (agree_taskOf ..), ?_⟩
  obtain ⟨r₁, h₁⟩ := exists_shown (show "ann" ∈ ["ann", "bob"] by decide)
  obtain ⟨r₂, h₂⟩ := exists_shown (show "bob" ∈ ["ann", "bob"] by decide)
  have hagree : List.Forall₂ inputPage.policy.Agree r₁.data r₂.data := by
    rw [h₁, h₂]
    exact .cons (agree_taskOf ..) .nil
  obtain ⟨renders, hr₁, hr₂, -⟩ := hposts r₁ r₂ hagree
  refine ⟨r₁, r₂, fun hsame => ?_, hr₁.trans hr₂.symm⟩
  have huser := congrArg (List.map (Value.member? "user")) hsame
  rw [h₁, h₂] at huser
  simp [taskOf, TaskContext.withOutput, Value.ofMembers, Value.member?, Entries.ofList, Entries.get?_put] at huser

end SecureLayout
