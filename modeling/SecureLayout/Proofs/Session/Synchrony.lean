import SecureLayout.Proofs.Policy.Context
import SecureLayout.Proofs.Sandbox.Replying
import SecureLayout.Proofs.Sandbox.Updating
import SecureLayout.Proofs.Session.Course
import SecureLayout.Proofs.Session.Repainting
import SecureLayout.Proofs.Text.Splitting

/-!
The context of a guest and the document of its session. A render brings all of the context, and a write of a field
brings that field alone, at the path under the output that its name spells. Main statement: as long as only fields
whose names are one segment of a path are written, to values that have room, the guest of a session has, once it has
read everything, the context that a render would bring it now.
-/

namespace SecureLayout

open Collab (Document Observer Origin Request Shared)
open Json (Value)
open Sandbox (Guest HostWindow IsolatedFrame Manager MessageEvent MountFailure Notice)
open Wire (FieldUpdate FrameMessage)

/-! ### One field of the output -/

theorem Entries.map_put {α β : Type} (f : α → β) (k : String) (v : α) (m : Entries α) :
    (put k v m).map (fun e => (e.1, f e.2)) = put k (f v) (m.map fun e => (e.1, f e.2)) := by
  induction m with
  | nil => rfl
  | cons e m ih =>
    rw [put, List.map_cons, put, ← ih]
    split_ifs <;> rfl

theorem Collab.Document.toValue_put {d d' : Document} {field : String} {u : FieldUpdate}
    (h : d'.entries = Entries.put field u d.entries) : d'.toValue = Value.setAt [field] u.value d.toValue := by
  rw [toValue, h, Entries.map_put FieldUpdate.value]
  rfl

theorem TaskContext.withOutput_setAt (t : TaskContext) (ks : List String) (new output : Value) :
    t.withOutput (Value.setAt ks new output) = Value.setAt ("output" :: ks) new (t.withOutput output) := by
  have houtput := t.member?_output output
  rw [Value.setAt, houtput, Option.getD_some]
  refine congrArg Value.object (Entries.ext_get? (Entries.sorted_ofList _)
    (Entries.sorted_put (Entries.sorted_ofList _) _ _) fun k => ?_)
  change Entries.get? k (Entries.ofList _) = Entries.get? k (Entries.put _ _ (Entries.ofList _))
  simp only [Entries.ofList, List.foldl_cons, List.foldl_nil, Entries.get?_put]
  split_ifs <;> simp_all

namespace SecurityPolicy

variable {p : SecurityPolicy} {k : String}

/-- What is set under an allowed root is set in the context. -/
theorem secureContext_setAt (h : p.roots.contains k = true) (ks : List String) (new : Value) {ms : Entries Value}
    (hms : Entries.Sorted ms) :
    p.secureContext (Value.setAt (k :: ks) new (.object ms)) =
      Value.setAt (k :: ks) new (p.secureContext (.object ms)) := by
  have hmember : (p.secureContext (.object ms)).member? k = (Value.object ms).member? k := by
    refine (Entries.get?_filter hms (fun k => p.roots.contains k) k).trans ?_
    rw [if_pos h]
    rfl
  refine congrArg Value.object (Entries.ext_get? ((Entries.sorted_put hms _ _).filter _)
    (Entries.sorted_put (hms.filter _) _ _) fun l => ?_)
  rw [hmember, Entries.get?_put]
  refine (Entries.get?_filter (Entries.sorted_put hms k _) (fun k => p.roots.contains k) l).trans ?_
  rw [Entries.get?_put, members_secureContext]
  refine Eq.trans ?_ (congrArg (ite _ _) (Entries.get?_filter hms (fun k => p.roots.contains k) l).symm)
  by_cases hl : l = k
  · rw [hl, if_pos h, if_pos rfl, if_pos rfl]
  · rw [if_neg hl, if_neg hl]

/-- Fields are written only where layouts may see the output. -/
theorem contains_output {field : String} (h : p.isOutputField field = true) : p.roots.contains "output" = true := by
  have hroot : Expression.root ⟨"output." ++ field⟩ = "output" := by
    rw [Expression.root, String.toList_append]
    rfl
  rw [isOutputField, validateExpression_eq, hroot, Bool.and_eq_true] at h
  exact h.1

end SecurityPolicy

/-- The name of a field is one segment of a path. -/
def IsSegment (field : String) : Prop :=
  field ≠ "" ∧ '.' ∉ field.toList

theorem IsSegment.pathSegments {field : String} (h : IsSegment field) :
    Value.pathSegments ("output." ++ field) = ["output", field] := by
  have hchars : ("output." ++ field).toList = "output".toList ++ '.' :: field.toList := by
    rw [String.toList_append]
    rfl
  rw [Value.pathSegments, hchars, Text.splitOnChar_append_sep, Text.splitOnChar_of_not_mem h.2,
    Text.splitOnChar_of_not_mem (by decide)]
  simp

/-- The context after a field was written is the context before it with that field set, at the path that its name
spells. -/
theorem SecurityPolicy.setPath_secureContext {p : SecurityPolicy} {d d' : Document} {u : FieldUpdate}
    (hfield : p.isOutputField u.field = true) (hname : IsSegment u.field)
    (h : d'.entries = Entries.put u.field u d.entries) (task : TaskContext) :
    (p.secureContext (task.withOutput d.toValue)).setPath ("output." ++ u.field) u.value =
      .ok (p.secureContext (task.withOutput d'.toValue)) := by
  have hempty : "" ∉ Value.pathSegments ("output." ++ u.field) := by
    rw [hname.pathSegments]
    simp [hname.1.symm]
  rw [Value.setPath_of_not_mem hempty, hname.pathSegments, Document.toValue_put h, TaskContext.withOutput_setAt]
  exact congrArg Except.ok (secureContext_setAt (contains_output hfield) _ _ (Entries.sorted_ofList _)).symm

/-! ### What a guest comes to -/

namespace Sandbox

namespace Guest

variable {g : Guest} {raws : List String}

/-- A context once a text was read. -/
def carried (context : Value) (raw : String) : Value :=
  match FrameMessage.decode raw with
  | .ok (.render _ new) => new
  | _ => updated context raw

theorem context_foldl_heed (g : Guest) (raws : List String) :
    (raws.foldl heed g).document.context = raws.foldl carried g.document.context := by
  refine (List.foldl_hom (fun g : Guest => g.document.context) fun g raw => ?_).symm
  unfold heed carried updated
  cases FrameMessage.decode raw with
  | error e => rfl
  | ok x => cases x <;> rfl

theorem carried_render {html : String} {new : Value} (h : (FrameMessage.render html new).Readable) (context : Value) :
    carried context (FrameMessage.render html new).encode = new := by
  have hdecode : FrameMessage.decode (FrameMessage.render html new).encode = _ := h
  simp only [carried, hdecode]

theorem carried_updateContext {path : String} {value context new : Value}
    (h : (FrameMessage.updateContext path value).Readable) (hnew : context.setPath path value = .ok new) :
    carried context (FrameMessage.updateContext path value).encode = new := by
  have hdecode : FrameMessage.decode (FrameMessage.updateContext path value).encode = _ := h
  simp only [carried, updated, hdecode, hnew]
  rfl

/-- The context once everything that waits was read. -/
def foreseen (g : Guest) : Value :=
  (g.inbox.getD []).foldl carried g.document.context

theorem run_eq (h : g.inbox = some raws) :
    g.run.2 = raws.foldl heed { g with inbox := some [], isStarting := false } := by
  rw [run, h]
  exact congrArg Prod.snd (receiveAll_eq _ raws)

/-- Reading what waits is what a guest does by itself. -/
theorem foreseen_run (h : g.inbox.isSome = true) :
    g.run.2.inbox = some [] ∧ g.run.2.document.context = g.foreseen := by
  obtain ⟨raws, hraws⟩ := Option.isSome_iff_exists.1 h
  constructor
  · rw [run, hraws]
    exact inbox_receiveAll _ raws
  · rw [run_eq hraws, context_foldl_heed, foreseen, hraws]
    rfl

end Guest

namespace Manager

variable {m : Manager Guest} {c : Value} {x : FrameMessage}

/-- The context of the guest once it has read what was posted to it and what waits for it. -/
def foreseen (m : Manager Guest) : Value :=
  (m.queue.map FrameMessage.encode).foldl Guest.carried m.frame.foreseen

/-- The guest is in the page, nothing waits for it once it is ready, and it comes to this context. -/
structure Reaches (c : Value) (m : Manager Guest) : Prop where
  phase : m.phase ≠ .destroyed
  attached : m.frame.inbox.isSome = true
  flushed : m.phase = .ready → m.queue = []
  context : m.foreseen = c

theorem Reaches.send (h : m.Reaches c) (x : FrameMessage) :
    (m.send x).2.Reaches (Guest.carried c x.encode) := by
  obtain ⟨raws, hraws⟩ := Option.isSome_iff_exists.1 h.attached
  cases hp : m.phase with
  | waiting =>
    rw [send_waiting m x hp]
    refine ⟨h.phase, h.attached, fun hready => ?_, ?_⟩
    · cases hp.symm.trans hready
    · rw [← h.context, foreseen, foreseen, List.map_append, List.foldl_append, List.map_singleton, List.foldl_cons,
        List.foldl_nil]
  | ready =>
    have hposted : (m.send x).2 = { m with frame := { m.frame with inbox := some (raws ++ [x.encode]) } } := by
      simp only [Manager.send, hp, Manager.post, IsolatedFrame.post, Guest.post, hraws]
    rw [hposted]
    refine ⟨h.phase, rfl, h.flushed, ?_⟩
    rw [← h.context, foreseen, foreseen, h.flushed hp, List.map_nil, List.foldl_nil, List.foldl_nil, Guest.foreseen,
      Guest.foreseen, hraws, Option.getD_some, Option.getD_some, List.foldl_append, List.foldl_cons, List.foldl_nil]
  | destroyed => exact absurd hp h.phase

theorem Reaches.render (h : m.Reaches c) {html : String} {context : Value}
    (hx : (FrameMessage.render html context).Readable) : (m.render html context).2.Reaches context := by
  have hsent := h.send (.render html context)
  rw [Guest.carried_render hx] at hsent
  exact hsent

theorem Reaches.updateContext (h : m.Reaches c) {path : String} {value new : Value}
    (hx : (FrameMessage.updateContext path value).Readable) (hnew : c.setPath path value = .ok new) :
    (m.updateContext path value).2.Reaches new := by
  have hsent := h.send (.updateContext path value)
  rw [Guest.carried_updateContext hx hnew] at hsent
  exact hsent

theorem flush_eq (h : m.frame.inbox.isSome = true) :
    m.flush = { m with
      frame := { m.frame with inbox := some (m.frame.inbox.getD [] ++ m.queue.map FrameMessage.encode) }, queue := [] } := by
  have hfold : ∀ (xs : List FrameMessage) (m : Manager Guest) (raws : List String), m.frame.inbox = some raws →
      xs.foldl (fun m x => (m.post x).2) m =
        { m with frame := { m.frame with inbox := some (raws ++ xs.map FrameMessage.encode) } } := by
    intro xs
    induction xs with
    | nil =>
      intro m raws hraws
      rw [List.map_nil, List.append_nil, ← hraws]
      rfl
    | cons x xs ih =>
      intro m raws hraws
      have hposted : (m.post x).2 = { m with frame := { m.frame with inbox := some (raws ++ [x.encode]) } } := by
        simp only [Manager.post, IsolatedFrame.post, Guest.post, hraws]
      rw [List.foldl_cons, ih _ (raws ++ [x.encode]) (by rw [hposted]), hposted, List.append_assoc]
      rfl
  obtain ⟨raws, hraws⟩ := Option.isSome_iff_exists.1 h
  rw [Manager.flush, hfold m.queue m raws hraws, hraws]
  rfl

theorem Reaches.receive (h : m.Reaches c) (x : FrameMessage) : (m.receive x).2.Reaches c := by
  have hsame {lastError : Option Failure} : Reaches c { m with lastError } :=
    ⟨h.phase, h.attached, h.flushed, h.context⟩
  cases x with
  | ready =>
    unfold Manager.receive
    dsimp only
    split
    · have hattached : ({ m with phase := .ready } : Manager Guest).frame.inbox.isSome = true := h.attached
      rw [flush_eq hattached]
      refine ⟨nofun, rfl, fun _ => rfl, ?_⟩
      rw [← h.context]
      exact List.foldl_append
    · exact h
  | rendered => exact hsame
  | error text => exact hsame
  | render html context => exact h
  | updateContext path value => exact h
  | outputChange field value => exact h

theorem Reaches.handleEvent (h : m.Reaches c) (e : MessageEvent) : (m.handleEvent e).2.Reaches c := by
  rcases handleEvent_cases m e with ⟨-, he⟩ | ⟨x, -, -, he⟩ <;> rw [he]
  · exact h
  · exact h.receive x

theorem Reaches.withHost (h : m.Reaches c) (host : HostWindow) : Reaches c { m with host } :=
  ⟨h.phase, h.attached, h.flushed, h.context⟩

/-- What the guest does by itself does not count, if it comes to the same. -/
theorem Reaches.withFrame (h : m.Reaches c) {g : Guest} (hg : g.inbox.isSome = true)
    (hsame : g.foreseen = m.frame.foreseen) : Reaches c { m with frame := g } := by
  refine ⟨h.phase, hg, h.flushed, ?_⟩
  rw [← h.context, foreseen, hsame]
  rfl

/-- Nothing waits for a guest that is ready. -/
theorem Reaches.context_run (h : m.Reaches c) (hready : m.phase = .ready) : m.frame.run.2.document.context = c := by
  rw [(Guest.foreseen_run h.attached).2, ← h.context, foreseen, h.flushed hready]
  rfl

theorem reaches_mount {host : HostWindow} {guest : Guest} (hm : mount host guest = .ok m) :
    m.Reaches m.foreseen := by
  obtain ⟨hphase, hqueue, -⟩ := mount_eq_ok hm
  refine ⟨hphase ▸ nofun, ?_, fun hready => ?_, rfl⟩
  · unfold mount at hm
    split at hm
    · cases hm
    · split at hm
      · cases hm
      · dsimp only at hm
        split at hm
        · next guest' ha =>
          cases hm
          change Guest.attach _ guest = _ at ha
          unfold Guest.attach at ha
          split at ha
          · cases ha
          · split at ha
            · cases ha
            · cases ha
              rfl
        · cases hm
  · exact hqueue

end Manager

end Sandbox

/-! ### Observers that ask for nothing -/

namespace Collab.Shared

variable {σ : Type} {s : Shared σ} {field : String} {value : Value} {u : FieldUpdate} {document : Document}

theorem tell_of_silent (write : String → Value → Shared σ → Shared σ) (u : FieldUpdate) (origin : Origin)
    {os : List (Observer σ)} (hos : ∀ o ∈ os, o.Asks fun _ => False) (s : Shared σ) :
    tell write u origin os s = { s with state := (hear u origin os s.state).1 } := by
  induction os generalizing s with
  | nil => rfl
  | cons o os ih =>
    obtain ⟨ho, hos⟩ := List.forall_mem_cons.1 hos
    have hnone : (o.call u origin s.state).2 = [] := List.eq_nil_iff_forall_not_mem.2 (ho u origin s.state)
    change tell write u origin os (serve write (o.call u origin s.state).2 _) = _
    rw [ih hos, hnone]
    rfl

/-- A write puts its field, or nothing happens. -/
theorem set_of_silent (h : ∀ o ∈ s.observers, o.Asks fun _ => False) (field : String) (value : Value) :
    (s.set field value).2 = s ∨ ∃ u document, u.field = field ∧ u.value = value ∧
      document.entries = Entries.put u.field u s.document.entries ∧
      (s.set field value).2 =
        { s with document, state := (hear u .own (s.observers.filter (·.watches field)) s.state).1 } := by
  rw [Shared.set, room, setWithin]
  cases hset : s.document.set field value with
  | error e => exact .inl rfl
  | ok w =>
    obtain ⟨u, document⟩ := w
    obtain ⟨rfl, -, hentries, -⟩ := Document.set_eq_ok hset
    refine .inr ⟨⟨field, value, _⟩, document, rfl, rfl, hentries, ?_⟩
    exact tell_of_silent _ _ _ (fun o ho => h o (List.mem_filter.1 ho).1) _

/-- A merge puts the field of the write that is taken in, or leaves the fields as they are. -/
theorem merge_of_silent (h : ∀ o ∈ s.observers, o.Asks fun _ => False) (u : FieldUpdate) :
    (∃ document, document.entries = s.document.entries ∧ (s.merge u).2 = { s with document }) ∨
      ∃ document, document.entries = Entries.put u.field u s.document.entries ∧
        (s.merge u).2 =
          { s with document, state := (hear u .merged (s.observers.filter (·.watches u.field)) s.state).1 } := by
  have hmerge : s.document.merge u = (s.document.isNews u, (s.document.merge u).2) := by
    unfold Document.merge
    cases s.document.isNews u <;> rfl
  unfold Shared.merge
  rw [hmerge]
  cases hnews : s.document.isNews u with
  | false => exact .inl ⟨_, by simp only [Document.merge, hnews, Bool.false_eq_true, if_false], rfl⟩
  | true =>
    refine .inr ⟨(s.document.merge u).2, by simp only [Document.merge, hnews, if_true], ?_⟩
    exact tell_of_silent _ _ _ (fun o ho => h o (List.mem_filter.1 ho).1) _

end Collab.Shared

/-! ### Sessions -/

namespace LayoutSession

variable {σ : Type} {p : SecurityPolicy} {s : LayoutSession σ Guest}

/-- An edit of a field of the output that the event reports has a name of one segment. -/
def Plain (p : SecurityPolicy) (e : MessageEvent) : Prop :=
  ∀ field value, FrameMessage.decode e.data = .ok (.outputChange field value) → p.isOutputField field = true →
    IsSegment field

/-- The last observer passes writes on to the frame; the others leave it alone, and nobody asks for anything. -/
def Forwarding (p : SecurityPolicy) (os : List (Observer (σ × Manager Guest))) : Prop :=
  ∃ others id, os = others ++ [⟨id, none, forward p⟩] ∧
    ∀ o ∈ others, o.Asks (fun _ => False) ∧ ∀ u origin x, (o.call u origin x).1.2 = x.2

variable {os : List (Observer (σ × Manager Guest))}

theorem Forwarding.asks (h : Forwarding p os) : ∀ o ∈ os, o.Asks fun _ => False := by
  obtain ⟨others, id, rfl, hothers⟩ := h
  intro o ho
  rcases List.mem_append.1 ho with ho | ho
  · exact (hothers o ho).1
  · rw [List.mem_singleton.1 ho]
    intro u origin x r hr
    unfold forward at hr
    dsimp only at hr
    split at hr <;> cases hr

/-- A field of the output that is written is passed on once. -/
theorem Forwarding.hear (h : Forwarding p os) {u : FieldUpdate} (hfield : p.isOutputField u.field = true)
    (origin : Origin) (x : σ × Manager Guest) :
    (Shared.hear u origin (os.filter (·.watches u.field)) x).1.2 =
      (x.2.updateContext ("output." ++ u.field) u.value).2 := by
  obtain ⟨others, id, rfl, hothers⟩ := h
  have hlast : ([⟨id, none, forward p⟩] : List (Observer (σ × Manager Guest))).filter (·.watches u.field) =
      [⟨id, none, forward p⟩] := rfl
  rw [List.filter_append, hlast]
  have haside : ∀ o ∈ others.filter (·.watches u.field), ∀ u origin x, (o.call u origin x).1.2 = x.2 :=
    fun o ho => (hothers o (List.mem_filter.1 ho).1).2
  generalize others.filter (·.watches u.field) = watching at haside ⊢
  induction watching generalizing x with
  | nil =>
    change (forward p u origin x).1.2 = _
    rw [forward, if_pos hfield]
  | cons o watching ih =>
    obtain ⟨ho, hrest⟩ := List.forall_mem_cons.1 haside
    have hothers := ih (o.call u origin x).1 hrest
    rw [ho] at hothers
    exact hothers

/-- A mounted session whose guest comes to the context that a render would bring it now. -/
structure Tracks (p : SecurityPolicy) (s : LayoutSession σ Guest) : Prop where
  mounted : s.isUnmounted = false
  policy : s.environment.policy = p
  observers : Forwarding p s.store.observers
  events : s.manager.Clear (fun _ => True) (Plain p)
  manager : s.manager.Reaches (p.secureContext s.payload)

theorem lasts_true {φ : Type} [IsolatedFrame φ] : Sandbox.Lasts fun _ : φ => True :=
  ⟨fun _ _ => trivial, fun _ _ => trivial, fun _ => trivial⟩

theorem Tracks.withManager (h : s.Tracks p) {m : Manager Guest} (hevents : m.Clear (fun _ => True) (Plain p))
    (hm : m.Reaches (p.secureContext s.payload)) : (s.withManager m).Tracks p :=
  ⟨h.mounted, h.policy, h.observers, hevents, hm⟩

/-- What is put under a field is told to the guest. -/
theorem Tracks.put (h : s.Tracks p) {u : FieldUpdate} {document : Document}
    (hfield : p.isOutputField u.field = true) (hname : IsSegment u.field) (hfits : u.value.Fits fieldRoom)
    (hdocument : document.entries = Entries.put u.field u s.store.document.entries) (origin : Origin) :
    Tracks p { s with store := { s.store with
      document, state := (Shared.hear u origin (s.store.observers.filter (·.watches u.field)) s.store.state).1 } } := by
  have hread : (FrameMessage.updateContext ("output." ++ u.field) u.value).Readable :=
    (FrameMessage.readable_iff_fits rfl hfits).2 (hfits.mono (by decide))
  have hheard := h.observers.hear hfield origin s.store.state
  refine ⟨h.mounted, h.policy, h.observers, ?_, ?_⟩
  · change (Shared.hear _ _ _ s.store.state).1.2.Clear _ _
    rw [hheard]
    exact h.events.send lasts_true hread
  · change (Shared.hear _ _ _ s.store.state).1.2.Reaches _
    rw [hheard]
    exact h.manager.updateContext hread (SecurityPolicy.setPath_secureContext hfield hname hdocument s.task)

theorem Tracks.write (h : s.Tracks p) {field : String} {value : Value} (hfield : p.isOutputField field = true)
    (hname : IsSegment field) (hfits : value.Fits fieldRoom) :
    Tracks p { s with store := (s.store.set field value).2 } := by
  rcases Shared.set_of_silent h.observers.asks field value with he | ⟨u, document, rfl, rfl, hdocument, he⟩ <;> rw [he]
  · exact h
  · exact h.put hfield hname hfits hdocument .own

theorem Tracks.merge (h : s.Tracks p) {u : FieldUpdate} (hfield : p.isOutputField u.field = true)
    (hname : IsSegment u.field) (hfits : u.value.Fits fieldRoom) :
    Tracks p { s with store := (s.store.merge u).2 } := by
  rcases Shared.merge_of_silent h.observers.asks u with ⟨document, hdocument, he⟩ | ⟨document, hdocument, he⟩ <;> rw [he]
  · have hsame : document.toValue = s.store.document.toValue := by
      rw [Document.toValue, hdocument, Document.toValue]
    refine ⟨h.mounted, h.policy, h.observers, h.events, ?_⟩
    rw [payload, hsame]
    exact h.manager
  · exact h.put hfield hname hfits hdocument .merged

theorem Tracks.handle (h : s.Tracks p) {e : MessageEvent} (hmodest : Modest e) (hplain : Plain p e) :
    (s.handle e).Tracks p := by
  have hheard := h.withManager (h.events.handleEvent lasts_true e) (h.manager.handleEvent e)
  unfold LayoutSession.handle
  cases hn : (s.manager.handleEvent e).1 with
  | none => exact hheard
  | some n =>
    change Tracks p (react _ n)
    cases n with
    | rendered => exact hheard
    | outputChange field value =>
      have hdecode := Manager.decode_of_outputChange hn
      unfold LayoutSession.react
      dsimp only
      split
      · next hfield =>
        have hfield' : p.isOutputField field = true := hheard.policy ▸ hfield
        exact hheard.write hfield' (hplain field value hdecode hfield') (hmodest field value hdecode)
      · exact hheard
    | failed e => exact { hheard with }

theorem Tracks.pump (hc : s.Clear (fun _ => True) (fun _ => True)) (h : s.Tracks p) : s.pump.2.Tracks p := by
  have hfold : ∀ (es : List MessageEvent) {s : LayoutSession σ Guest}, (∀ e ∈ es, Modest e) → (∀ e ∈ es, Plain p e) →
      s.Tracks p → (es.foldl LayoutSession.handle s).Tracks p := by
    intro es
    induction es with
    | nil => exact fun _ _ h => h
    | cons e es ih =>
      intro s hmodest hplain h
      obtain ⟨hm, hmodest⟩ := List.forall_mem_cons.1 hmodest
      obtain ⟨hp, hplain⟩ := List.forall_mem_cons.1 hplain
      exact ih hmodest hplain (h.handle hm hp)
  rw [pump_eq]
  exact hfold _ hc.manager.events h.events.events
    (h.withManager h.events.takeEvents (h.manager.withHost _))

theorem Tracks.rerender (hc : s.Clear (fun _ => True) (fun _ => True)) (h : s.Tracks p) : s.rerender.2.Tracks p := by
  have hpolicy := policy_renderPass s.environment s.template s.task s.store.document.toValue
  unfold LayoutSession.rerender
  rw [if_neg (by simp [h.mounted])]
  rcases hr : renderPass s.environment s.template s.task s.store.document.toValue with ⟨_ | ⟨html, context⟩, environment⟩
  · rw [hr] at hpolicy
    exact ⟨h.mounted, hpolicy.trans h.policy, h.observers, h.events, h.manager⟩
  · rw [hr] at hpolicy
    have houtput := (Document.fits_toValue_iff hc.store.wellFormed).2 hc.store.values
    have hread := readable_renderPass hr hc.task houtput
    have hcontext : context = p.secureContext s.payload :=
      h.policy ▸ renderPass_eq_ok hr
    have hsent : (s.withManager (s.manager.render html context).2).Tracks p :=
      h.withManager (h.events.send lasts_true hread) (hcontext ▸ h.manager.render hread)
    have hsame : ({ s with environment } : LayoutSession σ Guest).manager = s.manager := rfl
    dsimp only
    rw [hsame]
    rcases hm : s.manager.render html context with ⟨_ | _, m⟩ <;> rw [hm] at hsent
    · exact { hsent with policy := hpolicy.trans h.policy, manager := hsent.manager }
    · exact { hsent with policy := hpolicy.trans h.policy, manager := hsent.manager }

/-! ### Runs -/

/-- Fields of the output are written under names of one segment and to values that have room, the guest comes to
what it would come to anyhow when it goes on by itself, and the session is not unmounted. -/
def Input.Follows (p : SecurityPolicy) : Input Guest → Prop
  | .write field value => p.isOutputField field = true ∧ IsSegment field ∧ value.Fits fieldRoom
  | .merge u => p.isOutputField u.field = true ∧ IsSegment u.field ∧ u.value.Fits fieldRoom
  | .arrive e => Modest e ∧ Plain p e
  | .frame go => ∀ g : Guest, g.inbox.isSome = true → (go g).inbox.isSome = true ∧ (go g).foreseen = g.foreseen
  | .unmount => False
  | _ => True

/-- A guest may run at any time. -/
theorem follows_run (p : SecurityPolicy) : (Input.frame fun g : Guest => g.run.2).Follows p := by
  intro g hg
  obtain ⟨hinbox, hcontext⟩ := Guest.foreseen_run hg
  refine ⟨by rw [hinbox]; rfl, ?_⟩
  rw [← hcontext, Guest.foreseen, hinbox]
  rfl

theorem Input.Follows.fits {i : Input Guest} (h : i.Follows p) : i.Fits fun _ => True := by
  cases i with
  | write field value => exact h.2.2
  | merge u => exact h.2.2
  | arrive e => exact h.1
  | frame go => exact fun _ _ => trivial
  | _ => trivial

theorem Tracks.act (hc : s.Clear (fun _ => True) (fun _ => True)) (h : s.Tracks p) {i : Input Guest}
    (hi : i.Follows p) : (s.act i).Tracks p := by
  cases i with
  | write field value => exact h.write hi.1 hi.2.1 hi.2.2
  | merge u => exact h.merge hi.1 hi.2.1 hi.2.2
  | arrive e => exact h.withManager (h.events.arrive hi.2) (h.manager.withHost _)
  | pump => exact h.pump hc
  | rerender => exact h.rerender hc
  | frame go =>
    obtain ⟨hattached, hsame⟩ := hi _ h.manager.attached
    exact h.withManager ⟨trivial, h.events.queue, h.events.events⟩ (h.manager.withFrame hattached hsame)
  | unmount => exact hi.elim

theorem Tracks.run (hc : s.Clear (fun _ => True) (fun _ => True)) (h : s.Tracks p) {inputs : List (Input Guest)}
    (hi : ∀ i ∈ inputs, i.Follows p) : (s.run inputs).Tracks p := by
  induction inputs generalizing s with
  | nil => exact h
  | cons i inputs ih =>
    obtain ⟨hone, hrest⟩ := List.forall_mem_cons.1 hi
    exact ih (hc.act lasts_true hone.fits) (h.act hc hone) hrest

variable {env : TemplateEnvironment} {template : String} {task : TaskContext} {store : Shared σ} {host : HostWindow}
  {guest : Guest}

theorem tracks_mount (hm : mount env template task store host guest = .ok s) (ht : task.Fits (fieldRoom + 1))
    (hs : store.document.WellFormed) (hv : ∀ u ∈ store.document.snapshot, u.value.Fits fieldRoom)
    (ho : ∀ o ∈ store.observers, o.Asks fun _ => False) : s.Tracks env.policy := by
  have hpolicy := policy_renderPass env template task store.document.toValue
  unfold mount at hm
  split at hm
  · cases hm
  · next html context environment hr =>
    rw [hr] at hpolicy
    have hread := readable_renderPass hr ht ((Document.fits_toValue_iff hs).2 hv)
    split at hm
    · cases hm
    · next m hmount =>
      have hclear := (Manager.clear_mount (E := Plain env.policy) hmount lasts_true trivial).send lasts_true hread
      have hreaches := (Manager.reaches_mount hmount).render hread
      split at hm
      · cases hm
      · next m' hrender =>
        rw [hrender] at hreaches
        change m.send _ = _ at hrender
        rw [hrender] at hclear
        cases hm
        refine ⟨rfl, hpolicy, ⟨_, _, rfl, fun o ho' => ?_⟩, hclear, renderPass_eq_ok hr ▸ hreaches⟩
        obtain ⟨o, hmem, rfl⟩ := List.mem_map.1 ho'
        exact ⟨fun u origin x => ho o hmem u origin x.1, fun _ _ _ => rfl⟩

/-- Updates field by field and whole renders agree. Over a document whose other observers ask for nothing, whatever
fields of the output are written, merged or edited by the guest meanwhile, under names of one segment and to values
that have room: once a session's guest has read everything, its context is the one that a render brings now. -/
theorem context_follows_document (hm : mount env template task store host guest = .ok s)
    (ht : task.Fits (fieldRoom + 1)) (hs : store.Steady (Value.Fits fieldRoom) fun _ => True)
    (ho : ∀ o ∈ store.observers, o.Asks fun _ => False) {inputs : List (Input Guest)}
    (hi : ∀ i ∈ inputs, i.Follows env.policy) :
    (s.run inputs).manager.foreseen = env.policy.secureContext (s.run inputs).payload ∧
      ((s.run inputs).manager.phase = .ready →
        (s.run inputs).manager.frame.run.2.document.context = env.policy.secureContext (s.run inputs).payload) := by
  have hclear := clear_mount hm lasts_true trivial ht hs
  have htracks := (tracks_mount hm ht hs.wellFormed hs.values ho).run hclear hi
  exact ⟨htracks.manager.context, htracks.manager.context_run⟩

end LayoutSession

end SecureLayout
