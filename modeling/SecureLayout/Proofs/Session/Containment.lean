import SecureLayout.Proofs.Sandbox.Heeding
import SecureLayout.Proofs.Session.Attending

/-!
What a guest can do to a document. Main statement: a text of a guest changes a document only if it is an edit of a field
that may be an output, and then it writes that one field, later than all that was written, and tells the guest of it
once; so a field that may not be an output is safe from every guest.
-/

namespace SecureLayout

open Collab (Document Observer Origin Request Shared)
open Json (Value)
open Sandbox (HostWindow IsolatedFrame Manager MessageEvent Notice Watched)
open Wire (Clock FieldUpdate FrameMessage)

variable {α φ : Type}

/-! ### An edit -/

namespace Sandbox.Manager

variable [IsolatedFrame φ] {m : Manager φ} {e : MessageEvent} {field : String} {value : Value}

/-- The event is an edit that the guest of a manager reports. -/
structure Reports (m : Manager φ) (e : MessageEvent) (field : String) (value : Value) : Prop where
  source : e.source = m.window
  alive : m.phase ≠ .destroyed
  message : FrameMessage.decode e.data = .ok (.outputChange field value)

/-- It is passed on, and the manager stays as it was. -/
theorem Reports.handleEvent (h : m.Reports e field value) :
    m.handleEvent e = (some (.outputChange field value), m) := by
  have hheard : ¬(e.source ≠ IsolatedFrame.window m.frame ∨ m.phase = .destroyed) :=
    not_or.2 ⟨not_not.2 h.source, h.alive⟩
  rw [Manager.handleEvent, if_neg hheard, h.message]
  rfl

theorem reports_of_handleEvent (h : (m.handleEvent e).1 = some (.outputChange field value)) :
    m.Reports e field value := by
  have hmessage := decode_of_outputChange h
  unfold Manager.handleEvent at h
  split at h
  · cases h
  · next hheard =>
    obtain ⟨hsource, halive⟩ := not_or.1 hheard
    exact ⟨not_not.1 hsource, halive, hmessage⟩

end Sandbox.Manager

namespace LayoutSession

variable [IsolatedFrame φ] {s : LayoutSession (Scene α φ) (Watched φ)} {e : MessageEvent} {field : String}
  {value : Value}

theorem handle_of_reports (h : s.manager.Reports e field value)
    (hallowed : s.environment.policy.isOutputField field = true) :
    s.handle e = { s with store := (s.store.set field value).2 } := by
  unfold LayoutSession.handle
  rw [h.handleEvent]
  exact if_pos hallowed

/-- Anything else leaves the document alone. -/
theorem document_handle
    (h : ∀ field value, s.manager.Reports e field value → s.environment.policy.isOutputField field = false) :
    (s.handle e).store.document = s.store.document := by
  unfold LayoutSession.handle
  cases hn : (s.manager.handleEvent e).1 with
  | none => rfl
  | some n =>
    cases n with
    | rendered | failed => rfl
    | outputChange field value =>
      have hdenied := Bool.eq_false_iff.1 (h field value (Manager.reports_of_handleEvent hn))
      have hsame : (s.withManager (s.manager.handleEvent e).2).react (.outputChange field value) =
          s.withManager (s.manager.handleEvent e).2 := if_neg hdenied
      exact congrArg (fun t => t.store.document) hsame

end LayoutSession

/-! ### Those who are told of it -/

namespace Scene

variable [IsolatedFrame φ] {k : Nat} {policy : SecurityPolicy} {u : FieldUpdate} {origin : Origin}
  {os : List (Observer (Scene α φ))} {o : Observer (Scene α φ)}

omit [IsolatedFrame φ] in
theorem hear_of_aside (h : ∀ o ∈ os, Aside k o) (x : Scene α φ) :
    (Shared.hear u origin os x).1.2[k]? = x.2[k]? := by
  induction os generalizing x with
  | nil => rfl
  | cons o os ih =>
    obtain ⟨ho, hos⟩ := List.forall_mem_cons.1 h
    exact (ih hos _).trans (ho u origin x)

/-- One of them forwards, and the others leave the manager alone. -/
theorem hear_of_forwards (hids : (os.map Observer.id).Nodup) (ho : o ∈ os) (hforwards : Forwards k policy o)
    (hothers : ∀ o' ∈ os, o'.id ≠ o.id → Aside k o') (x : Scene α φ) :
    (Shared.hear u origin os x).1.2[k]? = (x.2[k]?).map (forwarded policy u) := by
  induction os generalizing x with
  | nil => cases ho
  | cons o' os ih =>
    obtain ⟨hfirst, hids⟩ := List.nodup_cons.1 hids
    obtain ⟨hother, hrest⟩ := List.forall_mem_cons.1 hothers
    rcases List.mem_cons.1 ho with rfl | ho
    · have haside : ∀ o' ∈ os, Aside k o' := fun o' ho' =>
        hrest o' ho' fun hid => hfirst (hid ▸ List.mem_map_of_mem ho')
      exact (hear_of_aside haside _).trans (hforwards.manager u origin x)
    · have hne : o'.id ≠ o.id := fun hid => hfirst (hid ▸ List.mem_map_of_mem ho)
      refine (ih hids ho hrest _).trans ?_
      rw [hother hne u origin x]

end Scene

namespace Page

open Scene

variable [IsolatedFrame φ] {n d k : Nat} {P : Nat → Request → Prop} {p : Page α φ} {seat : Seat α φ}
  {m : Manager (Watched φ)} {e : MessageEvent} {field : String} {value : Value}

/-- A mounted session hears an edit of a field that may be written. -/
structure Admits (p : Page α φ) (k : Nat) (e : MessageEvent) (seat : Seat α φ) (m : Manager (Watched φ))
    (field : String) (value : Value) : Prop where
  session : p.seats[k]? = some (some seat)
  mounted : seat.session.isUnmounted = false
  manager : p.seated[k]? = some m
  reports : m.Reports e field value
  allowed : seat.session.environment.policy.isOutputField field = true

theorem admits_of_contents (hp : p.Tidy n) (h : (p.act (.on k (.event e))).2.contents ≠ p.contents) :
    ∃ seat m field value, p.Admits k e seat m field value := by
  cases hk : p.seated[k]? with
  | none =>
    simp only [act, hk] at h
    exact absurd rfl h
  | some m =>
    simp only [act, hk, perform] at h
    cases hseat : p.session? k m with
    | none =>
      simp only [hseat] at h
      exact absurd rfl h
    | some seat =>
      simp only [hseat] at h
      have hmanager : seat.session.manager = m := congrArg Prod.snd (along_of_session? hp hk hseat).2
      obtain ⟨field, value, hreports, hallowed⟩ : ∃ field value, m.Reports e field value ∧
          seat.session.environment.policy.isOutputField field = true := by
        by_contra hnone
        refine h (contents_putSession hseat rfl (LayoutSession.document_handle fun field value hr => ?_))
        exact Bool.eq_false_iff.2 fun hallowed => hnone ⟨field, value, hmanager ▸ hr, hallowed⟩
      have hmounted : seat.session.isUnmounted = false :=
        Bool.eq_false_iff.2 fun hu => hreports.alive ((sound_of_session? hp hk hseat).2 hu).2
      obtain ⟨rest, s, hrest, -, rfl⟩ := exists_of_session? hseat
      exact ⟨rest, m, field, value, hrest, hmounted, hk, hreports, hallowed⟩

/-- An edit that is admitted makes of the page what a write of the document makes of it. -/
theorem act_of_admits (hp : p.Tidy n) (h : p.Admits k e seat m field value) :
    ∃ s, p.document? seat.document = some s ∧
      (p.act (.on k (.event e))).2.managers = (s.set field value).2.state.2 ∧
      (p.act (.on k (.event e))).2.documents = p.documents.set seat.document (s.set field value).2 := by
  obtain ⟨⟨s₀, hs₀, -⟩, -⟩ := hp.sound h.session
  have hs : p.document? seat.document = some { s₀ with state := p.scene } := by
    rw [document?, hs₀]
    rfl
  obtain ⟨session, hsession, hstore⟩ : ∃ session, p.session? k m = some { seat with session } ∧
      session = { seat.session with
        store := ({ s₀ with state := p.scene } : Shared (Scene α φ)).carry (beside k m) (back k) } := by
    simp [session?, h.session, hs]
  have hmanager : session.manager = m := congrArg Prod.snd (along_of_session? hp h.manager hsession).2
  have hhandled : session.handle e = { session with store := (session.store.set field value).2 } :=
    LayoutSession.handle_of_reports (hmanager ▸ h.reports) (hstore ▸ h.allowed)
  have hshows := (Shared.shows_carry (back_beside k m) { s₀ with state := p.scene }).set (back_beside k m) field value
  refine ⟨_, hs, ?_⟩
  simp only [act, h.manager, perform, hsession, hhandled]
  rw [putSession_eq (k := k) (s := (Shared.set { s₀ with state := p.scene } field value).2)]
  · exact ⟨rfl, rfl⟩
  · rw [hstore]
    exact hshows

variable {s s' : Shared (Scene α φ)} {u : FieldUpdate}

/-- The session is told of the write, and passes it on once. -/
theorem response_of_admits (ha : p.Attended P) (h : p.Admits k e seat m u.field u.value)
    (hs : p.document? seat.document = some s) (hP : ¬P seat.document (.unsubscribe seat.session.subscription)) :
    (s.response u).1.2[k]? = some (m.updateContext ("output." ++ u.field) u.value).2 := by
  have hattending := ha.document? hs
  have hcard := card?_of_seat h.session
  have hmounted : p.isUnmounted k = false := by
    rw [isUnmounted, h.session]
    exact h.mounted
  obtain ⟨o, ho, hid⟩ := hattending.live hcard rfl hP hmounted
  have hforwards := (hattending.attends o ho k).forwards _ hcard rfl hid.symm
  have hwatches : o ∈ s.observers.filter (·.watches u.field) := by
    refine List.mem_filter.2 ⟨ho, ?_⟩
    rw [Observer.watches, hforwards.field]
    rfl
  have hothers : ∀ o' ∈ s.observers.filter (·.watches u.field), o'.id ≠ o.id → Aside k o' := by
    refine fun o' ho' hne => (hattending.attends o' (List.mem_filter.1 ho').1 k).aside fun card hmem _ hid' => hne ?_
    cases hcard.symm.trans hmem
    exact hid'.symm.trans hid.symm
  have hstate : s.state.2[k]? = some m := by
    obtain ⟨s₀, -, rfl⟩ := Option.map_eq_some_iff.1 hs
    exact h.manager
  have hids : ((s.observers.filter (·.watches u.field)).map Observer.id).Nodup :=
    hattending.ids.sublist (List.Sublist.map _ List.filter_sublist)
  rw [Shared.response, hear_of_forwards hids hwatches hforwards hothers, hstate, Option.map_some]
  exact congrArg some (if_pos h.allowed)

/-- What an edit does where nobody else writes: one entry is written, later than all others, and the guest is told of
it, and of nothing else. -/
structure Edited (p p' : Page α φ) (k d : Nat) (s : Shared (Scene α φ)) (m : Manager (Watched φ)) (u : FieldUpdate) :
    Prop where
  latest : ∀ w ∈ s.document.snapshot, w.clock.before u.clock = true
  contents : ∃ document : Document, p'.contents = p.contents.set d document ∧
    ∀ field, document.winner? field = if field = u.field then some u else s.document.winner? field
  told : p'.managers[k]? = some (m.updateContext ("output." ++ u.field) u.value).2

omit [IsolatedFrame φ] in
theorem contents_eq (hs : p.document? d = some s) : p.contents[d]? = some s.document := by
  obtain ⟨s₀, hs₀, rfl⟩ := Option.map_eq_some_iff.1 hs
  rw [contents, List.getElem?_map, hs₀]
  rfl

omit [IsolatedFrame φ] in
theorem contents_set {p' : Page α φ} (hdocuments : p'.documents = p.documents.set d s') :
    p'.contents = p.contents.set d s'.document := by
  rw [contents, hdocuments, List.map_set]
  rfl

/-- An edit writes its field, unless the clock is exhausted. -/
theorem edited_of_admits (hp : p.Tidy n) (ha : p.Attended P) (h : p.Admits k e seat m field value)
    (hP : ¬P seat.document (.unsubscribe seat.session.subscription)) :
    ∃ s, p.document? seat.document = some s ∧
      (Clock.greatestCounter ≤ s.document.clock →
        (p.act (.on k (.event e))).2.contents = p.contents ∧
          (p.act (.on k (.event e))).2.managers[k]? = some m) ∧
      ∀ u, u = ⟨field, value, ⟨s.document.clock + 1, s.document.replica⟩⟩ →
        s.document.clock < Clock.greatestCounter → s.Quiet u →
          Edited p (p.act (.on k (.event e))).2 k seat.document s m u := by
  obtain ⟨s, hs, hmanagers, hdocuments⟩ := act_of_admits hp h
  have hcontents := contents_set hdocuments
  refine ⟨s, hs, fun hexhausted => ?_, fun u hu hclock hquiet => ?_⟩
  · have hsame : (s.set field value).2 = s := Shared.set_of_exhausted hexhausted
    obtain ⟨hlt, he⟩ := List.getElem?_eq_some_iff.1 (contents_eq hs)
    rw [hsame] at hmanagers hcontents
    rw [hmanagers, hcontents, ← he, List.set_getElem_self]
    obtain ⟨s₀, -, rfl⟩ := Option.map_eq_some_iff.1 hs
    exact ⟨rfl, h.manager⟩
  · subst hu
    obtain ⟨document, hset⟩ : ∃ document, s.document.set field value = .ok (_, document) := ⟨_, if_pos hclock⟩
    obtain ⟨-, -, hentries, -⟩ := Document.set_eq_ok hset
    obtain ⟨hdocument, hstate⟩ := Shared.set_of_quiet hset hquiet
    constructor
    case latest =>
      intro w hw
      obtain ⟨entry, hentry, rfl⟩ := List.mem_map.1 hw
      have hlt := Nat.lt_succ_of_le ((along_of_document? hp hs).wellFormed.bounded entry hentry)
      simp [Clock.before, hlt]
    case contents =>
      rw [hdocument] at hcontents
      refine ⟨document, hcontents, fun g => ?_⟩
      rw [Document.winner?, hentries, Entries.get?_put]
      rfl
    case told =>
      rw [hmanagers, hstate]
      exact response_of_admits ha h hs hP

/-! ### Fields that may not be written -/

omit [IsolatedFrame φ] in
/-- The winning write of a field of a document. -/
def held? (p : Page α φ) (d : Nat) (field : String) : Option FieldUpdate :=
  p.contents[d]?.bind (·.winner? field)

variable {p' : Page α φ}

omit [IsolatedFrame φ] in
theorem held?_set {e : Nat} (hs : p.document? e = some s) (hdocuments : p'.documents = p.documents.set e s')
    (hsame : e = d → s'.document.winner? field = s.document.winner? field) : p'.held? d field = p.held? d field := by
  rw [held?, contents_set hdocuments, held?, List.getElem?_set]
  split
  · next he =>
    subst he
    have hold := contents_eq hs
    rw [if_pos (List.getElem?_eq_some_iff.1 hold).1, hold]
    exact hsame rfl
  · rfl

theorem held?_on (ha : p.Attended P) (a : Action)
    (hdenied : ∀ seat, p.seats[k]? = some (some seat) → seat.document = d →
      seat.session.environment.policy.isOutputField field = false ∧ ∀ value, ¬P d (.write field value)) :
    (p.act (.on k a)).2.held? d field = p.held? d field := by
  rcases (turn_on p k a).documents with hsame | ⟨seat, s, s', hseat, hs, hcourse, hset⟩
  · rw [held?, contents, hsame]
    rfl
  · refine held?_set hs hset fun he => ?_
    obtain ⟨hfield, hP⟩ := hdenied seat hseat he
    have hwrites : ∀ value, ¬a.Grants seat.card (.write field value) := fun _ => Bool.eq_false_iff.1 hfield
    exact (hcourse.kept (Shared.kept_winner? (he ▸ hP) hwrites) (fun _ => .inr) ⟨rfl, (ha.document? hs).asks⟩).1

/-- The application writes the field, or merges a write of it. -/
def Input.Writes (d : Nat) (field : String) : Input α φ → Prop
  | .write e name _ => e = d ∧ name = field
  | .merge e u => e = d ∧ u.field = field
  | _ => False

/-- Where no session may write a field, it stays as it is until the application writes it. -/
theorem held?_act (ha : p.Attended P) (hP : ∀ value, ¬P d (.write field value))
    (hdenied : ∀ k card, p.card? k = some card → card.document = d → card.policy.isOutputField field = false)
    {i : Input α φ} (hi : ¬i.Writes d field) : (p.act i).2.held? d field = p.held? d field := by
  cases i with
  | mount frame =>
    simp only [act]
    split <;> rfl
  | mountSession e env template task frame =>
    cases hs : p.document? e with
    | none =>
      simp only [act, hs]
    | some s =>
      cases hm : LayoutSession.mount env template task s p.host ({ frame } : Watched φ) with
      | error f =>
        simp only [act, hs, hm]
        rfl
      | ok session =>
        obtain ⟨-, -, -, hdocument⟩ := store_mount hm 0 session.manager
        simp only [act, hs, hm]
        exact held?_set hs rfl fun _ => congrArg (·.winner? field) hdocument
  | on k a => exact held?_on ha a fun seat hseat he => ⟨hdenied k _ (card?_of_seat hseat) he, hP⟩
  | create replica =>
    have hcontents : (p.act (.create replica)).2.contents = p.contents ++ [({ replica } : Document)] :=
      List.map_append
    rw [held?, hcontents, held?, List.getElem?_append]
    split
    · rfl
    · next hge =>
      rw [List.getElem?_eq_none (Nat.le_of_not_lt hge), List.getElem?_singleton]
      split <;> rfl
  | write e name value =>
    cases hs : p.document? e with
    | none => simp only [act, hs]
    | some s =>
      simp only [act, hs]
      refine held?_set hs rfl fun he => ?_
      have hother (value' : Value) : Request.write field value' ≠ .write name value := by
        rintro ⟨⟩
        exact hi ⟨he, rfl⟩
      exact ((Shared.kept_winner? (Q := (· = .write name value)) (he ▸ hP) hother).set (.inr rfl)
        ⟨rfl, (ha.document? hs).asks⟩).1
  | merge e u =>
    cases hs : p.document? e with
    | none => simp only [act, hs]
    | some s =>
      simp only [act, hs]
      refine held?_set hs rfl fun he => ?_
      have hmerged : (s.document.merge u).2.winner? field = s.document.winner? field := by
        rw [Document.winner?_merge, if_neg fun hf => hi ⟨he, hf.1.symm⟩]
      exact ((Shared.kept_winner? (Q := fun _ => False) (he ▸ hP) fun _ => id).merge
        ⟨hmerged, (ha.document? hs).asks⟩).1
  | watch e name call =>
    cases hs : p.document? e with
    | none => simp only [act, hs]
    | some s =>
      simp only [act, hs]
      exact held?_set hs rfl fun _ => rfl
  | arrive | frame | runtime => rfl

theorem held?_run (hp : p.Tidy n) (ha : p.Attended P) (hP : ∀ value, ¬P d (.write field value))
    {later : List (Input α φ)} (hasks : ∀ i ∈ later, i.Asks P) (hwrites : ∀ i ∈ later, ¬i.Writes d field)
    (hdenied : ∀ k card, (p.run later).card? k = some card → card.document = d →
      card.policy.isOutputField field = false) : (p.run later).held? d field = p.held? d field := by
  induction later generalizing p with
  | nil => rfl
  | cons i later ih =>
    obtain ⟨hi, hasks⟩ := List.forall_mem_cons.1 hasks
    obtain ⟨hwrite, hwrites⟩ := List.forall_mem_cons.1 hwrites
    have htidy := (step_act hp i).tidy hp
    refine (ih htidy (attended_act hp ha hi) hasks hwrites hdenied).trans (held?_act ha hP ?_ hwrite)
    exact fun k card hk => hdenied k card (card?_run htidy later (card?_act hp i hk))

/-! ### Every run -/

/-- No callback that the application adds to the document ever asks for it. -/
def NeverAsked (inputs : List (Input α φ)) (d : Nat) (r : Request) : Prop :=
  ∀ field call, .watch d field call ∈ inputs → ∀ id u origin x, r ∉ (call id u origin x).2

omit [IsolatedFrame φ] in
theorem asks_of_neverAsked {inputs : List (Input α φ)} {R : Request → Prop}
    (h : ∀ r, R r → NeverAsked inputs d r) : ∀ i ∈ inputs, i.Asks fun e r => e = d → ¬R r := by
  intro i hi
  cases i with
  | watch e field call =>
    rintro id u origin x r hr rfl hR
    exact h r hR field call hi id u origin x hr
  | _ => trivial

/-- A guest is contained. Whatever has happened on a page, a text of its frame changes a document only if it is an edit
that its session, which is mounted, may make; where nobody else writes in response, such an edit writes its own field,
later than all entries, unless the clock is exhausted, and the guest is told of it once. (Only who has the id of a watch
can end it, so no callback ends that of the session.) An entry of a field that the session may not write is never
changed by anything that is asked of the session; and where no session may write it, it only ever changes when the
application writes or merges it. -/
theorem guest_is_contained (host : HostWindow) (own : α) (inputs : List (Input α φ)) (p : Page α φ)
    (hp : p = ({ host, own } : Page α φ).run inputs) :
    (∀ {k : Nat} {e : MessageEvent}, (p.act (.on k (.event e))).2.contents ≠ p.contents →
      ∃ seat m field value, p.Admits k e seat m field value) ∧
    (∀ {k : Nat} {e : MessageEvent} {seat : Seat α φ} {m : Manager (Watched φ)} {field : String} {value : Value},
      p.Admits k e seat m field value →
      NeverAsked inputs seat.document (.unsubscribe seat.session.subscription) →
        ∃ s, p.document? seat.document = some s ∧
          (Clock.greatestCounter ≤ s.document.clock →
            (p.act (.on k (.event e))).2.contents = p.contents ∧
              (p.act (.on k (.event e))).2.managers[k]? = some m) ∧
          ∀ u, u = ⟨field, value, ⟨s.document.clock + 1, s.document.replica⟩⟩ →
            s.document.clock < Clock.greatestCounter → s.Quiet u →
              Edited p (p.act (.on k (.event e))).2 k seat.document s m u) ∧
    (∀ {k : Nat} {seat : Seat α φ} {field : String}, p.seats[k]? = some (some seat) →
      seat.session.environment.policy.isOutputField field = false →
      (∀ value, NeverAsked inputs seat.document (.write field value)) →
        ∀ (a : Action) (d : Nat), (p.act (.on k a)).2.held? d field = p.held? d field) ∧
    ∀ {later : List (Input α φ)} {d : Nat} {field : String},
      (∀ {k : Nat} {seat : Seat α φ}, (p.run later).seats[k]? = some (some seat) → seat.document = d →
        seat.session.environment.policy.isOutputField field = false) →
      (∀ value, NeverAsked (inputs ++ later) d (.write field value)) → (∀ i ∈ later, ¬i.Writes d field) →
        (p.run later).held? d field = p.held? d field := by
  obtain ⟨htidy, -⟩ := tidy_run (tidy_start (φ := φ) host own) inputs
  rw [← hp] at htidy
  have hattended {d : Nat} {R : Request → Prop} (hasks : ∀ i ∈ inputs, i.Asks fun e r => e = d → ¬R r) :
      p.Attended fun e r => e = d → ¬R r :=
    hp ▸ attended_run (tidy_start host own) (attended_start host own) hasks
  refine ⟨admits_of_contents htidy, fun {k e seat m field value} h hasked => ?_,
    fun {k seat field} hk hdenied hasked a d => ?_, fun {later d field} hdenied hasked hwrites => ?_⟩
  · have hasks := asks_of_neverAsked (R := (· = .unsubscribe seat.session.subscription)) fun r hr => hr ▸ hasked
    exact edited_of_admits htidy (hattended hasks) h fun hP => hP rfl rfl
  · have hasks := asks_of_neverAsked (R := fun r => ∃ value, r = .write field value)
      fun r ⟨value, hr⟩ => hr ▸ hasked value
    refine held?_on (hattended hasks) a fun seat' hk' he => ?_
    cases hk.symm.trans hk'
    exact ⟨hdenied, fun value hP => hP he.symm ⟨value, rfl⟩⟩
  · have hasks := asks_of_neverAsked (R := fun r => ∃ value, r = .write field value)
      fun r ⟨value, hr⟩ => hr ▸ hasked value
    obtain ⟨hbefore, hlater⟩ := List.forall_mem_append.1 hasks
    refine held?_run htidy (hattended hbefore) (fun value hP => hP rfl ⟨value, rfl⟩) hlater hwrites ?_
    intro k card hk he
    obtain ⟨seat, hseat, rfl⟩ := card?_eq_some hk
    exact hdenied hseat he

/-- A page that shows nothing and may write every output. -/
def outputPage : TemplateEnvironment :=
  { inputPage with
    policy := { inputPage.policy with roots := .compile ["output"] }
    templates := [("page", [])] }

/-- Two sessions over one document; the second one may not write it. -/
def twoGuests : List (Input Unit Sandbox.RecordingFrame) :=
  [.create "tab",
    .mountSession 0 outputPage "page" {} { window := ⟨1⟩, attributes := "allow-scripts" },
    .mountSession 0 inputPage "page" {} { window := ⟨2⟩, attributes := "allow-scripts" }]

/-- The first guest may edit a field, and the second one may not. -/
theorem guest_is_contained_twoGuests :
    ∃ p : Page Unit Sandbox.RecordingFrame, p = ({ host := {}, own := () } : Page _ _).run twoGuests ∧
      let e : MessageEvent := ⟨⟨1⟩, (FrameMessage.outputChange "x" (.text "hi")).encode⟩
      (∃ seat s m, p.Admits 0 e seat m "x" (.text "hi") ∧
        Edited p (p.act (.on 0 (.event e))).2 0 0 s m ⟨"x", .text "hi", ⟨1, "tab"⟩⟩) ∧
      ∀ a d, (p.act (.on 1 a)).2.held? d "x" = p.held? d "x" := by
  obtain ⟨p, hp⟩ : ∃ p, p = ({ host := {}, own := () } : Page Unit Sandbox.RecordingFrame).run twoGuests := ⟨_, rfl⟩
  have hfirst : p.seats[0]?.join.map (fun s =>
      (s.document, s.session.isUnmounted, s.session.environment.policy.isOutputField "x")) = some (0, false, true) := by
    rw [hp]
    decide +kernel
  have hsecond : p.seats[1]?.join.map (fun s => s.session.environment.policy.isOutputField "x") = some false := by
    rw [hp]
    decide +kernel
  have hmanager : (p.seated[0]?).map (fun m => (m.window, m.phase)) = some (⟨1⟩, .waiting) := by
    rw [hp]
    decide +kernel
  have hdocument : (p.document? 0).map (fun s => (s.document.clock, s.document.replica,
      (s.response ⟨"x", .text "hi", ⟨1, "tab"⟩⟩).2.length)) = some (0, "tab", 0) := by
    rw [hp]
    decide +kernel
  obtain ⟨seat, hseat, hfacts⟩ := Option.map_eq_some_iff.1 hfirst
  obtain ⟨other, hother, hdenied⟩ := Option.map_eq_some_iff.1 hsecond
  obtain ⟨m, hm, hwindow⟩ := Option.map_eq_some_iff.1 hmanager
  obtain ⟨s, hs, hstart⟩ := Option.map_eq_some_iff.1 hdocument
  simp only [Prod.mk.injEq] at hfacts hwindow hstart
  obtain ⟨hat, hmounted, hallowed⟩ := hfacts
  obtain ⟨hclock, hreplica, hquiet⟩ := hstart
  have hnever (d : Nat) (r : Request) : NeverAsked twoGuests d r := by
    intro field call hmem
    simp [twoGuests] at hmem
  obtain ⟨-, hedit, hfield, -⟩ := guest_is_contained {} () twoGuests p hp
  have hvalue {P : Value → Prop} (h : P (.text "hi")) :
      ∀ v ∈ (FrameMessage.outputChange "x" (.text "hi")).value?, P v := fun v hv => by cases hv; exact h
  have hmessage : (FrameMessage.outputChange "x" (.text "hi")).Readable :=
    (FrameMessage.readable_iff (hvalue (.text _)) (hvalue (.text _))).2 (hvalue (Nat.zero_le _))
  have hadmits : p.Admits 0 ⟨⟨1⟩, (FrameMessage.outputChange "x" (.text "hi")).encode⟩ seat m "x" (.text "hi") :=
    ⟨Option.join_eq_some_iff.1 hseat, hmounted, hm, ⟨hwindow.1.symm, hwindow.2 ▸ nofun, hmessage⟩, hallowed⟩
  refine ⟨p, hp, ⟨seat, s, m, hadmits, ?_⟩, hfield (Option.join_eq_some_iff.1 hother) hdenied fun _ => hnever _ _⟩
  obtain ⟨s', hs', -, hwrites⟩ := hedit hadmits (hnever _ _)
  rw [hat] at hs' hwrites
  cases hs.symm.trans hs'
  refine hwrites _ (by rw [hclock, hreplica]) (by rw [hclock]; decide +kernel) fun field value hmem => ?_
  rw [List.length_eq_zero_iff.1 hquiet] at hmem
  cases hmem

end Page

end SecureLayout
