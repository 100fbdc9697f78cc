import SecureLayout.Proofs.Session.Course
import SecureLayout.Proofs.Session.Teardown

/-!
Who watches a document of a page. Main statements: an observer either leaves a manager alone or passes writes on to it,
and it passes them on just if it is the one that the manager's session added; and that one goes on watching until the
session is unmounted, unless somebody else ends its watch.
-/

namespace SecureLayout

open Collab (Document Observer Origin Request Shared)
open Json (Value)
open Sandbox (HostWindow IsolatedFrame Manager MessageEvent Notice Watched)
open Sandbox.Manager (Talks)
open Wire (FieldUpdate)

variable {α φ : Type}

namespace Scene

variable {j k : Nat} {m₀ : Manager (Watched φ)} {o : Observer (Scene α φ)} {policy : SecurityPolicy}

/-- Whatever it is told of, the observer leaves manager `j` as it is. -/
def Aside (j : Nat) (o : Observer (Scene α φ)) : Prop :=
  ∀ u origin x, (o.call u origin x).1.2[j]? = x.2[j]?

/-- A session is mounted for manager `k`: the observers who were there before put back what they find in its place. -/
def restored (k : Nat) (m₀ : Manager (Watched φ)) (o : Observer (Scene α φ)) : Observer (Scene α φ) :=
  { o with call := fun u origin x =>
      (((o.call u origin x).1.1, (o.call u origin x).1.2.set k (x.2[k]?.getD m₀)), (o.call u origin x).2) }

theorem aside_restored (h : Aside j o) (hjk : j ≠ k) : Aside j (restored k m₀ o) := by
  intro u origin x
  exact (List.getElem?_set_ne hjk.symm).trans (h u origin x)

/-- An observer that neither adds managers nor takes any away leaves the new one alone. -/
theorem aside_restored_self (hlength : ∀ u origin x, (o.call u origin x).1.2.length = x.2.length) :
    Aside k (restored k m₀ o) := by
  intro u origin x
  change ((o.call u origin x).1.2.set k (x.2[k]?.getD m₀))[k]? = x.2[k]?
  rw [List.getElem?_set, if_pos rfl, hlength]
  split
  · next hlt => rw [List.getElem?_eq_getElem hlt, Option.getD_some]
  · next hge => rw [List.getElem?_eq_none (Nat.le_of_not_lt hge)]

theorem asks_restored {P : Request → Prop} (h : o.Asks P) (k : Nat) (m₀ : Manager (Watched φ)) :
    (restored k m₀ o).Asks P :=
  fun u origin x => h u origin x

variable [IsolatedFrame φ]

/-- A manager after a write was passed on to it. -/
def forwarded (policy : SecurityPolicy) (u : FieldUpdate) (m : Manager (Watched φ)) : Manager (Watched φ) :=
  if policy.isOutputField u.field then (m.updateContext ("output." ++ u.field) u.value).2 else m

/-- The observer passes writes on to manager `j`, and asks for nothing. -/
structure Forwards (j : Nat) (policy : SecurityPolicy) (o : Observer (Scene α φ)) : Prop where
  field : o.field = none
  requests : ∀ u origin x, (o.call u origin x).2 = []
  manager : ∀ u origin x, (o.call u origin x).1.2[j]? = (x.2[j]?).map (forwarded policy u)

theorem forwards_restored (h : Forwards j policy o) (hjk : j ≠ k) : Forwards j policy (restored k m₀ o) := by
  refine ⟨h.field, h.requests, fun u origin x => ?_⟩
  exact (List.getElem?_set_ne hjk.symm).trans (h.manager u origin x)

/-- What the session that is mounted for manager `k` adds. -/
def forwarder (k : Nat) (m₀ : Manager (Watched φ)) (policy : SecurityPolicy) (id : Nat) : Observer (Scene α φ) :=
  Observer.carry (back k) (beside k m₀) ⟨id, none, LayoutSession.forward policy⟩

theorem call_forwarder (k : Nat) (m₀ : Manager (Watched φ)) (policy : SecurityPolicy) (id : Nat) (u : FieldUpdate)
    (origin : Origin) (x : Scene α φ) :
    (forwarder k m₀ policy id).call u origin x = ((x.1, x.2.set k (forwarded policy u (x.2[k]?.getD m₀))), []) := by
  simp only [forwarder, Observer.carry, LayoutSession.forward, forwarded, beside]
  split <;> rfl

theorem forwards_forwarder (k : Nat) (m₀ : Manager (Watched φ)) (policy : SecurityPolicy) (id : Nat) :
    Forwards (α := α) k policy (forwarder k m₀ policy id) := by
  refine ⟨rfl, fun u origin x => by rw [call_forwarder], fun u origin x => ?_⟩
  rw [call_forwarder]
  dsimp only
  rw [List.getElem?_set, if_pos rfl]
  split
  · next hlt => rw [List.getElem?_eq_getElem hlt, Option.getD_some, Option.map_some]
  · next hge => rw [List.getElem?_eq_none (Nat.le_of_not_lt hge), Option.map_none]

theorem aside_forwarder (hjk : j ≠ k) (m₀ : Manager (Watched φ)) (policy : SecurityPolicy) (id : Nat) :
    Aside (α := α) j (forwarder k m₀ policy id) := by
  intro u origin x
  rw [call_forwarder]
  exact List.getElem?_set_ne hjk.symm

/-- Mounting a session restores the old observers and adds one. -/
theorem store_mount {env : TemplateEnvironment} {template : String} {task : TaskContext}
    {store : Shared (Scene α φ)} {host : HostWindow} {frame : Watched φ}
    {session : LayoutSession (Scene α φ) (Watched φ)}
    (h : LayoutSession.mount env template task store host frame = .ok session) (k : Nat) (m₀ : Manager (Watched φ)) :
    (session.store.carry (back k) (beside k m₀)).observers =
        store.observers.map (restored k m₀) ++ [forwarder k m₀ session.environment.policy store.nextId] ∧
      session.store.nextId = store.nextId + 1 ∧ session.subscription = store.nextId ∧
      session.store.document = store.document := by
  have hpolicy := LayoutSession.policy_renderPass env template task store.document.toValue
  unfold LayoutSession.mount at h
  split at h
  · cases h
  · next html context environment hr =>
    rw [hr] at hpolicy
    split at h
    · cases h
    · split at h
      · cases h
      · cases h
        refine ⟨?_, rfl, rfl, rfl⟩
        dsimp only at hpolicy
        dsimp only [Shared.carry, Shared.observe, Shared.beside]
        rw [hpolicy, List.map_append, List.map_map]
        rfl

end Scene

namespace Page

open Scene

variable {n d j k : Nat} {P : Nat → Request → Prop} {p p' : Page α φ} {s s' : Shared (Scene α φ)}
  {o : Observer (Scene α φ)}

/-! ### Documents and their observers -/

/-- What of the session of manager `j` never changes. -/
def card? (p : Page α φ) (j : Nat) : Option Card :=
  p.cards[j]?.join

def isUnmounted (p : Page α φ) (j : Nat) : Bool :=
  p.seats[j]?.join.any (·.session.isUnmounted)

theorem card?_eq_some {card : Card} (h : p.card? j = some card) :
    ∃ seat, p.seats[j]? = some (some seat) ∧ seat.card = card := by
  rw [card?, cards, List.getElem?_map, Option.join_eq_some_iff] at h
  obtain ⟨rest, hj, hrest⟩ := Option.map_eq_some_iff.1 h
  obtain ⟨seat, rfl, hcard⟩ := Option.map_eq_some_iff.1 hrest
  exact ⟨seat, hj, hcard⟩

theorem card?_of_seat {seat : Seat α φ} (h : p.seats[j]? = some (some seat)) : p.card? j = some seat.card := by
  rw [card?, cards, List.getElem?_map, h]
  rfl

theorem card?_of_cards (h : p'.cards = p.cards) : p'.card? = p.card? := by
  funext j
  rw [card?, h, card?]

theorem card?_concat (hseats : p'.seats = p.seats ++ [none]) : p'.card? = p.card? := by
  funext j
  simp only [card?, cards, hseats, List.map_append, List.map_cons, List.map_nil, Option.map_none, List.getElem?_append]
  split
  · rfl
  · next hge =>
    rw [List.getElem?_eq_none (Nat.le_of_not_lt hge), List.getElem?_singleton]
    split <;> rfl

theorem card?_given {card : Card} (hp : p.Tidy n) (h : p.card? j = some card)
    (hs : p.documents[card.document]? = some s) : card.subscription < s.nextId := by
  obtain ⟨seat, hseat, rfl⟩ := card?_eq_some h
  obtain ⟨⟨s₁, hs₁, hgiven, -⟩, -⟩ := hp.sound hseat
  cases hs.symm.trans hs₁
  exact hgiven

/-- The session that is mounted next has a card, and no other session gets one. -/
theorem card?_mount {seat : Seat α φ} (hp : p.Tidy n) (hseats : p'.seats = p.seats ++ [some seat]) (j : Nat) :
    p'.card? j = if j = p.managers.length then some seat.card else p.card? j := by
  rw [← hp.aligned]
  simp only [card?, cards, hseats, List.map_append, List.map_cons, List.map_nil, Option.map_some, List.getElem?_append,
    List.length_map]
  by_cases hlt : j < p.seats.length
  · rw [if_pos hlt, if_neg hlt.ne]
  · rw [if_neg hlt, List.getElem?_eq_none (l := p.seats.map _) (by simpa using hlt), List.getElem?_singleton]
    by_cases he : j = p.seats.length
    · rw [if_pos he, if_pos (by omega)]
      rfl
    · rw [if_neg he, if_neg (by omega)]

theorem card?_managers (hp : p.Tidy n) : p.card? p.managers.length = none := by
  rw [card?, cards, ← hp.aligned, List.getElem?_eq_none (by rw [List.length_map])]
  rfl

theorem length_call (hp : p.Tidy n) (hs : p.document? d = some s) (ho : o ∈ s.observers)
    (u : FieldUpdate) (origin : Origin) (x : Scene α φ) : (o.call u origin x).1.2.length = x.2.length :=
  ((along_of_document? hp hs).observers o ho x u origin x trivial (Manager.Talks.refl _)).1.length

variable [IsolatedFrame φ]

/-- The observer leaves manager `j` alone, unless it is what the session of `j` added: then it forwards. -/
structure Attends (card? : Option Card) (d j : Nat) (o : Observer (Scene α φ)) : Prop where
  forwards : ∀ card ∈ card?, card.document = d → card.subscription = o.id → Forwards j card.policy o
  aside : (∀ card ∈ card?, card.document = d → card.subscription ≠ o.id) → Aside j o

/-- What holds of document `d`: its observers are told apart by their ids, do not ask for anything outside `P`, and
attend to sessions over it; and for each such session that is mounted there is one, unless somebody may end its
watch. -/
structure Attending (P : Request → Prop) (p : Page α φ) (d : Nat) (s : Shared (Scene α φ)) : Prop where
  ids : (s.observers.map Observer.id).Nodup
  given : ∀ o ∈ s.observers, o.id < s.nextId
  asks : ∀ o ∈ s.observers, o.Asks P
  attends : ∀ o ∈ s.observers, ∀ j, Attends (p.card? j) d j o
  live : ∀ {j : Nat} {card : Card}, p.card? j = some card → card.document = d → ¬P (.unsubscribe card.subscription) →
    p.isUnmounted j = false → ∃ o ∈ s.observers, o.id = card.subscription

/-- That holds of all documents, and no two sessions have the same subscription to one document. -/
structure Attended (P : Nat → Request → Prop) (p : Page α φ) : Prop where
  apart : ∀ {j k : Nat} {card card' : Card}, p.card? j = some card → p.card? k = some card' →
    card.document = card'.document → card.subscription = card'.subscription → j = k
  attending : ∀ {d : Nat} {s : Shared (Scene α φ)}, p.documents[d]? = some s → Attending (P d) p d s

/-- Observers may go, but not one that a mounted session added and whose watch nobody ends. -/
theorem Attending.thin {P : Request → Prop} (h : Attending P p d s) (hcards : p'.card? = p.card?)
    (hmounted : ∀ j, p'.isUnmounted j = false → p.isUnmounted j = false)
    (hobservers : s'.observers.Sublist s.observers) (hnext : s.nextId ≤ s'.nextId)
    (hstays : ∀ {j : Nat} {card : Card}, p.card? j = some card → card.document = d → p'.isUnmounted j = false →
      ∀ o ∈ s.observers, o.id = card.subscription → ¬P (.unsubscribe o.id) → o ∈ s'.observers) :
    Attending P p' d s' where
  ids := h.ids.sublist (hobservers.map _)
  given o ho := Nat.lt_of_lt_of_le (h.given o (hobservers.subset ho)) hnext
  asks o ho := h.asks o (hobservers.subset ho)
  attends o ho := hcards ▸ h.attends o (hobservers.subset ho)
  live {j card} hcard hdocument hP hj := by
    rw [hcards] at hcard
    obtain ⟨o, ho, hid⟩ := h.live hcard hdocument hP (hmounted j hj)
    exact ⟨o, hstays hcard hdocument hj o ho hid (hid ▸ hP), hid⟩

theorem Attending.same {P : Request → Prop} (h : Attending P p d s) (hcards : p'.card? = p.card?)
    (hmounted : ∀ j, p'.isUnmounted j = false → p.isUnmounted j = false) : Attending P p' d s :=
  h.thin hcards hmounted (List.Sublist.refl _) (Nat.le_refl _) fun _ _ _ _ ho _ _ => ho

theorem Attended.same (h : p.Attended P) (hcards : p'.card? = p.card?)
    (hmounted : ∀ j, p'.isUnmounted j = false → p.isUnmounted j = false) (hdocuments : p'.documents = p.documents) :
    p'.Attended P where
  apart := hcards ▸ h.apart
  attending hs := (h.attending (hdocuments ▸ hs)).same hcards hmounted

theorem Attended.set (h : p.Attended P) (hcards : p'.card? = p.card?)
    (hmounted : ∀ j, p'.isUnmounted j = false → p.isUnmounted j = false)
    (hdocuments : p'.documents = p.documents.set d s') (hs' : Attending (P d) p' d s') : p'.Attended P where
  apart := hcards ▸ h.apart
  attending {e s} hs := by
    rw [hdocuments] at hs
    rcases Sandbox.getElem?_set_cases hs with ⟨rfl, rfl⟩ | ⟨-, hs⟩
    · exact hs'
    · exact (h.attending hs).same hcards hmounted

theorem Attended.document? (h : p.Attended P) (hs : p.document? d = some s) : Attending (P d) p d s := by
  obtain ⟨s₀, hs₀, rfl⟩ := Option.map_eq_some_iff.1 hs
  obtain ⟨ids, given, asks, attends, live⟩ := h.attending hs₀
  exact ⟨ids, given, asks, attends, live⟩

/-! ### Each step -/

theorem mounted_before (hp : p.Tidy n) (i : Input α φ) (j : Nat) (h : (p.act i).2.isUnmounted j = false) :
    p.isUnmounted j = false := by
  refine Bool.eq_false_iff.2 fun hu => Bool.eq_false_iff.1 h ?_
  obtain ⟨seat, hseat, hu⟩ := (Option.any_eq_true _ _).1 hu
  obtain ⟨seat', hseat', -, -, hstays⟩ := (step_act hp i).seats (Option.join_eq_some_iff.1 hseat)
  rw [isUnmounted, hseat']
  exact hstays hu

/-- What callbacks that the application adds ask for is in `P`. -/
def Input.Asks (P : Nat → Request → Prop) : Input α φ → Prop
  | .watch d _ call => ∀ id u origin x, ∀ r ∈ (call id u origin x).2, P d r
  | _ => True

theorem turn_on (p : Page α φ) (k : Nat) (a : Action) : Turn k a p (p.act (.on k a)).2 := by
  cases hk : p.seated[k]? with
  | none =>
    simp only [act, hk]
    exact ⟨rfl, .inl rfl⟩
  | some m =>
    simp only [act, hk]
    exact turn_perform a

/-- A session keeps its card. -/
theorem card?_act (hp : p.Tidy n) (i : Input α φ) {card : Card} (h : p.card? j = some card) :
    (p.act i).2.card? j = some card := by
  cases i with
  | mount frame =>
    cases hm : Manager.mount p.host ({ frame } : Watched φ) with
    | error f =>
      simp only [act, hm]
      exact h
    | ok m =>
      simp only [act, hm]
      exact (congrFun (card?_concat rfl) j).trans h
  | mountSession d env template task frame =>
    cases hs : p.document? d with
    | none =>
      simp only [act, hs]
      exact h
    | some s =>
      cases hm : LayoutSession.mount env template task s p.host ({ frame } : Watched φ) with
      | error f =>
        simp only [act, hs, hm]
        exact h
      | ok session =>
        have hne : j ≠ p.managers.length := by
          rintro rfl
          cases (card?_managers hp).symm.trans h
        simp only [act, hs, hm]
        exact (card?_mount hp rfl j).trans ((if_neg hne).trans h)
  | on k a => exact (congrFun (card?_of_cards (turn_on p k a).cards) j).trans h
  | write | merge | watch =>
    simp only [act]
    split <;> exact h
  | arrive | frame | runtime | create => exact h

theorem card?_run (hp : p.Tidy n) (inputs : List (Input α φ)) {card : Card} (h : p.card? j = some card) :
    (p.run inputs).card? j = some card := by
  induction inputs generalizing p with
  | nil => exact h
  | cons i inputs ih => exact ih ((step_act hp i).tidy hp) (card?_act hp i h)

theorem attended_on (hp : p.Tidy n) (h : p.Attended P) (k : Nat) (a : Action) : (p.act (.on k a)).2.Attended P := by
  obtain ⟨hcards, hdocuments⟩ := turn_on p k a
  have hcard := card?_of_cards hcards
  have hbefore := mounted_before hp (.on k a)
  rcases hdocuments with hsame | ⟨seat, s, s', hseat, hs, hcourse, hset⟩
  · exact h.same hcard hbefore hsame
  · have hattending := h.document? hs
    obtain ⟨hobservers, hnext⟩ := hcourse.kept (Shared.kept_sublist s.observers s.nextId) (fun _ _ => trivial)
      ⟨List.Sublist.refl _, rfl⟩
    refine h.set hcard hbefore hset (hattending.thin hcard hbefore hobservers hnext.ge ?_)
    intro j card hj hdocument hmounted o ho hid hP
    -- only its own session may end the watch, and that would unmount it
    have hends : ¬a.Grants seat.card (.unsubscribe o.id) := by
      rintro ⟨ha, hr⟩
      obtain rfl := h.apart hj (card?_of_seat hseat) hdocument (hid.symm.trans hr)
      obtain ⟨seat', hseat', hu⟩ := isUnmounted_act hp hseat ha
      rw [isUnmounted, hseat'] at hmounted
      exact Bool.eq_false_iff.1 hmounted hu
    exact (hcourse.kept (Shared.kept_mem hP hends) (fun _ => .inr) ⟨ho, hattending.asks⟩).1

/-- A write or a merge, with what observers ask for. -/
theorem attended_putDocument (h : p.Attended P) (hs : p.document? d = some s)
    (hobservers : s'.observers.Sublist s.observers ∧ s'.nextId = s.nextId)
    (hstays : ∀ o ∈ s.observers, ¬P d (.unsubscribe o.id) → o ∈ s'.observers) : (p.putDocument d s').Attended P :=
  h.set rfl (fun _ => id) rfl
    ((h.document? hs).thin rfl (fun _ => id) hobservers.1 hobservers.2.ge fun _ _ _ o ho _ hP => hstays o ho hP)

theorem attended_write (h : p.Attended P) (hs : p.document? d = some s) (field : String) (value : Value) :
    (p.putDocument d (s.set field value).2).Attended P := by
  refine attended_putDocument h hs (Shared.sublist_set s field value) fun o ho hP => ?_
  have hkept := Shared.kept_mem (Q := (· = .write field value)) hP nofun
  exact (hkept.set (.inr rfl) ⟨ho, (h.document? hs).asks⟩).1

theorem attended_merge (h : p.Attended P) (hs : p.document? d = some s) (u : FieldUpdate) :
    (p.putDocument d (s.merge u).2).Attended P := by
  refine attended_putDocument h hs (Shared.sublist_merge s u) fun o ho hP => ?_
  have hkept := Shared.kept_mem (Q := fun _ => False) hP id
  exact (hkept.merge ⟨ho, (h.document? hs).asks⟩).1

theorem attended_create (hp : p.Tidy n) (h : p.Attended P) (replica : String) :
    (p.act (.create replica)).2.Attended P where
  apart := h.apart
  attending {d s} hs := by
    rcases Sandbox.getElem?_concat_cases hs with ⟨rfl, rfl⟩ | hs
    · refine ⟨List.nodup_nil, nofun, nofun, nofun, fun {j card} hj hdocument => ?_⟩
      obtain ⟨seat, hseat, rfl⟩ := card?_eq_some hj
      obtain ⟨⟨s₀, hs₀, -⟩, -⟩ := hp.sound hseat
      exact absurd (List.getElem?_eq_some_iff.1 hs₀).1 (Nat.not_lt.2 (Nat.le_of_eq hdocument.symm))
    · exact (h.attending hs).same rfl fun _ => id

omit [IsolatedFrame φ] in
theorem nodup_concat {os : List (Observer (Scene α φ))} (hids : (os.map Observer.id).Nodup)
    (hgiven : ∀ o' ∈ os, o'.id < o.id) : ((os ++ [o]).map Observer.id).Nodup := by
  rw [List.map_append, List.map_singleton, List.nodup_append]
  refine ⟨hids, List.pairwise_singleton _ _, fun id hid id' hid' => ?_⟩
  obtain ⟨o', ho', rfl⟩ := List.mem_map.1 hid
  rw [List.mem_singleton.1 hid']
  exact Nat.ne_of_lt (hgiven o' ho')

theorem attended_watch (hp : p.Tidy n) (h : p.Attended P) {field : Option String}
    {call : Nat → FieldUpdate → Origin → α → α × List Request}
    (hcall : ∀ id u origin x, ∀ r ∈ (call id u origin x).2, P d r) :
    (p.act (.watch d field call)).2.Attended P := by
  cases hs : p.document? d with
  | none =>
    simp only [act, hs]
    exact h
  | some s =>
    simp only [act, hs]
    obtain ⟨hids, hgiven, hasks, hattends, hlive⟩ := h.document? hs
    refine h.set rfl (fun _ => id) rfl ?_
    constructor
    case ids => exact nodup_concat hids hgiven
    case given =>
      exact List.forall_mem_append.2
        ⟨fun o ho => Nat.lt_succ_of_lt (hgiven o ho), List.forall_mem_singleton.2 (Nat.lt_succ_self _)⟩
    case asks =>
      exact List.forall_mem_append.2
        ⟨hasks, List.forall_mem_singleton.2 fun u origin x => hcall s.nextId u origin x.1⟩
    case attends =>
      refine List.forall_mem_append.2 ⟨hattends, List.forall_mem_singleton.2 fun j => ⟨?_, fun _ u origin x => rfl⟩⟩
      intro card hcard hdocument hsubscription
      obtain ⟨s₀, hs₀, rfl⟩ := Option.map_eq_some_iff.1 hs
      exact absurd hsubscription (Nat.ne_of_lt (card?_given hp hcard (hdocument ▸ hs₀)))
    case live =>
      intro j card hj hdocument hP hmounted
      obtain ⟨o, ho, hid⟩ := hlive hj hdocument hP hmounted
      exact ⟨o, List.mem_append_left _ ho, hid⟩

/-- Observers of the document that a session is mounted over stay what they are, and one is added that forwards. -/
theorem attending_mount {env : TemplateEnvironment} {template : String} {task : TaskContext} {frame : Watched φ}
    {host : HostWindow} {session : LayoutSession (Scene α φ) (Watched φ)} (hp : p.Tidy n) (h : p.Attended P)
    (hs : p.document? d = some s) (hm : LayoutSession.mount env template task s host frame = .ok session)
    (hseats : p'.seats = p.seats ++ [some ⟨d, session⟩])
    (hmounted : ∀ j, p'.isUnmounted j = false → p.isUnmounted j = false) (m : Manager (Watched φ)) :
    Attending (P d) p' d (session.store.carry (back p.managers.length) (beside p.managers.length m)) := by
  obtain ⟨hobservers, hnext, hsubscription, -⟩ := store_mount hm p.managers.length m
  obtain ⟨hids, hgiven, hasks, hattends, hlive⟩ := h.document? hs
  have hcard := card?_mount hp hseats
  have hnone := card?_managers hp
  constructor
  case ids =>
    have hsame : (s.observers.map (restored p.managers.length m)).map Observer.id = s.observers.map Observer.id :=
      List.map_map
    rw [hobservers]
    exact nodup_concat (hsame ▸ hids) (List.forall_mem_map.2 hgiven)
  case given =>
    have hcarried : (session.store.carry (back p.managers.length) (beside p.managers.length m)).nextId = s.nextId + 1 :=
      hnext
    rw [hobservers, hcarried]
    exact List.forall_mem_append.2 ⟨List.forall_mem_map.2 fun o ho => Nat.lt_succ_of_lt (hgiven o ho),
      List.forall_mem_singleton.2 (Nat.lt_succ_self _)⟩
  case asks =>
    have hforwarder := forwards_forwarder (α := α) p.managers.length m session.environment.policy s.nextId
    rw [hobservers]
    refine List.forall_mem_append.2 ⟨List.forall_mem_map.2 fun o ho => asks_restored (hasks o ho) _ _,
      List.forall_mem_singleton.2 fun u origin x r hr => ?_⟩
    rw [hforwarder.requests] at hr
    cases hr
  case attends =>
    rw [hobservers]
    refine List.forall_mem_append.2
      ⟨List.forall_mem_map.2 fun o ho j => ?_, List.forall_mem_singleton.2 fun j => ?_⟩ <;>
      rw [hcard] <;> by_cases hj : j = p.managers.length
    · rw [if_pos hj, hj]
      refine ⟨fun card hmem _ hid => ?_, fun _ => aside_restored_self fun u origin x => length_call hp hs ho u origin x⟩
      cases hmem
      exact absurd (hid.symm.trans hsubscription) (Nat.ne_of_lt (hgiven o ho))
    · rw [if_neg hj]
      exact ⟨fun card hmem hdocument hid => forwards_restored ((hattends o ho j).forwards card hmem hdocument hid) hj,
        fun hothers => aside_restored ((hattends o ho j).aside hothers) hj⟩
    · rw [if_pos hj, hj]
      refine ⟨fun card hmem _ _ => ?_, fun hothers => absurd hsubscription (hothers _ rfl rfl)⟩
      cases hmem
      exact forwards_forwarder _ _ _ _
    · rw [if_neg hj]
      refine ⟨fun card hmem hdocument hid => ?_, fun _ => aside_forwarder hj _ _ _⟩
      obtain ⟨s₀, hs₀, rfl⟩ := Option.map_eq_some_iff.1 hs
      exact absurd hid (Nat.ne_of_lt (card?_given hp hmem (hdocument ▸ hs₀)))
  case live =>
    intro j card hj hdocument hP hj'
    rw [hcard] at hj
    rw [hobservers]
    split at hj
    · cases hj
      exact ⟨_, List.mem_append_right _ (List.mem_singleton_self _), hsubscription.symm⟩
    · obtain ⟨o, ho, hid⟩ := hlive hj hdocument hP (hmounted j hj')
      exact ⟨_, List.mem_append_left _ (List.mem_map_of_mem ho), hid⟩

theorem attended_seat {env : TemplateEnvironment} {template : String} {task : TaskContext} {frame : Watched φ}
    {host : HostWindow} {session : LayoutSession (Scene α φ) (Watched φ)} (hp : p.Tidy n) (h : p.Attended P)
    (hs : p.document? d = some s) (hm : LayoutSession.mount env template task s host frame = .ok session)
    (hseats : p'.seats = p.seats ++ [some ⟨d, session⟩])
    (hmounted : ∀ j, p'.isUnmounted j = false → p.isUnmounted j = false) {m : Manager (Watched φ)}
    (hdocuments : p'.documents = p.documents.set d
      (session.store.carry (back p.managers.length) (beside p.managers.length m))) : p'.Attended P := by
  have hcard := card?_mount hp hseats
  have hnone := card?_managers hp
  constructor
  case apart =>
    have hnew {card : Card} {j : Nat} (hj : p.card? j = some card) (hdocument : card.document = d) :
        card.subscription ≠ session.subscription := by
      obtain ⟨-, -, hsubscription, -⟩ := store_mount hm p.managers.length m
      obtain ⟨s₀, hs₀, rfl⟩ := Option.map_eq_some_iff.1 hs
      have hgiven := card?_given hp hj (hdocument ▸ hs₀)
      rw [hsubscription]
      exact Nat.ne_of_lt hgiven
    intro i j card card' hi hj hdocument hsubscription
    rw [hcard] at hi hj
    split at hi <;> split at hj
    · next hi' hj' => exact hi'.trans hj'.symm
    · cases hi
      exact absurd hsubscription.symm (hnew hj hdocument.symm)
    · cases hj
      exact absurd hsubscription (hnew hi hdocument)
    · exact h.apart hi hj hdocument hsubscription
  case attending =>
    intro e s' hs'
    rw [hdocuments] at hs'
    rcases Sandbox.getElem?_set_cases hs' with ⟨rfl, rfl⟩ | ⟨hne, hs'⟩
    · exact attending_mount hp h hs hm hseats hmounted m
    · obtain ⟨hids, hgiven, hasks, hattends, hlive⟩ := h.attending hs'
      refine ⟨hids, hgiven, hasks, fun o ho j => ?_, fun {j card} hj hdocument hP hj' => ?_⟩
      · rw [hcard]
        split
        · next he =>
          refine ⟨fun card hmem hdocument _ => ?_, fun _ => (hattends o ho j).aside ?_⟩
          · cases hmem
            exact absurd hdocument.symm hne
          · rw [he, hnone]
            exact fun _ hmem => nomatch hmem
        · exact hattends o ho j
      · rw [hcard] at hj
        split at hj
        · cases hj
          exact absurd hdocument.symm hne
        · exact hlive hj hdocument hP (hmounted j hj')

theorem attended_mountSession (hp : p.Tidy n) (h : p.Attended P) (d : Nat) (env : TemplateEnvironment)
    (template : String) (task : TaskContext) (frame : φ) :
    (p.act (.mountSession d env template task frame)).2.Attended P := by
  have hmounted := mounted_before hp (.mountSession d env template task frame)
  cases hs : p.document? d with
  | none =>
    simp only [act, hs]
    exact h
  | some s =>
    cases hm : LayoutSession.mount env template task s p.host ({ frame } : Watched φ) with
    | error f =>
      simp only [act, hs, hm]
      exact h.same rfl (fun _ => id) rfl
    | ok session =>
      simp only [act, hs, hm] at hmounted ⊢
      exact attended_seat hp h hs hm rfl hmounted rfl

theorem attended_act (hp : p.Tidy n) (h : p.Attended P) {i : Input α φ} (hi : i.Asks P) : (p.act i).2.Attended P := by
  cases i with
  | mount frame =>
    cases hm : Manager.mount p.host ({ frame } : Watched φ) with
    | error f =>
      simp only [act, hm]
      exact h.same rfl (fun _ => id) rfl
    | ok m =>
      have hmounted := mounted_before hp (.mount frame)
      simp only [act, hm] at hmounted ⊢
      exact h.same (card?_concat rfl) hmounted rfl
  | mountSession d env template task frame => exact attended_mountSession hp h d env template task frame
  | on k a => exact attended_on hp h k a
  | arrive | frame | runtime => exact h.same rfl (fun _ => id) rfl
  | create replica => exact attended_create hp h replica
  | write d field value =>
    cases hs : p.document? d with
    | none =>
      simp only [act, hs]
      exact h
    | some s =>
      simp only [act, hs]
      exact attended_write h hs field value
  | merge d u =>
    cases hs : p.document? d with
    | none =>
      simp only [act, hs]
      exact h
    | some s =>
      simp only [act, hs]
      exact attended_merge h hs u
  | watch d field call => exact attended_watch hp h hi

theorem attended_run (hp : p.Tidy n) (h : p.Attended P) {inputs : List (Input α φ)} (hinputs : ∀ i ∈ inputs, i.Asks P) :
    (p.run inputs).Attended P := by
  induction inputs generalizing p with
  | nil => exact h
  | cons i inputs ih =>
    obtain ⟨hi, hinputs⟩ := List.forall_mem_cons.1 hinputs
    exact ih ((step_act hp i).tidy hp) (attended_act hp h hi) hinputs

theorem attended_start (host : HostWindow) (own : α) : Attended P ({ host, own } : Page α φ) where
  apart h := nomatch h
  attending h := nomatch h

end Page

end SecureLayout
