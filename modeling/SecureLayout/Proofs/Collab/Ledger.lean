import Mathlib.Data.List.Induction
import SecureLayout.Proofs.Collab.Writing

/-!
One replica over any number of links. Main statement: its own writes are numbered upwards and each of them
is pending from then on until its number is acknowledged; over a link go one announcement, what is pending
then, and each own write that follows.
-/

namespace SecureLayout.Collab

open Json (Value)
open Wire (FieldUpdate SyncMessage)

namespace Provider

/-- What can happen to a replica and to its link. -/
inductive Action where
  | write (field : String) (value : Value)
  /-- A write of another replica is merged. -/
  | merge (u : FieldUpdate)
  /-- A new link, whose other end takes messages or does not. -/
  | attach (isRead : Bool)
  | detach
  /-- The link is lost. -/
  | lose
  | receive (m : SyncMessage)
  | publish (state : Option Value)
  /-- The other end takes the next message. -/
  | take
  /-- The other end takes no more messages. -/
  | deafen

def act (p : Provider) : Action → Provider
  | .write field value => (p.set field value).2
  | .merge u => (p.merge u).2
  | .attach isRead => (p.attach { isRead }).2
  | .detach => p.detach
  | .lose => p.linkDown
  | .receive m => p.receive m
  | .publish state => (p.publish state).2
  | .take => (p.takeNext.map (·.2)).getD p
  | .deafen => { p with link := p.link.map ({ · with isRead := false }) }

def run (p : Provider) (actions : List Action) : Provider :=
  actions.foldl act p

/-! ### What is written down -/

/-- Own writes under their numbers, and numbers that are acknowledged. -/
inductive Entry where
  | wrote (seq : Nat) (u : FieldUpdate)
  | acked (seq : Nat)

/-- What one action adds to the ledger. -/
def noted (p : Provider) : Action → List Entry
  | .write field value =>
    match p.document.set field value with
    | .ok (u, _) => [.wrote p.nextSeq u]
    | .error _ => []
  | .receive (.ack _ seq) => [.acked seq]
  | _ => []

def ledger (p : Provider) : List Action → List Entry
  | [] => []
  | a :: actions => p.noted a ++ (p.act a).ledger actions

def Entry.write? : Entry → Option (Nat × FieldUpdate)
  | .wrote seq u => some (seq, u)
  | .acked _ => none

/-- Own writes in a ledger, with their numbers. -/
def writes (entries : List Entry) : List (Nat × FieldUpdate) :=
  entries.filterMap Entry.write?

/-- One more entry of a ledger, for writes that are not acknowledged yet. -/
def settle (kept : List (Nat × FieldUpdate)) : Entry → List (Nat × FieldUpdate)
  | .wrote seq u => kept ++ [(seq, u)]
  | .acked seq => kept.filter (·.1 != seq)

/-- Writes that nothing in the rest of the ledger acknowledges. -/
def outstanding (entries : List Entry) : List (Nat × FieldUpdate) :=
  entries.foldl settle []

variable {p : Provider} {a : Action} {entries : List Entry} {q seq : Nat} {u : FieldUpdate}

@[simp] theorem writes_append (entries later : List Entry) :
    writes (entries ++ later) = writes entries ++ writes later :=
  List.filterMap_append

@[simp] theorem writes_acked (seq : Nat) : writes [.acked seq] = [] := rfl

@[simp] theorem writes_wrote (seq : Nat) (u : FieldUpdate) : writes [.wrote seq u] = [(seq, u)] := rfl

theorem outstanding_concat (entries : List Entry) (e : Entry) :
    outstanding (entries ++ [e]) = settle (outstanding entries) e :=
  List.foldl_append

/-- A longer ledger splits at its new entry or where the shorter one does. -/
theorem split_concat {before after : List Entry} {e x : Entry} (h : entries ++ [e] = before ++ x :: after) :
    after = [] ∧ e = x ∨ ∃ rest, after = rest ++ [e] ∧ entries = before ++ x :: rest := by
  rcases List.eq_nil_or_concat' after with rfl | ⟨rest, y, rfl⟩
  · exact .inl ⟨rfl, (List.append_singleton_inj.1 h).2⟩
  · rw [← List.cons_append, ← List.append_assoc] at h
    obtain ⟨hentries, rfl⟩ := List.append_singleton_inj.1 h
    exact .inr ⟨rest, rfl, hentries⟩

/-- A write is outstanding from when it is written until its number is acknowledged. -/
theorem mem_outstanding_iff :
    (q, u) ∈ outstanding entries ↔
      ∃ before after, entries = before ++ .wrote q u :: after ∧ .acked q ∉ after := by
  induction entries using List.reverseRecOn with
  | nil => simp [outstanding]
  | append_singleton entries e ih =>
    rw [outstanding_concat]
    cases e with
    | wrote seq v =>
      rw [settle, List.mem_append, ih]
      constructor
      · rintro (⟨before, after, rfl, hafter⟩ | hnew)
        · refine ⟨before, after ++ [.wrote seq v], by simp, ?_⟩
          simpa using hafter
        · cases List.mem_singleton.1 hnew
          exact ⟨entries, [], rfl, List.not_mem_nil⟩
      · rintro ⟨before, after, he, hafter⟩
        rcases split_concat he with ⟨-, hw⟩ | ⟨rest, rfl, hentries⟩
        · cases hw
          exact .inr (List.mem_singleton_self _)
        · exact .inl ⟨before, rest, hentries, fun h => hafter (List.mem_append_left _ h)⟩
    | acked seq =>
      rw [settle, List.mem_filter, ih]
      constructor
      · rintro ⟨⟨before, after, rfl, hafter⟩, hne⟩
        refine ⟨before, after ++ [.acked seq], by simp, ?_⟩
        simpa [hafter] using hne
      · rintro ⟨before, after, he, hafter⟩
        rcases split_concat he with ⟨-, hw⟩ | ⟨rest, rfl, hentries⟩
        · cases hw
        · refine ⟨⟨before, rest, hentries, fun h => hafter (List.mem_append_left _ h)⟩, ?_⟩
          simp only [bne_iff_ne, ne_eq]
          rintro rfl
          exact hafter (List.mem_append_right _ (List.mem_singleton_self _))

theorem outstanding_sublist (entries : List Entry) : (outstanding entries).Sublist (writes entries) := by
  induction entries using List.reverseRecOn with
  | nil => exact .slnil
  | append_singleton entries e ih =>
    rw [outstanding_concat, writes_append]
    cases e with
    | wrote seq u => exact ih.append_right _
    | acked seq =>
      rw [writes_acked, List.append_nil]
      exact List.filter_sublist.trans ih

/-- A replica is about one document and one client. -/
theorem identity_act (p : Provider) (a : Action) : (p.act a).doc = p.doc ∧ (p.act a).client = p.client := by
  cases a with
  | write field value =>
    rw [act]
    unfold set
    split
    · exact ⟨rfl, rfl⟩
    · dsimp only
      split <;> exact ⟨rfl, rfl⟩
  | attach isRead => cases isRead <;> exact ⟨rfl, rfl⟩
  | receive m =>
    cases m with
    | awareness d c s => cases s <;> exact ⟨rfl, rfl⟩
    | _ => exact ⟨rfl, rfl⟩
  | publish state =>
    rw [act]
    unfold publish
    split
    · exact ⟨rfl, rfl⟩
    · split <;> exact ⟨rfl, rfl⟩
  | take =>
    rw [act]
    unfold takeNext
    split
    · split <;> exact ⟨rfl, rfl⟩
    · exact ⟨rfl, rfl⟩
  | _ => exact ⟨rfl, rfl⟩

theorem identity_run (p : Provider) (actions : List Action) :
    (p.run actions).doc = p.doc ∧ (p.run actions).client = p.client := by
  induction actions generalizing p with
  | nil => exact ⟨rfl, rfl⟩
  | cons a actions ih =>
    obtain ⟨hd, hc⟩ := identity_act p a
    obtain ⟨hd', hc'⟩ := ih (p.act a)
    exact ⟨hd'.trans hd, hc'.trans hc⟩

/-- What is pending is what the ledger leaves open. -/
structure Booked (p : Provider) (entries : List Entry) : Prop where
  tracking : p.isTracking = true
  counted : p.IsCounted
  pending : p.pending = outstanding entries
  below : ∀ e ∈ writes entries, e.1 < p.nextSeq
  numbered : (writes entries).Pairwise (·.1 < ·.1)

theorem Booked.merged {p' : Provider} {us : List FieldUpdate} (b : p.Booked entries) (hm : Merged us p p') :
    p'.Booked entries where
  tracking := hm.tracking.trans b.tracking
  counted := hm.counted.trans (b.counted.trans (by rw [hm.pending]))
  pending := hm.pending.trans b.pending
  below := hm.nextSeq ▸ b.below
  numbered := b.numbered

theorem Booked.wrote (b : p.Booked entries) (u : FieldUpdate) (document : Document) :
    (p.wrote u document).Booked (entries ++ [.wrote p.nextSeq u]) where
  tracking := b.tracking
  counted := rfl
  pending := by
    rw [outstanding_concat, ← b.pending]
    rfl
  below e he := by
    rw [writes_append] at he
    rcases List.mem_append.1 he with he | he
    · exact Nat.lt_succ_of_lt (b.below e he)
    · rw [List.mem_singleton.1 he]
      exact Nat.lt_succ_self _
  numbered := by
    rw [writes_append]
    refine List.pairwise_append.2 ⟨b.numbered, List.pairwise_singleton _ _, fun x hx y hy => ?_⟩
    rw [List.mem_singleton.1 hy]
    exact b.below x hx

theorem Booked.acknowledge (b : p.Booked entries) (seq : Nat) :
    (p.acknowledge seq).Booked (entries ++ [.acked seq]) where
  tracking := b.tracking
  counted := rfl
  pending := by
    rw [outstanding_concat, ← b.pending]
    rfl
  below e he := by
    exact b.below e (by simpa using he)
  numbered := by
    simpa using b.numbered

/-- Nothing but own writes and acknowledgements touches what is pending. -/
theorem merged_act (p : Provider) {a : Action} (hwrite : ∀ field value, a ≠ .write field value)
    (hack : ∀ d seq, a ≠ .receive (.ack d seq)) : ∃ us, Merged us p (p.act a) := by
  cases a with
  | write field value => exact absurd rfl (hwrite field value)
  | merge u => exact ⟨[u], rfl, rfl, rfl, rfl, rfl, rfl⟩
  | attach isRead =>
    cases isRead with
    | true => exact ⟨[], (attach_new p).2.2⟩
    | false => exact ⟨[], merged_linkDown p⟩
  | detach => exact ⟨[], merged_linkDown p⟩
  | lose => exact ⟨[], merged_linkDown p⟩
  | receive m => exact ⟨_, merged_receive p fun d seq he => hack d seq (by rw [he])⟩
  | publish state =>
    refine ⟨[], ?_⟩
    rw [Provider.act]
    unfold publish
    split
    · exact ⟨rfl, rfl, rfl, rfl, rfl, rfl⟩
    · split <;> exact ⟨rfl, rfl, rfl, rfl, rfl, rfl⟩
  | take =>
    refine ⟨[], ?_⟩
    rw [Provider.act]
    unfold takeNext
    split
    · split <;> exact ⟨rfl, rfl, rfl, rfl, rfl, rfl⟩
    · exact ⟨rfl, rfl, rfl, rfl, rfl, rfl⟩
  | deafen => exact ⟨[], rfl, rfl, rfl, rfl, rfl, rfl⟩

theorem Booked.act (b : p.Booked entries) (a : Action) : (p.act a).Booked (entries ++ p.noted a) := by
  have hother : (∀ field value, a ≠ .write field value) → (∀ d seq, a ≠ .receive (.ack d seq)) →
      p.noted a = [] → (p.act a).Booked (entries ++ p.noted a) := by
    intro hwrite hack hnoted
    obtain ⟨us, hm⟩ := merged_act p hwrite hack
    rw [hnoted, List.append_nil]
    exact b.merged hm
  cases a with
  | write field value =>
    cases hs : p.document.set field value with
    | ok x =>
      have hnoted : p.noted (.write field value) = [.wrote p.nextSeq x.1] := by simp only [noted, hs]
      rw [hnoted, Provider.act, set_of_tracking b.tracking (u := x.1) hs]
      exact b.wrote x.1 x.2
    | error e =>
      have hnoted : p.noted (.write field value) = [] := by simp only [noted, hs]
      have hsame : (p.set field value).2 = p := by simp only [set, hs]
      rw [hnoted, List.append_nil, Provider.act, hsame]
      exact b
  | receive m =>
    cases m with
    | ack d seq => exact b.acknowledge seq
    | _ => exact hother nofun nofun rfl
  | _ => exact hother nofun nofun rfl

theorem Booked.run (b : p.Booked entries) (actions : List Action) :
    (p.run actions).Booked (entries ++ p.ledger actions) := by
  induction actions generalizing p entries with
  | nil =>
    rw [ledger, List.append_nil]
    exact b
  | cons a actions ih =>
    rw [ledger, ← List.append_assoc]
    exact ih (b.act a)

/-! ### What is sent over one link -/

/-- The link is neither replaced nor given up nor lost. -/
def Action.keepsLink : Action → Bool
  | .attach _ | .detach | .lose => false
  | _ => true

def Action.isDeafening : Action → Bool
  | .deafen => true
  | _ => false

/-- What the other end takes by one action. -/
def handed (p : Provider) : Action → List SyncMessage
  | .take => (p.takeNext.map (·.1)).toList
  | _ => []

/-- All messages that the other end takes, in order. -/
def taken (p : Provider) : List Action → List SyncMessage
  | [] => []
  | a :: actions => p.handed a ++ (p.act a).taken actions

def outgoing (p : Provider) : List SyncMessage :=
  (p.link.map (·.outgoing)).getD []

/-- Messages without presence. -/
def content (ms : List SyncMessage) : List SyncMessage :=
  ms.filter fun
    | .awareness _ _ _ => false
    | _ => true

/-- Writes as they are sent. -/
def updates (doc : String) (es : List (Nat × FieldUpdate)) : List SyncMessage :=
  es.map fun e => .update doc e.1 e.2

@[simp] theorem content_append (ms ns : List SyncMessage) : content (ms ++ ns) = content ms ++ content ns :=
  List.filter_append _ _

@[simp] theorem updates_append (doc : String) (es fs : List (Nat × FieldUpdate)) :
    updates doc (es ++ fs) = updates doc es ++ updates doc fs :=
  List.map_append

theorem content_updates (doc : String) (es : List (Nat × FieldUpdate)) :
    content (updates doc es) = updates doc es :=
  List.filter_eq_self.2 fun m hm => by
    obtain ⟨e, -, rfl⟩ := List.mem_map.1 hm
    rfl

/-- What one action does to a link that it keeps. -/
structure Conveys (p : Provider) (a : Action) (l l' : Link) : Prop where
  link : (p.act a).link = some l'
  isRead : l'.isRead = (l.isRead && !a.isDeafening)
  sent : content (p.handed a ++ l'.outgoing) =
    content l.outgoing ++ updates p.doc (if l.isRead then writes (p.noted a) else [])

/-- Most actions leave the link as it is. -/
theorem Conveys.idle {l : Link} (hl : (p.act a).link = some l) (hh : p.handed a = [])
    (hn : writes (p.noted a) = []) (ha : a.isDeafening = false) : p.Conveys a l l where
  link := hl
  isRead := by simp [ha]
  sent := by simp [hh, hn, updates]

theorem conveys_write {l : Link} (ht : p.isTracking = true) (hl : p.link = some l) (field : String)
    (value : Value) : ∃ l', p.Conveys (.write field value) l l' := by
  cases hs : p.document.set field value with
  | error e =>
    have hsame : p.act (.write field value) = p := by simp only [act, set, hs]
    have hnoted : p.noted (.write field value) = [] := by simp only [noted, hs]
    exact ⟨l, .idle (by rw [hsame, hl]) rfl (by rw [hnoted]; rfl) rfl⟩
  | ok x =>
    have hwrote : p.act (.write field value) = p.wrote x.1 x.2 := set_of_tracking ht hs
    have hnoted : p.noted (.write field value) = [.wrote p.nextSeq x.1] := by simp only [noted, hs]
    have hlink : (p.wrote x.1 x.2).link = some (l.trySend (p.updateMessage p.nextSeq x.1)) := by
      change p.link.map _ = _
      rw [hl]
      rfl
    refine ⟨_, by rw [hwrote, hlink], ?_, ?_⟩
    · unfold Link.trySend Link.send
      cases hr : l.isRead <;> simp [hr, Except.toOption, Action.isDeafening]
    · rw [hnoted]
      unfold Link.trySend Link.send
      cases l.isRead <;> simp [Except.toOption, handed, updates, content, updateMessage]

theorem conveys_publish {l : Link} (hl : p.link = some l) (state : Option Value) :
    ∃ l', p.Conveys (.publish state) l l' := by
  have hpublish : p.act (.publish state) =
      { p with link := some (l.trySend (.awareness p.doc p.client state)) } := by
    simp only [act, publish, hl]
    unfold Link.trySend
    cases l.send (.awareness p.doc p.client state) with
    | error e => simp [Except.toOption, ← hl]
    | ok l' => rfl
  refine ⟨_, by rw [hpublish], ?_, ?_⟩
  · unfold Link.trySend Link.send
    cases hr : l.isRead <;> simp [hr, Except.toOption, Action.isDeafening]
  · unfold Link.trySend Link.send
    cases l.isRead <;> simp [Except.toOption, handed, noted, writes, updates, content]

theorem conveys_take {l : Link} (hl : p.link = some l) : ∃ l', p.Conveys .take l l' := by
  cases ho : l.outgoing with
  | nil =>
    have htake : p.takeNext = none := by simp only [takeNext, hl, ho]
    have hidle : p.act .take = p := by simp only [act, htake]; rfl
    exact ⟨l, .idle (by rw [hidle, hl]) (by simp only [handed, htake]; rfl) rfl rfl⟩
  | cons m r =>
    have htake : p.takeNext = some (m, { p with link := some { l with outgoing := r } }) := by
      simp only [takeNext, hl, ho]
    refine ⟨{ l with outgoing := r }, ?_, ?_, ?_⟩
    · simp only [act, htake]
      rfl
    · simp [Action.isDeafening]
    · simp only [handed, htake, ho]
      simp [noted, writes, updates]

theorem conveys_act {l : Link} (ht : p.isTracking = true) (hl : p.link = some l) (hk : a.keepsLink = true) :
    ∃ l', p.Conveys a l l' := by
  cases a with
  | write field value => exact conveys_write ht hl field value
  | merge u => exact ⟨l, .idle hl rfl rfl rfl⟩
  | receive m =>
    have hn : writes (p.noted (.receive m)) = [] := by cases m <;> rfl
    exact ⟨l, .idle ((link_receive p m).trans hl) rfl hn rfl⟩
  | publish state => exact conveys_publish hl state
  | take => exact conveys_take hl
  | deafen =>
    refine ⟨{ l with isRead := false }, ?_, by simp [Action.isDeafening], ?_⟩
    · simp only [act, hl]
      rfl
    · simp [handed, noted, writes, updates]
  | _ => cases hk

/-- Over a link that is kept go the own writes that are made while its other end takes messages. -/
theorem Booked.content_sent {l : Link} {actions : List Action} (b : p.Booked entries) (hl : p.link = some l)
    (hk : ∀ a ∈ actions, a.keepsLink = true) :
    content (p.taken actions ++ (p.run actions).outgoing) = content l.outgoing ++
      updates p.doc (if l.isRead then writes (p.ledger (actions.takeWhile (!·.isDeafening))) else []) := by
  induction actions generalizing p l entries with
  | nil =>
    have hout : p.outgoing = l.outgoing := by rw [outgoing, hl]; rfl
    change content p.outgoing = _
    simp [hout, ledger, writes, updates]
  | cons a actions ih =>
    obtain ⟨l', hl', hr, hsent⟩ := conveys_act b.tracking hl (hk a (List.mem_cons_self ..))
    have hrest := ih (b.act a) hl' fun a ha => hk a (List.mem_cons_of_mem _ ha)
    have hrun : p.run (a :: actions) = (p.act a).run actions := rfl
    rw [taken, hrun, List.append_assoc, content_append, hrest, ← List.append_assoc, ← content_append, hsent,
      (identity_act p a).1, hr, List.append_assoc]
    congr 1
    cases ha : a.isDeafening with
    | true =>
      cases a with
      | deafen =>
        rw [List.takeWhile_cons_of_neg (by simp [ha])]
        simp [noted, ledger, writes, updates]
      | _ => cases ha
    | false =>
      rw [List.takeWhile_cons_of_pos (by simp [ha]), ledger]
      cases l.isRead <;> simp [updates]

theorem content_greeting (p : Provider) :
    content (greeting p) = .hello p.doc p.client :: updates p.doc p.pending := by
  have hpending : p.pending.map (fun e => p.updateMessage e.1 e.2) = updates p.doc p.pending := rfl
  rw [greeting, hpending]
  exact congrArg (List.cons _) (content_updates _ _)

/-- What goes over a new link, and that its numbers increase. -/
theorem Booked.attach (b : p.Booked entries) {later : List Action} (hk : ∀ a ∈ later, a.keepsLink = true) :
    content ((p.act (.attach true)).taken later ++ ((p.act (.attach true)).run later).outgoing) =
      .hello p.doc p.client :: updates p.doc (p.pending ++
        writes ((p.act (.attach true)).ledger (later.takeWhile (!·.isDeafening)))) ∧
    (p.pending ++ writes ((p.act (.attach true)).ledger (later.takeWhile (!·.isDeafening)))).Pairwise
      (·.1 < ·.1) := by
  obtain ⟨-, hlink, hm⟩ := attach_new p
  have hbooked : (p.act (.attach true)).Booked entries := b.merged hm
  have hdoc : (p.act (.attach true)).doc = p.doc := hm.doc
  constructor
  · rw [hbooked.content_sent hlink hk, content_greeting, hdoc, updates_append]
    rfl
  · have hlater := (hbooked.run (later.takeWhile (!·.isDeafening))).numbered
    rw [writes_append] at hlater
    exact hlater.sublist (b.pending ▸ (outstanding_sublist entries).append_right _)

theorem mem_pending_receive (p : Provider) (m : SyncMessage) {e : Nat × FieldUpdate}
    (he : e ∈ (p.receive m).pending) : e ∈ p.pending := by
  cases m with
  | ack d seq => exact (List.mem_filter.1 he).1
  | awareness d c s => cases s <;> exact he
  | _ => exact he

/-- Whatever happens to a replica, its own writes are numbered upwards. Each of them is pending under its
number until a message with that number acknowledges it, and the status counts what is pending. What others
wrote is neither kept nor sent. Over every link go, besides presence, one announcement, what is pending at
that time and then every own write that follows while the other end takes messages, by increasing numbers. -/
theorem writes_pend_until_acknowledged (doc client : String) (document : Document) (actions : List Action) :
    let start : Provider := { doc, client, document }
    let p := start.run actions
    (writes (start.ledger actions)).Pairwise (·.1 < ·.1) ∧
    (∀ seq u, (seq, u) ∈ p.pending ↔ ∃ before after,
      start.ledger actions = before ++ .wrote seq u :: after ∧ .acked seq ∉ after) ∧
    p.status.pendingChanges = p.pending.length ∧
    (∀ u, (p.act (.merge u)).pending = p.pending ∧ (p.act (.merge u)).link = p.link) ∧
    (∀ m, (p.act (.receive m)).link = p.link ∧ ∀ e ∈ (p.act (.receive m)).pending, e ∈ p.pending) ∧
    ∀ later, (∀ a ∈ later, a.keepsLink = true) →
      let q := p.act (.attach true)
      content (q.taken later ++ (q.run later).outgoing) =
        .hello doc client ::
          updates doc (p.pending ++ writes (q.ledger (later.takeWhile (!·.isDeafening)))) ∧
      (p.pending ++ writes (q.ledger (later.takeWhile (!·.isDeafening)))).Pairwise (·.1 < ·.1) := by
  intro start p
  have hstart : start.Booked [] := ⟨rfl, rfl, rfl, fun e he => absurd he List.not_mem_nil, .nil⟩
  have b : p.Booked (start.ledger actions) := hstart.run actions
  refine ⟨b.numbered, fun seq u => ?_, b.counted, fun u => ⟨rfl, rfl⟩, fun m =>
    ⟨link_receive p m, fun e he => mem_pending_receive p m he⟩, fun later hk => ?_⟩
  · rw [b.pending]
    exact mem_outstanding_iff
  · obtain ⟨hdoc, hclient⟩ := identity_run start actions
    have hattach := b.attach hk
    rw [hdoc, hclient] at hattach
    exact hattach

/-- Of two writes, one before and one over a first link, the first is acknowledged. -/
def interrupted : List Action :=
  [.write "f" .null, .attach true, .write "g" .null, .receive (.ack "d" 1), .receive (.ack "d" 7), .lose]

/-- Over a second link a write is followed by presence and by one that the other end does not take. -/
def resumed : List Action :=
  [.take, .write "h" .null, .publish none, .take, .deafen, .write "f" .null]

theorem writes_pend_until_acknowledged_resumed :
    let p := Provider.run { doc := "d", client := "ada", document := { replica := "a" } } interrupted
    let q := p.act (.attach true)
    (∀ a ∈ resumed, a.keepsLink = true) ∧ (q.run resumed).pending.map (·.1) = [2, 3, 4] ∧
      content (q.taken resumed ++ (q.run resumed).outgoing) =
        [.hello "d" "ada", .update "d" 2 ⟨"g", .null, ⟨2, "a"⟩⟩,
          .update "d" 3 ⟨"h", .null, ⟨3, "a"⟩⟩] := by
  have hk : ∀ a ∈ resumed, a.keepsLink = true := by simp [resumed, Action.keepsLink]
  obtain ⟨-, -, -, -, -, hlink⟩ := writes_pend_until_acknowledged "d" "ada" { replica := "a" } interrupted
  exact ⟨hk, rfl, (hlink resumed hk).1.trans rfl⟩

end Provider

end SecureLayout.Collab
