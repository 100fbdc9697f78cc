import SecureLayout.Proofs.Collab.Isolation

/-!
How long a client is present. Presence belongs to a client and not to one of its connections. Main statement:
in every state a client is present on a document with what it published there last, through a connection
that is still there, if neither it has withdrawn nor any of its connections to the document has ended since;
the end of one of several connections is enough.
-/

namespace SecureLayout.Collab

open Json (Value)
open Wire (FieldUpdate SyncMessage)

theorem Awareness.get?_apply (a : Awareness) (doc client : String) (state : Option Value) (d c : String) :
    (a.apply doc client state).get? d c = if d = doc ∧ c = client then state else a.get? d c := by
  cases state with
  | none => exact a.get?_leave doc client d c
  | some s => exact a.get?_set doc client s d c

namespace Hub

/-- An id belongs to a connection of this client to this document. -/
def Links (h : Hub) (id : Nat) (doc client : String) : Prop :=
  ∃ p, h.peer? id = some p ∧ p.doc = doc ∧ p.client = client

/-- Connections end, and with each of them the presence of its client; no other presence changes. -/
structure Leaves (h h' : Hub) : Prop where
  linked : ∀ i doc client, h'.Links i doc client → h.Links i doc client
  absent : ∀ doc client, h.awareness.get? doc client = none → h'.awareness.get? doc client = none
  ended : ∀ i doc client, h.Links i doc client → ¬ h'.Links i doc client →
    h'.awareness.get? doc client = none
  kept : ∀ doc client, (∀ i, h.Links i doc client → h'.Links i doc client) →
    h'.awareness.get? doc client = h.awareness.get? doc client

variable {h h₁ h' h'' : Hub} {doc client : String} {id i : Nat} {m : SyncMessage} {agenda : Agenda}
  {full : List Nat} {p : Peer}

namespace Leaves

theorem of_same (hlinks : ∀ i doc client, h'.Links i doc client ↔ h.Links i doc client)
    (hawareness : h'.awareness = h.awareness) : Leaves h h' where
  linked i doc client := (hlinks i doc client).1
  absent doc client hnone := hawareness ▸ hnone
  ended i doc client hl hn := absurd ((hlinks i doc client).2 hl) hn
  kept doc client _ := by rw [hawareness]

theorem refl (h : Hub) : Leaves h h :=
  .of_same (fun _ _ _ => Iff.rfl) rfl

theorem trans (a : Leaves h h') (b : Leaves h' h'') : Leaves h h'' where
  linked i doc client hl := a.linked i doc client (b.linked i doc client hl)
  absent doc client hnone := b.absent doc client (a.absent doc client hnone)
  ended i doc client hl hn := by
    by_cases hmid : h'.Links i doc client
    · exact b.ended i doc client hmid hn
    · exact b.absent doc client (a.ended i doc client hl hmid)
  kept doc client hall := by
    rw [b.kept doc client fun i hl => hall i (a.linked i doc client hl),
      a.kept doc client fun i hl => b.linked i doc client (hall i hl)]

end Leaves

theorem peer?_eq_of_dropped (h : Hub) (id i : Nat) :
    (h.dropped id).1.peer? i = if i = id then none else h.peer? i := by
  cases hp : h.peer? id with
  | none =>
    rw [dropped_of_unknown hp]
    split
    · next hi => rw [hi, hp]
    · rfl
  | some p =>
    have hforget := peer?_forget h p i
    rw [(peer?_eq_some hp).2] at hforget
    rw [← hforget]
    unfold dropped
    rw [hp]
    dsimp only
    split <;> rfl

/-- With one connection its client is gone, whatever other connections the client has. -/
theorem leaves_dropped (h : Hub) (id : Nat) : Leaves h (h.dropped id).1 := by
  cases hp : h.peer? id with
  | none =>
    rw [dropped_of_unknown hp]
    exact .refl h
  | some p =>
    have hlinks : ∀ i doc client, (h.dropped id).1.Links i doc client ↔ i ≠ id ∧ h.Links i doc client := by
      intro i doc client
      unfold Links
      rw [peer?_eq_of_dropped]
      split
      · next hi => simp [hi]
      · next hi => simp [hi]
    have hget : ∀ doc client, (h.dropped id).1.awareness.get? doc client =
        if doc = p.doc ∧ client = p.client then none else h.awareness.get? doc client := by
      intro doc client
      rw [awareness_dropped hp, Awareness.get?_leave]
    refine ⟨fun i doc client hl => ((hlinks i doc client).1 hl).2, fun doc client hnone => ?_,
      fun i doc client hl hn => ?_, fun doc client hall => ?_⟩
    · rw [hget]
      split
      · rfl
      · exact hnone
    · have hi : i = id := by
        by_contra hne
        exact hn ((hlinks i doc client).2 ⟨hne, hl⟩)
      obtain ⟨q, hq, rfl, rfl⟩ := hl
      rw [hi, hp] at hq
      cases hq
      rw [hget, if_pos ⟨rfl, rfl⟩]
    · rw [hget, if_neg]
      rintro ⟨rfl, rfl⟩
      exact ((hlinks id _ _).1 (hall id ⟨p, hp, rfl, rfl⟩)).1 rfl

theorem leaves_enqueue (h : Hub) (id : Nat) (m : SyncMessage) : Leaves h (h.enqueue id m).2 := by
  obtain ⟨mailboxes, he⟩ := enqueue_mailboxes h id m
  rw [he]
  exact .of_same (fun _ _ _ => Iff.rfl) rfl

/-- Sending ends connections, and does nothing else to presence. -/
theorem Delivers.leaves (d : Delivers h agenda full h') : Leaves h h' := by
  induction d with
  | done h => exact .refl h
  | @queued h h₁ h' id m rest full he _ ih =>
    have hone := leaves_enqueue h id m
    rw [he] at hone
    exact hone.trans ih
  | @overflowed h h₁ h₂ h' id m rest full full' he _ _ ihdrop ihrest =>
    obtain ⟨rfl, -⟩ := enqueue_eq_true he
    exact ((leaves_dropped h₁ id).trans ihdrop).trans ihrest

theorem links_bind (h : Hub) (id : Nat) (r : String) (i : Nat) (doc client : String) :
    (h.bind id r).Links i doc client ↔ h.Links i doc client := by
  unfold Links
  rw [peer?_bind]
  cases h.peer? i with
  | none => simp
  | some a => by_cases ha : a.id = id <;> simp [ha]

theorem links_plan (h : Hub) (id : Nat) (m : SyncMessage) (i : Nat) (doc client : String) :
    (h.plan id m).hub.Links i doc client ↔ h.Links i doc client := by
  rcases plan_hub h id m with he | ⟨p, -, ⟨u, he | he⟩ | ⟨state, he⟩⟩ <;> rw [he]
  · exact links_bind h p.id _ i doc client
  · exact links_bind h p.id _ i doc client
  · exact Iff.rfl

/-- A peer's own client is what a message changes the presence of, if the message names its document. -/
theorem awareness_plan (h : Hub) (id : Nat) (m : SyncMessage) :
    (∃ p named state, h.peer? id = some p ∧ m = .awareness p.doc named state ∧
      (h.plan id m).hub.awareness = h.awareness.apply p.doc p.client state) ∨
    (∀ p named state, h.peer? id = some p → m ≠ .awareness p.doc named state) ∧
      (h.plan id m).hub.awareness = h.awareness := by
  unfold plan
  cases hp : h.peer? id with
  | none => exact .inr ⟨fun _ _ _ hq => (by cases hq), rfl⟩
  | some p =>
    dsimp only
    split
    · next hother =>
      refine .inr ⟨?_, rfl⟩
      rintro q named state hq rfl
      cases hq
      simp [SyncMessage.doc?] at hother
    · next hown =>
      cases m with
      | awareness d c state =>
        obtain rfl : d = p.doc := by simpa [SyncMessage.doc?] using hown
        exact .inl ⟨p, c, state, rfl, rfl, rfl⟩
      | update d seq u =>
        refine .inr ⟨fun _ _ _ _ => SyncMessage.noConfusion, ?_⟩
        dsimp only
        rcases updatePlan_cases h p seq u with ⟨r, g, rfl | rfl, he⟩ | he <;> rw [he] <;> rfl
      | _ => exact .inr ⟨fun _ _ _ _ => SyncMessage.noConfusion, rfl⟩

/-! ### One operation -/

/-- An event publishes a state for a client on a document, through one of its connections to it. -/
def Publishes (h : Hub) (e : Event) (id : Nat) (doc client : String) (state : Option Value) : Prop :=
  ∃ named, e = .handle id (.awareness doc named state) ∧ h.Links id doc client

/-- A connection of a client to a document is gone. -/
def Ends (h h' : Hub) (doc client : String) : Prop :=
  ∃ i, h.Links i doc client ∧ ¬ h'.Links i doc client

/-- What an operation makes of the presence of a client on a document. -/
structure Moves (h : Hub) (e : Event) (h' : Hub) (doc client : String) : Prop where
  ended : Ends h h' doc client → h'.awareness.get? doc client = none
  published : ¬ Ends h h' doc client → ∀ id state, h.Publishes e id doc client state →
    h'.awareness.get? doc client = state
  kept : ¬ Ends h h' doc client → (∀ id state, ¬ h.Publishes e id doc client state) →
    h'.awareness.get? doc client = h.awareness.get? doc client

variable {e : Event}

/-- An operation that ends no connection and is no message. -/
theorem Moves.of_same (hlinks : ∀ i, h.Links i doc client → h'.Links i doc client)
    (hawareness : h'.awareness = h.awareness) (he : ∀ id m, e ≠ .handle id m) : Moves h e h' doc client where
  ended := fun ⟨i, hl, hn⟩ => absurd (hlinks i hl) hn
  published := fun _ id _ ⟨_, hm, _⟩ => absurd hm (he id _)
  kept _ _ := by rw [hawareness]

theorem Leaves.ended_of_ends (a : Leaves h h') (hends : Ends h h' doc client) :
    h'.awareness.get? doc client = none := by
  obtain ⟨i, hl, hn⟩ := hends
  exact a.ended i doc client hl hn

theorem Leaves.kept_of_not_ends (a : Leaves h h') (hends : ¬ Ends h h' doc client) :
    h'.awareness.get? doc client = h.awareness.get? doc client := by
  refine a.kept doc client fun i hl => ?_
  by_contra hn
  exact hends ⟨i, hl, hn⟩

/-- A message publishes first, and what it makes the relay send may end connections then. -/
theorem moves_handle (a : Leaves (h.plan id m).hub h') : Moves h (.handle id m) h' doc client := by
  have hends : Ends (h.plan id m).hub h' doc client ↔ Ends h h' doc client := by
    unfold Ends
    simp only [links_plan]
  refine ⟨fun hend => a.ended_of_ends (hends.2 hend), fun hstay => ?_, fun hstay hsilent => ?_⟩
  · rintro id' state ⟨named, he, p, hp, rfl, rfl⟩
    cases he
    rw [a.kept_of_not_ends (mt hends.1 hstay)]
    rcases awareness_plan h id (.awareness p.doc named state) with ⟨q, _, _, hq, hm, hw⟩ | ⟨hno, -⟩
    · cases hp.symm.trans hq
      cases hm
      rw [hw, Awareness.get?_apply, if_pos ⟨rfl, rfl⟩]
    · exact absurd rfl (hno p named state hp)
  · rw [a.kept_of_not_ends (mt hends.1 hstay)]
    rcases awareness_plan h id m with ⟨q, named, state, hq, rfl, hw⟩ | ⟨-, hw⟩
    · rw [hw, Awareness.get?_apply, if_neg]
      rintro ⟨rfl, rfl⟩
      exact hsilent id state ⟨named, rfl, q, hq, rfl, rfl⟩
    · rw [hw]

theorem Performs.moves (a : Performs h e full h') (hs : h.Orderly) : Moves h e h' doc client := by
  cases a with
  | connected hc =>
    refine .of_same (fun i hl => ?_) ?_ (by rintro _ _ ⟨⟩)
    · obtain ⟨p, hp, hd⟩ := hl
      refine ⟨p, ?_, hd⟩
      have hold := hs.peerIds p (peer?_eq_some hp).1
      rw [(peer?_eq_some hp).2, ← (connect_eq_ok hc).1] at hold
      rw [peer?_connect hs hc, if_neg (by omega), hp]
    · rw [(connect_eq_ok hc).2]
      rfl
  | notConnected _ => exact .of_same (fun _ hl => hl) rfl (by rintro _ _ ⟨⟩)
  | handled d d' => exact moves_handle (d.leaves.trans d'.leaves)
  | @disconnected _ id _ d =>
    have hleaves := (leaves_dropped h id).trans d.leaves
    exact ⟨hleaves.ended_of_ends, fun _ _ _ ⟨_, he, _⟩ => (by cases he), fun hstay _ => hleaves.kept_of_not_ends hstay⟩
  | read ht =>
    obtain ⟨r, -, rfl⟩ := takeNext_eq_some ht
    exact .of_same (fun _ hl => hl) rfl (by rintro _ _ ⟨⟩)
  | nothingToRead _ => exact .of_same (fun _ hl => hl) rfl (by rintro _ _ ⟨⟩)
  | abandoned => exact .of_same (fun _ hl => hl) rfl (by rintro _ _ ⟨⟩)

end Hub

namespace History

/-- A state that a client published on a document through this connection, with nothing published by the
client there since, and none of its connections to the document ended since. -/
inductive Stands (policy : SecurityPolicy) (doc client : String) (id : Nat) (s : Value) : List Event → Prop
  | published {events : List Event} {e : Event} :
      (after policy events).hub.Publishes e id doc client (some s) →
      ¬ Hub.Ends (after policy events).hub ((after policy events).next e).hub doc client →
      Stands policy doc client id s (events ++ [e])
  | lasts {events : List Event} {e : Event} :
      Stands policy doc client id s events →
      (∀ i state, ¬ (after policy events).hub.Publishes e i doc client state) →
      ¬ Hub.Ends (after policy events).hub ((after policy events).next e).hub doc client →
      Stands policy doc client id s (events ++ [e])

variable {policy : SecurityPolicy} {doc client : String} {id : Nat} {s : Value} {events : List Event} {e : Event}

theorem not_stands_nil : ¬ Stands policy doc client id s [] := by
  generalize hnone : ([] : List Event) = events
  rintro (_ | _) <;> exact absurd hnone.symm (List.concat_ne_nil _ _)

theorem stands_concat_iff : Stands policy doc client id s (events ++ [e]) ↔
    ¬ Hub.Ends (after policy events).hub ((after policy events).next e).hub doc client ∧
      ((after policy events).hub.Publishes e id doc client (some s) ∨
        Stands policy doc client id s events ∧
          ∀ i state, ¬ (after policy events).hub.Publishes e i doc client state) := by
  constructor
  · generalize hsame : events ++ [e] = events'
    rintro (⟨hpub, hstay⟩ | ⟨hlast, hsilent, hstay⟩)
    · obtain ⟨rfl, rfl⟩ := List.append_singleton_inj.1 hsame
      exact ⟨hstay, .inl hpub⟩
    · obtain ⟨rfl, rfl⟩ := List.append_singleton_inj.1 hsame
      exact ⟨hstay, .inr ⟨hlast, hsilent⟩⟩
  · rintro ⟨hstay, hpub | ⟨hlast, hsilent⟩⟩
    · exact .published hpub hstay
    · exact .lasts hlast hsilent hstay

/-- The connection through which a standing state was published is still there. -/
theorem Stands.links (a : Stands policy doc client id s events) : (after policy events).hub.Links id doc client := by
  induction a with
  | published hpub hstay =>
    obtain ⟨named, -, hl⟩ := hpub
    rw [after_concat]
    by_contra hn
    exact hstay ⟨id, hl, hn⟩
  | lasts _ _ hstay ih =>
    rw [after_concat]
    by_contra hn
    exact hstay ⟨id, ih, hn⟩

theorem moves_next (policy : SecurityPolicy) (events : List Event) (e : Event) (doc client : String) :
    Hub.Moves (after policy events).hub e ((after policy events).next e).hub doc client := by
  obtain ⟨full, a⟩ := Hub.performs_next (after policy events) e
  exact a.moves (consistent_after policy events).toOrderly

theorem present_iff_stands (policy : SecurityPolicy) (doc client : String) (s : Value) (events : List Event) :
    (after policy events).hub.awareness.get? doc client = some s ↔
      ∃ id, Stands policy doc client id s events := by
  induction events using List.reverseRecOn with
  | nil => exact ⟨fun hget => (by cases hget), fun ⟨_, a⟩ => absurd a not_stands_nil⟩
  | append_singleton events e ih =>
    have hmoves := moves_next policy events e doc client
    rw [after_concat]
    simp only [stands_concat_iff]
    by_cases hends : Hub.Ends (after policy events).hub ((after policy events).next e).hub doc client
    · rw [hmoves.ended hends]
      exact ⟨fun hget => (by cases hget), fun ⟨_, hstay, _⟩ => absurd hends hstay⟩
    by_cases hsilent : ∀ i state, ¬ (after policy events).hub.Publishes e i doc client state
    · rw [hmoves.kept hends hsilent, ih]
      constructor
      · rintro ⟨id, a⟩
        exact ⟨id, hends, .inr ⟨a, hsilent⟩⟩
      · rintro ⟨id, -, hpub | ⟨a, -⟩⟩
        · exact absurd hpub (hsilent id _)
        · exact ⟨id, a⟩
    · push Not at hsilent
      obtain ⟨i, state, hpub⟩ := hsilent
      rw [hmoves.published hends i state hpub]
      constructor
      · rintro rfl
        exact ⟨i, hends, .inl hpub⟩
      · rintro ⟨id, -, hpub' | ⟨-, hno⟩⟩
        · obtain ⟨_, rfl, -⟩ := hpub
          obtain ⟨_, he, -⟩ := hpub'
          cases he
          rfl
        · exact absurd hpub (hno i state)

/-- When any connection of a client to a document ends, alone or with others whose queues are full, the
client is not present there any more, even where it has further connections. Otherwise a client is present
with exactly what it published last, through a connection that is still there, unless it withdrew or one
of its connections ended since. -/
theorem presence_ends_with_any_connection (policy : SecurityPolicy) (events : List Event) (doc client : String) :
    (∀ e, Hub.Ends (after policy events).hub ((after policy events).next e).hub doc client →
      ((after policy events).next e).hub.awareness.get? doc client = none) ∧
    ∀ s, (after policy events).hub.awareness.get? doc client = some s ↔
      ∃ id, (after policy events).hub.Links id doc client ∧ Stands policy doc client id s events := by
  refine ⟨fun e => (moves_next policy events e doc client).ended, fun s => ?_⟩
  rw [present_iff_stands]
  exact exists_congr fun id => ⟨fun a => ⟨a.links, a⟩, And.right⟩

/-- Ada has a document open twice, and is present through the second connection. -/
def twoTabs : List Event :=
  [.connect "d" "ada", .connect "d" "ada", .handle 2 (.awareness "d" "ada" (some (.bool true)))]

/-- The rules of `twoTabs`. -/
def openPolicy : SecurityPolicy :=
  ⟨⟨none⟩, ⟨["output"]⟩, .empty, 10, 1000⟩

theorem presence_ends_with_any_connection_twoTabs :
    (after openPolicy twoTabs).hub.awareness.get? "d" "ada" = some (.bool true) ∧
      Stands openPolicy "d" "ada" 2 (.bool true) twoTabs ∧
      Hub.Ends (after openPolicy twoTabs).hub ((after openPolicy twoTabs).next (.disconnect 1)).hub "d" "ada" ∧
      ((after openPolicy twoTabs).next (.disconnect 1)).hub.awareness.get? "d" "ada" = none := by
  have hpresence := presence_ends_with_any_connection openPolicy twoTabs "d" "ada"
  have hget : (after openPolicy twoTabs).hub.awareness.get? "d" "ada" = some (.bool true) := rfl
  have hone : (after openPolicy twoTabs).hub.peer? 1 = some ⟨1, "d", "ada", none⟩ := rfl
  have hgone : ((after openPolicy twoTabs).next (.disconnect 1)).hub.peer? 1 = none := rfl
  have hends : Hub.Ends (after openPolicy twoTabs).hub
      ((after openPolicy twoTabs).next (.disconnect 1)).hub "d" "ada" := by
    refine ⟨1, ⟨_, hone, rfl, rfl⟩, ?_⟩
    rintro ⟨p, hp, -⟩
    cases hgone.symm.trans hp
  obtain ⟨id, ⟨p, hp, -⟩, hstands⟩ := (hpresence.2 _).1 hget
  refine ⟨hget, ?_, hends, hpresence.1 _ hends⟩
  have hlast : Stands openPolicy "d" "ada" id (.bool true) ([.connect "d" "ada", .connect "d" "ada"] ++
      [.handle 2 (.awareness "d" "ada" (some (.bool true)))]) := hstands
  obtain ⟨-, ⟨_, he, -⟩ | ⟨-, hno⟩⟩ := stands_concat_iff.1 hlast
  · cases he
    exact hstands
  · exact absurd ⟨"ada", rfl, ⟨2, "d", "ada", none⟩, rfl, rfl, rfl⟩ (hno 2 (some (.bool true)))

/-- Presence does not outlive the end of another connection of the same client. -/
theorem presence_lost_beside_live_connection :
    ¬ ∀ (policy : SecurityPolicy) (events : List Event) (doc client named : String) (other own : Nat) (s : Value),
      let t := after policy (events ++ [.handle own (.awareness doc named (some s))])
      t.hub.Links other doc client → (t.next (.disconnect other)).hub.Links own doc client →
      (t.next (.disconnect other)).hub.awareness.get? doc client = some s := by
  intro hclaim
  have hother : (after openPolicy twoTabs).hub.Links 1 "d" "ada" := ⟨⟨1, "d", "ada", none⟩, rfl, rfl, rfl⟩
  have hown : ((after openPolicy twoTabs).next (.disconnect 1)).hub.Links 2 "d" "ada" :=
    ⟨⟨2, "d", "ada", none⟩, rfl, rfl, rfl⟩
  have hget := hclaim openPolicy [.connect "d" "ada", .connect "d" "ada"] "d" "ada" "ada" 1 2 (.bool true) hother hown
  have hnone : ((after openPolicy twoTabs).next (.disconnect 1)).hub.awareness.get? "d" "ada" = none := rfl
  cases hnone.symm.trans hget

end History

end SecureLayout.Collab
