import SecureLayout.Proofs.Collab.Replica

/-!
What a replica does of its own accord. Main statements: a local write keeps the replica, its link and
everybody else in order, and so do presence, a link given up and a new link.
-/

namespace SecureLayout.Collab

open Json (Value)
open Wire (Clock FieldUpdate SyncMessage)

variable {doc field : String} {value : Value} {writes : List FieldUpdate} {u : FieldUpdate} {h : Hub}
  {d d' : Document} {p p' : Provider} {id : Nat} {out inc : List SyncMessage}

/-- A replica after a write of its own. -/
def Provider.wrote (p : Provider) (u : FieldUpdate) (document : Document) : Provider :=
  { p with document }.queue u

theorem Provider.set_of_tracking (ht : p.isTracking = true)
    (hs : p.document.set field value = .ok (u, d')) :
    (p.set field value).2 = p.wrote u d' := by
  unfold Provider.set
  rw [hs]
  exact if_pos ht

theorem Provider.mem_pending_wrote {x : Nat × FieldUpdate} :
    x ∈ (p.wrote u d').pending ↔ x ∈ p.pending ∨ x = (p.nextSeq, u) := by
  simp [Provider.wrote, Provider.queue]

/-! ### Local writes -/

theorem Faithful.wrote (hf : Faithful doc writes d p)
    (hs : p.document.set field value = .ok (u, d')) :
    Faithful doc (u :: writes) d (p.wrote u d') := by
  obtain ⟨hu, hclock, -, hreplica⟩ := Document.set_eq_ok hs
  have hcounter : u.clock.counter = p.document.clock + 1 := by rw [hu]
  have hown : u.clock.replica = p.document.replica := by rw [hu]
  have hcounters : (p.wrote u d').pending.map (·.2.clock.counter) =
      p.pending.map (·.2.clock.counter) ++ [p.document.clock + 1] := by
    simp [Provider.wrote, Provider.queue, hcounter]
  refine ⟨hf.doc_eq, hf.tracking, rfl, hf.wellFormed.set hs, ?_, fun e he => ?_, fun v hv hr => ?_,
    fun v hv hr => ?_, fun e he => ?_, fun x hx => ?_, ?_, ?_, ?_⟩
  · change d'.replica ≠ "" ∧ d'.replica ≠ relayReplica
    rw [hreplica]
    exact hf.named
  · rcases Document.mem_snapshot_set hf.wellFormed hs he with he | rfl
    · exact List.mem_cons_of_mem _ (hf.known e he)
    · exact List.mem_cons_self ..
  · change v.clock.counter ≤ d'.clock
    rw [hclock]
    rcases List.mem_cons.1 hv with rfl | hv
    · exact le_of_eq hcounter
    · exact Nat.le_succ_of_le (hf.fresh v hv (hr.trans hreplica))
  · rcases List.mem_cons.1 hv with rfl | hv
    · exact Document.covers_set hs
    · exact (hf.kept v hv (hr.trans hreplica)).set hf.wellFormed hs
  · rcases Document.mem_snapshot_set hf.wellFormed hs he with he | rfl
    · refine (hf.reached e he).imp_right fun ⟨q, hq⟩ => ⟨q, Provider.mem_pending_wrote.2 (.inl hq)⟩
    · exact .inr ⟨p.nextSeq, Provider.mem_pending_wrote.2 (.inr rfl)⟩
  · change _ ∧ x.2.clock.replica = d'.replica ∧ x.1 < p.nextSeq + 1
    rw [hreplica]
    rcases Provider.mem_pending_wrote.1 hx with hx | rfl
    · obtain ⟨hw, hr, hq⟩ := hf.pending x hx
      exact ⟨List.mem_cons_of_mem _ hw, hr, Nat.lt_succ_of_lt hq⟩
    · exact ⟨List.mem_cons_self .., hown, Nat.lt_succ_self _⟩
  · refine List.pairwise_append.2 ⟨hf.numbered, List.pairwise_singleton _ _, fun x hx y hy => ?_⟩
    rw [List.mem_singleton.1 hy]
    exact Nat.ne_of_lt (hf.pending x hx).2.2
  · rw [hcounters]
    exact hf.inStep.concat (Nat.succ_le_succ hf.top)
  · rw [hcounters]
    change d'.clock ≤ _
    rw [hclock]
    exact le_topCounter_of_mem (List.mem_append_right _ (List.mem_singleton_self _))

theorem Outbox.wrote (ho : Outbox doc writes h p.document.replica id out)
    (hf : Faithful doc writes (h.replica doc) p) (x : Exchange doc writes h p id out inc)
    (hs : p.document.set field value = .ok (u, d')) :
    Outbox doc (u :: writes) h (p.wrote u d').document.replica id
      (out ++ [p.updateMessage p.nextSeq u]) := by
  obtain ⟨hu, -, -, hreplica⟩ := Document.set_eq_ok hs
  have hcounter : u.clock.counter = p.document.clock + 1 := by rw [hu]
  have hown : u.clock.replica = p.document.replica := by rw [hu]
  have hsame : (p.wrote u d').document.replica = p.document.replica := hreplica
  rw [hsame]
  refine ⟨ho.used, fun m hm => ?_, ho.bound, fun c hc => ?_⟩
  · rcases List.mem_append.1 hm with hm | hm
    · exact (ho.sent m hm).mono (List.subset_cons_self ..)
    · rw [List.mem_singleton.1 hm]
      exact ⟨hf.doc_eq, List.mem_cons_self .., hown⟩
  · -- Whatever is pending was counted by the relay or is on its way before the new write.
    have hsent : p.document.clock ≤ topCounter (h.replica doc).clock (counters out) := by
      refine le_trans hf.top ((topCounter_le_iff _ _ _).2 ⟨le_topCounter _ _, fun c' hc' => ?_⟩)
      obtain ⟨y, hy, rfl⟩ := List.mem_map.1 hc'
      rcases x.waiting c hc y hy with ht | ⟨d'', hd''⟩
      · exact le_trans ht.2 (le_topCounter _ _)
      · refine le_topCounter_of_mem (List.mem_map_of_mem (List.mem_flatMap.2 ⟨_, hd'', ?_⟩))
        exact List.mem_singleton_self y.2
    have hlast : counters (out ++ [p.updateMessage p.nextSeq u]) =
        counters out ++ [u.clock.counter] := by
      simp [counters, Provider.updateMessage, updatesIn]
    rw [hlast]
    exact (ho.inStep c hc).concat (hcounter ▸ Nat.succ_le_succ hsent)

theorem Exchange.wrote (x : Exchange doc writes h p id out inc)
    (hf : Faithful doc writes (h.replica doc) p)
    (hs : p.document.set field value = .ok (u, d')) :
    Exchange doc (u :: writes) h (p.wrote u d') id (out ++ [p.updateMessage p.nextSeq u]) inc := by
  have hnext : (p.wrote u d').nextSeq = p.nextSeq + 1 := rfl
  have hold : ∀ q v, q < p.nextSeq → (q, v) ∈ (p.wrote u d').pending → (q, v) ∈ p.pending := by
    intro q v hq hv
    rcases Provider.mem_pending_wrote.1 hv with hv | hv
    · exact hv
    · cases hv
      exact absurd hq (lt_irrefl _)
  refine ⟨fun c q hq => ?_, fun m hm v hv => ?_, fun c q v hv => ?_, fun c hc y hy => ?_,
    fun c hc => ?_⟩
  · obtain ⟨hlt, ht⟩ := x.acks c q hq
    exact ⟨hnext ▸ Nat.lt_succ_of_lt hlt, fun v hv => ht v (hold q v hlt hv)⟩
  · obtain ⟨hw, ht⟩ := x.updates m hm v hv
    exact ⟨List.mem_cons_of_mem _ hw, ht⟩
  · rw [hnext]
    rcases List.mem_append.1 hv with hv | hv
    · obtain ⟨hlt, hsame⟩ := x.sent c q v hv
      exact ⟨Nat.lt_succ_of_lt hlt, fun w hw => hsame w (hold q w hlt hw)⟩
    · cases List.mem_singleton.1 hv
      refine ⟨Nat.lt_succ_self _, fun w hw => ?_⟩
      rcases Provider.mem_pending_wrote.1 hw with hw | hw
      · exact absurd (hf.pending _ hw).2.2 (lt_irrefl _)
      · cases hw
        rfl
  · rcases Provider.mem_pending_wrote.1 hy with hy | rfl
    · refine (x.waiting c hc y hy).imp_right fun ⟨c', hc'⟩ => ⟨c', List.mem_append_left _ hc'⟩
    · exact .inr ⟨p.doc, List.mem_append_right _ (List.mem_singleton_self _)⟩
  · rcases x.complete c hc with ⟨c', c'', hhello⟩ | hcomplete
    · exact .inl ⟨c', c'', List.mem_append_left _ hhello⟩
    · exact .inr fun e he => (hcomplete e he).imp_left fun hk => hk.set hf.wellFormed hs

/-- A write is told apart from all others, since nobody else writes as its replica. -/
theorem Honest.wrote {policy : SecurityPolicy} (hh : Honest policy writes)
    (hf : Faithful doc writes d p) (hs : p.document.set field value = .ok (u, d'))
    (hfield : policy.isOutputField field = true) : Honest policy (u :: writes) := by
  have hbound : p.document.clock < Clock.greatestCounter := by
    by_contra hle
    obtain ⟨e, he⟩ := (Document.set_fails_iff p.document field value).2 (not_lt.1 hle)
    rw [he] at hs
    cases hs
  obtain ⟨rfl, -⟩ := Document.set_eq_ok hs
  have hnew : ∀ v ∈ writes, v.clock ≠ ⟨p.document.clock + 1, p.document.replica⟩ := by
    intro v hv he
    have := hf.fresh v hv (by rw [he])
    rw [he] at this
    exact Nat.not_succ_le_self _ this
  refine ⟨fun v hv w hw he => ?_, fun v hv => ?_, fun v hv => ?_, fun v hv => ?_⟩
  · rcases List.mem_cons.1 hv with rfl | hv <;> rcases List.mem_cons.1 hw with rfl | hw
    · rfl
    · exact absurd he.symm (hnew w hw)
    · exact absurd he (hnew v hv)
    · exact hh.unique v hv w hw he
  · rcases List.mem_cons.1 hv with rfl | hv
    · exact hfield
    · exact hh.permitted v hv
  · rcases List.mem_cons.1 hv with rfl | hv
    · exact hf.named
    · exact hh.named v hv
  · rcases List.mem_cons.1 hv with rfl | hv
    · exact hbound
    · exact hh.counted v hv

/-! ### Writes of others -/

theorem Faithful.mono (hf : Faithful doc writes d p) (hne : u.clock.replica ≠ p.document.replica) :
    Faithful doc (u :: writes) d p :=
  { hf with
    known := fun e he => List.mem_cons_of_mem _ (hf.known e he)
    fresh := fun v hv hr => by
      rcases List.mem_cons.1 hv with rfl | hv
      · exact absurd hr hne
      · exact hf.fresh v hv hr
    kept := fun v hv hr => by
      rcases List.mem_cons.1 hv with rfl | hv
      · exact absurd hr hne
      · exact hf.kept v hv hr
    pending := fun y hy => (hf.pending y hy).imp_left (List.mem_cons_of_mem _) }

theorem Exchange.mono (x : Exchange doc writes h p id out inc) (u : FieldUpdate) :
    Exchange doc (u :: writes) h p id out inc :=
  { x with updates := fun m hm v hv => (x.updates m hm v hv).imp_left (List.mem_cons_of_mem _) }

/-! ### Presence -/

theorem Outbox.present {r name client : String} {state : Option Value}
    (ho : Outbox doc writes h r id out) (hd : name = doc) :
    Outbox doc writes h r id (out ++ [.awareness name client state]) := by
  refine ⟨ho.used, fun m hm => ?_, ho.bound, fun c hc => ?_⟩
  · rcases List.mem_append.1 hm with hm | hm
    · exact ho.sent m hm
    · rw [List.mem_singleton.1 hm]
      exact hd
  · have hsame : counters (out ++ [.awareness name client state]) = counters out := by
      simp [counters, updatesIn]
    rw [hsame]
    exact ho.inStep c hc

theorem Exchange.present {name client : String} {state : Option Value}
    (x : Exchange doc writes h p id out inc) :
    Exchange doc writes h p id (out ++ [.awareness name client state]) inc := by
  refine ⟨x.acks, x.updates, fun c q v hv => ?_, fun c hc y hy => ?_, fun c hc => ?_⟩
  · rcases List.mem_append.1 hv with hv | hv
    · exact x.sent c q v hv
    · cases List.mem_singleton.1 hv
  · exact (x.waiting c hc y hy).imp_right fun ⟨c', hc'⟩ => ⟨c', List.mem_append_left _ hc'⟩
  · exact (x.complete c hc).imp_left fun ⟨c', c'', hhello⟩ => ⟨c', c'', List.mem_append_left _ hhello⟩

/-- What is on its way does not depend on the link itself. -/
theorem Exchange.merged_nil (x : Exchange doc writes h p id out inc) (hm : Merged [] p p') :
    Exchange doc writes h p' id out inc := by
  refine ⟨fun c q hq => ?_, x.updates, fun c q v hv => ?_, fun c hc y hy => ?_, fun c hc => ?_⟩
  · rw [hm.nextSeq, hm.pending]
    exact x.acks c q hq
  · rw [hm.nextSeq, hm.pending]
    exact x.sent c q v hv
  · exact x.waiting c hc y (hm.pending ▸ hy)
  · exact (x.complete c hc).imp_right fun hcomplete e he =>
      (hcomplete e he).imp_left fun hk => hm.document ▸ hk

/-! ### New links -/

/-- A replica that did nothing but change or lose its link is as faithful as before. -/
theorem Faithful.merged_nil (hf : Faithful doc writes d p) (hm : Merged [] p p') :
    Faithful doc writes d p' :=
  hf.merged hm fun _ hu => absurd hu List.not_mem_nil

theorem merged_linkDown (p : Provider) : Merged [] p p.linkDown :=
  ⟨rfl, rfl, rfl, rfl, rfl, rfl⟩

/-- What a replica sends first over a new link. -/
def greeting (p : Provider) : List SyncMessage :=
  .hello p.doc p.client :: p.pending.map fun e => p.updateMessage e.1 e.2

theorem foldl_trySend (p : Provider) (es : List (Nat × FieldUpdate)) (out : List SyncMessage) :
    es.foldl (fun l e => l.trySend (p.updateMessage e.1 e.2)) ({ outgoing := out } : Link) =
      { outgoing := out ++ es.map fun e => p.updateMessage e.1 e.2 } := by
  induction es generalizing out with
  | nil => simp
  | cons e es ih =>
    have hone : ({ outgoing := out } : Link).trySend (p.updateMessage e.1 e.2) =
        { outgoing := out ++ [p.updateMessage e.1 e.2] } := rfl
    rw [List.foldl_cons, hone, ih]
    simp

theorem attach_new (p : Provider) :
    (p.attach {}).1 = .ok () ∧ (p.attach {}).2.link = some { outgoing := greeting p } ∧
      Merged [] p (p.attach {}).2 := by
  have hfold := foldl_trySend p.detach p.pending [.hello p.doc p.client]
  refine ⟨rfl, ?_, ⟨rfl, rfl, rfl, rfl, rfl, rfl⟩⟩
  change some (p.pending.foldl _ ({ outgoing := [.hello p.doc p.client] } : Link)) = _
  rw [hfold]
  rfl

theorem counters_greeting (p : Provider) :
    counters (greeting p) = p.pending.map (·.2.clock.counter) := by
  have hpending : ∀ es : List (Nat × FieldUpdate),
      counters (es.map fun e => p.updateMessage e.1 e.2) = es.map (·.2.clock.counter) := by
    intro es
    induction es with
    | nil => rfl
    | cons e es ih =>
      rw [List.map_cons, counters_cons, ih]
      rfl
  unfold greeting
  rw [counters_cons, hpending]
  rfl

theorem update_mem_greeting {c : String} {q : Nat} :
    .update c q u ∈ greeting p ↔ c = p.doc ∧ (q, u) ∈ p.pending := by
  simp only [greeting, Provider.updateMessage, List.mem_cons, reduceCtorEq, List.mem_map, false_or,
    SyncMessage.update.injEq]
  constructor
  · rintro ⟨e, he, rfl, rfl, rfl⟩
    exact ⟨rfl, he⟩
  · rintro ⟨rfl, he⟩
    exact ⟨_, he, rfl, rfl, rfl⟩

section Greeting

variable {h' : Hub} {client : String} (hsound : h.Sound) (hc : h.connect doc client = .ok (id, h'))
  (hf : Faithful doc writes (h.replica doc) p)

include hsound hc hf

theorem Faithful.outbox_greeting :
    Outbox doc writes h' p.document.replica id (greeting p) := by
  have hnext : h'.nextPeer = id + 1 := by
    obtain ⟨-, rfl⟩ := Hub.connect_eq_ok hc
    rfl
  have hpeer := Hub.peer?_connect hsound.toOrderly hc id
  rw [if_pos rfl] at hpeer
  refine ⟨hnext ▸ Nat.lt_succ_self id, fun m hm => ?_, fun c hc' => ?_, fun c _ => ?_⟩
  · rcases List.mem_cons.1 hm with rfl | hm
    · exact hf.doc_eq
    · obtain ⟨e, he, rfl⟩ := List.mem_map.1 hm
      obtain ⟨hw, hr, -⟩ := hf.pending e he
      exact ⟨hf.doc_eq, hw, hr⟩
  · rw [hpeer] at hc'
    cases hc'
    exact ⟨rfl, fun r hr => nomatch hr⟩
  · rw [counters_greeting]
    exact hf.inStep.mono (Hub.beside_connect hsound.toOrderly hc doc).clock_le

theorem Faithful.exchange_greeting (hm : Merged [] p p') :
    Exchange doc writes h' p' id (greeting p) [] := by
  have hmail : ∀ m, m ∈ [] ++ h'.mail id → False := fun m hmem => by
    rw [Hub.mail_connect hsound.toOrderly hc, if_pos rfl] at hmem
    exact List.not_mem_nil hmem
  refine ⟨fun c q hq => (hmail _ hq).elim, fun m hmem => (hmail m hmem).elim, fun c q v hv => ?_,
    fun c _ y hy => .inr ⟨p.doc, update_mem_greeting.2 ⟨rfl, hm.pending ▸ hy⟩⟩,
    fun c _ => .inl ⟨p.doc, p.client, List.mem_cons_self ..⟩⟩
  obtain ⟨-, hv⟩ := update_mem_greeting.1 hv
  rw [hm.nextSeq, hm.pending]
  exact ⟨(hf.pending _ hv).2.2, fun w hw => hf.pending_unique hw hv⟩

end Greeting

end SecureLayout.Collab
