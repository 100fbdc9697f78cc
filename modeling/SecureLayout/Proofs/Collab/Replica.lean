import SecureLayout.Proofs.Collab.Links

/-!
A replica, its link and the relay. Main statements: what keeps a replica from losing a write, or a write
of another from being lost to it, survives its own writes, what it receives, what it sends, and whatever
others make the relay do.
-/

namespace SecureLayout.Collab

open Json (Value)
open Wire (Clock FieldUpdate SyncMessage)

/-- A replica knows all of its own writes, and what it holds reached the relay or is still pending. -/
structure Faithful (doc : String) (writes : List FieldUpdate) (d : Document) (p : Provider) :
    Prop where
  doc_eq : p.doc = doc
  tracking : p.isTracking = true
  counted : p.IsCounted
  wellFormed : p.document.WellFormed
  named : p.document.replica ≠ "" ∧ p.document.replica ≠ relayReplica
  known : ∀ e ∈ p.document.snapshot, e ∈ writes
  fresh : ∀ u ∈ writes, u.clock.replica = p.document.replica → u.clock.counter ≤ p.document.clock
  kept : ∀ u ∈ writes, u.clock.replica = p.document.replica → p.document.Covers u
  reached : ∀ e ∈ p.document.snapshot, d.Took e ∨ ∃ q, (q, e) ∈ p.pending
  pending : ∀ x ∈ p.pending,
    x.2 ∈ writes ∧ x.2.clock.replica = p.document.replica ∧ x.1 < p.nextSeq
  numbered : p.pending.Pairwise fun x y => x.1 ≠ y.1
  inStep : InStep d.clock (p.pending.map (·.2.clock.counter))
  top : p.document.clock ≤ topCounter d.clock (p.pending.map (·.2.clock.counter))

/-- What is on its way between a replica and its peer: acknowledgements are for writes that were taken,
what is pending is taken or sent, and what the relay holds is known, on its way or yet to be asked for. -/
structure Exchange (doc : String) (writes : List FieldUpdate) (h : Hub) (p : Provider) (id : Nat)
    (out inc : List SyncMessage) : Prop where
  acks : ∀ d q, .ack d q ∈ inc ++ h.mail id →
    q < p.nextSeq ∧ ∀ u, (q, u) ∈ p.pending → (h.replica doc).Took u
  updates : ∀ m ∈ inc ++ h.mail id, ∀ u ∈ updatesIn m, u ∈ writes ∧ (h.replica doc).Took u
  sent : ∀ d q u, .update d q u ∈ out → q < p.nextSeq ∧ ∀ v, (q, v) ∈ p.pending → v = u
  waiting : ∀ c, h.peer? id = some c → ∀ x ∈ p.pending,
    (h.replica doc).Took x.2 ∨ ∃ d, .update d x.1 x.2 ∈ out
  complete : ∀ c, h.peer? id = some c → (∃ d c, .hello d c ∈ out) ∨
    ∀ e ∈ (h.replica doc).snapshot, p.document.Covers e ∨
      ∃ m ∈ inc ++ h.mail id, ∃ u ∈ updatesIn m, u.field = e.field ∧ e.clock ≤ u.clock

variable {doc : String} {writes : List FieldUpdate} {h h' : Hub} {d : Document} {p : Provider}
  {id : Nat} {m : SyncMessage} {out inc : List SyncMessage}

theorem topCounter_mono {a b : Nat} (hab : a ≤ b) (cs : List Nat) :
    topCounter a cs ≤ topCounter b cs :=
  (topCounter_le_iff a cs _).2
    ⟨le_trans hab (le_topCounter b cs), fun _ hc => le_topCounter_of_mem hc⟩

/-- The pending write of a number is one write. -/
theorem Faithful.pending_unique (hf : Faithful doc writes d p) {q : Nat} {u v : FieldUpdate}
    (hu : (q, u) ∈ p.pending) (hv : (q, v) ∈ p.pending) : u = v := by
  by_contra hne
  have : Std.Symm fun x y : Nat × FieldUpdate => x.1 ≠ y.1 := ⟨fun _ _ h => h.symm⟩
  exact hf.numbered.forall hu hv (fun e => hne (Prod.ext_iff.1 e).2) rfl

/-! ### What others make the relay do -/

theorem Faithful.mergeAll (hf : Faithful doc writes d p) (us : List FieldUpdate) :
    Faithful doc writes (d.mergeAll us) p :=
  { hf with
    reached := fun e he => (hf.reached e he).imp_left fun ht => ht.mergeAll us
    inStep := hf.inStep.mono (Document.clock_le_mergeAll d us)
    top := le_trans hf.top (topCounter_mono (Document.clock_le_mergeAll d us) _) }

theorem Faithful.beside (hf : Faithful doc writes (h.replica doc) p) {us : List FieldUpdate}
    {watch : Nat → Prop} (b : Hub.Beside doc us watch h h') :
    Faithful doc writes (h'.replica doc) p :=
  b.replica ▸ hf.mergeAll us

theorem mem_snapshot_beside (hw : (h.replica doc).WellFormed) {us : List FieldUpdate}
    {watch : Nat → Prop} (b : Hub.Beside doc us watch h h') (hus : us.length ≤ 1) {e : FieldUpdate}
    (he : e ∈ (h'.replica doc).snapshot) :
    e ∈ (h.replica doc).snapshot ∨ e ∈ us ∧ (h.replica doc).isNews e = true := by
  rw [b.replica] at he
  match us, hus with
  | [], _ => exact .inl he
  | [u], _ =>
    refine (Document.mem_snapshot_merge hw he).imp_right fun ⟨heu, hn⟩ => ?_
    exact ⟨heu ▸ List.mem_singleton_self u, heu ▸ hn⟩

theorem Exchange.beside (x : Exchange doc writes h p id out inc) {r : String}
    (ho : Outbox doc writes h r id out) (hw : (h.replica doc).WellFormed) {us : List FieldUpdate}
    {watch : Nat → Prop} (b : Hub.Beside doc us watch h h') (hid : watch id) (hus : us.length ≤ 1)
    (hsub : ∀ u ∈ us, u ∈ writes) : Exchange doc writes h' p id out inc := by
  obtain ⟨ms, hm, ha⟩ := b.mail id hid
  have hflight : ∀ x, x ∈ inc ++ h'.mail id ↔ x ∈ inc ++ h.mail id ∨ x ∈ ms := by
    intro x
    rw [hm, ← List.append_assoc, List.mem_append]
  refine ⟨fun c q hq => ?_, fun m hmem u hu => ?_, x.sent, fun c hc y hy => ?_, fun c hc => ?_⟩
  · rcases (hflight _).1 hq with hq | hq
    · obtain ⟨hlt, ht⟩ := x.acks c q hq
      exact ⟨hlt, fun u hu => b.took (ht u hu)⟩
    · rcases ha _ hq with hp | ⟨_, _, _, _, he⟩
      · exact hp.elim
      · cases he
  · rcases (hflight _).1 hmem with hmem | hmem
    · obtain ⟨hu', ht⟩ := x.updates m hmem u hu
      exact ⟨hu', b.took ht⟩
    · rcases ha m hmem with hp | ⟨_, _, v, hv, rfl⟩
      · cases m <;> first | exact hp.elim | exact absurd hu List.not_mem_nil
      · rw [List.mem_singleton.1 hu]
        exact ⟨hsub v hv, b.replica ▸ Document.took_mergeAll hv⟩
  · exact (x.waiting c (b.peer id hid c hc) y hy).imp_left b.took
  · refine (x.complete c (b.peer id hid c hc)).imp_right fun hcomplete e he => ?_
    rcases mem_snapshot_beside hw b hus he with he | ⟨he, hn⟩
    · refine (hcomplete e he).imp_right fun ⟨m, hmem, hrest⟩ => ?_
      exact ⟨m, (hflight m).2 (.inl hmem), hrest⟩
    · have hdoc := (ho.bound c (b.peer id hid c hc)).1
      obtain ⟨d', q, hnews⟩ := b.news id hid c hc hdoc e he hn
      exact .inr ⟨_, List.mem_append_right _ hnews, e, List.mem_singleton_self e, rfl, le_refl _⟩

/-! ### What the replica sends -/

theorem Exchange.tail (x : Exchange doc writes h p id (m :: out) inc)
    (hf : Faithful doc writes (h.replica doc) p) (hw : (h.replica doc).WellFormed)
    (ho : Outbox doc writes h p.document.replica id (m :: out)) (hheld : ∀ e ∈ (h.replica doc).snapshot, e ∈ writes)
    (a : Answered doc m id h h') : Exchange doc writes h' p id out inc := by
  have b := a.beside
  have hm := ho.sent m (List.mem_cons_self ..)
  obtain ⟨ms, hmail, ha⟩ := a.mail
  have hflight : ∀ x, x ∈ inc ++ h'.mail id ↔ x ∈ inc ++ h.mail id ∨ x ∈ ms := by
    intro x
    rw [hmail, ← List.append_assoc, List.mem_append]
  have hpeer : ∀ c, h'.peer? id = some c → ∃ c', h.peer? id = some c' := fun c hc => by
    obtain ⟨c', hc', -⟩ := a.peer c hc
    exact ⟨c', hc'⟩
  have hus : (updatesIn m).length ≤ 1 := by
    cases m <;> first | exact Nat.le_refl 1 | exact Nat.zero_le 1 | exact hm.elim
  refine ⟨fun c q hq => ?_, fun y hmem u hu => ?_,
    fun c q u hu => x.sent c q u (List.mem_cons_of_mem _ hu), fun c hc y hy => ?_, fun c hc => ?_⟩
  · rcases (hflight _).1 hq with hq | hq
    · obtain ⟨hlt, ht⟩ := x.acks c q hq
      exact ⟨hlt, fun u hu => b.took (ht u hu)⟩
    · rcases ha _ hq with hp | ⟨d', q', u, rfl, he⟩ | he
      · exact hp.elim
      · cases he
        obtain ⟨hlt, hsame⟩ := x.sent d' q u (List.mem_cons_self ..)
        refine ⟨hlt, fun v hv => ?_⟩
        rw [hsame v hv, b.replica]
        exact Document.took_mergeAll (List.mem_singleton_self u)
      · cases he
  · rcases (hflight _).1 hmem with hmem | hmem
    · obtain ⟨hu', ht⟩ := x.updates y hmem u hu
      exact ⟨hu', b.took ht⟩
    · rcases ha y hmem with hp | ⟨_, _, _, _, rfl⟩ | rfl
      · cases y <;> first | exact hp.elim | exact absurd hu List.not_mem_nil
      · exact absurd hu List.not_mem_nil
      · have hu : u ∈ (h.replica doc).snapshot := hu
        refine ⟨hheld u hu, b.took ⟨Document.Covers.of_entry hw hu, ?_⟩⟩
        obtain ⟨e, he, rfl⟩ := List.mem_map.1 hu
        exact hw.bounded e he
  · obtain ⟨c', hc'⟩ := hpeer c hc
    rcases x.waiting c' hc' y hy with ht | ⟨d', hd'⟩
    · exact .inl (b.took ht)
    · rcases List.mem_cons.1 hd' with rfl | hd'
      · exact .inl (b.replica ▸ Document.took_mergeAll (List.mem_singleton_self y.2))
      · exact .inr ⟨d', hd'⟩
  · obtain ⟨c', hc'⟩ := hpeer c hc
    -- The replica has its own write already; the relay sends it to the others only.
    have hcover : ∀ e ∈ (h'.replica doc).snapshot,
        e ∈ (h.replica doc).snapshot ∨ p.document.Covers e := by
      intro e he
      refine (mem_snapshot_beside hw b hus he).imp_right fun ⟨hem, _⟩ => ?_
      cases m with
      | update d' q u =>
        cases List.mem_singleton.1 hem
        exact hf.kept e hm.2.1 hm.2.2
      | hello d' c => exact absurd hem List.not_mem_nil
      | awareness d' c s => exact absurd hem List.not_mem_nil
      | _ => exact hm.elim
    rcases x.complete c' hc' with ⟨d', c'', hhello⟩ | hcomplete
    · rcases List.mem_cons.1 hhello with rfl | hhello
      · refine .inr fun e he => (hcover e he).symm.imp_right fun he => ?_
        exact ⟨_, List.mem_append_right _ (a.welcomed d' c'' rfl c hc), e, he, rfl, le_refl _⟩
      · exact .inl ⟨d', c'', hhello⟩
    · refine .inr fun e he => ?_
      rcases hcover e he with he | hk
      · refine (hcomplete e he).imp_right fun ⟨y, hmem, hrest⟩ => ?_
        exact ⟨y, (hflight y).2 (.inl hmem), hrest⟩
      · exact .inl hk

theorem Exchange.tail_of_gone (x : Exchange doc writes h p id (m :: out) inc)
    (hp : h.peer? id = none) : Exchange doc writes h p id out inc :=
  { x with
    sent := fun d q u hu => x.sent d q u (List.mem_cons_of_mem _ hu)
    waiting := fun c hc => by rw [hp] at hc; cases hc
    complete := fun c hc => by rw [hp] at hc; cases hc }

/-! ### What the replica receives -/

/-- A replica that merged writes and is otherwise the same, but for its link. -/
structure Merged (us : List FieldUpdate) (p p' : Provider) : Prop where
  doc : p'.doc = p.doc
  tracking : p'.isTracking = p.isTracking
  pending : p'.pending = p.pending
  nextSeq : p'.nextSeq = p.nextSeq
  counted : p'.status.pendingChanges = p.status.pendingChanges
  document : p'.document = p.document.mergeAll us

theorem merged_receive (p : Provider) (hm : ∀ d q, m ≠ .ack d q) :
    Merged (updatesIn m) p (p.receive m) := by
  cases m with
  | ack d q => exact absurd rfl (hm d q)
  | awareness d c s => cases s <;> exact ⟨rfl, rfl, rfl, rfl, rfl, rfl⟩
  | _ => exact ⟨rfl, rfl, rfl, rfl, rfl, rfl⟩

theorem link_receive (p : Provider) (m : SyncMessage) : (p.receive m).link = p.link := by
  cases m with
  | awareness d c s => cases s <;> rfl
  | _ => rfl

theorem replica_receive (p : Provider) (m : SyncMessage) :
    (p.receive m).document.replica = p.document.replica := by
  cases m with
  | awareness d c s => cases s <;> rfl
  | syncState d us => exact Document.replica_mergeAll p.document us
  | update d q u => exact Document.replica_merge p.document u
  | _ => rfl

theorem Faithful.merged {p' : Provider} (hf : Faithful doc writes d p) {us : List FieldUpdate}
    (hm : Merged us p p') (hus : ∀ u ∈ us, u ∈ writes ∧ d.Took u) : Faithful doc writes d p' := by
  have hr : p'.document.replica = p.document.replica := by
    rw [hm.document, Document.replica_mergeAll]
  have hsnap : ∀ e ∈ p'.document.snapshot, e ∈ p.document.snapshot ∨ e ∈ us := fun e he =>
    Document.mem_snapshot_mergeAll hf.wellFormed (hm.document ▸ he)
  have hclock : p.document.clock ≤ p'.document.clock := by
    rw [hm.document]
    exact Document.clock_le_mergeAll _ us
  refine ⟨hm.doc.trans hf.doc_eq, hm.tracking.trans hf.tracking, ?_, ?_, hr ▸ hf.named,
    fun e he => ?_, fun u hu hur => ?_, fun u hu hur => ?_, fun e he => ?_, fun x hx => ?_, ?_, ?_, ?_⟩
  · rw [Provider.IsCounted, hm.counted, hm.pending]
    exact hf.counted
  · rw [hm.document]
    exact hf.wellFormed.mergeAll us
  · exact (hsnap e he).elim (hf.known e) fun hu => (hus e hu).1
  · exact le_trans (hf.fresh u hu (hur.trans hr)) hclock
  · rw [hm.document]
    exact (hf.kept u hu (hur.trans hr)).mergeAll us
  · rcases hsnap e he with he | he
    · exact hm.pending ▸ hf.reached e he
    · exact .inl (hus e he).2
  · rw [hm.pending] at hx
    rw [hr, hm.nextSeq]
    exact hf.pending x hx
  · exact hm.pending ▸ hf.numbered
  · exact hm.pending ▸ hf.inStep
  · rw [hm.pending, hm.document, Document.clock_mergeAll_le_iff]
    exact ⟨hf.top, fun u hu => le_trans (hus u hu).2.2 (le_topCounter _ _)⟩

theorem Exchange.merged {p' : Provider} (x : Exchange doc writes h p id out (m :: inc))
    (hm : Merged (updatesIn m) p p') : Exchange doc writes h p' id out inc := by
  have hmem : ∀ y, y ∈ inc ++ h.mail id → y ∈ m :: inc ++ h.mail id :=
    fun y hy => List.mem_cons_of_mem _ hy
  refine ⟨fun c q hq => ?_, fun y hy u hu => x.updates y (hmem y hy) u hu, fun c q u hu => ?_,
    fun c hc y hy => ?_, fun c hc => ?_⟩
  · rw [hm.nextSeq, hm.pending]
    exact x.acks c q (hmem _ hq)
  · rw [hm.nextSeq, hm.pending]
    exact x.sent c q u hu
  · exact x.waiting c hc y (hm.pending ▸ hy)
  · refine (x.complete c hc).imp_right fun hcomplete e he => ?_
    rcases hcomplete e he with hk | ⟨y, hy, u, hu, hfield, hle⟩
    · exact .inl (hm.document ▸ hk.mergeAll _)
    · rcases List.mem_cons.1 hy with rfl | hy
      · refine .inl (hm.document ▸ ?_)
        exact (Document.took_mergeAll hu).1.of_le hfield hle
      · exact .inr ⟨y, hy, u, hu, hfield, hle⟩

theorem Faithful.acknowledge (hf : Faithful doc writes d p) {q : Nat}
    (ht : ∀ u, (q, u) ∈ p.pending → d.Took u) : Faithful doc writes d (p.acknowledge q) := by
  have hpending : ∀ x, x ∈ (p.acknowledge q).pending ↔ x ∈ p.pending ∧ x.1 ≠ q := by
    intro x
    simp [Provider.acknowledge]
  have hgone : ∀ x ∈ p.pending, (x.1 != q) = false → x.2.clock.counter ≤ d.clock := by
    intro x hx hq
    have hq : x.1 = q := by simpa using hq
    exact (ht x.2 (hq ▸ hx)).2
  refine ⟨hf.doc_eq, hf.tracking, rfl, hf.wellFormed, hf.named, hf.known, hf.fresh, hf.kept,
    fun e he => ?_, fun x hx => hf.pending x ((hpending x).1 hx).1,
    hf.numbered.sublist List.filter_sublist, hf.inStep.filter _ hgone, ?_⟩
  · rcases hf.reached e he with ht' | ⟨q', hq'⟩
    · exact .inl ht'
    · by_cases hq : q' = q
      · exact .inl (ht e (hq ▸ hq'))
      · exact .inr ⟨q', (hpending _).2 ⟨hq', hq⟩⟩
  · refine le_trans hf.top ((topCounter_le_iff _ _ _).2 ⟨le_topCounter _ _, fun c hc => ?_⟩)
    obtain ⟨x, hx, rfl⟩ := List.mem_map.1 hc
    by_cases hq : x.1 = q
    · exact le_trans (ht x.2 (hq ▸ hx)).2 (le_topCounter _ _)
    · exact le_topCounter_of_mem (List.mem_map_of_mem ((hpending x).2 ⟨hx, hq⟩))

theorem Exchange.acknowledge {c : String} {q : Nat}
    (x : Exchange doc writes h p id out (.ack c q :: inc)) :
    Exchange doc writes h (p.acknowledge q) id out inc := by
  have hmem : ∀ y, y ∈ inc ++ h.mail id → y ∈ .ack c q :: inc ++ h.mail id :=
    fun y hy => List.mem_cons_of_mem _ hy
  have hpending : ∀ x ∈ (p.acknowledge q).pending, x ∈ p.pending :=
    fun x hx => List.mem_of_mem_filter hx
  refine ⟨fun d' q' hq' => ?_, fun y hy u hu => x.updates y (hmem y hy) u hu, fun d' q' u hu => ?_,
    fun c' hc' y hy => x.waiting c' hc' y (hpending y hy), fun c' hc' => ?_⟩
  · obtain ⟨hlt, ht⟩ := x.acks d' q' (hmem _ hq')
    exact ⟨hlt, fun u hu => ht u (hpending _ hu)⟩
  · obtain ⟨hlt, ht⟩ := x.sent d' q' u hu
    exact ⟨hlt, fun v hv => ht v (hpending _ hv)⟩
  · refine (x.complete c' hc').imp_right fun hcomplete e he => ?_
    rcases hcomplete e he with hk | ⟨y, hy, u, hu, hrest⟩
    · exact .inl hk
    · rcases List.mem_cons.1 hy with rfl | hy
      · exact absurd hu List.not_mem_nil
      · exact .inr ⟨y, hy, u, hu, hrest⟩

/-- Receiving keeps a replica and its link in order. -/
theorem Exchange.receive (x : Exchange doc writes h p id out (m :: inc))
    (hf : Faithful doc writes (h.replica doc) p) :
    Faithful doc writes (h.replica doc) (p.receive m) ∧
      Exchange doc writes h (p.receive m) id out inc := by
  by_cases hm : ∃ d q, m = .ack d q
  · obtain ⟨c, q, rfl⟩ := hm
    exact ⟨hf.acknowledge (x.acks c q (List.mem_cons_self ..)).2, x.acknowledge⟩
  · have hmerged : Merged (updatesIn m) p (p.receive m) :=
      merged_receive p fun d q he => hm ⟨d, q, he⟩
    exact ⟨hf.merged hmerged fun u hu => x.updates m (List.mem_cons_self ..) u hu,
      x.merged hmerged⟩

end SecureLayout.Collab
