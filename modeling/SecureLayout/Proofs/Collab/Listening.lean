import SecureLayout.Proofs.Collab.Links
import SecureLayout.Proofs.Collab.Merge

/-!
Exactly what the relay puts into the queue of a peer that is read. Main statements: a document that is told of another
one's news is never ahead of it, and once it was told everything the two have the same entries and the same clock; with
every message that the relay handles, a peer that does not write itself is told what becomes of its document, and all
of it when it announces itself.
-/

/-! ### Documents that follow another -/

namespace SecureLayout.Collab.Document

open Wire (Clock FieldUpdate)

/-- Entries are well formed and one of them accounts for the clock. -/
structure Grounded (d : Document) : Prop where
  wellFormed : d.WellFormed
  tight : ∀ n, (∀ field w, d.winner? field = some w → w.clock.counter ≤ n) → d.clock ≤ n

/-- What stands here under a field stands there too, or a later write does. -/
def Behind (e d : Document) : Prop :=
  ∀ field w, e.winner? field = some w → ∃ v, d.winner? field = some v ∧ (w = v ∨ w.clock < v.clock)

/-- How a document changes together with what those who listen to it are told. -/
inductive Tells : Document → Document → List FieldUpdate → Prop
  | nothing (d : Document) : Tells d d []
  | stale {d : Document} {u : FieldUpdate} : d.isNews u = false → Tells d (d.merge u).2 []
  | news {d : Document} {u : FieldUpdate} : d.isNews u = true → Tells d (d.merge u).2 [u]
  | everything (d : Document) : Tells d d d.snapshot

/-- A document that was told all news, and from some time on everything. -/
structure Keeps (toldAll : Prop) (e d : Document) : Prop where
  behind : Behind e d
  winners : toldAll → ∀ field, e.winner? field = d.winner? field

variable {d d' e : Document} {u : FieldUpdate} {us : List FieldUpdate}

/-! ### Documents made of merges -/

theorem Grounded.fresh (replica : String) : Grounded { replica } where
  wellFormed := (Reachable.new replica).wellFormed
  tight n _ := Nat.zero_le n

theorem winner?_merge_of_stale (h : d.isNews u = false) (field : String) :
    (d.merge u).2.winner? field = d.winner? field := by
  rw [winner?_merge]
  simp [h]

theorem winner?_merge_of_news (h : d.isNews u = true) (field : String) :
    (d.merge u).2.winner? field = if field = u.field then some u else d.winner? field := by
  rw [winner?_merge]
  simp [h]

/-- A write that lost was not later than the one that it lost to. -/
theorem exists_winner_of_stale (h : d.isNews u = false) :
    ∃ w, d.winner? u.field = some w ∧ u.clock ≤ w.clock := by
  unfold isNews at h
  split at h
  · next w hw => exact ⟨w, hw, (Clock.before_eq_false_iff _ _).1 h⟩
  · cases h

theorem Grounded.merge (h : d.Grounded) (u : FieldUpdate) : (d.merge u).2.Grounded := by
  refine ⟨h.wellFormed.merge u, fun n hn => ?_⟩
  rw [clock_merge]
  cases hnews : d.isNews u with
  | false =>
    obtain ⟨w, hw, hle⟩ := exists_winner_of_stale hnews
    have hold : ∀ field v, d.winner? field = some v → v.clock.counter ≤ n := by
      intro field v hv
      exact hn field v (by rwa [winner?_merge_of_stale hnews])
    exact max_le (h.tight n hold) (le_trans (Clock.counter_le_of_le hle) (hold _ w hw))
  | true =>
    have hu : u.clock.counter ≤ n := hn u.field u (by rw [winner?_merge_of_news hnews, if_pos rfl])
    refine max_le (h.tight n fun field v hv => ?_) hu
    by_cases hf : field = u.field
    · subst hf
      have hlt := (isNews_iff d u).1 hnews v hv
      exact le_trans (Clock.counter_le_of_le (le_of_lt hlt)) hu
    · exact hn field v (by rwa [winner?_merge_of_news hnews, if_neg hf])

theorem Grounded.mergeAll (h : d.Grounded) (us : List FieldUpdate) : (d.mergeAll us).Grounded := by
  induction us generalizing d with
  | nil => exact h
  | cons u us ih => exact ih (h.merge u)

theorem Grounded.clock_le (hd : d.Grounded) (he : e.Grounded)
    (h : ∀ field, d.winner? field = e.winner? field) : d.clock ≤ e.clock := by
  apply hd.tight
  intro field w hw
  rw [h] at hw
  exact he.wellFormed.bounded _ (Entries.mem_of_get? hw)

/-- Such documents are determined by their winners, clocks included. -/
theorem Grounded.ext (hd : d.Grounded) (he : e.Grounded)
    (h : ∀ field, d.winner? field = e.winner? field) : d.entries = e.entries ∧ d.clock = e.clock := by
  constructor
  · exact Entries.ext_get? hd.wellFormed.sorted he.wellFormed.sorted h
  · exact le_antisymm (hd.clock_le he h) (he.clock_le hd fun field => (h field).symm)

/-! ### Staying behind -/

theorem Behind.of_fresh (replica : String) (d : Document) : Behind { replica } d := by
  intro field w hw
  cases hw

theorem Behind.of_winners (h : ∀ field, e.winner? field = d.winner? field) : Behind e d := by
  intro field w hw
  exact ⟨w, (h field).symm.trans hw, .inl rfl⟩

/-- What is news to the one ahead is news to the one behind. -/
theorem Behind.isNews (h : Behind e d) (hu : d.isNews u = true) : e.isNews u = true := by
  rw [isNews_iff] at hu ⊢
  intro w hw
  obtain ⟨v, hv, rfl | hlt⟩ := h u.field w hw
  · exact hu w hv
  · exact lt_trans hlt (hu v hv)

theorem Behind.stale (h : Behind e d) (hu : d.isNews u = false) : Behind e (d.merge u).2 := by
  intro field w hw
  rw [winner?_merge_of_stale hu]
  exact h field w hw

theorem Behind.news (h : Behind e d) (hu : d.isNews u = true) : Behind (e.merge u).2 (d.merge u).2 := by
  intro field w hw
  rw [winner?_merge_of_news (h.isNews hu)] at hw
  rw [winner?_merge_of_news hu]
  split
  · next hf =>
    rw [if_pos hf] at hw
    cases hw
    exact ⟨u, rfl, .inl rfl⟩
  · next hf =>
    rw [if_neg hf] at hw
    exact h field w hw

/-- Writes of a document that is behind and of the one ahead are told apart by their clocks. -/
theorem Behind.agree (h : Behind e d) (he : e.WellFormed) (hd : d.WellFormed) :
    Agree (e.snapshot ++ d.snapshot) := by
  have hone : ∀ {d : Document}, d.WellFormed → ∀ u ∈ d.snapshot, ∀ v ∈ d.snapshot, u.field = v.field → u = v := by
    intro d hd u hu v hv hf
    have hwu := (winner?_eq_some_iff hd v.field u).2 ⟨hu, hf⟩
    have hwv := (winner?_eq_some_iff hd v.field v).2 ⟨hv, rfl⟩
    exact Option.some.inj (hwu.symm.trans hwv)
  have hboth : ∀ u ∈ e.snapshot, ∀ v ∈ d.snapshot, u.field = v.field → u.clock = v.clock → u = v := by
    intro u hu v hv hf hc
    obtain ⟨w, hw, hor⟩ := h u.field u ((winner?_eq_some_iff he u.field u).2 ⟨hu, rfl⟩)
    rw [(winner?_eq_some_iff hd u.field v).2 ⟨hv, hf.symm⟩] at hw
    cases hw
    rcases hor with rfl | hlt
    · rfl
    · rw [hc] at hlt
      exact absurd hlt (lt_irrefl _)
  intro u hu v hv hf hc
  rcases List.mem_append.1 hu with hu | hu <;> rcases List.mem_append.1 hv with hv | hv
  · rw [hone he u hu v hv hf]
  · rw [hboth u hu v hv hf hc]
  · rw [hboth v hv u hu hf.symm hc.symm]
  · rw [hone hd u hu v hv hf]

/-- Told everything, a document that was behind holds what the other one holds. -/
theorem Behind.everything (h : Behind e d) (he : e.WellFormed) (hd : d.WellFormed) (field : String) :
    (e.mergeAll d.snapshot).winner? field = d.winner? field := by
  have hdom : ∀ u ∈ e.snapshot ++ d.snapshot,
      ∃ v ∈ d.snapshot, v.field = u.field ∧ ¬ u.clock.Later v.clock := by
    intro u hu
    rw [List.mem_append] at hu
    rcases hu with hu | hu
    · obtain ⟨v, hv, hor⟩ := h u.field u ((winner?_eq_some_iff he u.field u).2 ⟨hu, rfl⟩)
      obtain ⟨hm, hf⟩ := (winner?_eq_some_iff hd u.field v).1 hv
      refine ⟨v, hm, hf, ?_⟩
      rw [Clock.later_iff_lt, not_lt]
      rcases hor with rfl | hlt
      · exact le_refl _
      · exact le_of_lt hlt
    · refine ⟨u, hu, rfl, ?_⟩
      rw [Clock.later_iff_lt]
      exact lt_irrefl _
  have hmerged := latest_mergeAll_snapshot he d.snapshot field
  have hhere := Latest.of_dominating (fun v hv => List.mem_append_right _ hv) hdom (latest_winner? hd field)
  exact hmerged.unique (h.agree he hd) hhere

/-! ### Listening -/

theorem Tells.grounded (t : Tells d d' us) (h : d.Grounded) : d'.Grounded := by
  cases t with
  | nothing => exact h
  | stale => exact h.merge _
  | news => exact h.merge _
  | everything => exact h

/-- Who hears all news never gets ahead. -/
theorem Tells.behind (t : Tells d d' us) (hd : d.Grounded) (he : e.Grounded) (h : Behind e d) :
    Behind (e.mergeAll us) d' := by
  cases t with
  | nothing => exact h
  | stale hu => exact h.stale hu
  | news hu => exact h.news hu
  | everything => exact .of_winners (h.everything he.wellFormed hd.wellFormed)

/-- Who has the same writes and hears all news goes on having them. -/
theorem Tells.winners (t : Tells d d' us) (hd : d.Grounded) (he : e.Grounded)
    (h : ∀ field, e.winner? field = d.winner? field) (field : String) :
    (e.mergeAll us).winner? field = d'.winner? field := by
  cases t with
  | nothing => exact h field
  | stale hu =>
    rw [winner?_merge_of_stale hu]
    exact h field
  | @news u hu =>
    have heu := (Behind.of_winners h).isNews hu
    rw [winner?_merge_of_news hu, ← h field]
    exact winner?_merge_of_news heu field
  | everything => exact (Behind.of_winners h).everything he.wellFormed hd.wellFormed field

theorem Tells.keeps {toldAll : Prop} (t : Tells d d' us) (hd : d.Grounded) (he : e.Grounded)
    (k : Keeps toldAll e d) : Keeps toldAll (e.mergeAll us) d' where
  behind := t.behind hd he k.behind
  winners hall := t.winners hd he (k.winners hall)

theorem Keeps.everything {toldAll : Prop} (k : Keeps toldAll e d) (hd : d.Grounded) (he : e.Grounded) :
    Keeps True (e.mergeAll d.snapshot) d where
  behind := (Tells.everything d).behind hd he k.behind
  winners _ := k.behind.everything he.wellFormed hd.wellFormed

end SecureLayout.Collab.Document

/-! ### Queues that are read -/

namespace SecureLayout.Collab

open Wire (FieldUpdate SyncMessage)

/-- Writes that messages carry, in order. -/
def writesIn (ms : List SyncMessage) : List FieldUpdate :=
  ms.flatMap updatesIn

@[simp] theorem writesIn_append (ms ns : List SyncMessage) : writesIn (ms ++ ns) = writesIn ms ++ writesIn ns :=
  List.flatMap_append

theorem writesIn_eq_nil {ms : List SyncMessage} (h : ∀ m ∈ ms, updatesIn m = []) : writesIn ms = [] :=
  List.flatMap_eq_nil_iff.2 h

/-- A message without writes. -/
def IsBare (m : SyncMessage) : Prop :=
  updatesIn m = []

namespace Hub

variable {allowed : Nat → SyncMessage → Prop} {h h' : Hub} {i : Nat}

theorem IsPresence.isBare {m : SyncMessage} (hm : IsPresence m) : IsBare m := by
  cases m with
  | awareness d c s => rfl
  | _ => exact hm.elim

/-! ### Open queues -/

theorem isClosed_eq_false :
    h.isClosed i = false ↔
      (∃ p, h.peer? i = some p) ∧ ∃ b, h.mailbox? i = some b ∧ b.isRead = true := by
  unfold isClosed
  cases h.peer? i <;> cases h.mailbox? i <;> simp

theorem isClosed_congr (hp : (h'.peer? i).isNone = (h.peer? i).isNone)
    (hr : (h'.mailbox? i).map (·.isRead) = (h.mailbox? i).map (·.isRead)) :
    h'.isClosed i = h.isClosed i := by
  have hall : ∀ h : Hub, (h.mailbox? i).all (!·.isRead) = ((h.mailbox? i).map (·.isRead)).all (!·) := by
    intro h
    cases h.mailbox? i <;> rfl
  unfold isClosed
  rw [hp, hall, hr, hall]

/-- Whoever is still open was open before. -/
theorem Sends.isClosed_before (a : Sends allowed h h') (hs : h.Orderly) (ho : h'.isClosed i = false) :
    h.isClosed i = false := by
  obtain ⟨⟨p, hp⟩, -⟩ := isClosed_eq_false.1 ho
  rw [← ho]
  refine (isClosed_congr ?_ (a.isRead i)).symm
  rw [hp, a.peer?_eq hs hp]

/-! ### Writes in a queue -/

theorem Sends.writesIn_mail (a : Sends allowed h h') (hbare : ∀ m, allowed i m → IsBare m) :
    writesIn (h'.mail i) = writesIn (h.mail i) := by
  obtain ⟨ms, hm, hall⟩ := a.mail i
  rw [hm, writesIn_append, writesIn_eq_nil fun m hmem => hbare m (hall m hmem), List.append_nil]

/-- An open queue has what was sent to its peer, and once. -/
theorem writesIn_mail_send (hs : h.Orderly) {id : Nat} (m : SyncMessage)
    (ho : (h.send id m).isClosed i = false) :
    writesIn ((h.send id m).mail i) = writesIn (h.mail i) ++ if i = id then updatesIn m else [] := by
  have hsend := sends_send h id m
  obtain ⟨⟨p, hp⟩, b, hb, hr⟩ := isClosed_eq_false.1 (hsend.isClosed_before hs ho)
  split
  · next he =>
    subst he
    have hf : ∀ b : Mailbox, ({ b with queue := b.queue ++ [m] } : Mailbox).owner = b.owner := fun _ => rfl
    unfold send sendOr enqueue at ho ⊢
    simp only [hp, hb, hr, Bool.not_true, Bool.false_eq_true, if_false] at ho ⊢
    cases hfull : b.isFull with
    | true =>
      obtain ⟨⟨q, hq⟩, -⟩ := isClosed_eq_false.1 (by simpa only [hfull, if_true] using ho)
      rw [peer?_disconnect] at hq
      cases hq
    | false =>
      simp only [Bool.false_eq_true, if_false]
      rw [mail_updateMailbox_self hb _ hf, mail, hb]
      simp [writesIn]
  · next hne =>
    rw [List.append_nil]
    exact hsend.writesIn_mail fun x hx => hx.elim IsPresence.isBare fun hx => absurd hx.1 hne

theorem writesIn_mail_foldl_send (hs : h.Orderly) (m : SyncMessage) {ids : List Nat} (hnd : ids.Nodup)
    (ho : (ids.foldl (sendOr disconnect m) h).isClosed i = false) :
    writesIn ((ids.foldl (sendOr disconnect m) h).mail i) =
      writesIn (h.mail i) ++ if i ∈ ids then updatesIn m else [] := by
  induction ids generalizing h with
  | nil => simp
  | cons a r ih =>
    obtain ⟨ha, hnd⟩ := List.nodup_cons.1 hnd
    have hsend := sends_send h a m
    have hrest := sends_foldl_sendOr sends_disconnect m r (h.send a m)
    have hopen := hrest.isClosed_before (hsend.orderly hs) ho
    have hih := ih (hsend.orderly hs) hnd ho
    rw [writesIn_mail_send hs m hopen] at hih
    refine hih.trans ?_
    by_cases he : i = a
    · subst he
      simp [ha]
    · simp [he]

/-- A broadcast reaches every open queue on its document once, but for the sender's. -/
theorem writesIn_mail_broadcast (hs : h.Orderly) {doc : String} {sender : Nat} {m : SyncMessage} {q : Peer}
    (hq : (h.broadcast doc sender m).peer? i = some q) (ho : (h.broadcast doc sender m).isClosed i = false) :
    writesIn ((h.broadcast doc sender m).mail i) =
      writesIn (h.mail i) ++ if doc = q.doc ∧ i ≠ sender then updatesIn m else [] := by
  obtain ⟨hmem, rfl⟩ := peer?_eq_some ((sends_broadcast h doc sender m).peer?_eq hs hq)
  have hmember : q.id ∈ (h.room doc).members.filter (· != sender) ↔ doc = q.doc ∧ q.id ≠ sender := by
    rw [List.mem_filter, hs.member q hmem doc]
    simp
  refine (writesIn_mail_foldl_send hs m ((hs.nodup doc).filter _) ho).trans ?_
  simp only [hmember]

/-! ### What one message tells a listener -/

/-- What a change puts into a queue tells what becomes of a document. -/
structure Informs (i : Nat) (doc : String) (h h' : Hub) (us : List FieldUpdate) : Prop where
  tells : Document.Tells (h.replica doc) (h'.replica doc) us
  mail : writesIn (h'.mail i) = writesIn (h.mail i) ++ us

theorem Sends.informs (a : Sends allowed h h') (hbare : ∀ m, allowed i m → IsBare m) (doc : String) :
    Informs i doc h h' [] where
  tells := by
    have hd : h'.replica doc = h.replica doc := a.document doc
    rw [hd]
    exact .nothing _
  mail := by rw [a.writesIn_mail hbare, List.append_nil]

theorem sends_refuse (h : Hub) (id : Nat) (r : Refusal) : Sends (fun _ m => IsBare m) h (h.refuse id r) := by
  refine (sends_send h id r.toMessage).mono fun _ x hx => ?_
  rcases hx with hx | ⟨-, rfl⟩
  · exact hx.isBare
  · rfl

theorem sends_refuseUpdate (h : Hub) (p : Peer) (seq : Nat) (r : Refusal) :
    Sends (fun _ m => IsBare m) h (h.refuseUpdate p seq r) := by
  refine (sends_refuse h p.id r).trans ((sends_send _ p.id (.ack p.doc seq)).mono fun _ x hx => ?_)
  rcases hx with hx | ⟨-, rfl⟩
  · exact hx.isBare
  · rfl

/-- An announcement is answered with all of the document, once. -/
theorem informs_welcome (hs : h.Orderly) {p : Peer} (ho : (h.welcome p).isClosed i = false) (doc : String)
    (hdoc : i = p.id → doc = p.doc) :
    Informs i doc h (h.welcome p) (if i = p.id then (h.replica doc).snapshot else []) := by
  have hsends := sends_welcome h p
  have hfirst := sends_send h p.id (.syncState p.doc (h.replica p.doc).snapshot)
  have hfold : ∀ (states : Entries Json.Value) (h : Hub), Sends (fun _ m => IsBare m) h
      (states.foldl (fun h s => h.send p.id (.awareness p.doc s.1 (some s.2))) h) := by
    intro states
    induction states with
    | nil => exact fun h => .refl h
    | cons s r ih =>
      intro h
      refine Sends.trans ((sends_send h p.id _).mono fun _ _ hx => ?_) (ih _)
      rcases hx with hx | ⟨-, rfl⟩
      · exact hx.isBare
      · rfl
  have hrest : Sends (fun _ m => IsBare m) (h.send p.id (.syncState p.doc (h.replica p.doc).snapshot))
      (h.welcome p) := hfold _ _
  have hmail : writesIn ((h.welcome p).mail i) = writesIn (h.mail i) ++
      if i = p.id then (h.replica p.doc).snapshot else [] := by
    rw [hrest.writesIn_mail fun _ hm => hm]
    exact writesIn_mail_send hs _ (hrest.isClosed_before (hfirst.orderly hs) ho)
  have hreplica : (h.welcome p).replica doc = h.replica doc := hsends.document doc
  split
  · next he =>
    obtain rfl := hdoc he
    refine ⟨?_, hmail.trans (by rw [if_pos he])⟩
    rw [hreplica]
    exact .everything _
  · next he =>
    refine ⟨?_, hmail.trans (by rw [if_neg he])⟩
    rw [hreplica]
    exact .nothing _

theorem isClosed_taken (h : Hub) (p : Peer) (u : FieldUpdate) (i : Nat) :
    (h.taken p u).isClosed i = h.isClosed i := by
  refine isClosed_congr ?_ rfl
  change ((h.bind p.id u.clock.replica).peer? i).isNone = _
  rw [peer?_bind, Option.isNone_map]

theorem acceptUpdate_eq (h : Hub) (p : Peer) (seq : Nat) (u : FieldUpdate) :
    (h.bind p.id u.clock.replica).acceptUpdate p seq u =
      if (h.replica p.doc).isNews u then
        ((h.taken p u).send p.id (.ack p.doc seq)).broadcast p.doc p.id (.update p.doc 0 u)
      else (h.taken p u).send p.id (.ack p.doc seq) := by
  have hroom : (h.bind p.id u.clock.replica).room p.doc = h.room p.doc := rfl
  have hmerge : (((h.bind p.id u.clock.replica).room p.doc).document.merge u).1 = (h.replica p.doc).isNews u := by
    rw [hroom]
    unfold Document.merge replica
    split
    · next hn => exact hn.symm
    · next hn => exact (Bool.eq_false_iff.2 hn).symm
  unfold acceptUpdate
  dsimp only
  rw [hmerge]
  rfl

/-- An accepted write is told to every listener on its document if it is news. -/
theorem informs_acceptUpdate (hs : h.Orderly) {p q : Peer} {seq : Nat} {u : FieldUpdate} (hi : i ≠ p.id)
    (hq : ((h.bind p.id u.clock.replica).acceptUpdate p seq u).peer? i = some q)
    (ho : ((h.bind p.id u.clock.replica).acceptUpdate p seq u).isClosed i = false) :
    ∃ us, Informs i q.doc h ((h.bind p.id u.clock.replica).acceptUpdate p seq u) us := by
  have hs' := hs.taken p u
  have hack := sends_send (h.taken p u) p.id (.ack p.doc seq)
  have hbare : writesIn (((h.taken p u).send p.id (.ack p.doc seq)).mail i) = writesIn (h.mail i) := by
    refine hack.writesIn_mail fun x hx => ?_
    rcases hx with hx | ⟨-, rfl⟩
    · exact hx.isBare
    · rfl
  have hdocument : ∀ doc, ((h.bind p.id u.clock.replica).acceptUpdate p seq u).replica doc =
      (h.taken p u).replica doc := (sends_acceptUpdate h p seq u).document
  have hother : q.doc ≠ p.doc →
      ((h.bind p.id u.clock.replica).acceptUpdate p seq u).replica q.doc = h.replica q.doc := by
    intro hne
    rw [hdocument, replica, room_taken, if_neg hne]
    rfl
  have hown : q.doc = p.doc →
      ((h.bind p.id u.clock.replica).acceptUpdate p seq u).replica q.doc = ((h.replica q.doc).merge u).2 := by
    intro he
    rw [hdocument, he, replica_taken]
  rw [acceptUpdate_eq] at hq ho hother hown ⊢
  cases hnews : (h.replica p.doc).isNews u with
  | true =>
    simp only [hnews, if_true] at hq ho hother hown ⊢
    have hmail := writesIn_mail_broadcast (hack.orderly hs') hq ho
    rw [hbare] at hmail
    refine ⟨_, ?_, hmail⟩
    by_cases he : q.doc = p.doc
    · rw [hown he, if_pos ⟨he.symm, hi⟩]
      exact .news (he ▸ hnews)
    · rw [hother he, if_neg fun hand => he hand.1.symm]
      exact .nothing _
  | false =>
    simp only [hnews, Bool.false_eq_true, if_false] at hother hown ⊢
    refine ⟨[], ?_, by rw [hbare, List.append_nil]⟩
    by_cases he : q.doc = p.doc
    · rw [hown he]
      exact .stale (he ▸ hnews)
    · rw [hother he]
      exact .nothing _

end Hub

end SecureLayout.Collab
