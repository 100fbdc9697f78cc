import SecureLayout.Proofs.Collab.Admission
import SecureLayout.Proofs.Collab.Clocks
import SecureLayout.Proofs.Collab.Language

/-!
Clocks cannot be run away with. Main statement: every write that a relay handles moves the clock of its document
by one lead at the most, so that for as many writes as anybody could send no honest write is too far ahead, and no
replica that listens to the relay runs out of counters.
-/

namespace SecureLayout.Collab

open Json (Value)
open Wire (Clock FieldUpdate SyncMessage)

/-- A call that is a local write. -/
def Call.isWrite : Call → Bool
  | write _ _ => true
  | take _ => false

/-- Writes raise a counter by one each, and what is merged raises it to a bound that held before. -/
theorem Document.clock_performAll_le_add {d : Document} {calls : List Call} {n k : Nat} (hd : d.clock ≤ n + k)
    (h : ∀ u, .take u ∈ calls → u.clock.counter ≤ n) :
    (d.performAll calls).clock ≤ n + k + calls.countP Call.isWrite := by
  induction calls generalizing d k with
  | nil => exact hd
  | cons call calls ih =>
    have hrest := fun u hu => h u (List.mem_cons_of_mem _ hu)
    rw [List.countP_cons]
    cases call with
    | write field value =>
      have hone : (d.perform (.write field value)).clock ≤ n + (k + 1) := by
        cases hs : d.set field value with
        | ok w =>
          rw [perform_write hs, (set_eq_ok hs).2.1]
          omega
        | error e =>
          rw [perform, hs]
          exact Nat.le_succ_of_le hd
      refine (ih hone hrest).trans (le_of_eq ?_)
      simp only [Call.isWrite, if_true]
      omega
    | take u =>
      have hu := h u List.mem_cons_self
      have hone : (d.perform (.take u)).clock ≤ n + k := by
        rw [perform, clock_merge]
        omega
      exact ih hone hrest

theorem Refusal.toMessage_injective : Function.Injective Refusal.toMessage := by
  intro r s he
  cases r <;> cases s <;> simp_all [toMessage, reason]

namespace Hub

variable {h h' : Hub} {id i : Nat} {p : Peer} {m : SyncMessage} {u : FieldUpdate} {e : Event} {doc : String}

/-! ### What one event does to a clock -/

/-- An event in which a write for a document is handled: a peer of that document sends it. -/
def isWriteOn (h : Hub) (doc : String) : Event → Bool
  | .handle id (.update d _ _) => d == doc && (h.peer? id).any (·.doc == doc)
  | _ => false

theorem isWriteOn_of_mem (hu : u ∈ writesOn doc (h.admitted? e).toList) :
    h.isWriteOn doc e = true ∧ u.clock.counter ≤ (h.replica doc).clock + greatestLead := by
  obtain ⟨a, ha, rfl⟩ := List.mem_map.1 hu
  obtain ⟨hmem, hdoc⟩ := List.mem_filter.1 ha
  obtain ⟨p, seq, hp, rfl, he, hd, hadmits⟩ := admitted?_eq_some (Option.mem_toList.1 hmem)
  obtain rfl : p.doc = doc := by simpa [hd] using hdoc
  refine ⟨?_, hadmits.inTime.trans (min_le_left _ _)⟩
  rw [he] at hp
  simp [isWriteOn, hp]

/-- A clock moves for a write alone, and no farther than the lead that the write may have. -/
theorem Performs.clock_le {full : List Nat} (a : Performs h e full h') (doc : String) :
    (h'.replica doc).clock ≤ (h.replica doc).clock + (h.isWriteOn doc e).toNat * greatestLead := by
  rw [a.replica, Document.clock_mergeAll_le_iff]
  refine ⟨Nat.le_add_right _ _, fun u hu => ?_⟩
  obtain ⟨hwrite, hle⟩ := isWriteOn_of_mem hu
  rwa [hwrite, Bool.toNat_true, Nat.one_mul]

/-! ### What the relay says about clocks -/

/-- Writes that a message carries are no later than the clock that their document has here. -/
def Within (h : Hub) (m : SyncMessage) : Prop :=
  ∀ doc, m.doc? = some doc → ∀ u ∈ updatesIn m, u.clock.counter ≤ (h.replica doc).clock

theorem Within.mono (hm : h.Within m) (hle : ∀ doc, (h.replica doc).clock ≤ (h'.replica doc).clock) :
    h'.Within m :=
  fun doc hd u hu => (hm doc hd u hu).trans (hle doc)

theorem within_of_bare (h : Hub) (hm : IsBare m) : h.Within m := by
  intro doc _ u hu
  rw [show updatesIn m = [] from hm] at hu
  cases hu

/-- A message is on the agenda of a plan. -/
def Plan.Lists (q : Plan) (i : Nat) (m : SyncMessage) : Prop :=
  (i, m) ∈ q.first ∨ ∃ g, (i, m) ∈ q.second g

theorem replica_handle_eq_plan (h : Hub) (id : Nat) (x : SyncMessage) (doc : String) :
    (h.handle id x).replica doc = (h.plan id x).hub.replica doc := by
  obtain ⟨_, d⟩ := delivers_sendEach (h.plan id x).hub (h.plan id x).first
  obtain ⟨_, d'⟩ := delivers_sendEach _ ((h.plan id x).second _)
  rw [handle_eq_plan]
  exact (d'.sends.document doc).trans (d.sends.document doc)

/-- Queues grow by presence and by what is planned. -/
theorem mail_handle (h : Hub) (id : Nat) (x : SyncMessage) (i : Nat) :
    ∃ ms, (h.handle id x).mail i = h.mail i ++ ms ∧ ∀ m ∈ ms, IsPresence m ∨ (h.plan id x).Lists i m := by
  obtain ⟨_, d⟩ := delivers_sendEach (h.plan id x).hub (h.plan id x).first
  obtain ⟨_, d'⟩ := delivers_sendEach _ ((h.plan id x).second ((h.plan id x).hub.sendEach (h.plan id x).first))
  have hplan : (h.plan id x).hub.mail i = h.mail i := by
    rcases plan_cases h id x with ⟨p, seq, u, -, -, -, he⟩ | ⟨-, he | ⟨p, r, -, -, he⟩ | ⟨awareness, he⟩⟩ <;>
      rw [he] <;> rfl
  obtain ⟨ms, hms, hfirst⟩ := d.sends.mail i
  obtain ⟨ns, hns, hsecond⟩ := d'.sends.mail i
  refine ⟨ms ++ ns, ?_, fun m hm => ?_⟩
  · rw [handle_eq_plan, Plan.run, hns, hms, hplan, List.append_assoc]
  · rcases List.mem_append.1 hm with hm | hm
    · exact (hfirst m hm).imp_right .inl
    · exact (hsecond m hm).imp_right fun hm => .inr ⟨_, hm⟩

/-- What is planned tells of writes that the relay holds by then: all of them, or the one that came. -/
theorem within_of_lists (hw : ∀ doc, (h.replica doc).WellFormed) {x : SyncMessage}
    (hm : (h.plan id x).Lists i m) : (h.plan id x).hub.Within m := by
  have hrefused : ∀ {g : Hub} (r : Refusal), g.Within r.toMessage := fun r => within_of_bare _ rfl
  have hnone : ∀ {g : Hub} {first : Agenda}, (∀ x ∈ first, g.Within x.2) →
      Plan.Lists { hub := g, first } i m → g.Within m := by
    rintro g first hfirst (hlisted | ⟨_, hlisted⟩)
    · exact hfirst _ hlisted
    · cases hlisted
  revert hm
  unfold plan
  cases hp : h.peer? id with
  | none => exact hnone (by simp)
  | some p =>
    dsimp only
    split
    · exact hnone (by simpa using hrefused _)
    · cases x with
      | hello d c =>
        rintro (hm | ⟨g, hm⟩)
        · obtain ⟨-, rfl⟩ := Prod.mk.inj (List.mem_singleton.1 hm)
          intro doc hd u hu
          cases hd
          obtain ⟨e, he, rfl⟩ := List.mem_map.1 hu
          exact (hw p.doc).bounded e he
        · obtain ⟨s, -, he⟩ := List.mem_map.1 hm
          cases he
          exact within_of_bare _ rfl
      | update d seq u =>
        dsimp only
        rcases updatePlan_cases h p seq u with ⟨r, g, -, he⟩ | he <;> rw [he]
        · refine hnone fun x hx => ?_
          rcases List.mem_pair.1 hx with rfl | rfl
          · exact hrefused r
          · exact within_of_bare _ rfl
        · rintro (hm | ⟨g, hm⟩)
          · obtain ⟨-, rfl⟩ := Prod.mk.inj (List.mem_singleton.1 hm)
            exact within_of_bare _ rfl
          · obtain ⟨_, -, he⟩ := List.mem_map.1 (mem_news hm)
            cases he
            intro doc hd v hv
            cases hd
            rw [List.mem_singleton.1 hv, replica_taken, Document.clock_merge]
            exact le_max_right _ _
      | awareness d c state =>
        refine hnone fun x hx => ?_
        obtain ⟨_, -, rfl⟩ := List.mem_map.1 hx
        exact within_of_bare _ rfl
      | _ => exact hnone (by simpa using hrefused _)

theorem clockRefusal?_ne_clockAhead {c : Clock}
    (hc : c.counter ≤ min ((h.replica p.doc).clock + greatestLead) Clock.greatestCounter) :
    h.clockRefusal? p c ≠ some .clockAhead := by
  have hintime : ¬ min ((h.room p.doc).document.clock + greatestLead) Clock.greatestCounter < c.counter :=
    not_lt.2 hc
  unfold clockRefusal?
  rw [if_neg hintime]
  split_ifs <;> simp

theorem verdict_ne_clockAhead
    (hu : u.clock.counter ≤ min ((h.replica p.doc).clock + greatestLead) Clock.greatestCounter) :
    (h.verdict p u).1 ≠ some .clockAhead := by
  have hclock := clockRefusal?_ne_clockAhead hu
  unfold verdict
  cases hr : h.clockRefusal? p u.clock with
  | some r => rwa [hr] at hclock
  | none =>
    dsimp only
    split <;> simp

/-- A write that is in time is not said to be ahead. -/
theorem not_lists_clockAhead (hp : h.peer? p.id = some p) {seq : Nat}
    (hu : u.clock.counter ≤ min ((h.replica p.doc).clock + greatestLead) Clock.greatestCounter) :
    ¬ (h.plan p.id (.update doc seq u)).Lists i Refusal.clockAhead.toMessage := by
  have hverdict := verdict_ne_clockAhead hu
  unfold plan
  rw [hp]
  dsimp only
  split
  · rintro (hm | ⟨_, hm⟩)
    · obtain ⟨-, he⟩ := Prod.mk.inj (List.mem_singleton.1 hm)
      exact absurd (Refusal.toMessage_injective he) (by decide)
    · cases hm
  · unfold updatePlan
    rcases hv : h.verdict p u with ⟨_ | r, g⟩
    · rintro (hm | ⟨_, hm⟩)
      · cases (Prod.mk.inj (List.mem_singleton.1 hm)).2
      · obtain ⟨_, -, he⟩ := List.mem_map.1 (mem_news hm)
        cases he
    · rintro (hm | ⟨_, hm⟩)
      · rw [hv] at hverdict
        rcases List.mem_pair.1 hm with he | he
        · exact hverdict (congrArg some (Refusal.toMessage_injective (Prod.mk.inj he).2).symm)
        · cases (Prod.mk.inj he).2
      · cases hm

end Hub

namespace History

variable {t : History} {policy : SecurityPolicy} {doc : String} {e : Event}

/-- How many writes for a document are handled, taken or not. -/
def written (t : History) (doc : String) : List Event → Nat
  | [] => 0
  | e :: events => (t.hub.isWriteOn doc e).toNat + (t.next e).written doc events

theorem written_concat (t : History) (doc : String) (events : List Event) (e : Event) :
    t.written doc (events ++ [e]) = t.written doc events + ((events.foldl next t).hub.isWriteOn doc e).toNat := by
  induction events generalizing t with
  | nil => simp [written]
  | cons x events ih => simp only [List.cons_append, written, ih, List.foldl_cons, Nat.add_assoc]

theorem clock_le_written (policy : SecurityPolicy) (events : List Event) (doc : String) :
    ((after policy events).hub.replica doc).clock ≤ (after policy []).written doc events * greatestLead := by
  induction events using List.reverseRecOn with
  | nil => exact Nat.zero_le _
  | append_singleton events e ih =>
    obtain ⟨full, a⟩ := Hub.performs_next (after policy events) e
    rw [after_concat, written_concat, Nat.add_mul]
    exact (a.clock_le doc).trans (Nat.add_le_add_right ih _)

/-- All that was ever sent tells of writes no later than the clock. -/
def Paced (t : History) : Prop :=
  ∀ i, ∀ m ∈ t.enqueued i, t.hub.Within m

/-- Whatever is in a queue after an event was there before, is presence or was planned. -/
theorem mem_enqueued_next (hs : t.hub.Orderly) {i : Nat} {m : SyncMessage} (hm : m ∈ (t.next e).enqueued i) :
    m ∈ t.enqueued i ∨ Hub.IsPresence m ∨ ∃ id x, e = .handle id x ∧ (t.hub.plan id x).Lists i m := by
  have hold : m ∈ t.hub.mail i → m ∈ t.enqueued i := fun hm => List.mem_append_right _ hm
  rcases List.mem_append.1 hm with hm | hm
  · rcases mem_heard_next hm with hm | hm
    · exact .inl (List.mem_append_left _ hm)
    · exact .inl (hold hm)
  · cases e with
    | connect doc client =>
      unfold next at hm
      dsimp only at hm
      split at hm
      · next hc =>
        rw [Hub.mail_connect hs hc] at hm
        split at hm
        · cases hm
        · exact .inl (hold hm)
      · exact .inl (hold hm)
    | handle id x =>
      obtain ⟨ms, hmail, hms⟩ := Hub.mail_handle t.hub id x i
      rw [show (t.next (.handle id x)).hub.mail i = _ from hmail] at hm
      rcases List.mem_append.1 hm with hm | hm
      · exact .inl (hold hm)
      · exact .inr ((hms m hm).imp_right fun hm => ⟨id, x, rfl, hm⟩)
    | disconnect id =>
      obtain ⟨ms, hmail, hms⟩ := (Hub.sends_disconnect t.hub id).mail i
      rw [show (t.next (.disconnect id)).hub.mail i = _ from hmail] at hm
      rcases List.mem_append.1 hm with hm | hm
      · exact .inl (hold hm)
      · exact .inr (.inl (hms m hm))
    | read id =>
      unfold next at hm
      dsimp only at hm
      split at hm
      · next ht => exact .inl (hold (Hub.mem_mail_of_takeNext ht hm))
      · exact .inl (hold hm)
    | abandon id => exact .inl (hold (Hub.mem_mail_of_abandon hm))

theorem Paced.next (hp : t.Paced) (hs : t.hub.Orderly) (hw : ∀ doc, (t.hub.replica doc).WellFormed) (e : Event) :
    (t.next e).Paced := by
  have hle : ∀ doc, (t.hub.replica doc).clock ≤ ((t.next e).hub.replica doc).clock := by
    intro doc
    obtain ⟨full, a⟩ := Hub.performs_next t e
    rw [a.replica]
    exact Document.clock_le_mergeAll _ _
  intro i m hm
  rcases mem_enqueued_next hs hm with hold | hpresence | ⟨id, x, rfl, hlisted⟩
  · exact (hp i m hold).mono hle
  · exact Hub.within_of_bare _ hpresence.isBare
  · refine (Hub.within_of_lists hw hlisted).mono fun doc => ?_
    rw [← Hub.replica_handle_eq_plan]
    exact le_rfl

theorem paced_after (policy : SecurityPolicy) (events : List Event) : (after policy events).Paced := by
  induction events using List.reverseRecOn with
  | nil => exact fun i m hm => absurd hm List.not_mem_nil
  | append_singleton events e ih =>
    have s := settled_after policy events relayReplica
    rw [after_concat]
    exact ih.next s.orderly (fun doc => (s.grounded doc).wellFormed) e

/-- A clock has room for one more lead while fewer writes than these were handled. -/
theorem room_of_few {clock n : Nat} (hclock : clock ≤ n * greatestLead) (hn : n < Numeric.twoTo 43) :
    clock + greatestLead ≤ Numeric.twoTo 63 := by
  have hmore : (n + 1) * greatestLead ≤ Numeric.twoTo 43 * greatestLead := Nat.mul_le_mul_right _ hn
  have hall : Numeric.twoTo 43 * greatestLead = Numeric.twoTo 63 := by decide
  rw [Nat.add_mul] at hmore
  omega

/-- No client can run a document's clock away. However many writes for a document were handled, and from whomever,
its clock is within that many leads; while they are fewer than 2 to the 43rd, the clock has room for the whole lead,
no write that is at most one ahead is refused for being ahead, and a replica that has merged only what
the relay sent for this document, and has made fewer than 2 to the 43rd writes itself, can make another one. -/
theorem clock_keeps_pace (policy : SecurityPolicy) (events : List Event) (doc : String) :
    let t := after policy events
    let clock := (t.hub.replica doc).clock
    let n := (after policy []).written doc events
    clock ≤ n * greatestLead ∧ (n < Numeric.twoTo 43 →
      clock + greatestLead ≤ Clock.greatestCounter ∧
      (∀ p, t.hub.peer? p.id = some p → p.doc = doc → ∀ u : FieldUpdate, u.clock.counter ≤ clock + 1 →
        t.hub.clockRefusal? p u.clock ≠ some .clockAhead ∧
        ∀ seq i, ∃ ms, (t.hub.handle p.id (.update doc seq u)).mail i = t.hub.mail i ++ ms ∧
          Refusal.clockAhead.toMessage ∉ ms) ∧
      ∀ (replica : String) (calls : List Call),
        (∀ u, .take u ∈ calls → ∃ i, ∃ m ∈ t.enqueued i, m.doc? = some doc ∧ u ∈ updatesIn m) →
        calls.countP Call.isWrite < Numeric.twoTo 43 →
        ∀ field value, ∃ u d', (({ replica } : Document).performAll calls).set field value = .ok (u, d')) := by
  intro t clock n
  have hclock : clock ≤ n * greatestLead := clock_le_written policy events doc
  refine ⟨hclock, fun hn => ?_⟩
  have hroom := room_of_few hclock hn
  have hwords : Numeric.twoTo 63 + Numeric.twoTo 43 ≤ Clock.greatestCounter := by decide
  refine ⟨by omega, fun p hp hd u hu => ?_, fun replica calls htold hwrites field value => ?_⟩
  · have hlead : 1 ≤ greatestLead := by decide
    have hin : u.clock.counter ≤ min ((t.hub.replica p.doc).clock + greatestLead) Clock.greatestCounter := by
      rw [hd, le_min_iff]
      change u.clock.counter ≤ clock + greatestLead ∧ _
      omega
    refine ⟨Hub.clockRefusal?_ne_clockAhead hin, fun seq i => ?_⟩
    obtain ⟨ms, hmail, hms⟩ := Hub.mail_handle t.hub p.id (.update doc seq u) i
    refine ⟨ms, hmail, fun hahead => ?_⟩
    rcases hms _ hahead with hpresence | hlisted
    · exact hpresence
    · exact Hub.not_lists_clockAhead hp hin hlisted
  · have hmerged : ∀ u, .take u ∈ calls → u.clock.counter ≤ clock := by
      intro u hu
      obtain ⟨i, m, hm, hdoc, hum⟩ := htold u hu
      exact paced_after policy events i m hm doc hdoc u hum
    have hbound := Document.clock_performAll_le_add (d := { replica }) (k := 0) (Nat.zero_le _) hmerged
    cases hs : (({ replica } : Document).performAll calls).set field value with
    | ok w => exact ⟨w.1, w.2, rfl⟩
    | error e =>
      have hlast := (Document.set_fails_iff _ field value).1 ⟨e, hs⟩
      omega

/-- Mallory goes as far ahead as she may, twice, and then farther, and Ada listens. -/
def ranAhead : List Event :=
  [.connect "d" "ada", .connect "d" "mallory", .handle 2 (.update "d" 1 ⟨"f", .null, ⟨greatestLead, "m"⟩⟩),
    .handle 2 (.update "d" 2 ⟨"f", .null, ⟨2 * greatestLead, "m"⟩⟩),
    .handle 2 (.update "d" 3 ⟨"f", .null, ⟨Clock.greatestCounter, "m"⟩⟩)]

theorem clock_keeps_pace_ahead :
    ((after ⟨⟨none⟩, ⟨["output"]⟩, .empty, 10, 1000⟩ ranAhead).hub.replica "d").clock = 2 * greatestLead ∧
      (after ⟨⟨none⟩, ⟨["output"]⟩, .empty, 10, 1000⟩ []).written "d" ranAhead = 3 ∧
      ∃ u d', (({ replica := "ada" } : Document).performAll
        [.take ⟨"f", .null, ⟨2 * greatestLead, "m"⟩⟩]).set "f" .null = .ok (u, d') := by
  have hwritten : (after ⟨⟨none⟩, ⟨["output"]⟩, .empty, 10, 1000⟩ []).written "d" ranAhead = 3 := by
    decide +kernel
  have hclock : ((after ⟨⟨none⟩, ⟨["output"]⟩, .empty, 10, 1000⟩ ranAhead).hub.replica "d").clock =
      2 * greatestLead := by
    decide +kernel
  have hheard : SyncMessage.update "d" 0 ⟨"f", .null, ⟨2 * greatestLead, "m"⟩⟩ ∈
      (after ⟨⟨none⟩, ⟨["output"]⟩, .empty, 10, 1000⟩ ranAhead).enqueued 1 :=
    .tail _ (.head _)
  obtain ⟨-, hfew⟩ := clock_keeps_pace ⟨⟨none⟩, ⟨["output"]⟩, .empty, 10, 1000⟩ ranAhead "d"
  obtain ⟨-, -, hset⟩ := hfew (by rw [hwritten]; decide)
  refine ⟨hclock, hwritten, hset "ada" _ (fun u hu => ?_) (by decide) "f" .null⟩
  rw [List.mem_singleton] at hu
  cases hu
  exact ⟨1, _, hheard, rfl, List.mem_singleton_self _⟩

end History

end SecureLayout.Collab
