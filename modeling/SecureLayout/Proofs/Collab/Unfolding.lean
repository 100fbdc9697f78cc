import SecureLayout.Proofs.Collab.Clocks

/-!
What happens while a document is called, one thing after the other: it takes a write, an observer is told of one, a
watch ends. Those who watch a field are told in any order. Main statements: what every single thing keeps, a whole call
keeps; what the document makes of a call, observers and all, is one way to go through it; and where nobody writes in
response, everyone is told of the writes of a field in order.
-/

namespace SecureLayout.Collab

open Json (Value)
open Wire (Clock FieldUpdate)

variable {σ : Type}

/-- What is left to do before a call returns. -/
inductive Todo (σ : Type) where
  | call (c : Call)
  | stop (id : Nat)
  | tell (o : Observer σ) (u : FieldUpdate) (origin : Origin)

def Request.todo : Request → Todo σ
  | .write field value => .call (.write field value)
  | .unsubscribe id => .stop id

/-- What happens to a document and to those who watch it. -/
inductive Happening where
  /-- A write was put under its field, which left the document like this. -/
  | took (u : FieldUpdate) (document : Document)
  | told (id : Nat) (u : FieldUpdate) (origin : Origin)
  | ended (id : Nat)

theorem not_tell_mem_todos {o : Observer σ} {u : FieldUpdate} {origin : Origin} (requests : List Request) :
    .tell o u origin ∉ requests.map Request.todo := by
  intro h
  obtain ⟨r, -, hr⟩ := List.mem_map.1 h
  cases r <;> cases hr

/-- The rest is to be told as before, and what comes first is not told but asked for. -/
theorem tell_mem_rest {o : Observer σ} {u : FieldUpdate} {origin : Origin} {requests : List Request}
    {as : List (Todo σ)} (h : .tell o u origin ∈ requests.map Request.todo ++ as) : .tell o u origin ∈ as :=
  (List.mem_append.1 h).resolve_left (not_tell_mem_todos requests)

theorem not_tell_mem_calls {o : Observer σ} {u : FieldUpdate} {origin : Origin} (calls : List Call) :
    .tell o u origin ∉ calls.map Todo.call := by
  intro h
  obtain ⟨_, -, hc⟩ := List.mem_map.1 h
  cases hc

/-! ### Calls of a document -/

namespace Document

variable {d : Document} {c : Call} {u w : FieldUpdate} {origin : Origin}

/-- The write that a call puts under its field, unless it fails or loses. -/
def accepted (d : Document) : Call → Option (FieldUpdate × Origin)
  | .write field value =>
    match d.set field value with
    | .ok (u, _) => some (u, .own)
    | .error _ => none
  | .take u => if d.isNews u then some (u, .merged) else none

theorem winner?_of_lost (h : d.accepted c = none) (field : String) :
    (d.perform c).winner? field = d.winner? field := by
  cases c with
  | write f value =>
    cases hs : d.set f value with
    | error e => rw [perform, hs]
    | ok w => simp [accepted, hs] at h
  | take u =>
    have hn : ¬d.isNews u = true := fun hn => by simp [accepted, hn] at h
    rw [perform, winner?_merge, if_neg fun hf => hn hf.2]

theorem winner?_of_accepted (h : d.accepted c = some (u, origin)) (field : String) :
    (d.perform c).winner? field = if field = u.field then some u else d.winner? field := by
  cases c with
  | write f value =>
    cases hs : d.set f value with
    | error e => simp [accepted, hs] at h
    | ok w =>
      obtain ⟨rfl, -⟩ : w.1 = u ∧ Origin.own = origin := by simpa [accepted, hs] using h
      rw [perform_write hs, winner?_set hs, (set_eq_ok hs).1]
  | take v =>
    by_cases hn : d.isNews v = true
    · obtain ⟨rfl, -⟩ : v = u ∧ Origin.merged = origin := by simpa [accepted, hn] using h
      rw [perform, winner?_merge]
      simp only [hn, and_true]
    · simp [accepted, hn] at h

/-- Only what is later than all that stood there comes to stand under a field. -/
theorem WellFormed.clockAt_lt_of_accepted (hd : d.WellFormed) (h : d.accepted c = some (u, origin)) :
    d.clockAt u.field < u.clock := by
  cases c with
  | write f value =>
    cases hs : d.set f value with
    | error e => simp [accepted, hs] at h
    | ok w =>
      obtain ⟨rfl, -⟩ : w.1 = u ∧ Origin.own = origin := by simpa [accepted, hs] using h
      exact hd.clockAt_lt_set hs _
  | take v =>
    by_cases hn : d.isNews v = true
    · obtain ⟨rfl, -⟩ : v = u ∧ Origin.merged = origin := by simpa [accepted, hn] using h
      exact (isNews_iff_clockAt d v).1 hn
    · simp [accepted, hn] at h

/-- The write stands under its field, or it was overtaken. -/
def Knows (d : Document) (u : FieldUpdate) : Prop :=
  d.winner? u.field = some u ∨ (u.clock : WithBot Clock) < d.clockAt u.field

theorem clockAt_of_winner? {field : String} (h : d.winner? field = some u) : d.clockAt field = u.clock := by
  rw [clockAt, h]
  rfl

theorem WellFormed.field_of_winner? (hd : d.WellFormed) {field : String} (h : d.winner? field = some u) :
    u.field = field :=
  ((winner?_eq_some_iff hd field u).1 h).2

theorem WellFormed.knows_winner (hd : d.WellFormed) {field : String} (h : d.winner? field = some u) : d.Knows u :=
  .inl ((hd.field_of_winner? h).symm ▸ h)

theorem knows_of_accepted (h : d.accepted c = some (u, origin)) : (d.perform c).Knows u :=
  .inl (by rw [winner?_of_accepted h, if_pos rfl])

theorem Knows.clock_le (h : d.Knows u) : (u.clock : WithBot Clock) ≤ d.clockAt u.field := by
  rcases h with h | h
  · exact (clockAt_of_winner? h).ge
  · exact h.le

/-- What stands under a field is overtaken or stays. -/
theorem Knows.perform (hd : d.WellFormed) (h : d.Knows u) (c : Call) : (d.perform c).Knows u := by
  cases hc : d.accepted c with
  | none =>
    unfold Knows clockAt
    rw [winner?_of_lost hc]
    exact h
  | some w =>
    obtain ⟨w, origin⟩ := w
    by_cases hf : u.field = w.field
    · have hw : (d.perform c).winner? u.field = some w := by rw [winner?_of_accepted hc, if_pos hf]
      refine .inr (h.clock_le.trans_lt ?_)
      rw [clockAt_of_winner? hw, hf]
      exact hd.clockAt_lt_of_accepted hc
    · unfold Knows clockAt
      rw [winner?_of_accepted hc, if_neg hf]
      exact h

/-- Of two writes to a field that are known, the one that stands there is not the earlier one. -/
theorem Knows.eq_of_clock_le (h : d.Knows u) (hw : d.winner? u.field = some w) (hle : w.clock ≤ u.clock) : u = w := by
  rcases h with h | h
  · exact Option.some.inj (h.symm.trans hw)
  · rw [clockAt_of_winner? hw, WithBot.coe_lt_coe] at h
    exact absurd h hle.not_gt

end Document

/-! ### One thing after the other -/

namespace Shared

variable {s s' s'' : Shared σ} {a : Todo σ} {as bs more : List (Todo σ)} {before t t' : List Happening} {c : Call}

/-- Something is done: what happens then, and what is to be done in its wake. -/
inductive Does (s : Shared σ) : Todo σ → List Happening → List (Todo σ) → Shared σ → Prop
  | lost {c : Call} : s.document.accepted c = none →
      Does s (.call c) [] [] { s with document := s.document.perform c }
  | took {c : Call} {u : FieldUpdate} {origin : Origin} {os : List (Observer σ)} :
      s.document.accepted c = some (u, origin) → os.Perm (s.observers.filter (·.watches u.field)) →
      Does s (.call c) [.took u (s.document.perform c)] (os.map fun o => .tell o u origin)
        { s with document := s.document.perform c }
  | told (o : Observer σ) (u : FieldUpdate) (origin : Origin) :
      Does s (.tell o u origin) [.told o.id u origin] ((o.call u origin s.state).2.map Request.todo)
        { s with state := (o.call u origin s.state).1 }
  | stopped (id : Nat) : Does s (.stop id) [.ended id] [] (s.unobserve id)

theorem Does.of_ended {id : Nat} (h : Does s a t more s') (hid : .ended id ∈ t) :
    t = [.ended id] ∧ more = [] ∧ s' = s.unobserve id := by
  cases h with
  | lost _ => exact nomatch hid
  | took _ _ | told => exact nomatch List.mem_singleton.1 hid
  | stopped =>
    obtain rfl := Happening.ended.inj (List.mem_singleton.1 hid)
    exact ⟨rfl, rfl, rfl⟩

/-- All is done that was left to do, with what comes of it before the rest. -/
inductive Runs : Shared σ → List (Todo σ) → List Happening → Shared σ → Prop
  | done (s : Shared σ) : Runs s [] [] s
  | next {s s' s'' : Shared σ} {a : Todo σ} {as more : List (Todo σ)} {t t' : List Happening} :
      Does s a t more s' → Runs s' (more ++ as) t' s'' → Runs s (a :: as) (t ++ t') s''

theorem Runs.append (h : Runs s as t s') (h' : Runs s' bs t' s'') : Runs s (as ++ bs) (t ++ t') s'' := by
  induction h with
  | done s => exact h'
  | next hdoes _ ih =>
    rw [List.append_assoc, List.cons_append]
    exact .next hdoes (by simpa only [List.append_assoc] using ih h')

theorem Runs.single (h : Does s a t more s') (h' : Runs s' more t' s'') : Runs s [a] (t ++ t') s'' :=
  .next h (by rwa [List.append_nil])

/-- What every single thing keeps, all that is to be done keeps. -/
theorem Runs.keeps {I : List Happening → Shared σ → List (Todo σ) → Prop} (before : List Happening)
    (hstep : ∀ {before s a as t more s'}, I before s (a :: as) → Does s a t more s' → I (before ++ t) s' (more ++ as))
    (h : Runs s as t s') (hs : I before s as) : I (before ++ t) s' [] := by
  induction h generalizing before with
  | done s => rwa [List.append_nil]
  | next hdoes _ ih =>
    rw [← List.append_assoc]
    exact ih _ (hstep hs hdoes)

theorem Runs.clock_le (h : Runs s as t s') : s.document.clock ≤ s'.document.clock := by
  refine h.keeps (I := fun _ s' _ => s.document.clock ≤ s'.document.clock) [] (fun hs hdoes => ?_) le_rfl
  cases hdoes with
  | lost _ | took _ _ => exact hs.trans (Document.clock_le_perform _ _)
  | told | stopped => exact hs

theorem Runs.nextId (h : Runs s as t s') : s'.nextId = s.nextId :=
  h.keeps (I := fun _ s' _ => s'.nextId = s.nextId) [] (fun hs hdoes => by cases hdoes <;> exact hs) rfl

/-! ### What the document makes of calls -/

/-- Where `n` more writes exhaust the clock, `write` goes through all of one write. -/
def Unfolds (n : Nat) (write : String → Value → Shared σ → Shared σ) : Prop :=
  ∀ field value {s : Shared σ}, Clock.greatestCounter < n + s.document.clock →
    ∃ t, Runs s [.call (.write field value)] t (write field value s)

variable {n : Nat} {write : String → Value → Shared σ → Shared σ}

theorem Unfolds.serve (h : Unfolds n write) (requests : List Request)
    (hroom : Clock.greatestCounter < n + s.document.clock) :
    ∃ t, Runs s (requests.map Request.todo) t (serve write requests s) := by
  induction requests generalizing s with
  | nil => exact ⟨[], .done s⟩
  | cons r requests ih =>
    cases r with
    | write field value =>
      obtain ⟨t, hr⟩ := h field value hroom
      obtain ⟨t', hrest⟩ := ih (s := write field value s) (hroom.trans_le (Nat.add_le_add_left hr.clock_le n))
      exact ⟨t ++ t', hr.append hrest⟩
    | unsubscribe id =>
      obtain ⟨t, hrest⟩ := ih (s := s.unobserve id) hroom
      exact ⟨[.ended id] ++ t, .next (.stopped id) hrest⟩

theorem Unfolds.tell (h : Unfolds n write) (u : FieldUpdate) (origin : Origin) (os : List (Observer σ))
    (hroom : Clock.greatestCounter < n + s.document.clock) :
    ∃ t, Runs s (os.map fun o => .tell o u origin) t (tell write u origin os s) := by
  induction os generalizing s with
  | nil => exact ⟨[], .done s⟩
  | cons o os ih =>
    obtain ⟨t, hserved⟩ :=
      h.serve (o.call u origin s.state).2 (s := { s with state := (o.call u origin s.state).1 }) hroom
    obtain ⟨t', hrest⟩ := ih (hroom.trans_le (Nat.add_le_add_left hserved.clock_le n))
    exact ⟨_, .next (.told o u origin) (hserved.append hrest)⟩

theorem runs_refused {field : String} {value : Value} {e : Failure} (h : s.document.set field value = .error e) :
    Runs s [.call (.write field value)] [] s := by
  have hlost : s.document.accepted (.write field value) = none := by rw [Document.accepted, h]
  have hsame : s.document.perform (.write field value) = s.document := by rw [Document.perform, h]
  have hruns := Runs.single (.lost hlost) (.done _)
  rwa [hsame] at hruns

/-- Nested writes never lack room, since each of them takes a clock. -/
theorem unfolds_setWithin (n : Nat) : Unfolds n fun field value (s : Shared σ) => (setWithin n field value s).2 := by
  induction n with
  | zero =>
    intro field value s hroom
    obtain ⟨e, he⟩ := (s.document.set_fails_iff field value).2 (by omega)
    exact ⟨[], runs_refused he⟩
  | succ n ih =>
    intro field value s hroom
    dsimp only
    rw [setWithin]
    cases hs : s.document.set field value with
    | error e => exact ⟨[], runs_refused hs⟩
    | ok w =>
      obtain ⟨u, document⟩ := w
      obtain ⟨hu, hclock, -⟩ := Document.set_eq_ok hs
      have hfield : u.field = field := by rw [hu]
      have haccepted : s.document.accepted (.write field value) = some (u, .own) := by rw [Document.accepted, hs]
      obtain ⟨t, htold⟩ := ih.tell u .own (s.observers.filter (·.watches u.field)) (s := { s with document })
        (by simp only [hclock]; omega)
      have hruns := Runs.single (.took haccepted (List.Perm.refl _)) (Document.perform_write hs ▸ htold)
      exact ⟨_, hfield ▸ Document.perform_write hs ▸ hruns⟩

theorem lt_room (s : Shared σ) : Clock.greatestCounter < room + s.document.clock :=
  Nat.lt_of_lt_of_le (Nat.lt_succ_self _) (Nat.le_add_right _ _)

theorem runs_requests (s : Shared σ) (requests : List Request) :
    ∃ t, Runs s (requests.map Request.todo) t (serve (fun f v s => (s.set f v).2) requests s) :=
  (unfolds_setWithin room).serve requests s.lt_room

theorem perform_take (s : Shared σ) (u : FieldUpdate) :
    s.perform (.take u) =
      if s.document.isNews u then
        Shared.tell (fun f v s => (s.set f v).2) u .merged (s.observers.filter (·.watches u.field))
          { s with document := s.document.perform (.take u) }
      else { s with document := s.document.perform (.take u) } := by
  rw [← Document.merge_fst, perform, Shared.merge, Document.perform]
  rcases s.document.merge u with ⟨_ | _, document⟩ <;> rfl

theorem runs_perform (s : Shared σ) (c : Call) : ∃ t, Runs s [.call c] t (s.perform c) := by
  cases c with
  | write field value => exact unfolds_setWithin room field value s.lt_room
  | take u =>
    rw [perform_take]
    split
    · next hn =>
      have haccepted : s.document.accepted (.take u) = some (u, .merged) := by rw [Document.accepted, if_pos hn]
      obtain ⟨t, htold⟩ := (unfolds_setWithin room).tell u .merged (s.observers.filter (·.watches u.field)) (lt_room _)
      exact ⟨_, Runs.single (.took haccepted (List.Perm.refl _)) htold⟩
    · next hn =>
      have hlost : s.document.accepted (.take u) = none := by rw [Document.accepted, if_neg hn]
      exact ⟨_, Runs.single (.lost hlost) (.done _)⟩

/-- What a document makes of calls, one after the other. -/
theorem runs_performAll (s : Shared σ) (calls : List Call) :
    ∃ t, Runs s (calls.map .call) t (s.performAll calls) := by
  induction calls generalizing s with
  | nil => exact ⟨[], .done s⟩
  | cons c calls ih =>
    obtain ⟨t, hc⟩ := s.runs_perform c
    obtain ⟨t', hrest⟩ := ih (s.perform c)
    exact ⟨t ++ t', hc.append hrest⟩

/-! ### Nobody writes in response -/

/-- What an observer was told of one field. -/
def toldOf (id : Nat) (field : String) (t : List Happening) : List FieldUpdate :=
  t.filterMap fun
    | .told i u _ => if i = id ∧ u.field = field then some u else none
    | _ => none

theorem toldOf_append (id : Nat) (field : String) (t t' : List Happening) :
    toldOf id field (t ++ t') = toldOf id field t ++ toldOf id field t' :=
  List.filterMap_append

/-- Calls wait until everyone was told, and nobody is to be told twice. -/
def Waits (a b : Todo σ) : Prop :=
  ∀ o u origin, b = .tell o u origin → (∀ c, a ≠ .call c) ∧ ∀ o' u' origin', a = .tell o' u' origin' → o'.id ≠ o.id

theorem waits_stop (id : Nat) (b : Todo σ) : Waits (.stop id) b :=
  fun _ _ _ _ => ⟨fun _ hc => (nomatch hc), fun _ _ _ ht => nomatch ht⟩

theorem waits_call (c c' : Call) : Waits (σ := σ) (.call c) (.call c') :=
  fun _ _ _ hb => nomatch hb

theorem waits_of_not_tell {b : Todo σ} (hb : ∀ o u origin, b ≠ .tell o u origin) (a : Todo σ) : Waits a b :=
  fun o u origin he => absurd he (hb o u origin)

theorem waits_tell {o o' : Observer σ} (h : o.id ≠ o'.id) (u : FieldUpdate) (origin : Origin) :
    Waits (.tell o u origin) (.tell o' u origin) := by
  intro _ _ _ hb
  obtain ⟨rfl, -, -⟩ := Todo.tell.inj hb
  refine ⟨fun _ hc => (nomatch hc), fun _ _ _ ha => ?_⟩
  obtain ⟨rfl, -, -⟩ := Todo.tell.inj ha
  exact h

/-- Observer `id` was told of the writes of a field in order, and of the one that stands there, if it still watches.
At first `old` stood there. -/
structure InOrder (id : Nat) (field : String) (old : Option FieldUpdate) (t : List Happening) (s : Shared σ)
    (as : List (Todo σ)) : Prop where
  wellFormed : s.document.WellFormed
  ids : (s.observers.map Observer.id).Nodup
  asks : ∀ o ∈ s.observers, o.Asks fun r => ∃ id, r = .unsubscribe id
  waits : as.Pairwise Waits
  tells : ∀ o u origin, .tell o u origin ∈ as → (o.Asks fun r => ∃ id, r = .unsubscribe id) ∧
    s.document.winner? u.field = some u ∧ (o.id = id → u.field = field → ∀ w ∈ toldOf id field t, w.clock < u.clock)
  ordered : (toldOf id field t).Pairwise fun u w => u.clock < w.clock
  bounded : ∀ u ∈ toldOf id field t, (u.clock : WithBot Clock) ≤ s.document.clockAt field
  current : (∃ o ∈ s.observers, o.id = id ∧ o.watches field = true) →
    s.document.winner? field = (toldOf id field t).getLast?.or old ∨
      ∃ o u origin, .tell o u origin ∈ as ∧ o.id = id ∧ u.field = field

variable {id : Nat} {field : String} {old : Option FieldUpdate} {u : FieldUpdate} {origin : Origin} {o : Observer σ}

/-- While a call is to be made, nobody is to be told of anything. -/
theorem InOrder.not_tell (h : InOrder id field old t s (.call c :: as)) (o : Observer σ) (u : FieldUpdate)
    (origin : Origin) : .tell o u origin ∉ as :=
  fun hm => ((List.pairwise_cons.1 h.waits).1 _ hm o u origin rfl).1 c rfl

theorem InOrder.lost (h : InOrder id field old t s (.call c :: as)) (hc : s.document.accepted c = none) :
    InOrder id field old t { s with document := s.document.perform c } as := by
  have hsame := Document.winner?_of_lost hc field
  refine ⟨h.wellFormed.perform c, h.ids, h.asks, h.waits.of_cons,
    fun o u origin hm => absurd hm (h.not_tell o u origin), h.ordered, fun u hu => ?_, fun hlive => ?_⟩
  · unfold Document.clockAt
    rw [hsame]
    exact h.bounded u hu
  · rw [hsame]
    exact (h.current hlive).imp_right fun ⟨o, u, origin, hm, _⟩ => absurd hm (by simpa using h.not_tell o u origin)

theorem InOrder.took {os : List (Observer σ)} (h : InOrder id field old t s (.call c :: as))
    (hc : s.document.accepted c = some (u, origin)) (hos : os.Perm (s.observers.filter (·.watches u.field))) :
    InOrder id field old t { s with document := s.document.perform c }
      (os.map (fun o => .tell o u origin) ++ as) := by
  have hnew := Document.winner?_of_accepted hc
  have hlater := h.wellFormed.clockAt_lt_of_accepted hc
  refine ⟨h.wellFormed.perform c, h.ids, h.asks, ?_, fun o w origin' hm => ?_, h.ordered, fun w hw => ?_,
    fun ⟨o, ho, hid, hwatches⟩ => ?_⟩
  · have hids : (os.map Observer.id).Nodup :=
      (hos.map Observer.id).nodup_iff.2 (h.ids.sublist (List.filter_sublist.map Observer.id))
    have htells := (List.pairwise_map.1 hids).imp fun hne => waits_tell hne u origin
    exact List.pairwise_append.2 ⟨List.pairwise_map.2 htells, h.waits.of_cons, fun _ _ b hb =>
      waits_of_not_tell (fun o u origin he => h.not_tell o u origin (he ▸ hb)) _⟩
  · obtain ⟨o', ho', he⟩ := List.mem_map.1 ((List.mem_append.1 hm).resolve_right (h.not_tell o w origin'))
    obtain ⟨rfl, rfl, -⟩ := Todo.tell.inj he
    refine ⟨h.asks _ (List.mem_filter.1 (hos.subset ho')).1, by rw [hnew, if_pos rfl], fun _ hfield w hw => ?_⟩
    exact WithBot.coe_lt_coe.1 ((h.bounded w hw).trans_lt (hfield ▸ hlater))
  · unfold Document.clockAt
    rw [hnew]
    split
    · next hfield => exact (h.bounded w hw).trans (hfield ▸ hlater).le
    · exact h.bounded w hw
  · rw [hnew]
    by_cases hfield : field = u.field
    · have hmem : o ∈ os := hos.symm.subset (List.mem_filter.2 ⟨ho, hfield ▸ hwatches⟩)
      exact .inr ⟨o, u, origin, List.mem_append_left _ (List.mem_map_of_mem hmem), hid, hfield.symm⟩
    · rw [if_neg hfield]
      exact .inl ((h.current ⟨o, ho, hid, hwatches⟩).resolve_right fun ⟨o, w, origin, hm, _⟩ =>
        absurd hm (by simpa using h.not_tell o w origin))

theorem InOrder.told (h : InOrder id field old t s (.tell o u origin :: as)) :
    InOrder id field old (t ++ [.told o.id u origin]) { s with state := (o.call u origin s.state).1 }
      ((o.call u origin s.state).2.map Request.todo ++ as) := by
  obtain ⟨hahead, hwaits⟩ := List.pairwise_cons.1 h.waits
  obtain ⟨hasks, hu, hearlier⟩ := h.tells o u origin List.mem_cons_self
  have hwait : ∀ a b : Todo σ, a ∈ (o.call u origin s.state).2.map Request.todo → Waits a b := by
    intro a b ha
    obtain ⟨r, hr, rfl⟩ := List.mem_map.1 ha
    obtain ⟨i, rfl⟩ := hasks u origin s.state r hr
    exact waits_stop i b
  have hpairs : ((o.call u origin s.state).2.map Request.todo ++ as).Pairwise Waits :=
    List.pairwise_append.2 ⟨List.pairwise_of_forall_mem_list fun a ha b _ => hwait a b ha, hwaits, fun a ha b _ =>
      hwait a b ha⟩
  have hrest : ∀ o' w origin', .tell o' w origin' ∈ (o.call u origin s.state).2.map Request.todo ++ as →
      (o'.Asks fun r => ∃ id, r = .unsubscribe id) ∧ s.document.winner? w.field = some w ∧
        (o'.id = id → w.field = field → ∀ v ∈ toldOf id field t, v.clock < w.clock) :=
    fun o' w origin' hm => h.tells o' w origin' (List.mem_cons_of_mem _ (tell_mem_rest hm))
  have htold : toldOf id field (t ++ [.told o.id u origin]) =
      toldOf id field t ++ if o.id = id ∧ u.field = field then [u] else [] := by
    rw [toldOf_append]
    by_cases hof : o.id = id ∧ u.field = field <;> simp [toldOf, hof]
  by_cases hof : o.id = id ∧ u.field = field
  · rw [if_pos hof] at htold
    refine ⟨h.wellFormed, h.ids, h.asks, hpairs, fun o' w origin' hm => ?_, ?_, ?_, fun _ => .inl ?_⟩
    · obtain ⟨hasks', hw, -⟩ := hrest o' w origin' hm
      have hne := (hahead _ (tell_mem_rest hm) o' w origin' rfl).2 o u origin rfl
      exact ⟨hasks', hw, fun hid => absurd (hof.1.trans hid.symm) hne⟩
    · rw [htold]
      exact List.pairwise_append.2 ⟨h.ordered, List.pairwise_singleton _ _, fun w hw v hv =>
        List.mem_singleton.1 hv ▸ hearlier hof.1 hof.2 w hw⟩
    · rw [htold]
      exact List.forall_mem_append.2 ⟨h.bounded, List.forall_mem_singleton.2
        (hof.2 ▸ (Document.clockAt_of_winner? hu).ge)⟩
    · rw [htold, List.getLast?_concat, ← hof.2]
      exact hu
  · rw [if_neg hof, List.append_nil] at htold
    refine ⟨h.wellFormed, h.ids, h.asks, hpairs, htold ▸ hrest, htold ▸ h.ordered, htold ▸ h.bounded, fun hlive => ?_⟩
    rw [htold]
    refine (h.current hlive).imp_right fun ⟨o', w, origin', hm, hid, hw⟩ => ?_
    rcases List.mem_cons.1 hm with he | hm
    · obtain ⟨rfl, rfl, -⟩ := Todo.tell.inj he
      exact absurd ⟨hid, hw⟩ hof
    · exact ⟨o', w, origin', List.mem_append_right _ hm, hid, hw⟩

theorem InOrder.stopped {i : Nat} (h : InOrder id field old t s (.stop i :: as)) :
    InOrder id field old t (s.unobserve i) as where
  wellFormed := h.wellFormed
  ids := h.ids.sublist (List.filter_sublist.map _)
  asks o ho := h.asks o (List.mem_filter.1 ho).1
  waits := h.waits.of_cons
  tells o u origin hm := h.tells o u origin (List.mem_cons_of_mem _ hm)
  ordered := h.ordered
  bounded := h.bounded
  current := fun ⟨o, ho, hlive⟩ => (h.current ⟨o, (List.mem_filter.1 ho).1, hlive⟩).imp_right
    fun ⟨o', u, origin', hm, hu⟩ => ⟨o', u, origin', by simpa using hm, hu⟩

theorem InOrder.does (h : InOrder id field old before s (a :: as)) (hdoes : Does s a t more s') :
    InOrder id field old (before ++ t) s' (more ++ as) := by
  have hsame {t : List Happening} (ht : toldOf id field t = []) (h : InOrder id field old before s' (more ++ as)) :
      InOrder id field old (before ++ t) s' (more ++ as) := by
    have htold : toldOf id field (before ++ t) = toldOf id field before := by rw [toldOf_append, ht, List.append_nil]
    exact ⟨h.wellFormed, h.ids, h.asks, h.waits, htold ▸ h.tells, htold ▸ h.ordered, htold ▸ h.bounded,
      htold ▸ h.current⟩
  cases hdoes with
  | lost hc => exact hsame rfl (h.lost hc)
  | took hc hos => exact hsame rfl (h.took hc hos)
  | told o u origin => exact h.told
  | stopped i => exact hsame rfl h.stopped

/-- Where nobody writes in response, an observer is told of the writes of a field in the order of their clocks, and if
it still watches, then last of the one that stands there. -/
theorem told_in_order (hd : s.document.WellFormed) (hids : (s.observers.map Observer.id).Nodup)
    (hasks : ∀ o ∈ s.observers, o.Asks fun r => ∃ id, r = .unsubscribe id) {calls : List Call}
    (hruns : Runs s (calls.map .call) t s') (id : Nat) (field : String) :
    ((toldOf id field t).Pairwise fun u w => u.clock < w.clock) ∧
      ((∃ o ∈ s'.observers, o.id = id ∧ o.watches field = true) →
        s'.document.winner? field = (toldOf id field t).getLast?.or (s.document.winner? field)) := by
  have hstart : InOrder id field (s.document.winner? field) [] s (calls.map .call) :=
    ⟨hd, hids, hasks, List.pairwise_map.2 (List.pairwise_of_forall waits_call), fun o u origin hm =>
      absurd hm (not_tell_mem_calls calls), .nil, fun _ hu => (nomatch hu), fun _ => .inl rfl⟩
  have h := hruns.keeps [] InOrder.does hstart
  exact ⟨h.ordered, fun hlive => (h.current hlive).resolve_right fun ⟨_, _, _, hm, _⟩ => nomatch hm⟩

/-- One that takes a value back as soon as it is told, and one that listens. -/
def takenBack : Shared Unit where
  document := { replica := "r" }
  observers := [
    ⟨0, none, fun u _ _ => ((), match u.value with | .bool true => [.write u.field (.bool false)] | _ => [])⟩,
    ⟨1, none, fun _ _ _ => ((), [])⟩]
  nextId := 2
  state := ()

/-- Where somebody does, the order may be the other way round. -/
theorem told_out_of_order : ∃ t s', Runs takenBack [.call (.write "f" (.bool true))] t s' ∧
    (toldOf 1 "f" t).map (·.value) = [.bool false, .bool true] ∧ s'.document.get? "f" = some (.bool false) :=
  ⟨_, _, .next (.took rfl (.refl _)) <| .next (.told _ _ _) <| .next (.took rfl (.refl _)) <| .next (.told _ _ _) <|
    .next (.told _ _ _) <| .next (.told _ _ _) (.done _), rfl, rfl⟩

end Shared

end SecureLayout.Collab
