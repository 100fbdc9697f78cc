import SecureLayout.Proofs.Collab.Watching

/-!
What a subscription takes note of, while observers write in response and notices of older writes come after those of
newer ones, and what comes of it when it is ended. Main statements: a subscriber is given the default at most once,
before all else, and then values of writes that once stood under the field, each later than the last; at rest the last
of them is the current one; and a subscription that is ended is told of nothing that is taken afterwards.
-/

namespace SecureLayout.Collab

open Json (Value)
open Wire (Clock FieldUpdate)

variable {α : Type}

theorem isLater_iff (last : Option FieldUpdate) (c : Clock) :
    isLater (last.map (·.clock)) c = true ↔ ∀ w, last = some w → w.clock < c := by
  cases last with
  | none => simp [isLater]
  | some w => simp [isLater, Clock.before_iff_lt]

/-- Where clocks rise, a clock above the last one is above all. -/
theorem forall_lt_of_last {ws : List FieldUpdate} {c : Clock} (h : ws.Pairwise fun w w' => w.clock < w'.clock)
    (hc : ∀ w, ws.getLast? = some w → w.clock < c) : ∀ w ∈ ws, w.clock < c := by
  rcases List.eq_nil_or_concat' ws with rfl | ⟨init, last, rfl⟩
  · exact fun _ hw => nomatch hw
  · intro w hw
    have hlast := hc last List.getLast?_concat
    rcases List.mem_append.1 hw with hw | hw
    · exact ((List.pairwise_append.1 h).2.2 w hw last (List.mem_singleton_self _)).trans hlast
    · exact List.mem_singleton.1 hw ▸ hlast

theorem watches_iff {σ : Type} {o : Observer σ} {field field' : String} (h : o.field = some field) :
    o.watches field' = true ↔ field = field' := by
  simp [Observer.watches, h]

/-- A subscription to one field. -/
structure Subscription where
  kind : Kind
  id : Nat
  field : String
  default : Value

namespace OutputStore

variable {b : Subscription} {first : List Delivery} {ws : List FieldUpdate} {before t : List Happening}
  {s s' : OutputStore α} {a : Todo (Watchers α)} {as more : List (Todo (Watchers α))} {base : Option FieldUpdate}
  {u : FieldUpdate}

/-- After `first`, the subscription took note of the writes `ws` of its field. -/
structure Noted (b : Subscription) (first : List Delivery) (ws : List FieldUpdate) (t : List Happening)
    (s : OutputStore α) (as : List (Todo (Watchers α))) : Prop where
  given : b.id < s.nextId
  own : ∀ o ∈ s.observers, o.id = b.id → o.field = some b.field
  tells : ∀ o u origin, .tell o u origin ∈ as → o.id = b.id → o.field = some b.field
  watch : s.state.watches.lookup b.id = some (b.kind.watch b.default ws.getLast?)
  delivered : s.delivered b.id = first ++ b.kind.deliveries ws
  ordered : ws.Pairwise fun w w' => w.clock < w'.clock
  known : ∀ w ∈ ws, w.field = b.field ∧ Recorded t w ∧ s.document.Knows w

/-- The subscription is yet to be told of the write. -/
def Awaits (b : Subscription) (u : FieldUpdate) (as : List (Todo (Watchers α))) : Prop :=
  ∃ o origin, .tell o u origin ∈ as ∧ o.id = b.id

/-- The subscription goes on, and it took note of what stands under its field, or will be told of it, or nothing has
changed since `base` stood there. -/
structure Watching (b : Subscription) (base : Option FieldUpdate) (ws : List FieldUpdate) (s : OutputStore α)
    (as : List (Todo (Watchers α))) : Prop where
  live : ∃ o ∈ s.observers, o.id = b.id
  current : s.document.winner? b.field = ws.getLast? ∨
    (∃ u, Awaits b u as ∧ s.document.winner? b.field = some u) ∨
    ws = [] ∧ s.document.winner? b.field = base ∧ ∀ u, ¬Awaits b u as

/-- The subscription took note of more than `ws` meanwhile, and missed no write that stays. -/
def Continues (b : Subscription) (first : List Delivery) (ws : List FieldUpdate) (before t : List Happening)
    (s : OutputStore α) (as : List (Todo (Watchers α))) (s' : OutputStore α) (more : List (Todo (Watchers α))) : Prop :=
  ∃ ws', ws <+: ws' ∧ Noted b first ws' (before ++ t) s' more ∧
    ∀ base, .ended b.id ∉ t → Watching b base ws s as → Watching b base ws' s' more

theorem Continues.trans {s₁ s₂ : OutputStore α} {as' : List (Todo (Watchers α))} {t' : List Happening}
    (h : Continues b first ws before t s as s₁ more)
    (h' : ∀ {ws}, Noted b first ws (before ++ t) s₁ more → Continues b first ws (before ++ t) t' s₁ more s₂ as') :
    Continues b first ws before (t ++ t') s as s₂ as' := by
  obtain ⟨ws₁, hprefix, hnoted, hwatching⟩ := h
  obtain ⟨ws₂, hprefix', hnoted', hwatching'⟩ := h' hnoted
  refine ⟨ws₂, hprefix.trans hprefix', List.append_assoc .. ▸ hnoted', fun base hended hw => ?_⟩
  obtain ⟨hleft, hright⟩ := not_or.1 fun hm => hended (List.mem_append.2 hm)
  exact hwatching' base hright (hwatching base hleft hw)

/-! ### One offer -/

/-- The subscription is offered a write of its field. -/
theorem Noted.offer (h : Noted b first ws t s as) (hu : u.field = b.field) (hrec : Recorded t u)
    (hknows : s.document.Knows u) (callback : Callback α) (origin : Origin) :
    ∃ ws', ws <+: ws' ∧ ws' ≠ [] ∧
      Noted b first ws' t { s with state := (s.state.offer callback b.id u origin).1 } as ∧
      (s.document.winner? b.field = some u ∨ s.document.winner? b.field = ws.getLast? →
        s.document.winner? b.field = ws'.getLast?) := by
  cases hlater : isLater (ws.getLast?.map (·.clock)) u.clock with
  | true =>
    obtain ⟨hwatch, hdelivered⟩ := Watchers.offer_later callback origin h.watch hlater
    have hbelow := (isLater_iff _ _).1 hlater
    refine ⟨ws ++ [u], List.prefix_append ws [u], by simp, ⟨h.given, h.own, h.tells, ?_, ?_, ?_, ?_⟩, ?_⟩
    · rw [List.getLast?_concat]
      exact hwatch
    · rw [b.kind.deliveries_concat, ← List.append_assoc, ← h.delivered]
      exact hdelivered
    · exact List.pairwise_append.2 ⟨h.ordered, List.pairwise_singleton _ _, fun w hw v hv =>
        List.mem_singleton.1 hv ▸ forall_lt_of_last h.ordered hbelow w hw⟩
    · exact List.forall_mem_append.2 ⟨h.known, List.forall_mem_singleton.2 ⟨hu, hrec, hknows⟩⟩
    · rw [List.getLast?_concat]
      rintro (hw | hw)
      · exact hw
      · -- the write would be later than the one that stands there
        have hle := hknows.clock_le
        rw [hu, Document.clockAt, hw] at hle
        cases hlast : ws.getLast? with
        | none =>
          rw [hlast] at hle
          exact absurd hle (WithBot.not_coe_le_bot _)
        | some w =>
          rw [hlast] at hle
          exact absurd (hbelow w hlast) (WithBot.coe_le_coe.1 hle).not_gt
  | false =>
    have hbelow : ¬∀ w, ws.getLast? = some w → w.clock < u.clock :=
      fun hall => Bool.false_ne_true (hlater ▸ (isLater_iff _ _).2 hall)
    refine ⟨ws, List.prefix_rfl, ?_, ?_, ?_⟩
    · rintro rfl
      exact hbelow (by simp)
    · rw [Watchers.offer_stale callback origin h.watch hlater]
      exact h
    · rintro (hw | hw)
      · push Not at hbelow
        obtain ⟨w, hlast, hle⟩ := hbelow
        obtain ⟨hfield, -, hknown⟩ := h.known w (List.mem_of_getLast? hlast)
        rw [hw, hlast, hknown.eq_of_clock_le (hfield ▸ hw) hle]
      · exact hw

/-! ### What does not concern the subscription -/

theorem Noted.grown (h : Noted b first ws before s as) (t : List Happening) :
    Noted b first ws (before ++ t) s as :=
  { h with known := fun w hw =>
      ⟨(h.known w hw).1, (h.known w hw).2.1.mono (List.subset_append_left _ _), (h.known w hw).2.2⟩ }

theorem Noted.performed (h : Noted b first ws before s as) (hd : s.document.WellFormed) (c : Call) :
    Noted b first ws before { s with document := s.document.perform c } as :=
  { h with known := fun w hw => ⟨(h.known w hw).1, (h.known w hw).2.1, (h.known w hw).2.2.perform hd c⟩ }

/-- Nothing is left to be told but what was, and to observers. -/
theorem Noted.left (h : Noted b first ws before s as) (more : List (Todo (Watchers α)))
    (hmore : ∀ o u origin, .tell o u origin ∈ more → .tell o u origin ∈ as ∨ o ∈ s.observers) :
    Noted b first ws before s more :=
  { h with tells := fun o u origin hm hid => (hmore o u origin hm).elim (h.tells o u origin · hid) (h.own o · hid) }

/-- Another subscription is served. -/
theorem Noted.others (h : Noted b first ws before s as) {i : Nat} {w : Watchers α}
    (hserves : Watchers.Serves i s.state w) (hi : b.id ≠ i) : Noted b first ws before { s with state := w } as :=
  let ⟨hwatch, hdelivered⟩ := hserves.others b.id hi
  { h with watch := hwatch.trans h.watch, delivered := hdelivered.trans h.delivered }

theorem Watching.awaiting (h : Watching b base ws s as) (more : List (Todo (Watchers α)))
    (hmore : ∀ u, Awaits b u more ↔ Awaits b u as) :
    Watching b base ws s more := by
  refine ⟨h.live, ?_⟩
  simp only [hmore]
  exact h.current

theorem Watching.lost {c : Call} (h : Watching b base ws s (.call c :: as)) (hc : s.document.accepted c = none) :
    Watching b base ws { s with document := s.document.perform c } as := by
  obtain ⟨hlive, hcurrent⟩ := h.awaiting as fun u => by simp [Awaits]
  refine ⟨hlive, ?_⟩
  simp only [Document.winner?_of_lost hc]
  exact hcurrent

/-- Whoever is to be told of a write of the field, the subscription is among them. -/
theorem Watching.took {c : Call} {origin : Origin} {os : List (Observer (Watchers α))}
    (hnoted : Noted b first ws before s (.call c :: as)) (h : Watching b base ws s (.call c :: as))
    (hc : s.document.accepted c = some (u, origin)) (hos : os.Perm (s.observers.filter (·.watches u.field))) :
    Watching b base ws { s with document := s.document.perform c } (os.map (fun o => .tell o u origin) ++ as) := by
  obtain ⟨o, ho, hid⟩ := h.live
  have hnew := Document.winner?_of_accepted hc b.field
  by_cases hu : b.field = u.field
  · have hmem : o ∈ os := hos.symm.subset (List.mem_filter.2 ⟨ho, (watches_iff (hnoted.own o ho hid)).2 hu⟩)
    refine ⟨h.live, .inr (.inl ⟨u, ⟨o, origin, List.mem_append_left _ (List.mem_map_of_mem hmem), hid⟩, ?_⟩)⟩
    rw [hnew, if_pos hu]
  · have hnone : ∀ o ∈ os, o.id ≠ b.id := fun o ho hid =>
      let ⟨hmem, hwatches⟩ := List.mem_filter.1 (hos.subset ho)
      hu ((watches_iff (hnoted.own o hmem hid)).1 hwatches)
    obtain ⟨hlive, hcurrent⟩ := h.awaiting (os.map (fun o => .tell o u origin) ++ as) fun w => by
      refine exists_congr fun o => exists_congr fun origin' => and_congr_left fun hid => ?_
      simp only [List.mem_cons, reduceCtorEq, false_or, List.mem_append, List.mem_map, Todo.tell.injEq]
      refine ⟨fun hm => hm.resolve_left ?_, .inr⟩
      rintro ⟨o', ho', rfl, -, -⟩
      exact hnone o' ho' hid
    refine ⟨hlive, ?_⟩
    simp only [hnew, if_neg hu]
    exact hcurrent

theorem Watching.told {o : Observer (Watchers α)} {origin : Origin} (h : Watching b base ws s (.tell o u origin :: as))
    (hid : o.id ≠ b.id) (requests : List Request) : Watching b base ws s (requests.map Request.todo ++ as) := by
  refine h.awaiting _ fun w => exists_congr fun o' => exists_congr fun origin' => and_congr_left fun hid' => ?_
  refine ⟨fun hm => List.mem_cons_of_mem _ (tell_mem_rest hm),
    fun hm => List.mem_append_right _ ((List.mem_cons.1 hm).resolve_left fun he => ?_)⟩
  obtain ⟨rfl, -⟩ := Todo.tell.inj he
  exact hid hid'

theorem Watching.stopped {i : Nat} (h : Watching b base ws s (.stop i :: as)) (hi : b.id ≠ i) :
    Watching b base ws (s.unobserve i) as := by
  obtain ⟨⟨o, ho, hid⟩, hcurrent⟩ := h.awaiting as fun u => by simp [Awaits]
  exact ⟨⟨o, List.mem_filter.2 ⟨ho, by simpa [hid] using hi⟩, hid⟩, hcurrent⟩

/-! ### One thing after the other -/

/-- The subscription is told of a write. -/
theorem Noted.told {o : Observer (Watchers α)} {origin : Origin} {callback : Callback α}
    (hsound : Sound before s (.tell o u origin :: as)) (h : Noted b first ws before s (.tell o u origin :: as))
    (hid : o.id = b.id) (requests : List Request) (t : List Happening) :
    Continues b first ws before t s (.tell o u origin :: as)
      { s with state := (s.state.offer callback o.id u origin).1 } (requests.map Request.todo ++ as) := by
  obtain ⟨-, hwatches, hrec, hknows⟩ := hsound.tells o u origin List.mem_cons_self
  have hu : u.field = b.field := ((watches_iff (h.tells o u origin List.mem_cons_self hid)).1 hwatches).symm
  obtain ⟨ws', hprefix, -, hnoted, hlast⟩ := (h.grown t).offer hu (hrec.mono (List.subset_append_left _ _)) hknows
    callback origin
  have hleft := hnoted.left (requests.map Request.todo ++ as) fun o u origin hm =>
    .inl (List.mem_cons_of_mem _ (tell_mem_rest hm))
  refine ⟨ws', hprefix, hid ▸ hleft, fun _ _ hw => ⟨hw.live, ?_⟩⟩
  rcases hw.current with hnow | ⟨w, ⟨o', origin', hm, hid'⟩, hnow⟩ | ⟨-, -, hnone⟩
  · exact .inl (hlast (.inr hnow))
  · rcases List.mem_cons.1 hm with he | hm
    · obtain ⟨-, rfl, -⟩ := Todo.tell.inj he
      exact .inl (hlast (.inl hnow))
    · exact .inr (.inl ⟨w, ⟨o', origin', List.mem_append_right _ hm, hid'⟩, hnow⟩)
  · exact absurd ⟨o, origin, List.mem_cons_self, hid⟩ (hnone u)

/-- Whatever is done, the subscription takes note of later writes only, and misses none that stays. -/
theorem Noted.does (hsound : Sound before s (a :: as)) (h : Noted b first ws before s (a :: as))
    (hdoes : Shared.Does s a t more s') : Continues b first ws before t s (a :: as) s' (more ++ as) := by
  cases hdoes with
  | @lost c hc =>
    have hleft := h.left as fun o u origin hm => .inl (List.mem_cons_of_mem _ hm)
    exact ⟨ws, List.prefix_rfl, (hleft.performed hsound.wellFormed c).grown _, fun _ _ hw => hw.lost hc⟩
  | @took c u origin os hc hos =>
    have hleft := h.left (os.map (fun o => .tell o u origin) ++ as) fun o w origin' hm => by
      rcases List.mem_append.1 hm with hm | hm
      · obtain ⟨o', ho', he⟩ := List.mem_map.1 hm
        obtain ⟨rfl, -, -⟩ := Todo.tell.inj he
        exact .inr (List.mem_filter.1 (hos.subset ho')).1
      · exact .inl (List.mem_cons_of_mem _ hm)
    exact ⟨ws, List.prefix_rfl, (hleft.performed hsound.wellFormed c).grown _, fun _ _ hw => hw.took h hc hos⟩
  | told o u origin =>
    obtain ⟨⟨-, callback, hcall⟩, -⟩ := hsound.tells o u origin List.mem_cons_self
    rw [hcall]
    by_cases hid : o.id = b.id
    · exact h.told hsound hid _ _
    · have hserved := h.others (Watchers.serves_offer callback o.id u origin s.state) (Ne.symm hid)
      refine ⟨ws, List.prefix_rfl, (hserved.left _ fun o u origin hm => ?_).grown _, fun _ _ hw => ?_⟩
      · exact .inl (List.mem_cons_of_mem _ (tell_mem_rest hm))
      · exact ⟨hw.live, (hw.told hid _).current⟩
  | stopped i =>
    have hleft := h.left as fun o u origin hm => .inl (List.mem_cons_of_mem _ hm)
    refine ⟨ws, List.prefix_rfl, Noted.grown ?_ _, fun _ hended hw => hw.stopped fun he => ?_⟩
    · exact { hleft with own := fun o ho => hleft.own o (List.mem_filter.1 ho).1 }
    · exact hended (List.mem_singleton.2 (congrArg Happening.ended he))

theorem Noted.runs (hsound : Sound before s as) (h : Noted b first ws before s as) (hruns : Shared.Runs s as t s') :
    Continues b first ws before t s as s' [] := by
  induction hruns generalizing before ws with
  | done s => exact ⟨ws, List.prefix_rfl, by rwa [List.append_nil], fun _ _ hw => hw⟩
  | next hdoes _ ih => exact (h.does hsound hdoes).trans (ih (hsound.does hdoes))

/-! ### Between calls -/

theorem Watching.reached (h : Watching b base ws s []) :
    s.document.winner? b.field = ws.getLast? ∨ ws = [] ∧ s.document.winner? b.field = base := by
  rcases h.current with h | ⟨_, ⟨_, _, hm, -⟩, -⟩ | ⟨hws, hbase, -⟩
  · exact .inl h
  · exact nomatch hm
  · exact .inr ⟨hws, hbase⟩

theorem Watching.todo (h : Watching b base ws s []) (has : ∀ o u origin, .tell o u origin ∉ as) :
    Watching b base ws s as :=
  ⟨h.live, h.reached.imp_right fun hreached =>
    .inr ⟨hreached.1, hreached.2, fun u ⟨o, origin, hm, _⟩ => has o u origin hm⟩⟩

/-- Calls are made, and requests are served, while nothing is yet to be told. -/
theorem Noted.untold (hsound : Sound before s []) (h : Noted b first ws before s [])
    (has : ∀ o u origin, .tell o u origin ∉ as) (hruns : Shared.Runs s as t s') :
    Continues b first ws before t s [] s' [] := by
  have htold : Noted b first ws before s as := { h with tells := fun o u origin hm => absurd hm (has o u origin) }
  obtain ⟨ws', hprefix, hnoted, hwatching⟩ := htold.runs (hsound.todo has) hruns
  exact ⟨ws', hprefix, hnoted, fun base hended hw => hwatching base hended (hw.todo has)⟩

/-- Another subscription is made. -/
theorem Noted.register (h : Noted b first ws before s []) (field : Option String) (x : Watch) (callback : Callback α) :
    Noted b first ws before (s.register field x callback).2 [] where
  given := Nat.lt_succ_of_lt h.given
  own o ho hid := by
    rcases List.mem_append.1 ho with ho | ho
    · exact h.own o ho hid
    · rw [List.mem_singleton.1 ho] at hid
      exact absurd hid h.given.ne'
  tells _ _ _ hm := nomatch hm
  watch := (Watchers.lookup_put ..).trans ((if_neg h.given.ne).trans h.watch)
  delivered := h.delivered
  ordered := h.ordered
  known := h.known

theorem Watching.register (h : Watching b base ws s []) (field : Option String) (x : Watch) (callback : Callback α) :
    Watching b base ws (s.register field x callback).2 [] := by
  obtain ⟨⟨o, ho, hid⟩, hcurrent⟩ := h
  exact ⟨⟨o, List.mem_append_left _ ho, hid⟩, hcurrent⟩

variable {field : String} {k : Kind} {default : Value} {callback : Callback α}

/-- Whatever comes between, and whatever else is subscribed to. -/
theorem Noted.goes (hsound : Sound before s []) (h : Noted b first ws before s []) (hgoes : Goes s t s') :
    Continues b first ws before t s [] s' [] := by
  refine (hgoes.keeps (I := fun t s' => Sound (before ++ t) s' [] ∧ Continues b first ws before t s [] s' [])
    (fun ⟨hsound, h⟩ has hruns => ?_) (fun field x callback ⟨hsound, h⟩ => ?_)
    (fun ⟨hsound, h⟩ hlater hi hserves => ?_) ?_).2
  · exact ⟨List.append_assoc .. ▸ (hsound.todo has).runs hruns, h.trans fun hnoted => hnoted.untold hsound has hruns⟩
  · obtain ⟨ws', hprefix, hnoted, hwatching⟩ := h
    exact ⟨hsound.register field x callback, ws', hprefix, hnoted.register field x callback,
      fun base hended hw => (hwatching base hended hw).register field x callback⟩
  · obtain ⟨ws', hprefix, hnoted, hwatching⟩ := h
    exact ⟨hsound.serves hi hserves, ws', hprefix, hnoted.others hserves (h.given.trans_le hlater).ne,
      fun base hended hw => ⟨(hwatching base hended hw).live, (hwatching base hended hw).current⟩⟩
  · rw [Continues, List.append_nil]
    exact ⟨hsound, ws, List.prefix_rfl, h, fun _ _ hw => hw⟩

/-! ### From the registration on -/

theorem noted_register (h : Sound before s []) (field : String) (k : Kind) (default : Value) (callback : Callback α) :
    Noted ⟨k, s.nextId, field, default⟩ [] [] before (s.register (some field) (k.watch default none) callback).2 []
      where
  given := Nat.lt_succ_self _
  own o ho hid := by
    rcases List.mem_append.1 ho with ho | ho
    · exact absurd hid (h.observers o ho).given.ne
    · rw [List.mem_singleton.1 ho]
  tells _ _ _ hm := nomatch hm
  watch := (Watchers.lookup_put ..).trans (if_pos rfl)
  delivered := by
    have hnone : s.delivered s.nextId = [] := List.map_eq_nil_iff.2 <| List.filter_eq_nil_iff.2 fun e he hid =>
      (h.log e he).ne (beq_iff_eq.1 hid)
    exact hnone.trans k.deliveries_nil.symm
  ordered := .nil
  known _ hw := nomatch hw

theorem watching_register (s : OutputStore α) (field : String) (k : Kind) (default : Value) (callback : Callback α) :
    Watching ⟨k, s.nextId, field, default⟩ (s.document.winner? field) []
      (s.register (some field) (k.watch default none) callback).2 [] where
  live := ⟨_, List.mem_append_right _ (List.mem_singleton_self _), rfl⟩
  current := .inr (.inr ⟨rfl, rfl, fun _ ⟨_, _, hm, _⟩ => nomatch hm⟩)

/-- A subscription is offered what was read for it, some time after. -/
theorem Noted.prime (h : Noted b [] ws t s []) (callback : Callback α) {read : Option FieldUpdate}
    (hread : ∀ u, read = some u → u.field = b.field ∧ Recorded t u ∧ s.document.Knows u) :
    ∃ first ws', (first = [] ∧ ws' ≠ [] ∨ first = b.kind.first b.default) ∧
      Noted b first ws' t { s with state := (s.state.prime callback b.id read b.default).1 } [] ∧
      (Watching b read ws s [] → s.document.winner? b.field = ws'.getLast?) := by
  cases read with
  | some u =>
    obtain ⟨hu, hrec, hknows⟩ := hread u rfl
    obtain ⟨ws', -, hne, hnoted, hlast⟩ := h.offer hu hrec hknows callback .own
    exact ⟨[], ws', .inl ⟨rfl, hne⟩, hnoted, fun hw => hlast (hw.reached.symm.imp_left (·.2))⟩
  | none =>
    have hlast (hw : Watching b none ws s []) : s.document.winner? b.field = ws.getLast? := by
      rcases hw.reached with hnow | ⟨rfl, hnow⟩ <;> exact hnow
    rcases List.eq_nil_or_concat' ws with rfl | ⟨init, last, rfl⟩
    · obtain ⟨hwatches, hdelivered⟩ := Watchers.offerDefault_first callback h.watch
      refine ⟨_, [], .inr rfl, { h with watch := hwatches.symm ▸ h.watch, delivered := ?_ }, hlast⟩
      have hnone : s.state.delivered b.id = [] := h.delivered.trans (by simp)
      exact hdelivered.trans (by simp [hnone])
    · have hlate := Watchers.offerDefault_late callback (List.getLast?_concat ▸ h.watch)
      refine ⟨[], _, .inl ⟨rfl, by simp⟩, ?_, hlast⟩
      unfold Watchers.prime
      rwa [hlate]

/-- By the time a subscription is made, it took note of what was read for it or of something later. -/
theorem noted_starts (hsound : Sound before s []) (hstarts : Starts s field k default callback t s') :
    ∃ first ws, (first = [] ∧ ws ≠ [] ∨ first = k.first default) ∧
      Noted ⟨k, s.nextId, field, default⟩ first ws (before ++ t) s' [] ∧
      (.ended s.nextId ∉ t → Watching ⟨k, s.nextId, field, default⟩ none ws s' []) := by
  cases hstarts with
  | @intro early late t₁ t₂ t₃ s₁ s₂ _ hearly hlate hrequests =>
    have hregistered := hsound.register (some field) (k.watch default none) callback
    have hread := (hregistered.todo fun _ _ _ => not_tell_mem_calls early).runs hearly
    have hoffered := (hread.todo fun _ _ _ => not_tell_mem_calls late).runs hlate
    have hgiven := (Nat.lt_succ_self s.nextId).trans_eq (hlate.nextId.trans hearly.nextId).symm
    have hprimed := hoffered.serves hgiven
      (Watchers.serves_prime callback s.nextId (s₁.document.winner? field) default s₂.state)
    obtain ⟨ws₁, -, hnoted₁, hwatching₁⟩ := (noted_register hsound field k default callback).untold hregistered
      (fun _ _ _ => not_tell_mem_calls early) hearly
    obtain ⟨ws₂, -, hnoted₂, hwatching₂⟩ := hnoted₁.untold hread (fun _ _ _ => not_tell_mem_calls late) hlate
    obtain ⟨first, ws₃, hbegun, hnoted₃, hlast⟩ := hnoted₂.prime callback fun u hu =>
      ⟨hread.wellFormed.field_of_winner? hu, (hread.recorded field u hu).mono (List.subset_append_left _ _),
        (hread.todo fun _ _ _ => not_tell_mem_calls late).knows_runs hlate (hread.wellFormed.knows_winner hu)⟩
    obtain ⟨ws, hprefix, hnoted, hwatching⟩ := hnoted₃.untold hprimed (fun _ _ _ => not_tell_mem_todos _) hrequests
    refine ⟨first, ws, hbegun.imp_left fun h => ⟨h.1, fun hnil => h.2 (List.prefix_nil.1 (hnil ▸ hprefix))⟩,
      by simpa only [List.append_assoc] using hnoted, fun hended => ?_⟩
    simp only [List.mem_append, not_or] at hended
    obtain ⟨⟨hended₁, hended₂⟩, hended₃⟩ := hended
    have hw₁ := hwatching₁ _ hended₁ (watching_register s field k default callback)
    -- what is read now is what stands there
    have hw₂ := hwatching₂ (s₁.document.winner? field) hended₂
      ⟨hw₁.live, hw₁.reached.imp_right fun h => .inr ⟨h.1, rfl, fun _ ⟨_, _, hm, _⟩ => nomatch hm⟩⟩
    exact hwatching none hended₃ ⟨hw₂.live, .inl (hlast hw₂)⟩

/-! ### In order, and up to date -/

variable {replica : String} {own : α} {s₀ s₁ : OutputStore α} {t₀ t₁ : List Happening}

/-- What a subscription took note of from its start on, in a store that began empty. -/
theorem noted_since (hbefore : Goes (empty replica own) t₀ s₀) (hstarts : Starts s₀ field k default callback t₁ s₁)
    (hafter : Goes s₁ t s) :
    ∃ first ws, (first = [] ∧ ws ≠ [] ∨ first = k.first default) ∧
      Noted ⟨k, s₀.nextId, field, default⟩ first ws (t₀ ++ t₁ ++ t) s [] ∧
      (.ended s₀.nextId ∉ t₁ ++ t → s.document.winner? field = ws.getLast?) := by
  have hsound := (sound_empty replica own).goes hbefore
  obtain ⟨first, ws₁, hbegun, hnoted₁, hwatching₁⟩ := noted_starts hsound hstarts
  obtain ⟨ws, hprefix, hnoted, hwatching⟩ := hnoted₁.goes (hsound.goes (.start .refl hstarts)) hafter
  refine ⟨first, ws, hbegun.imp_left fun h => ⟨h.1, fun hnil => h.2 (List.prefix_nil.1 (hnil ▸ hprefix))⟩, hnoted,
    fun hended => ?_⟩
  obtain ⟨hended₁, hended⟩ := not_or.1 fun hm => hended (List.mem_append.2 hm)
  rcases (hwatching none hended (hwatching₁ hended₁)).reached with hnow | ⟨rfl, hnow⟩ <;> exact hnow

/-- A subscriber is given the default at most once and before all else, and then values of writes that once stood under
its field, each later than the last; the first before subscribing returns. Unless it is ended, it was last given what
stands there. -/
theorem subscription_in_order (hbefore : Goes (empty replica own) t₀ s₀)
    (hstarts : Starts s₀ field .values default callback t₁ s₁) (hafter : Goes s₁ t s) :
    s₁.delivered s₀.nextId ≠ [] ∧
      (∃ (first : List Delivery) (ws : List FieldUpdate), (first = [] ∨ first = [.value default]) ∧
        s.delivered s₀.nextId = first ++ ws.map (fun w => .value w.value) ∧
        ws.Pairwise (fun w w' => w.clock < w'.clock) ∧ ∀ w ∈ ws, w.field = field ∧ Recorded (t₀ ++ t₁ ++ t) w) ∧
      (.ended s₀.nextId ∉ t₁ ++ t →
        (s.delivered s₀.nextId).getLast? = some (.value ((s.document.get? field).getD default))) := by
  refine ⟨?_, ?_, fun hended => ?_⟩
  · obtain ⟨first, ws, hbegun, hnoted, -⟩ := noted_since hbefore hstarts .refl
    rw [hnoted.delivered]
    rcases hbegun with ⟨-, hne⟩ | rfl
    · simpa [Kind.deliveries] using fun _ => hne
    · exact List.cons_ne_nil _ _
  · obtain ⟨first, ws, hbegun, hnoted, -⟩ := noted_since hbefore hstarts hafter
    exact ⟨first, ws, hbegun.imp_left And.left, hnoted.delivered, hnoted.ordered,
      fun w hw => ⟨(hnoted.known w hw).1, (hnoted.known w hw).2.1⟩⟩
  · obtain ⟨first, ws, hbegun, hnoted, hlast⟩ := noted_since hbefore hstarts hafter
    rw [hnoted.delivered, Document.get?, hlast hended]
    rcases List.eq_nil_or_concat' ws with rfl | ⟨init, last, rfl⟩
    · obtain rfl := hbegun.resolve_left fun h => h.2 rfl
      rfl
    · rw [Kind.deliveries_concat, ← List.append_assoc, List.getLast?_concat]
      exact List.getLast?_concat

/-- An observer that takes a value back as soon as it comes. -/
def takingBack : Callback Unit
  | .change ⟨"f", .bool true, _⟩ _, _ => ((), [.write "f" (.bool false)])
  | _, _ => ((), [])

theorem subscription_in_order_taken_back :
    let s₀ := ((empty "r" ()).observeAll takingBack).2
    let s₁ := (s₀.subscribe "f" .null .silent [] []).2
    ∃ t, ∃ s : OutputStore Unit, Shared.Runs s₁ [.call (.write "f" (.bool true))] t s ∧
      s₁.delivered 1 ≠ [] ∧ s.delivered 1 = [.value .null, .value (.bool false)] ∧
      (s.delivered 1).getLast? = some (.value ((s.document.get? "f").getD .null)) := by
  intro s₀ s₁
  -- the subscriber is told of the second write first
  have hruns : ∃ t, ∃ s : OutputStore Unit, Shared.Runs s₁ [.call (.write "f" (.bool true))] t s ∧ .ended 1 ∉ t ∧
      s.delivered 1 = [.value .null, .value (.bool false)] := by
    refine ⟨_, _, .next (.took rfl (.refl _)) <| .next (.told _ _ _) <| .next (.took rfl (.refl _)) <|
      .next (.told _ _ _) <| .next (.told _ _ _) <| .next (.told _ _ _) (.done _), ?_, rfl⟩
    simp
  obtain ⟨t, s, hruns, hended, hdelivered⟩ := hruns
  have hstarts : Starts s₀ "f" .values .null .silent [] s₁ :=
    @Starts.intro _ s₀ "f" .values .null .silent [] [] [] [] [] _ _ _ (.done _) (.done _) (.done _)
  obtain ⟨hne, -, hlast⟩ := subscription_in_order (.observe none takingBack .refl) hstarts (.call _ .refl hruns)
  exact ⟨t, s, hruns, hne, hdelivered, hlast hended⟩

end OutputStore

namespace OutputStore

variable {s s' s₀ s₁ : OutputStore α} {t t' t₀ t₁ before earlier later : List Happening} {a : Todo (Watchers α)}
  {as more : List (Todo (Watchers α))} {id : Nat} {u : FieldUpdate} {origin : Origin} {replica field : String}
  {own : α} {default : Value}

/-! ### After the end -/

def Taken (t : List Happening) (u : FieldUpdate) : Prop :=
  ∃ d, .took u d ∈ t

theorem Taken.mono (h : Taken t u) (hsub : t ⊆ t') : Taken t' u :=
  h.imp fun _ hd => hsub hd

/-- A subscription that was ended is told only of what was taken before. -/
structure Ended (id : Nat) (earlier later : List Happening) (s : OutputStore α) (as : List (Todo (Watchers α))) :
    Prop where
  told : ∀ u origin, .told id u origin ∈ later → Taken earlier u
  gone : ∀ o ∈ s.observers, o.id ≠ id
  tells : ∀ o u origin, .tell o u origin ∈ as → o.id = id → Taken earlier u

theorem Ended.does (h : Ended id earlier later s (a :: as)) (hdoes : Shared.Does s a t more s') :
    Ended id earlier (later ++ t) s' (more ++ as) := by
  have hrest : ∀ o u origin, .tell o u origin ∈ as → o.id = id → Taken earlier u := fun o u origin hm =>
    h.tells o u origin (List.mem_cons_of_mem _ hm)
  cases hdoes with
  | lost _ => exact ⟨by simpa using h.told, h.gone, hrest⟩
  | @took c v origin os _ hos =>
    refine ⟨by simpa using h.told, h.gone, fun o u origin' hm hid => ?_⟩
    rcases List.mem_append.1 hm with hm | hm
    · obtain ⟨o', ho', he⟩ := List.mem_map.1 hm
      obtain ⟨rfl, -, -⟩ := Todo.tell.inj he
      exact absurd hid (h.gone _ (List.mem_filter.1 (hos.subset ho')).1)
    · exact hrest o u origin' hm hid
  | told o v origin =>
    refine ⟨fun u origin' hm => ?_, h.gone, fun o' u origin' hm => hrest o' u origin' (tell_mem_rest hm)⟩
    rcases List.mem_append.1 hm with hm | hm
    · exact h.told u origin' hm
    · obtain ⟨hid, rfl, -⟩ := Happening.told.inj (List.mem_singleton.1 hm)
      exact h.tells o u origin List.mem_cons_self hid.symm
  | stopped i => exact ⟨by simpa using h.told, fun o ho => h.gone o (List.mem_filter.1 ho).1, hrest⟩

/-- Whatever is told was taken before, and whenever a subscription was ended, it is so from then on. -/
structure Ending (id : Nat) (t : List Happening) (s : OutputStore α) (as : List (Todo (Watchers α))) : Prop where
  tells : ∀ o u origin, .tell o u origin ∈ as → Taken t u
  ended : ∀ earlier later, t = earlier ++ .ended id :: later → Ended id earlier later s as

theorem Ending.does (h : Ending id before s (a :: as)) (hdoes : Shared.Does s a t more s') :
    Ending id (before ++ t) s' (more ++ as) := by
  have hrest : ∀ o u origin, .tell o u origin ∈ as → Taken before u := fun o u origin hm =>
    h.tells o u origin (List.mem_cons_of_mem _ hm)
  refine ⟨fun o u origin hm => ?_, fun earlier later hsplit => ?_⟩
  · rcases List.mem_append.1 hm with hm | hm
    · cases hdoes with
      | took _ _ =>
        obtain ⟨o', -, he⟩ := List.mem_map.1 hm
        obtain ⟨-, rfl, -⟩ := Todo.tell.inj he
        exact ⟨_, List.mem_append_right _ (List.mem_singleton_self _)⟩
      | told => exact absurd hm (not_tell_mem_todos _)
      | lost | stopped => exact nomatch hm
    · exact (hrest o u origin hm).mono (List.subset_append_left _ _)
  · -- it is ended just now, or it was before
    have hnow : ∀ l, earlier = before ++ l → t = l ++ .ended id :: later → Ended id earlier later s' (more ++ as) := by
      rintro l rfl rfl
      obtain ⟨ht, rfl, rfl⟩ := hdoes.of_ended (List.mem_append_right l List.mem_cons_self)
      obtain ⟨rfl, rfl⟩ : l = [] ∧ later = [] := by simpa [List.append_eq_singleton_iff] using ht
      exact ⟨fun _ _ hm => (nomatch hm), fun o ho => by simpa using (List.mem_filter.1 ho).2,
        fun o u origin hm _ => (hrest o u origin hm).mono (List.subset_append_left _ _)⟩
    rcases List.append_eq_append_iff.1 hsplit with ⟨l, hearlier, ht⟩ | ⟨l, hbefore, hl⟩
    · exact hnow l hearlier ht
    · rcases List.cons_eq_append_iff.1 hl with ⟨rfl, ht⟩ | ⟨l', rfl, rfl⟩
      · exact hnow [] (by simpa using hbefore.symm) ht
      · exact (h.ended earlier l' hbefore).does hdoes

theorem Ending.runs (h : Ending id before s []) (has : ∀ o u origin, .tell o u origin ∉ as)
    (hruns : Shared.Runs s as t s') : Ending id (before ++ t) s' [] := by
  refine hruns.keeps before Ending.does
    ⟨fun o u origin hm => absurd hm (has o u origin), fun earlier later hsplit => ?_⟩
  obtain ⟨htold, hgone, -⟩ := h.ended earlier later hsplit
  exact ⟨htold, hgone, fun o u origin hm => absurd hm (has o u origin)⟩

theorem Ending.register (h : Ending id before s []) (hgiven : id < s.nextId) (field : Option String) (x : Watch)
    (callback : Callback α) : Ending id before (s.register field x callback).2 [] := by
  refine ⟨fun _ _ _ hm => (nomatch hm), fun earlier later hsplit => ?_⟩
  obtain ⟨htold, hgone, -⟩ := h.ended earlier later hsplit
  refine ⟨htold, fun o ho => ?_, fun _ _ _ hm => nomatch hm⟩
  rcases List.mem_append.1 ho with ho | ho
  · exact hgone o ho
  · rw [List.mem_singleton.1 ho]
    exact hgiven.ne'

theorem Ending.serves (h : Ending id before s []) (w : Watchers α) : Ending id before { s with state := w } [] := by
  refine ⟨fun _ _ _ hm => (nomatch hm), fun earlier later hsplit => ?_⟩
  obtain ⟨htold, hgone, -⟩ := h.ended earlier later hsplit
  exact ⟨htold, hgone, fun _ _ _ hm => nomatch hm⟩

/-- Once a subscription is ended, it is told of nothing but what was taken before, whoever ended it and when. -/
theorem told_after_end (hgiven : id < s₀.nextId) (hgoes : Goes s₀ (earlier ++ .ended id :: later) s)
    (htold : .told id u origin ∈ later) : Taken earlier u := by
  have hending : Ending id (earlier ++ .ended id :: later) s [] ∧ id < s.nextId := by
    refine hgoes.keeps (I := fun t s => Ending id t s [] ∧ id < s.nextId)
      (fun ⟨h, hid⟩ has hruns => ⟨h.runs has hruns, hid.trans_eq hruns.nextId.symm⟩)
      (fun field x callback ⟨h, hid⟩ => ⟨h.register hid field x callback, Nat.lt_succ_of_lt hid⟩)
      (fun ⟨h, hid⟩ _ _ _ => ⟨h.serves _, hid⟩) ⟨⟨fun _ _ _ hm => (nomatch hm), fun earlier later hsplit => ?_⟩, hgiven⟩
    exact nomatch (List.append_eq_nil_iff.1 hsplit.symm).2
  exact (hending.1.ended earlier later rfl).told u origin htold

/-- An observer that ends the subscription after its own. -/
def endingNext : Callback Unit :=
  fun _ _ => ((), [.unsubscribe 1])

/-- A subscription may be given a value after it was ended: one that was taken before, and is still being told. -/
theorem told_while_ending :
    let s := (((empty "r" ()).observeAll endingNext).2.observeAll .silent).2
    ∃ u d, ∃ s' : OutputStore Unit,
      Shared.Runs s [.call (.write "f" .null)] [.took u d, .told 0 u .own, .ended 1, .told 1 u .own] s' ∧
        s'.isObserved 1 = false ∧ (s'.delivered 1).length = 1 :=
  ⟨_, _, _, .next (.took rfl (.refl _)) <| .next (.told _ _ _) <| .next (.stopped _) <| .next (.told _ _ _) (.done _),
    rfl, rfl⟩

/-! ### Ended at rest -/

theorem Goes.trans (h : Goes s₀ t s) (h' : Goes s t' s') : Goes s₀ (t ++ t') s' := by
  induction h' with
  | refl => rwa [List.append_nil]
  | call c _ hcall ih => exact List.append_assoc .. ▸ ih.call c hcall
  | start _ hstarts ih => exact List.append_assoc .. ▸ ih.start hstarts
  | observe field callback _ ih => exact ih.observe field callback
  | stop id _ ih => exact List.append_assoc .. ▸ ih.stop id

/-- What is kept for a subscription, and what was delivered to it, is as before. -/
def Alike (id : Nat) (s s' : OutputStore α) : Prop :=
  s'.state.watches.lookup id = s.state.watches.lookup id ∧ s'.delivered id = s.delivered id

theorem Sound.alike_does (h : Sound before s (a :: as)) (hdoes : Shared.Does s a t more s')
    (htold : ∀ u origin, .told id u origin ∉ t) : Alike id s s' := by
  cases hdoes with
  | lost | took | stopped => exact ⟨rfl, rfl⟩
  | told o u origin =>
    obtain ⟨⟨-, callback, hcall⟩, -⟩ := h.tells o u origin List.mem_cons_self
    have hid : id ≠ o.id := fun he => htold u origin (he ▸ List.mem_singleton_self _)
    rw [hcall]
    exact (Watchers.serves_offer callback o.id u origin s.state).others id hid

theorem Sound.alike_runs (h : Sound before s as) (hruns : Shared.Runs s as t s')
    (htold : ∀ u origin, .told id u origin ∉ t) : Alike id s s' := by
  induction hruns generalizing before with
  | done s => exact ⟨rfl, rfl⟩
  | next hdoes _ ih =>
    have hfirst := h.alike_does hdoes fun u origin hm => htold u origin (List.mem_append_left _ hm)
    have hrest := ih (h.does hdoes) fun u origin hm => htold u origin (List.mem_append_right _ hm)
    exact ⟨hrest.1.trans hfirst.1, hrest.2.trans hfirst.2⟩

/-- Nothing but being told changes what a subscription has. -/
theorem Sound.alike_goes (h : Sound before s₀ []) (hgiven : id < s₀.nextId) (hgoes : Goes s₀ t s)
    (htold : ∀ u origin, .told id u origin ∉ t) : Alike id s₀ s := by
  refine (hgoes.keeps (I := fun t s => Sound (before ++ t) s [] ∧ id < s.nextId ∧
      ((∀ u origin, .told id u origin ∉ t) → Alike id s₀ s))
    (fun ⟨hsound, hid, h⟩ has hruns => ?_) (fun field x callback ⟨hsound, hid, h⟩ => ?_)
    (fun ⟨hsound, hid, h⟩ hlater hi hserves => ?_) ⟨by rwa [List.append_nil], hgiven, fun _ => ⟨rfl, rfl⟩⟩).2.2 htold
  · refine ⟨List.append_assoc .. ▸ (hsound.todo has).runs hruns, hid.trans_eq hruns.nextId.symm, fun htold => ?_⟩
    have hfirst := h fun u origin hm => htold u origin (List.mem_append_left _ hm)
    have hrest := (hsound.todo has).alike_runs hruns fun u origin hm => htold u origin (List.mem_append_right _ hm)
    exact ⟨hrest.1.trans hfirst.1, hrest.2.trans hfirst.2⟩
  · refine ⟨hsound.register field x callback, Nat.lt_succ_of_lt hid, fun htold => ?_⟩
    exact ⟨(Watchers.lookup_put ..).trans ((if_neg hid.ne).trans (h htold).1), (h htold).2⟩
  · refine ⟨hsound.serves hi hserves, hid, fun htold => ?_⟩
    obtain ⟨hwatch, hdelivered⟩ := hserves.others id (hgiven.trans_le hlater).ne
    exact ⟨hwatch.trans (h htold).1, hdelivered.trans (h htold).2⟩

theorem Sound.alike_after_end (h : Sound before s []) (hgiven : id < s.nextId) (hgoes : Goes (s.unobserve id) t s') :
    Alike id s s' := by
  refine (h.goes (Goes.refl.stop id)).alike_goes hgiven hgoes fun u origin hm => ?_
  obtain ⟨_, hd⟩ : Taken [] u := told_after_end hgiven ((Goes.refl.stop id).trans hgoes) hm
  exact nomatch hd

/-! ### Output fields -/

/-- At rest, an output field that is not ended shows what stands under its field, or the default; and once it is ended
at rest, it shows the same for ever. -/
theorem field_shows_document (hbefore : Goes (empty replica own) t₀ s₀)
    (hstarts : Starts s₀ field .field default .silent t₁ s₁) (hafter : Goes s₁ t s) :
    (.ended s₀.nextId ∉ t₁ ++ t → s.fieldValue s₀.nextId = (s.document.get? field).getD default) ∧
      ∀ t' s', Goes (s.unobserve s₀.nextId) t' s' → s'.fieldValue s₀.nextId = s.fieldValue s₀.nextId := by
  obtain ⟨first, ws, -, hnoted, hlast⟩ := noted_since hbefore hstarts hafter
  refine ⟨fun hended => ?_, fun t' s' hgoes => ?_⟩
  · rw [fieldValue, hnoted.watch, Document.get?, hlast hended]
    rfl
  · have hsound := ((sound_empty replica own).goes hbefore).goes ((Goes.refl.start hstarts).trans hafter)
    rw [fieldValue, fieldValue, (hsound.alike_after_end hnoted.given hgoes).1]

theorem field_shows_document_taken_back :
    let s₀ := ((empty "r" ()).observeAll takingBack).2
    let s₁ := (s₀.useField "f" .null [] []).2
    ∃ t, ∃ s : OutputStore Unit, Shared.Runs s₁ [.call (.write "f" (.bool true))] t s ∧
      s₁.fieldValue 1 = .null ∧ s.fieldValue 1 = .bool false ∧
      s.fieldValue 1 = (s.document.get? "f").getD .null ∧
      ∀ t' s', Goes (s.unobserve 1) t' s' → s'.fieldValue 1 = s.fieldValue 1 := by
  intro s₀ s₁
  have hruns : ∃ t, ∃ s : OutputStore Unit, Shared.Runs s₁ [.call (.write "f" (.bool true))] t s ∧ .ended 1 ∉ t ∧
      s.fieldValue 1 = .bool false := by
    refine ⟨_, _, .next (.took rfl (.refl _)) <| .next (.told _ _ _) <| .next (.took rfl (.refl _)) <|
      .next (.told _ _ _) <| .next (.told _ _ _) <| .next (.told _ _ _) (.done _), ?_, rfl⟩
    simp
  obtain ⟨t, s, hruns, hended, hshown⟩ := hruns
  have hstarts : Starts s₀ "f" .field .null .silent [] s₁ :=
    @Starts.intro _ s₀ "f" .field .null .silent [] [] [] [] [] _ _ _ (.done _) (.done _) (.done _)
  obtain ⟨hcurrent, hstays⟩ := field_shows_document (.observe none takingBack .refl) hstarts (.call _ .refl hruns)
  exact ⟨t, s, hruns, rfl, hshown, hcurrent hended, hstays⟩

end OutputStore

end SecureLayout.Collab
