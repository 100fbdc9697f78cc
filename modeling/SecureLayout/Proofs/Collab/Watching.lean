import SecureLayout.Collab.Store
import SecureLayout.Proofs.Collab.Unfolding

/-!
Stores with subscriptions, through any number of calls, subscriptions and their ends. Main statement: whatever is told
of, or stands under a field, came to stand there at some time; and an offer concerns no subscription but its own.
-/

namespace SecureLayout.Collab

open Json (Value)
open Wire (Clock FieldUpdate)

variable {α : Type}

/-- What a subscription to one field is for: values as they come, or a value to look at. -/
inductive Kind where
  | values
  | field

namespace Kind

/-- What is kept once `last` was the last write to be taken note of. -/
def watch (k : Kind) (default : Value) (last : Option FieldUpdate) : Watch :=
  match k with
  | .values => .values (last.map (·.clock))
  | .field => .slot (last.map (·.clock)) ((last.map (·.value)).getD default)

/-- What comes of the writes that are taken note of. -/
def deliveries (k : Kind) (ws : List FieldUpdate) : List Delivery :=
  match k with
  | .values => ws.map fun w => .value w.value
  | .field => []

/-- What is delivered where no write was found. -/
def first (k : Kind) (default : Value) : List Delivery :=
  match k with
  | .values => [.value default]
  | .field => []

@[simp]
theorem deliveries_nil (k : Kind) : k.deliveries [] = [] := by
  cases k <;> rfl

theorem deliveries_concat (k : Kind) (ws : List FieldUpdate) (u : FieldUpdate) :
    k.deliveries (ws ++ [u]) = k.deliveries ws ++ k.deliveries [u] := by
  cases k with
  | values => exact List.map_append
  | field => rfl

end Kind

/-! ### Offers -/

namespace Watchers

variable {w : Watchers α} {id i : Nat} {u : FieldUpdate} {last : Option FieldUpdate} {k : Kind} {default : Value}

/-- What was delivered to one subscription. -/
def delivered (w : Watchers α) (id : Nat) : List Delivery :=
  (w.log.filter (·.1 == id)).map (·.2)

theorem delivered_concat (w : Watchers α) (id i : Nat) (d : Delivery) (own : α) :
    ({ w with log := w.log ++ [(i, d)], own } : Watchers α).delivered id =
      if i = id then w.delivered id ++ [d] else w.delivered id := by
  by_cases h : i = id <;> simp [delivered, h]

theorem lookup_filter {i id : Nat} (h : id ≠ i) (ws : List (Nat × Watch)) :
    (ws.filter (·.1 != i)).lookup id = ws.lookup id := by
  induction ws with
  | nil => rfl
  | cons y ws ih =>
    obtain ⟨j, x⟩ := y
    by_cases hj : j = i
    · have hid : (id == j) = false := beq_eq_false_iff_ne.2 (hj ▸ h)
      rw [List.filter_cons_of_neg (by simpa using hj), List.lookup_cons, hid]
      exact ih
    · rw [List.filter_cons_of_pos (by simpa using hj), List.lookup_cons, List.lookup_cons, ih]

theorem lookup_put (w : Watchers α) (i id : Nat) (x : Watch) :
    (w.put i x).watches.lookup id = if id = i then some x else w.watches.lookup id := by
  unfold put
  dsimp only
  split
  · next h => rw [h, List.lookup_cons_self]
  · next h => rw [List.lookup_cons, beq_eq_false_iff_ne.2 h, lookup_filter h]

/-- Subscription `i` was served, if any. -/
structure Serves (i : Nat) (w w' : Watchers α) : Prop where
  others : ∀ id, id ≠ i → w'.watches.lookup id = w.watches.lookup id ∧ w'.delivered id = w.delivered id
  log : ∀ e ∈ w'.log, e ∈ w.log ∨ e.1 = i

theorem serves_refl (i : Nat) (w : Watchers α) : Serves i w w :=
  ⟨fun _ _ => ⟨rfl, rfl⟩, fun _ he => .inl he⟩

theorem serves_put (i : Nat) (x : Watch) (w : Watchers α) : Serves i w (w.put i x) :=
  ⟨fun id hid => ⟨by rw [lookup_put, if_neg hid], rfl⟩, fun _ he => .inl he⟩

theorem serves_deliver (callback : Callback α) (i : Nat) (d : Delivery) (w : Watchers α) :
    Serves i w (w.deliver callback i d).1 := by
  refine ⟨fun id hid => ⟨rfl, ?_⟩, fun e he => ?_⟩
  · exact (delivered_concat w id i d _).trans (if_neg hid.symm)
  · rcases List.mem_append.1 he with he | he
    · exact .inl he
    · exact .inr (List.mem_singleton.1 he ▸ rfl)

theorem Serves.trans {w' w'' : Watchers α} (h : Serves i w w') (h' : Serves i w' w'') : Serves i w w'' := by
  refine ⟨fun id hid => ?_, fun e he => ?_⟩
  · exact ⟨(h'.others id hid).1.trans (h.others id hid).1, (h'.others id hid).2.trans (h.others id hid).2⟩
  · exact (h'.log e he).elim (h.log e) .inr

theorem serves_offer (callback : Callback α) (i : Nat) (u : FieldUpdate) (origin : Origin) (w : Watchers α) :
    Serves i w (w.offer callback i u origin).1 := by
  unfold offer
  split
  · exact serves_deliver ..
  · split
    · exact (serves_put ..).trans (serves_deliver ..)
    · exact serves_refl ..
  · split
    · exact serves_put ..
    · exact serves_refl ..
  · exact serves_refl ..

theorem serves_prime (callback : Callback α) (i : Nat) (read : Option FieldUpdate) (default : Value) (w : Watchers α) :
    Serves i w (w.prime callback i read default).1 := by
  cases read with
  | some u => exact serves_offer ..
  | none =>
    unfold prime offerDefault
    dsimp only
    split
    · exact serves_deliver ..
    · exact serves_refl ..

/-- A write that is later than the last one is taken note of. -/
theorem offer_later (callback : Callback α) (origin : Origin) (h : w.watches.lookup id = some (k.watch default last))
    (hlater : isLater (last.map (·.clock)) u.clock = true) :
    (w.offer callback id u origin).1.watches.lookup id = some (k.watch default (some u)) ∧
      (w.offer callback id u origin).1.delivered id = w.delivered id ++ k.deliveries [u] := by
  cases k with
  | values =>
    simp only [offer, h, Kind.watch, hlater, if_true]
    exact ⟨(lookup_put ..).trans (if_pos rfl), (delivered_concat ..).trans (if_pos rfl)⟩
  | field =>
    simp only [offer, h, Kind.watch, hlater, if_true]
    exact ⟨(lookup_put ..).trans (if_pos rfl), (List.append_nil _).symm⟩

/-- One that is not is passed over. -/
theorem offer_stale (callback : Callback α) (origin : Origin) (h : w.watches.lookup id = some (k.watch default last))
    (hstale : isLater (last.map (·.clock)) u.clock = false) : w.offer callback id u origin = (w, []) := by
  cases k <;> simp only [offer, h, Kind.watch, hstale, Bool.false_eq_true, if_false]

/-- The default goes before the first write that is taken note of, -/
theorem offerDefault_first (callback : Callback α) (h : w.watches.lookup id = some (k.watch default none)) :
    (w.offerDefault callback id default).1.watches = w.watches ∧
      (w.offerDefault callback id default).1.delivered id = w.delivered id ++ k.first default := by
  cases k with
  | values =>
    simp only [offerDefault, h, Kind.watch, Option.map_none]
    exact ⟨rfl, (delivered_concat ..).trans (if_pos rfl)⟩
  | field =>
    simp only [offerDefault, h, Kind.watch]
    exact ⟨trivial, (List.append_nil _).symm⟩

/-- and never after one. -/
theorem offerDefault_late (callback : Callback α) (h : w.watches.lookup id = some (k.watch default (some u))) :
    w.offerDefault callback id default = (w, []) := by
  cases k <;> simp only [offerDefault, h, Kind.watch, Option.map_some]

end Watchers

/-! ### Histories -/

/-- At some time, a write came to stand under its field. -/
def Recorded (t : List Happening) (u : FieldUpdate) : Prop :=
  ∃ d, .took u d ∈ t ∧ d.winner? u.field = some u

theorem Recorded.mono {t t' : List Happening} {u : FieldUpdate} (h : Recorded t u) (hsub : t ⊆ t') : Recorded t' u :=
  let ⟨d, hd, hw⟩ := h
  ⟨d, hsub hd, hw⟩

namespace OutputStore

variable {s s' s₀ : OutputStore α} {t : List Happening} {field : String} {default : Value} {callback : Callback α}

/-- A store on a new document, for subscribers in state `own`. -/
def empty (replica : String) (own : α) : OutputStore α :=
  { document := { replica }, state := { own } }

/-- What was delivered to one subscription. -/
def delivered (s : OutputStore α) (id : Nat) : List Delivery :=
  s.state.delivered id

/-- `start`, with those who watch a field told in any order; it tells them in the order in which they came
(`starts_start`). -/
inductive Starts (s : OutputStore α) (field : String) (k : Kind) (default : Value) (callback : Callback α) :
    List Happening → OutputStore α → Prop
  | intro {early late : List Call} {t t' t'' : List Happening} {s₁ s₂ s₃ : OutputStore α} :
      Shared.Runs (s.register (some field) (k.watch default none) callback).2 (early.map .call) t s₁ →
      Shared.Runs s₁ (late.map .call) t' s₂ →
      Shared.Runs
        { s₂ with state := (s₂.state.prime callback s.nextId (s₁.document.winner? field) default).1 }
        ((s₂.state.prime callback s.nextId (s₁.document.winner? field) default).2.map Request.todo) t'' s₃ →
      Starts s field k default callback (t ++ t' ++ t'') s₃

/-- Calls, subscriptions and their ends, one after the other, with those who watch a field told in any order. -/
inductive Goes (s : OutputStore α) : List Happening → OutputStore α → Prop
  | refl : Goes s [] s
  | call {t t' : List Happening} {s₁ s₂ : OutputStore α} (c : Call) :
      Goes s t s₁ → Shared.Runs s₁ [.call c] t' s₂ → Goes s (t ++ t') s₂
  | start {t t' : List Happening} {s₁ s₂ : OutputStore α} {field : String} {k : Kind} {default : Value}
      {callback : Callback α} :
      Goes s t s₁ → Starts s₁ field k default callback t' s₂ → Goes s (t ++ t') s₂
  | observe {t : List Happening} {s₁ : OutputStore α} (field : Option String) (callback : Callback α) :
      Goes s t s₁ → Goes s t (s₁.register field .changes callback).2
  | stop {t : List Happening} {s₁ : OutputStore α} (id : Nat) :
      Goes s t s₁ → Goes s (t ++ [.ended id]) (s₁.unobserve id)

/-- What is kept by all that is asked for at rest, by a further subscription, and when one is served that came later,
is kept throughout. -/
theorem Goes.keeps {I : List Happening → OutputStore α → Prop}
    (hruns : ∀ {t s as t' s'}, I t s → (∀ o u origin, .tell o u origin ∉ as) → Shared.Runs s as t' s' → I (t ++ t') s')
    (hregister : ∀ {t s} field x callback, I t s → I t (s.register field x callback).2)
    (hserves : ∀ {t s i w}, I t s → s₀.nextId ≤ i → i < s.nextId → Watchers.Serves i s.state w →
      I t { s with state := w })
    (hgoes : Goes s₀ t s) (h : I [] s₀) : I t s := by
  suffices I t s ∧ s₀.nextId ≤ s.nextId from this.1
  induction hgoes with
  | refl => exact ⟨h, le_rfl⟩
  | call c _ hcall ih => exact ⟨hruns ih.1 (fun _ _ _ hm => by simp at hm) hcall, ih.2.trans_eq hcall.nextId.symm⟩
  | observe field callback _ ih => exact ⟨hregister field _ callback ih.1, ih.2.trans (Nat.le_succ _)⟩
  | stop id _ ih => exact ⟨hruns ih.1 (fun _ _ _ hm => by simp at hm) (.single (.stopped id) (.done _)), ih.2⟩
  | @start t _ s₁ _ field k default callback _ hstarts ih =>
    cases hstarts with
    | @intro early late t₁ t₂ t₃ s₂ s₃ _ hearly hlate hrequests =>
      have hread := hruns (hregister (some field) (k.watch default none) callback ih.1)
        (fun _ _ _ => not_tell_mem_calls early) hearly
      have hoffered := hruns hread (fun _ _ _ => not_tell_mem_calls late) hlate
      have hgiven : s₃.nextId = s₁.nextId + 1 := hlate.nextId.trans hearly.nextId
      have hprimed := hserves hoffered ih.2 (hgiven ▸ Nat.lt_succ_self _)
        (Watchers.serves_prime callback s₁.nextId (s₂.document.winner? field) default s₃.state)
      have hdone := hruns hprimed (fun _ _ _ => not_tell_mem_todos _) hrequests
      refine ⟨by simpa only [List.append_assoc] using hdone, ih.2.trans ?_⟩
      rw [hrequests.nextId]
      exact hgiven ▸ Nat.le_succ _

theorem starts_start (s : OutputStore α) (field : String) (k : Kind) (default : Value) (callback : Callback α)
    (early late : List Call) :
    ∃ t, Starts s field k default callback t
      (s.start field (k.watch default none) default callback early late).2 := by
  obtain ⟨t, hearly⟩ := (s.register (some field) (k.watch default none) callback).2.runs_performAll early
  obtain ⟨t', hlate⟩ := Shared.runs_performAll _ late
  obtain ⟨t'', hrequests⟩ := Shared.runs_requests _ _
  exact ⟨_, .intro hearly hlate hrequests⟩

/-- Subscribing to a field is one way to start. -/
theorem starts_subscribe (s : OutputStore α) (field : String) (default : Value) (callback : Callback α)
    (early late : List Call) :
    ∃ t, Starts s field .values default callback t (s.subscribe field default callback early late).2 :=
  s.starts_start field .values default callback early late

theorem starts_useField (s : OutputStore α) (field : String) (default : Value) (early late : List Call) :
    ∃ t, Starts s field .field default .silent t (s.useField field default early late).2 :=
  s.starts_start field .field default .silent early late

theorem goes_perform {t : List Happening} {s₀ : OutputStore α} (h : Goes s₀ t s) (c : Call) :
    ∃ t', Goes s₀ (t ++ t') (s.perform c) :=
  let ⟨t', hc⟩ := Shared.runs_perform s c
  ⟨t', h.call c hc⟩

/-! ### What holds at any time -/

/-- An observer by which a subscription is offered what is told. -/
structure Offers (n : Nat) (o : Observer (Watchers α)) : Prop where
  given : o.id < n
  call : ∃ callback, o.call = Watchers.offer callback o.id

/-- Whatever is still to be told was written some time and is no later than what stands under its field. -/
structure Sound (t : List Happening) (s : OutputStore α) (as : List (Todo (Watchers α))) : Prop where
  wellFormed : s.document.WellFormed
  recorded : ∀ field u, s.document.winner? field = some u → Recorded t u
  observers : ∀ o ∈ s.observers, Offers s.nextId o
  tells : ∀ o u origin, .tell o u origin ∈ as →
    Offers s.nextId o ∧ o.watches u.field = true ∧ Recorded t u ∧ s.document.Knows u
  log : ∀ e ∈ s.state.log, e.1 < s.nextId

variable {t' before : List Happening} {a : Todo (Watchers α)} {as more : List (Todo (Watchers α))}

theorem sound_empty (replica : String) (own : α) : Sound [] (empty replica own) [] where
  wellFormed := (Document.Reachable.new replica).wellFormed
  recorded _ _ h := nomatch h
  observers _ h := nomatch h
  tells _ _ _ h := nomatch h
  log _ h := nomatch h

theorem Sound.does (h : Sound before s (a :: as)) (hdoes : Shared.Does s a t more s') :
    Sound (before ++ t) s' (more ++ as) := by
  have hgrown : before ⊆ before ++ t := List.subset_append_left before t
  cases hdoes with
  | lost hc =>
    refine ⟨h.wellFormed.perform _, fun field u hw => ?_, h.observers, fun o u origin hm => ?_, h.log⟩
    · exact (h.recorded field u (Document.winner?_of_lost hc field ▸ hw)).mono hgrown
    · obtain ⟨hoffers, hwatches, hrec, hknows⟩ := h.tells o u origin (List.mem_cons_of_mem _ hm)
      exact ⟨hoffers, hwatches, hrec.mono hgrown, hknows.perform h.wellFormed _⟩
  | @took c v origin os hc hos =>
    have hv : Recorded (before ++ [.took v (s.document.perform c)]) v :=
      ⟨_, List.mem_append_right _ (List.mem_singleton_self _), by rw [Document.winner?_of_accepted hc, if_pos rfl]⟩
    refine ⟨h.wellFormed.perform _, fun field u hw => ?_, h.observers, fun o u origin hm => ?_, h.log⟩
    · have hw' := Document.winner?_of_accepted hc field
      rw [hw] at hw'
      split at hw'
      · exact Option.some.inj hw' ▸ hv
      · exact (h.recorded field u hw'.symm).mono hgrown
    · rcases List.mem_append.1 hm with hm | hm
      · obtain ⟨o', ho', he⟩ := List.mem_map.1 hm
        obtain ⟨rfl, rfl, rfl⟩ := Todo.tell.inj he
        obtain ⟨hmem, hwatches⟩ := List.mem_filter.1 (hos.subset ho')
        exact ⟨h.observers _ hmem, hwatches, hv, Document.knows_of_accepted hc⟩
      · obtain ⟨hoffers, hwatches, hrec, hknows⟩ := h.tells o u origin (List.mem_cons_of_mem _ hm)
        exact ⟨hoffers, hwatches, hrec.mono hgrown, hknows.perform h.wellFormed _⟩
  | told o v origin =>
    obtain ⟨⟨hgiven, callback, hcall⟩, -⟩ := h.tells o v origin List.mem_cons_self
    refine ⟨h.wellFormed, fun field u hw => (h.recorded field u hw).mono hgrown, h.observers,
      fun o' u origin' hm => ?_, fun e he => ?_⟩
    · obtain ⟨hoffers, hwatches, hrec, hknows⟩ := h.tells o' u origin' (List.mem_cons_of_mem _ (tell_mem_rest hm))
      exact ⟨hoffers, hwatches, hrec.mono hgrown, hknows⟩
    · rw [hcall] at he
      exact ((Watchers.serves_offer callback o.id v origin s.state).log e he).elim (h.log e) (· ▸ hgiven)
  | stopped id =>
    refine ⟨h.wellFormed, fun field u hw => (h.recorded field u hw).mono hgrown,
      fun o ho => h.observers o (List.mem_filter.1 ho).1, fun o u origin hm => ?_, h.log⟩
    obtain ⟨hoffers, hwatches, hrec, hknows⟩ := h.tells o u origin (List.mem_cons_of_mem _ hm)
    exact ⟨hoffers, hwatches, hrec.mono hgrown, hknows⟩

theorem Sound.runs (h : Sound before s as) (hruns : Shared.Runs s as t s') : Sound (before ++ t) s' [] :=
  hruns.keeps before Sound.does h

theorem Sound.knows_runs (h : Sound before s as) (hruns : Shared.Runs s as t s') {u : FieldUpdate}
    (hu : s.document.Knows u) : s'.document.Knows u := by
  refine (hruns.keeps (I := fun before s as => Sound before s as ∧ s.document.Knows u) before (fun ⟨hs, hu⟩ hdoes => ?_)
    ⟨h, hu⟩).2
  refine ⟨hs.does hdoes, ?_⟩
  cases hdoes with
  | lost | took => exact hu.perform hs.wellFormed _
  | told | stopped => exact hu

/-- Calls and requests may always be made. -/
theorem Sound.todo (h : Sound before s []) (has : ∀ o u origin, .tell o u origin ∉ as) : Sound before s as :=
  { h with tells := fun o u origin hm => absurd hm (has o u origin) }

theorem Sound.register (h : Sound before s []) (field : Option String) (x : Watch) (callback : Callback α) :
    Sound before (s.register field x callback).2 [] where
  wellFormed := h.wellFormed
  recorded := h.recorded
  observers o ho := by
    rcases List.mem_append.1 ho with ho | ho
    · exact ⟨Nat.lt_succ_of_lt (h.observers o ho).given, (h.observers o ho).call⟩
    · rw [List.mem_singleton.1 ho]
      exact ⟨Nat.lt_succ_self _, callback, rfl⟩
  tells _ _ _ hm := nomatch hm
  log e he := Nat.lt_succ_of_lt (h.log e he)

theorem Sound.serves (h : Sound before s []) {i : Nat} {w : Watchers α} (hi : i < s.nextId)
    (hserves : Watchers.Serves i s.state w) : Sound before { s with state := w } [] where
  wellFormed := h.wellFormed
  recorded := h.recorded
  observers := h.observers
  tells _ _ _ hm := nomatch hm
  log e he := (hserves.log e he).elim (h.log e) (· ▸ hi)

theorem Sound.goes (h : Sound before s []) (hgoes : Goes s t s') : Sound (before ++ t) s' [] :=
  hgoes.keeps (I := fun t s => Sound (before ++ t) s [])
    (fun h has hruns => List.append_assoc .. ▸ (h.todo has).runs hruns)
    (fun _ _ _ h => h.register _ _ _)
    (fun h _ hi hserves => h.serves hi hserves)
    (by rwa [List.append_nil])

end OutputStore

end SecureLayout.Collab
