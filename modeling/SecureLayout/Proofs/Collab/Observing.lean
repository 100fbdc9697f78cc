import Mathlib.Data.List.Forall2
import SecureLayout.Collab.Shared
import SecureLayout.Proofs.Collab.Merge

/-!
Documents whose observers write while they are told of writes. Main statements: what every observer keeps, of
its state and of the values that it writes, a write and a merge keep, however deep the callbacks nest; and a watch that
has ended stays so. Both are seen alike from a further state that the observers know a part of; and of two documents
whose observers cannot tell their states apart, a write and a merge make the same. What is kept by each single write,
and by each end of a watch that some observer may ask for, is kept by a write with all that follows from it; and where
nobody asks for another write, one write is all that happens to the document.
-/

namespace SecureLayout.Collab

open Json (Value)
open Wire (Clock FieldUpdate)

variable {σ τ : Type} {V : Value → Prop} {J : σ → Prop} {K : τ → Prop}

/-- Told of a value in `V` the observer keeps `J`, and it writes values in `V` only. -/
def Observer.Keeps (V : Value → Prop) (J : σ → Prop) (o : Observer σ) : Prop :=
  ∀ (u : FieldUpdate) (origin : Origin) (x : σ), V u.value → J x →
    J (o.call u origin x).1 ∧ ∀ field value, .write field value ∈ (o.call u origin x).2 → V value

namespace Shared

/-- The values are in `V`, the observers' state is in `J`, and the observers keep both so. -/
structure Steady (V : Value → Prop) (J : σ → Prop) (s : Shared σ) : Prop where
  wellFormed : s.document.WellFormed
  values : ∀ u ∈ s.document.snapshot, V u.value
  observers : ∀ o ∈ s.observers, o.Keeps V J
  state : J s.state

variable {s : Shared σ}

/-- Nothing is written yet and nobody watches. -/
theorem steady_empty (replica : String) {x : σ} (hx : J x) :
    Steady V J { document := { replica }, state := x } :=
  ⟨(Document.Reachable.new replica).wellFormed, nofun, nofun, hx⟩

theorem Steady.unobserve (h : s.Steady V J) (id : Nat) : (s.unobserve id).Steady V J :=
  ⟨h.wellFormed, h.values, fun o ho => h.observers o (List.mem_filter.1 ho).1, h.state⟩

theorem Steady.withState (h : s.Steady V J) {x : σ} (hx : J x) : Steady V J { s with state := x } :=
  ⟨h.wellFormed, h.values, h.observers, hx⟩

theorem Steady.serve {write : String → Value → Shared σ → Shared σ}
    (hwrite : ∀ field value s, V value → s.Steady V J → (write field value s).Steady V J)
    {requests : List Request} (hr : ∀ field value, .write field value ∈ requests → V value)
    (h : s.Steady V J) : (serve write requests s).Steady V J := by
  induction requests generalizing s with
  | nil => exact h
  | cons r requests ih =>
    have hrest : ∀ field value, .write field value ∈ requests → V value := fun field value hm =>
      hr field value (List.mem_cons_of_mem _ hm)
    cases r with
    | write field value => exact ih hrest (hwrite field value s (hr field value List.mem_cons_self) h)
    | unsubscribe id => exact ih hrest (h.unobserve id)

theorem Steady.tell {write : String → Value → Shared σ → Shared σ}
    (hwrite : ∀ field value s, V value → s.Steady V J → (write field value s).Steady V J)
    {u : FieldUpdate} (hu : V u.value) (origin : Origin) {os : List (Observer σ)}
    (hos : ∀ o ∈ os, o.Keeps V J) (h : s.Steady V J) : (tell write u origin os s).Steady V J := by
  induction os generalizing s with
  | nil => exact h
  | cons o os ih =>
    obtain ⟨ho, hos⟩ := List.forall_mem_cons.1 hos
    obtain ⟨hstate, hrequests⟩ := ho u origin s.state hu h.state
    exact ih hos ((h.withState hstate).serve hwrite hrequests)

theorem Steady.watching (h : s.Steady V J) (field : String) :
    ∀ o ∈ s.observers.filter (·.watches field), o.Keeps V J :=
  fun o ho => h.observers o (List.mem_filter.1 ho).1

theorem Steady.setWithin (n : Nat) {field : String} {value : Value} (hv : V value) (h : s.Steady V J) :
    (setWithin n field value s).2.Steady V J := by
  induction n generalizing s field value with
  | zero => exact h
  | succ n ih =>
    rw [Shared.setWithin]
    cases hs : s.document.set field value with
    | error e => exact h
    | ok w =>
      obtain ⟨u, document⟩ := w
      have hu : V u.value := (Document.set_eq_ok hs).1 ▸ hv
      have hnext : Steady V J { s with document } := by
        refine ⟨h.wellFormed.set hs, fun w hw => ?_, h.observers, h.state⟩
        rcases Document.mem_snapshot_set h.wellFormed hs hw with hw | rfl
        · exact h.values w hw
        · exact hu
      exact hnext.tell (fun f v s hv hs => ih hv hs) hu .own (h.watching field)

theorem Steady.set (h : s.Steady V J) (field : String) {value : Value} (hv : V value) :
    (s.set field value).2.Steady V J :=
  h.setWithin room hv

theorem Steady.merge (h : s.Steady V J) {u : FieldUpdate} (hu : V u.value) : (s.merge u).2.Steady V J := by
  have hnext : Steady V J { s with document := (s.document.merge u).2 } := by
    refine ⟨h.wellFormed.merge u, fun w hw => ?_, h.observers, h.state⟩
    rcases Document.mem_snapshot_merge h.wellFormed hw with hw | ⟨rfl, -⟩
    · exact h.values w hw
    · exact hu
  unfold Shared.merge
  rcases hm : s.document.merge u with ⟨news, document⟩
  rw [hm] at hnext
  cases news with
  | false => exact hnext
  | true => exact hnext.tell (fun f v s hv hs => hs.set f hv) hu .merged (h.watching u.field)

/-! ### Watches that go on -/

theorem observers_serve {write : String → Value → Shared σ → Shared σ}
    (hwrite : ∀ field value s, (write field value s).observers ⊆ s.observers) (requests : List Request) (s : Shared σ) :
    (serve write requests s).observers ⊆ s.observers := by
  induction requests generalizing s with
  | nil => exact List.Subset.refl _
  | cons r requests ih =>
    cases r with
    | write field value => exact List.Subset.trans (ih _) (hwrite field value s)
    | unsubscribe id => exact List.Subset.trans (ih _) (List.filter_subset_self _)

theorem observers_tell {write : String → Value → Shared σ → Shared σ}
    (hwrite : ∀ field value s, (write field value s).observers ⊆ s.observers) (u : FieldUpdate) (origin : Origin)
    (os : List (Observer σ)) (s : Shared σ) : (tell write u origin os s).observers ⊆ s.observers := by
  induction os generalizing s with
  | nil => exact List.Subset.refl _
  | cons o os ih => exact List.Subset.trans (ih _) (observers_serve hwrite _ _)

theorem observers_setWithin (n : Nat) (field : String) (value : Value) (s : Shared σ) :
    (setWithin n field value s).2.observers ⊆ s.observers := by
  induction n generalizing s field value with
  | zero => exact List.Subset.refl _
  | succ n ih =>
    rw [Shared.setWithin]
    cases s.document.set field value with
    | error e => exact List.Subset.refl _
    | ok w => exact observers_tell (fun f v s => ih f v s) ..

/-- Callbacks end watches and begin none. -/
theorem observers_set (s : Shared σ) (field : String) (value : Value) :
    (s.set field value).2.observers ⊆ s.observers :=
  observers_setWithin ..

theorem observers_merge (s : Shared σ) (u : FieldUpdate) : (s.merge u).2.observers ⊆ s.observers := by
  unfold Shared.merge
  rcases s.document.merge u with ⟨_ | _, document⟩
  · exact List.Subset.refl _
  · exact observers_tell (fun f v s => observers_set s f v) ..

/-- Observers leave the state beside theirs as it is. -/
theorem Steady.beside (h : s.Steady V J) {t : τ} (ht : K t) :
    (s.beside t).Steady V fun x => J x.1 ∧ K x.2 := by
  refine ⟨h.wellFormed, h.values, fun o ho => ?_, h.state, ht⟩
  obtain ⟨o, hmem, rfl⟩ := List.mem_map.1 ho
  intro u origin x hu hx
  obtain ⟨hstate, hrequests⟩ := h.observers o hmem u origin x.1 hu hx.1
  exact ⟨⟨hstate, hx.2⟩, hrequests⟩

theorem Steady.observe (h : s.Steady V J) (field : Option String)
    {call : Nat → FieldUpdate → Origin → σ → σ × List Request}
    (hcall : ∀ id, Observer.Keeps V J ⟨id, field, call id⟩) : (s.observe field call).2.Steady V J := by
  refine ⟨h.wellFormed, h.values, fun o ho => ?_, h.state⟩
  rcases List.mem_append.1 ho with ho | ho
  · exact h.observers o ho
  · rw [List.mem_singleton.1 ho]
    exact hcall s.nextId

end Shared

/-! ### Watches that have ended -/

namespace Shared

/-- Nobody watches under this id, and nobody ever will. -/
structure Ended (id : Nat) (s : Shared σ) : Prop where
  given : id < s.nextId
  ended : ∀ o ∈ s.observers, o.id ≠ id

variable {s : Shared σ} {id : Nat}

theorem nextId_serve {write : String → Value → Shared σ → Shared σ}
    (hwrite : ∀ field value s, (write field value s).nextId = s.nextId) (requests : List Request) (s : Shared σ) :
    (serve write requests s).nextId = s.nextId := by
  induction requests generalizing s with
  | nil => rfl
  | cons r requests ih =>
    cases r with
    | write field value => exact (ih _).trans (hwrite field value s)
    | unsubscribe id => exact ih _

theorem nextId_tell {write : String → Value → Shared σ → Shared σ}
    (hwrite : ∀ field value s, (write field value s).nextId = s.nextId) (u : FieldUpdate) (origin : Origin)
    (os : List (Observer σ)) (s : Shared σ) : (tell write u origin os s).nextId = s.nextId := by
  induction os generalizing s with
  | nil => rfl
  | cons o os ih => exact (ih _).trans (nextId_serve hwrite _ _)

theorem nextId_setWithin (n : Nat) (field : String) (value : Value) (s : Shared σ) :
    (setWithin n field value s).2.nextId = s.nextId := by
  induction n generalizing s field value with
  | zero => rfl
  | succ n ih =>
    rw [Shared.setWithin]
    cases s.document.set field value with
    | error e => rfl
    | ok w => exact nextId_tell (fun f v s => ih f v s) ..

theorem nextId_merge (s : Shared σ) (u : FieldUpdate) : (s.merge u).2.nextId = s.nextId := by
  unfold Shared.merge
  rcases s.document.merge u with ⟨_ | _, document⟩
  · rfl
  · exact nextId_tell (fun f v s => nextId_setWithin _ f v s) ..

theorem ended_unobserve (h : id < s.nextId) : (s.unobserve id).Ended id :=
  ⟨h, fun o ho => by simpa using (List.mem_filter.1 ho).2⟩

/-- The same document later on: ids were given out, and watches that had ended have not begun again. -/
structure Later (s : Shared σ) (s' : Shared τ) : Prop where
  nextId : s.nextId ≤ s'.nextId
  ended : ∀ {id : Nat}, s.Ended id → s'.Ended id

theorem Later.refl (s : Shared σ) : s.Later s :=
  ⟨Nat.le_refl _, id⟩

theorem Later.trans {υ : Type} {s' : Shared τ} {s'' : Shared υ} (h : s.Later s') (h' : s'.Later s'') : s.Later s'' :=
  ⟨Nat.le_trans h.nextId h'.nextId, fun he => h'.ended (h.ended he)⟩

/-- What tells observers apart has nothing to do with their state. -/
theorem later_of_ids {s' : Shared τ} (hnext : s'.nextId = s.nextId)
    (hids : ∀ o' ∈ s'.observers, ∃ o ∈ s.observers, o.id = o'.id) : s.Later s' := by
  refine ⟨hnext ▸ Nat.le_refl _, fun he => ⟨hnext.symm ▸ he.given, fun o' ho' => ?_⟩⟩
  obtain ⟨o, ho, hid⟩ := hids o' ho'
  exact hid ▸ he.ended o ho

theorem later_set (s : Shared σ) (field : String) (value : Value) : s.Later (s.set field value).2 :=
  later_of_ids (nextId_setWithin _ field value s) fun o ho => ⟨o, observers_set s field value ho, rfl⟩

theorem later_merge (s : Shared σ) (u : FieldUpdate) : s.Later (s.merge u).2 :=
  later_of_ids (nextId_merge s u) fun o ho => ⟨o, observers_merge s u ho, rfl⟩

theorem later_unobserve (s : Shared σ) (id : Nat) : s.Later (s.unobserve id) :=
  later_of_ids rfl fun o ho => ⟨o, (List.mem_filter.1 ho).1, rfl⟩

theorem later_withState (s : Shared σ) (x : σ) : s.Later { s with state := x } :=
  later_of_ids rfl fun o ho => ⟨o, ho, rfl⟩

theorem later_beside (s : Shared σ) (t : τ) : s.Later (s.beside t) :=
  later_of_ids rfl fun o' ho' => by
    obtain ⟨o, ho, rfl⟩ := List.mem_map.1 ho'
    exact ⟨o, ho, rfl⟩

theorem later_observe (s : Shared σ) (field : Option String)
    (call : Nat → FieldUpdate → Origin → σ → σ × List Request) : s.Later (s.observe field call).2 := by
  refine ⟨Nat.le_succ _, fun he => ⟨Nat.lt_succ_of_lt he.given, fun o ho => ?_⟩⟩
  rcases List.mem_append.1 ho with ho | ho
  · exact he.ended o ho
  · rw [List.mem_singleton.1 ho]
    exact Nat.ne_of_gt he.given

end Shared

/-! ### States within states -/

/-- The same observer on a further state `τ`, of which its own state can be had and into which it can be put. -/
def Observer.carry (there : σ → τ) (back : τ → σ) (o : Observer σ) : Observer τ :=
  { o with call := fun u origin y =>
      let (x, requests) := o.call u origin (back y)
      (there x, requests) }

theorem Observer.Keeps.carry {o : Observer σ} (h : o.Keeps V J) {there : σ → τ} {back : τ → σ}
    (hthere : ∀ x, J x → K (there x)) (hback : ∀ y, K y → J (back y)) : (o.carry there back).Keeps V K := by
  intro u origin y hu hy
  obtain ⟨hstate, hrequests⟩ := h u origin (back y) hu (hback y hy)
  exact ⟨hthere _ hstate, hrequests⟩

namespace Shared

/-- The same document, observers and all, with a further state. -/
def carry (there : σ → τ) (back : τ → σ) (s : Shared σ) : Shared τ :=
  { s with observers := s.observers.map (Observer.carry there back), state := there s.state }

variable {s : Shared σ} {there : σ → τ} {back : τ → σ}

theorem later_carry (s : Shared σ) (there : σ → τ) (back : τ → σ) : s.Later (s.carry there back) :=
  later_of_ids rfl fun o' ho' => by
    obtain ⟨o, ho, rfl⟩ := List.mem_map.1 ho'
    exact ⟨o, ho, rfl⟩

/-- Every observer takes its state along `R`, and along `R` it has come from `x`. -/
structure Along (R : σ → σ → Prop) (x : σ) (s : Shared σ) : Prop where
  wellFormed : s.document.WellFormed
  observers : ∀ o ∈ s.observers, ∀ y, o.Keeps (fun _ => True) (R y)
  state : R x s.state

variable {R : σ → σ → Prop} {x y : σ}

theorem Along.steady (h : s.Along R x) : s.Steady (fun _ => True) (R x) :=
  ⟨h.wellFormed, fun _ _ => trivial, fun o ho => h.observers o ho x, h.state⟩

theorem Along.set (h : s.Along R x) (field : String) (value : Value) : (s.set field value).2.Along R x :=
  let hset := h.steady.set field trivial
  ⟨hset.wellFormed, fun o ho => h.observers o (observers_set s field value ho), hset.state⟩

theorem Along.merge (h : s.Along R x) (u : FieldUpdate) : (s.merge u).2.Along R x :=
  let hmerge := h.steady.merge (u := u) trivial
  ⟨hmerge.wellFormed, fun o ho => h.observers o (observers_merge s u ho), hmerge.state⟩

theorem Along.withState (h : s.Along R x) {z : σ} (hz : R y z) : Along R y { s with state := z } :=
  ⟨h.wellFormed, h.observers, hz⟩

theorem Along.unobserve (h : s.Along R x) (id : Nat) : (s.unobserve id).Along R x :=
  ⟨h.wellFormed, fun o ho => h.observers o (List.mem_filter.1 ho).1, h.state⟩

theorem Along.observe (h : s.Along R x) (field : Option String)
    {call : Nat → FieldUpdate → Origin → σ → σ × List Request}
    (hcall : ∀ id y, Observer.Keeps (fun _ => True) (R y) ⟨id, field, call id⟩) :
    (s.observe field call).2.Along R x := by
  refine ⟨h.wellFormed, fun o ho => ?_, h.state⟩
  rcases List.mem_append.1 ho with ho | ho
  · exact h.observers o ho
  · rw [List.mem_singleton.1 ho]
    exact hcall s.nextId

/-- Seen from a further state, the observers move the part of it that is theirs. -/
theorem Along.carry (h : s.Along R x) (hback : ∀ x, back (there x) = x) :
    (s.carry there back).Along (fun y z => R (back y) (back z)) (there x) := by
  refine ⟨h.wellFormed, fun o ho y => ?_, ?_⟩
  · obtain ⟨o, hmem, rfl⟩ := List.mem_map.1 ho
    exact (h.observers o hmem (back y)).carry (fun x hx => (hback x).symm ▸ hx) fun z hz => hz
  · simpa only [Shared.carry, hback] using h.state

theorem Along.carry_back {s : Shared τ} {y : τ} (h : s.Along (fun y z => R (back y) (back z)) y)
    (hback : ∀ x, back (there x) = x) : (s.carry back there).Along R (back y) := by
  refine ⟨h.wellFormed, fun o ho x => ?_, h.state⟩
  obtain ⟨o, hmem, rfl⟩ := List.mem_map.1 ho
  refine (h.observers o hmem (there x)).carry (fun z hz => ?_) fun x' hx' => ?_
  · rwa [hback] at hz
  · rwa [hback, hback]

end Shared

end SecureLayout.Collab

/-! ### Documents in pairs -/

namespace SecureLayout.Collab

open Json (Value)
open Wire (Clock FieldUpdate)

variable {σ τ σ' τ' : Type} {R : σ → τ → Prop} {Q : σ' → τ' → Prop}

/-- On states that are related the two ask for the same, and they leave related states behind. -/
structure Observer.Matches (R : σ → τ → Prop) (o : Observer σ) (o' : Observer τ) : Prop where
  id : o'.id = o.id
  field : o'.field = o.field
  call : ∀ u origin x y, R x y →
    R (o.call u origin x).1 (o'.call u origin y).1 ∧ (o'.call u origin y).2 = (o.call u origin x).2

theorem Observer.Matches.watches {o : Observer σ} {o' : Observer τ} (h : o.Matches R o') (field : String) :
    o'.watches field = o.watches field := by
  rw [Observer.watches, Observer.watches, h.field]

namespace Shared

/-- Nothing is different but the states, and those are related. -/
structure Matches (R : σ → τ → Prop) (s : Shared σ) (s' : Shared τ) : Prop where
  document : s'.document = s.document
  observers : List.Forall₂ (Observer.Matches R) s.observers s'.observers
  nextId : s'.nextId = s.nextId
  state : R s.state s'.state

variable {s : Shared σ} {s' : Shared τ}

theorem Matches.withState (h : s.Matches R s') {x : σ} {y : τ} (hxy : R x y) :
    Matches R { s with state := x } { s' with state := y } :=
  { h with state := hxy }

theorem Matches.withDocument (h : s.Matches R s') (document : Document) :
    Matches R { s with document } { s' with document } :=
  { h with document := rfl }

theorem Matches.unobserve (h : s.Matches R s') (id : Nat) : (s.unobserve id).Matches R (s'.unobserve id) where
  document := h.document
  observers := List.rel_filter (fun _ _ ho => by simp [ho.id]) h.observers
  nextId := h.nextId
  state := h.state

theorem Matches.watching (h : s.Matches R s') (field : String) :
    List.Forall₂ (Observer.Matches R) (s.observers.filter (·.watches field)) (s'.observers.filter (·.watches field)) :=
  List.rel_filter (fun _ _ ho => by simp [ho.watches]) h.observers

variable {write : String → Value → Shared σ → Shared σ} {write' : String → Value → Shared τ → Shared τ}

theorem Matches.serve
    (hwrite : ∀ field value {s s'}, s.Matches R s' → (write field value s).Matches R (write' field value s'))
    (requests : List Request) (h : s.Matches R s') : (serve write requests s).Matches R (serve write' requests s') := by
  induction requests generalizing s s' with
  | nil => exact h
  | cons r requests ih =>
    cases r with
    | write field value => exact ih (hwrite field value h)
    | unsubscribe id => exact ih (h.unobserve id)

theorem Matches.tell
    (hwrite : ∀ field value {s s'}, s.Matches R s' → (write field value s).Matches R (write' field value s'))
    (u : FieldUpdate) (origin : Origin) {os : List (Observer σ)} {os' : List (Observer τ)}
    (hos : List.Forall₂ (Observer.Matches R) os os') (h : s.Matches R s') :
    (tell write u origin os s).Matches R (tell write' u origin os' s') := by
  induction hos generalizing s s' with
  | nil => exact h
  | cons ho _ ih =>
    obtain ⟨hstate, hrequests⟩ := ho.call u origin _ _ h.state
    refine ih ?_
    rw [hrequests]
    exact (h.withState hstate).serve hwrite _

theorem Matches.setWithin (h : s.Matches R s') (n : Nat) (field : String) (value : Value) :
    (setWithin n field value s').1 = (setWithin n field value s).1 ∧
      (setWithin n field value s).2.Matches R (setWithin n field value s').2 := by
  induction n generalizing s s' field value with
  | zero => exact ⟨congrArg (fun d => Except.error (Document.exhausted d)) h.document, h⟩
  | succ n ih =>
    rw [Shared.setWithin, Shared.setWithin, h.document]
    cases s.document.set field value with
    | error e => exact ⟨rfl, h⟩
    | ok w => exact ⟨rfl, (h.withDocument w.2).tell (fun f v s s' hs => (ih hs f v).2) w.1 .own (h.watching field)⟩

theorem Matches.set (h : s.Matches R s') (field : String) (value : Value) :
    (s'.set field value).1 = (s.set field value).1 ∧ (s.set field value).2.Matches R (s'.set field value).2 :=
  h.setWithin room field value

theorem Matches.merge (h : s.Matches R s') (u : FieldUpdate) : (s.merge u).2.Matches R (s'.merge u).2 := by
  unfold Shared.merge
  rw [h.document]
  rcases s.document.merge u with ⟨_ | _, document⟩
  · exact h.withDocument document
  · exact (h.withDocument document).tell (fun f v s s' hs => (hs.set f v).2) u .merged (h.watching u.field)

theorem Matches.observe (h : s.Matches R s') (field : Option String)
    {call : Nat → FieldUpdate → Origin → σ → σ × List Request}
    {call' : Nat → FieldUpdate → Origin → τ → τ × List Request}
    (hcall : ∀ id, Observer.Matches R ⟨id, field, call id⟩ ⟨id, field, call' id⟩) :
    (s.observe field call).2.Matches R (s'.observe field call').2 where
  document := h.document
  observers := by
    refine List.rel_append h.observers (.cons ?_ .nil)
    rw [h.nextId]
    exact hcall s.nextId
  nextId := congrArg (· + 1) h.nextId
  state := h.state

/-- What is beside the states of the observers is left alone. -/
theorem Matches.beside (h : s.Matches R s') {x : σ'} {y : τ'} (hxy : Q x y) :
    (s.beside x).Matches (fun a b => R a.1 b.1 ∧ Q a.2 b.2) (s'.beside y) where
  document := h.document
  observers := by
    refine List.rel_map (fun o o' ho => ⟨ho.id, ho.field, fun u origin a b hab => ?_⟩) h.observers
    obtain ⟨hstate, hrequests⟩ := ho.call u origin _ _ hab.1
    exact ⟨⟨hstate, hab.2⟩, hrequests⟩
  nextId := h.nextId
  state := ⟨h.state, hxy⟩

theorem Matches.carry (h : s.Matches R s') {there : σ → σ'} {back : σ' → σ} {there' : τ → τ'} {back' : τ' → τ}
    (hthere : ∀ x y, R x y → Q (there x) (there' y)) (hback : ∀ x y, Q x y → R (back x) (back' y)) :
    (s.carry there back).Matches Q (s'.carry there' back') where
  document := h.document
  observers := by
    refine List.rel_map (fun o o' ho => ⟨ho.id, ho.field, fun u origin a b hab => ?_⟩) h.observers
    obtain ⟨hstate, hrequests⟩ := ho.call u origin _ _ (hback a b hab)
    exact ⟨hthere _ _ hstate, hrequests⟩
  nextId := h.nextId
  state := hthere _ _ h.state

end Shared

/-! ### What observers ask for -/

variable {P : Request → Prop}

/-- Whatever it is told of, the observer asks for what is in `P` and for nothing else. -/
def Observer.Asks (P : Request → Prop) (o : Observer σ) : Prop :=
  ∀ u origin x, ∀ r ∈ (o.call u origin x).2, P r

theorem Observer.Asks.mono {Q : Request → Prop} {o : Observer σ} (h : o.Asks P) (hPQ : ∀ r, P r → Q r) : o.Asks Q :=
  fun u origin x r hr => hPQ r (h u origin x r hr)

namespace Shared

/-! ### What is kept -/

/-- Observers ask for what is in `P` only, and `I` is kept by each thing of that kind that can be asked for, and by
whatever observers do to their state. -/
structure Kept (P : Request → Prop) (I : Shared σ → Prop) : Prop where
  asks : ∀ {s : Shared σ}, I s → ∀ o ∈ s.observers, o.Asks P
  withState : ∀ {s : Shared σ} (x : σ), I s → I { s with state := x }
  write : ∀ {s : Shared σ} {field : String} {value : Value} {u : FieldUpdate} {document : Document},
    P (.write field value) → s.document.set field value = .ok (u, document) → I s → I { s with document }
  unsubscribe : ∀ {s : Shared σ} {id : Nat}, P (.unsubscribe id) → I s → I (s.unobserve id)

namespace Kept

variable {I : Shared σ → Prop} {write : String → Value → Shared σ → Shared σ} {s : Shared σ}

theorem serve (h : Kept P I) (hwrite : ∀ {field value s}, P (.write field value) → I s → I (write field value s))
    {requests : List Request} (hrequests : ∀ r ∈ requests, P r) (hs : I s) : I (serve write requests s) := by
  induction requests generalizing s with
  | nil => exact hs
  | cons r requests ih =>
    obtain ⟨hr, hrest⟩ := List.forall_mem_cons.1 hrequests
    cases r with
    | write field value => exact ih hrest (hwrite hr hs)
    | unsubscribe id => exact ih hrest (h.unsubscribe hr hs)

theorem tell (h : Kept P I) (hwrite : ∀ {field value s}, P (.write field value) → I s → I (write field value s))
    (u : FieldUpdate) (origin : Origin) {os : List (Observer σ)} (hos : ∀ o ∈ os, o.Asks P) (hs : I s) :
    I (tell write u origin os s) := by
  induction os generalizing s with
  | nil => exact hs
  | cons o os ih =>
    obtain ⟨ho, hos⟩ := List.forall_mem_cons.1 hos
    exact ih hos (h.serve hwrite (ho u origin s.state) (h.withState _ hs))

theorem watching (h : Kept P I) (hs : I s) (field : String) : ∀ o ∈ s.observers.filter (·.watches field), o.Asks P :=
  fun o ho => h.asks hs o (List.mem_filter.1 ho).1

theorem setWithin (h : Kept P I) (n : Nat) {field : String} {value : Value} (hP : P (.write field value)) (hs : I s) :
    I (setWithin n field value s).2 := by
  induction n generalizing s field value with
  | zero => exact hs
  | succ n ih =>
    rw [Shared.setWithin]
    cases hset : s.document.set field value with
    | error e => exact hs
    | ok w => exact h.tell (fun hP hs => ih hP hs) w.1 .own (h.watching hs field) (h.write hP hset hs)

theorem set (h : Kept P I) {field : String} {value : Value} (hP : P (.write field value)) (hs : I s) :
    I (s.set field value).2 :=
  h.setWithin room hP hs

theorem merge (h : Kept P I) {u : FieldUpdate} (hu : I { s with document := (s.document.merge u).2 }) :
    I (s.merge u).2 := by
  unfold Shared.merge
  rcases hm : s.document.merge u with ⟨news, document⟩
  rw [hm] at hu
  cases news with
  | false => exact hu
  | true => exact h.tell (fun hP hs => h.set hP hs) u .merged (h.watching hu u.field) hu

end Kept

variable {s : Shared σ}

/-- Observers go, those that stay stay in their order, and none comes. -/
theorem kept_sublist (os : List (Observer σ)) (n : Nat) :
    Kept (fun _ => True) fun s => s.observers.Sublist os ∧ s.nextId = n where
  asks _ _ _ _ _ _ _ _ := trivial
  withState _ hs := hs
  write _ _ hs := hs
  unsubscribe _ hs := ⟨List.Sublist.trans List.filter_sublist hs.1, hs.2⟩

theorem sublist_set (s : Shared σ) (field : String) (value : Value) :
    (s.set field value).2.observers.Sublist s.observers ∧ (s.set field value).2.nextId = s.nextId :=
  (kept_sublist s.observers s.nextId).set trivial ⟨List.Sublist.refl _, rfl⟩

theorem sublist_merge (s : Shared σ) (u : FieldUpdate) :
    (s.merge u).2.observers.Sublist s.observers ∧ (s.merge u).2.nextId = s.nextId :=
  (kept_sublist s.observers s.nextId).merge ⟨List.Sublist.refl _, rfl⟩

variable {Q : Request → Prop}

/-- An observer whose watch nobody ends goes on watching. -/
theorem kept_mem {o : Observer σ} (hP : ¬P (.unsubscribe o.id)) (hQ : ¬Q (.unsubscribe o.id)) :
    Kept (fun r => P r ∨ Q r) fun s => o ∈ s.observers ∧ ∀ o' ∈ s.observers, o'.Asks P where
  asks hs o' ho' := (hs.2 o' ho').mono fun _ => .inl
  withState _ hs := hs
  write _ _ hs := hs
  unsubscribe hid hs := by
    refine ⟨List.mem_filter.2 ⟨hs.1, ?_⟩, fun o' ho' => hs.2 o' (List.mem_filter.1 ho').1⟩
    simp only [bne_iff_ne, ne_eq]
    exact fun he => (not_or.2 ⟨hP, hQ⟩) (he ▸ hid)

/-- An entry that nobody writes stays. -/
theorem kept_winner? {field : String} {w : Option FieldUpdate} (hP : ∀ value, ¬P (.write field value))
    (hQ : ∀ value, ¬Q (.write field value)) :
    Kept (fun r => P r ∨ Q r) fun s : Shared σ =>
      s.document.winner? field = w ∧ ∀ o ∈ s.observers, o.Asks P where
  asks hs o ho := (hs.2 o ho).mono fun _ => .inl
  withState _ hs := hs
  write {s f value u document} hf hset hs := by
    refine ⟨?_, hs.2⟩
    obtain ⟨-, -, he, -⟩ := Document.set_eq_ok hset
    have hne : field ≠ f := fun he => (not_or.2 ⟨hP value, hQ value⟩) (he ▸ hf)
    rw [← hs.1, Document.winner?, Document.winner?, he, Entries.get?_put, if_neg hne]
  unsubscribe _ hs := ⟨hs.1, fun o ho => hs.2 o (List.mem_filter.1 ho).1⟩

/-! ### Nobody writes in response -/

/-- The state after observers were told one after the other, and what they asked for. -/
def hear (u : FieldUpdate) (origin : Origin) : List (Observer σ) → σ → σ × List Request
  | [], x => (x, [])
  | o :: os, x =>
    let (y, requests) := o.call u origin x
    let (z, rest) := hear u origin os y
    (z, requests ++ rest)

/-- What becomes of the state when those who watch are told of a write here, and what they ask for. -/
def response (s : Shared σ) (u : FieldUpdate) : σ × List Request :=
  hear u .own (s.observers.filter (·.watches u.field)) s.state

/-- Nobody who is told of the write asks for another one. -/
def Quiet (s : Shared σ) (u : FieldUpdate) : Prop :=
  ∀ field value, .write field value ∉ (s.response u).2

theorem serve_of_quiet (write : String → Value → Shared σ → Shared σ) {requests : List Request}
    (h : ∀ field value, .write field value ∉ requests) (s : Shared σ) :
    (serve write requests s).document = s.document ∧ (serve write requests s).state = s.state := by
  induction requests generalizing s with
  | nil => exact ⟨rfl, rfl⟩
  | cons r requests ih =>
    cases r with
    | write field value => exact absurd List.mem_cons_self (h field value)
    | unsubscribe id => exact ih (fun field value hm => h field value (List.mem_cons_of_mem _ hm)) (s.unobserve id)

theorem tell_of_quiet {write : String → Value → Shared σ → Shared σ} {u : FieldUpdate} {origin : Origin}
    {os : List (Observer σ)} {s : Shared σ} (h : ∀ field value, .write field value ∉ (hear u origin os s.state).2) :
    (tell write u origin os s).document = s.document ∧
      (tell write u origin os s).state = (hear u origin os s.state).1 := by
  induction os generalizing s with
  | nil => exact ⟨rfl, rfl⟩
  | cons o os ih =>
    have hsplit : ∀ field value, .write field value ∉ (o.call u origin s.state).2 ∧
        .write field value ∉ (hear u origin os (o.call u origin s.state).1).2 :=
      fun field value => not_or.1 fun hm => h field value (List.mem_append.2 hm)
    obtain ⟨hdocument, hstate⟩ := serve_of_quiet write (fun field value => (hsplit field value).1)
      { s with state := (o.call u origin s.state).1 }
    have hrest := ih (s := serve write (o.call u origin s.state).2 { s with state := (o.call u origin s.state).1 })
      fun field value => by rw [hstate]; exact (hsplit field value).2
    rw [hdocument, hstate] at hrest
    exact hrest

/-- A replica that has run out of clocks writes nothing. -/
theorem set_of_exhausted {field : String} {value : Value} (h : Clock.greatestCounter ≤ s.document.clock) :
    (s.set field value).2 = s := by
  obtain ⟨e, he⟩ := (s.document.set_fails_iff field value).2 h
  rw [Shared.set, room, setWithin, he]

/-- Where nobody writes in response, one write is all that happens to the document. -/
theorem set_of_quiet {field : String} {value : Value} {u : FieldUpdate} {document : Document}
    (hset : s.document.set field value = .ok (u, document)) (hquiet : s.Quiet u) :
    (s.set field value).2.document = document ∧ (s.set field value).2.state = (s.response u).1 := by
  have hfield : u.field = field := by rw [(Document.set_eq_ok hset).1]
  have htold : (s.set field value).2 = tell (fun f v s => (setWithin Clock.greatestCounter f v s).2) u .own
      (s.observers.filter (·.watches u.field)) { s with document } := by
    rw [Shared.set, room, setWithin, hset, hfield]
  rw [htold]
  exact tell_of_quiet hquiet

end Shared

end SecureLayout.Collab
