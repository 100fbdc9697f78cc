import Mathlib.Data.List.MinMax
import Mathlib.Order.Nat
import Mathlib.Order.WithBot
import SecureLayout.Proofs.Collab.Observing

/-!
The clocks of one document, through any number of writes and merges. Main statement: the counter of a document says
no more than its entries do, the clock under a field only rises, a local write is later than all that was ever seen
here, and it fails only where counters have come to their end, which changes nothing.
-/

namespace SecureLayout.Collab

open Json (Value)
open Wire (Clock FieldUpdate)

namespace Document

/-- A write that fails leaves the document as it is. -/
def perform (d : Document) : Call → Document
  | .write field value =>
    match d.set field value with
    | .ok (_, d') => d'
    | .error _ => d
  | .take u => (d.merge u).2

def performAll (d : Document) (calls : List Call) : Document :=
  calls.foldl perform d

/-- The clock of the write that stands under a field, below all clocks if there is none. -/
def clockAt (d : Document) (field : String) : WithBot Clock :=
  (d.winner? field).elim ⊥ fun w => (w.clock : WithBot Clock)

/-- The greatest counter among the entries. -/
def greatest (d : Document) : Nat :=
  (d.snapshot.map (·.clock.counter)).foldr max 0

variable {d d' : Document} {field : String} {value : Value} {u : FieldUpdate}

theorem performAll_append (d : Document) (calls more : List Call) :
    d.performAll (calls ++ more) = (d.performAll calls).performAll more :=
  List.foldl_append

theorem perform_write (h : d.set field value = .ok (u, d')) : d.perform (.write field value) = d' := by
  rw [perform, h]

/-- All that a call can do: a write, nothing, or a merge. -/
theorem perform_cases (d : Document) (call : Call) :
    (∃ field value u, d.set field value = .ok (u, d.perform call)) ∨ d.perform call = d ∨
      ∃ u, call = .take u ∧ d.perform call = (d.merge u).2 := by
  cases call with
  | write field value =>
    cases hs : d.set field value with
    | ok w => exact .inl ⟨field, value, w.1, by rw [perform_write hs, hs]⟩
    | error e => exact .inr (.inl (by rw [perform, hs]))
  | take u => exact .inr (.inr ⟨u, rfl, rfl⟩)

/-! ### What one call does to the clock of a field -/

theorem isNews_iff_clockAt (d : Document) (u : FieldUpdate) : d.isNews u = true ↔ d.clockAt u.field < u.clock := by
  rw [isNews_iff, clockAt]
  cases d.winner? u.field with
  | none => simp
  | some w => simp

/-- A merge leaves the later of two writes. -/
theorem clockAt_merge (d : Document) (u : FieldUpdate) (field : String) :
    (d.merge u).2.clockAt field = if field = u.field then max (d.clockAt field) u.clock else d.clockAt field := by
  by_cases hf : field = u.field
  · subst hf
    rw [if_pos rfl, clockAt, winner?_merge]
    by_cases hn : d.isNews u = true
    · rw [if_pos ⟨rfl, hn⟩, max_eq_right ((isNews_iff_clockAt d u).1 hn).le]
      rfl
    · rw [if_neg fun h => hn h.2, max_eq_left (not_lt.1 fun h => hn ((isNews_iff_clockAt d u).2 h))]
      rfl
  · rw [if_neg hf, clockAt, winner?_merge, if_neg fun h => hf h.1]
    rfl

theorem clockAt_set (h : d.set field value = .ok (u, d')) (f : String) :
    d'.clockAt f = if f = field then (u.clock : WithBot Clock) else d.clockAt f := by
  obtain ⟨-, -, he, -⟩ := set_eq_ok h
  rw [clockAt, winner?, he, Entries.get?_put]
  split <;> rfl

theorem winner?_set (h : d.set field value = .ok (u, d')) (f : String) :
    d'.winner? f = if f = field then some u else d.winner? f := by
  obtain ⟨-, -, he, -⟩ := set_eq_ok h
  rw [winner?, he, Entries.get?_put]
  rfl

theorem merge_fst (d : Document) (u : FieldUpdate) : (d.merge u).1 = d.isNews u := by
  unfold merge
  split
  · next h => exact h.symm
  · next h => exact (Bool.not_eq_true _ ▸ h).symm

/-- Observers and their writes aside, a merge answers whether the clock under the field rose. -/
theorem merge_iff_clockAt_lt (d : Document) (u : FieldUpdate) :
    (d.merge u).1 = true ↔ d.clockAt u.field < (d.merge u).2.clockAt u.field := by
  rw [merge_fst, isNews_iff_clockAt, clockAt_merge, if_pos rfl, lt_max_iff]
  simp

theorem clockAt_le_iff_counter (h : d.WellFormed) {n : Nat} :
    (∀ v ∈ d.snapshot, v.clock.counter ≤ n) ↔ ∀ f (c : Clock), c ≤ d.clockAt f → c.counter ≤ n := by
  constructor
  · intro hn f c hc
    unfold clockAt at hc
    cases hw : d.winner? f with
    | none => simp [hw] at hc
    | some w =>
      rw [hw, Option.elim_some, WithBot.coe_le_coe] at hc
      exact (Clock.counter_le_of_le hc).trans (hn w ((winner?_eq_some_iff h f w).1 hw).1)
  · intro hn v hv
    refine hn v.field v.clock ?_
    rw [clockAt, (winner?_eq_some_iff h v.field v).2 ⟨hv, rfl⟩]
    rfl

theorem WellFormed.counter_le (h : d.WellFormed) {f : String} {c : Clock} (hc : c ≤ d.clockAt f) :
    c.counter ≤ d.clock := by
  refine (clockAt_le_iff_counter h).1 (fun v hv => ?_) f c hc
  obtain ⟨e, he, rfl⟩ := List.mem_map.1 hv
  exact h.bounded e he

theorem WellFormed.clockAt_lt_set (h : d.WellFormed) (hs : d.set field value = .ok (u, d')) (f : String) :
    d.clockAt f < u.clock := by
  refine lt_of_not_ge fun hle => ?_
  have hcounter := h.counter_le hle
  rw [(set_eq_ok hs).1] at hcounter
  exact absurd hcounter (Nat.not_succ_le_self _)

theorem WellFormed.perform (h : d.WellFormed) (call : Call) : (d.perform call).WellFormed := by
  obtain ⟨_, _, _, hs⟩ | hsame | ⟨u, -, hm⟩ := d.perform_cases call
  · exact h.set hs
  · exact hsame.symm ▸ h
  · exact hm.symm ▸ h.merge u

/-- The clock under a field only rises. -/
theorem WellFormed.clockAt_le_perform (h : d.WellFormed) (call : Call) (f : String) :
    d.clockAt f ≤ (d.perform call).clockAt f := by
  obtain ⟨_, _, _, hs⟩ | hsame | ⟨u, -, hm⟩ := d.perform_cases call
  · rw [clockAt_set hs]
    split
    · exact (h.clockAt_lt_set hs f).le
    · exact le_rfl
  · rw [hsame]
  · rw [hm, clockAt_merge]
    split
    · exact le_max_left _ _
    · exact le_rfl

theorem clock_le_perform (d : Document) (call : Call) : d.clock ≤ (d.perform call).clock := by
  obtain ⟨_, _, _, hs⟩ | hsame | ⟨u, -, hm⟩ := d.perform_cases call
  · exact (set_eq_ok hs).2.1 ▸ Nat.le_succ _
  · rw [hsame]
  · rw [hm, clock_merge]
    exact le_max_left _ _

/-! ### What any number of calls leaves -/

/-- The counter says no more than the entries do: what bounds their clocks bounds it. -/
structure Tight (d : Document) : Prop where
  wellFormed : d.WellFormed
  attained : ∀ n, (∀ f (c : Clock), c ≤ d.clockAt f → c.counter ≤ n) → d.clock ≤ n

theorem tight_empty (replica : String) : Tight { replica } :=
  ⟨(Reachable.new replica).wellFormed, fun _ _ => Nat.zero_le _⟩

/-- A write that lost found a later clock under its field, so the counter rose for nothing that is not there. -/
theorem Tight.perform (h : d.Tight) (call : Call) : (d.perform call).Tight := by
  refine ⟨h.wellFormed.perform call, fun n hn => ?_⟩
  have hd : d.clock ≤ n := h.attained n fun f c hc => hn f c (hc.trans (h.wellFormed.clockAt_le_perform call f))
  obtain ⟨field, _, u, hs⟩ | hsame | ⟨u, -, hm⟩ := d.perform_cases call
  · obtain ⟨hu, hclock, -⟩ := set_eq_ok hs
    have hcounter := hn field u.clock (by rw [clockAt_set hs, if_pos rfl])
    rw [hu] at hcounter
    exact hclock.trans_le hcounter
  · rwa [hsame]
  · have hu : (u.clock : WithBot Clock) ≤ (d.perform call).clockAt u.field := by
      rw [hm, clockAt_merge, if_pos rfl]
      exact le_max_right _ _
    rw [hm, clock_merge]
    exact max_le hd (hn u.field u.clock hu)

theorem Tight.performAll (h : d.Tight) (calls : List Call) : (d.performAll calls).Tight := by
  induction calls generalizing d with
  | nil => exact h
  | cons call calls ih => exact ih (h.perform call)

theorem Tight.clock_le_iff (h : d.Tight) {n : Nat} : d.clock ≤ n ↔ ∀ v ∈ d.snapshot, v.clock.counter ≤ n := by
  rw [clockAt_le_iff_counter h.wellFormed]
  exact ⟨fun hn f c hc => (h.wellFormed.counter_le hc).trans hn, h.attained n⟩

theorem Tight.clock_eq_greatest (h : d.Tight) : d.clock = d.greatest := by
  refine eq_of_forall_ge_iff fun n => ?_
  rw [h.clock_le_iff, greatest]
  constructor
  · exact fun hn => List.max_le_of_forall_le _ n (List.forall_mem_map.2 hn)
  · exact fun hn v hv => (List.le_max_of_le' 0 (List.mem_map_of_mem hv) le_rfl).trans hn

/-- Taking in what a document holds makes it again. -/
theorem Tight.mergeAll_snapshot (h : d.Tight) (replica : String) :
    ({ replica } : Document).mergeAll d.snapshot = { d with replica } := by
  have hwell := h.wellFormed
  have hfresh := (Reachable.new replica).wellFormed
  have hagree : Agree d.snapshot := by
    intro u hu v hv hf _
    have huw := (winner?_eq_some_iff hwell v.field u).2 ⟨hu, hf⟩
    rw [(winner?_eq_some_iff hwell v.field v).2 ⟨hv, rfl⟩] at huw
    exact congrArg FieldUpdate.value (Option.some.inj huw).symm
  have hentries : (mergeAll { replica } d.snapshot).entries = d.entries :=
    Entries.ext_get? (hfresh.mergeAll _).sorted hwell.sorted fun f =>
      (latest_mergeAll_snapshot hfresh d.snapshot f).unique hagree (latest_winner? hwell f)
  have hclock : (mergeAll { replica } d.snapshot).clock = d.clock := by
    refine eq_of_forall_ge_iff fun n => ?_
    rw [clock_mergeAll_le_iff, h.clock_le_iff]
    exact and_iff_right (Nat.zero_le n)
  have hreplica := replica_mergeAll { replica } d.snapshot
  cases hm : mergeAll { replica } d.snapshot
  simp_all

theorem Tight.clockAt_le_performAll (h : d.Tight) (calls : List Call) (f : String) :
    d.clockAt f ≤ (d.performAll calls).clockAt f := by
  induction calls generalizing d with
  | nil => exact le_rfl
  | cons call calls ih => exact (h.wellFormed.clockAt_le_perform call f).trans (ih (h.perform call))

theorem clock_le_performAll (d : Document) (calls : List Call) : d.clock ≤ (d.performAll calls).clock := by
  induction calls generalizing d with
  | nil => exact le_rfl
  | cons call calls ih => exact (clock_le_perform d call).trans (ih _)

/-- Writes that lost count as well. -/
theorem counter_le_performAll (d : Document) {calls : List Call} (h : .take u ∈ calls) :
    u.clock.counter ≤ (d.performAll calls).clock := by
  obtain ⟨before, after, rfl⟩ := List.append_of_mem h
  rw [performAll_append]
  refine le_trans ?_ (clock_le_performAll ((d.performAll before).perform (.take u)) after)
  exact (clock_merge _ u).symm ▸ le_max_right _ _

/-- Counters stay words if those that come in are. -/
theorem clock_performAll_le {calls : List Call} (hd : d.clock ≤ Clock.greatestCounter)
    (h : ∀ u, .take u ∈ calls → u.clock.counter ≤ Clock.greatestCounter) :
    (d.performAll calls).clock ≤ Clock.greatestCounter := by
  induction calls generalizing d with
  | nil => exact hd
  | cons call calls ih =>
    refine ih ?_ fun u hu => h u (List.mem_cons_of_mem _ hu)
    obtain ⟨field, value, _, hs⟩ | hsame | ⟨u, rfl, hm⟩ := d.perform_cases call
    · have hroom : ¬ Clock.greatestCounter ≤ d.clock := fun hle => by
        obtain ⟨e, he⟩ := (d.set_fails_iff field value).2 hle
        rw [hs] at he
        cases he
      rw [(set_eq_ok hs).2.1]
      omega
    · rwa [hsame]
    · rw [hm, clock_merge]
      exact max_le hd (h u List.mem_cons_self)

end Document

/-! ### Observers that write -/

namespace Shared

variable {σ : Type}

/-- What callbacks make of a document, further writes make of it as well. -/
theorem kept_performAll (d : Document) :
    Kept (fun _ => True) fun s : Shared σ =>
      ∃ writes : List (String × Value), s.document = d.performAll (writes.map fun w => .write w.1 w.2) where
  asks _ _ _ _ _ _ _ _ := trivial
  withState _ hs := hs
  write {_ field value _ _} _ hset hs := by
    obtain ⟨writes, hs⟩ := hs
    refine ⟨writes ++ [(field, value)], ?_⟩
    rw [List.map_append, Document.performAll_append, ← hs]
    exact (Document.perform_write hset).symm
  unsubscribe _ hs := hs

theorem set_performs (s : Shared σ) (field : String) (value : Value) :
    ∃ writes : List (String × Value),
      (s.set field value).2.document = s.document.performAll (writes.map fun w => .write w.1 w.2) :=
  (kept_performAll s.document).set trivial ⟨[], rfl⟩

theorem merge_performs (s : Shared σ) (u : FieldUpdate) :
    ∃ writes : List (String × Value), (s.merge u).2.document =
      s.document.performAll (.take u :: writes.map fun w => .write w.1 w.2) :=
  (kept_performAll (s.document.merge u).2).merge ⟨[], rfl⟩

theorem merge_answer (s : Shared σ) (u : FieldUpdate) : (s.merge u).1 = (s.document.merge u).1 := by
  unfold merge
  rcases s.document.merge u with ⟨_ | _, _⟩ <;> rfl

theorem set_answer (s : Shared σ) (field : String) (value : Value) :
    (s.set field value).1 = (s.document.set field value).map Prod.fst := by
  rw [set, room, setWithin]
  cases s.document.set field value <;> rfl

end Shared

/-! ### Every history -/

namespace Document

/-- A local write is later than all that stood here at any time, and than all that was merged. -/
theorem Tight.set_latest {d : Document} (hd : d.Tight) {calls : List Call} {field : String} {value : Value}
    {u : FieldUpdate} {d' : Document} (hs : (d.performAll calls).set field value = .ok (u, d')) :
    (∀ held, held <+: calls → ∀ f, (d.performAll held).clockAt f < u.clock) ∧
      ∀ v, .take v ∈ calls → v.clock < u.clock := by
  refine ⟨?_, fun v hv => ?_⟩
  · rintro held ⟨rest, rfl⟩ f
    rw [performAll_append] at hs
    have hheld := hd.performAll held
    exact (hheld.clockAt_le_performAll rest f).trans_lt ((hheld.performAll rest).wellFormed.clockAt_lt_set hs f)
  · have hle := counter_le_performAll d hv
    rw [Clock.lt_iff, (set_eq_ok hs).1]
    exact .inl (Nat.lt_succ_of_le hle)

/-- The counter is no more than the entries say. Whatever writes and merges made a document: entries stand under their
own fields, the counter is the greatest of theirs, so that a snapshot makes the document again; the clock under a field
only rises, and a merge answers whether it did; a local write is later than everything before it and stands under its
field; and it fails only where the counter is the last one, which no one notices. Observers may write in response. -/
theorem clock_greatest_of_history (replica : String) (calls : List Call)
    (hwords : ∀ u, .take u ∈ calls → u.clock.counter ≤ Clock.greatestCounter) :
    let d := ({ replica } : Document).performAll calls
    (∀ e ∈ d.entries, e.2.field = e.1) ∧
    d.clock = d.greatest ∧
    (∀ other, ({ replica := other } : Document).mergeAll d.snapshot = { d with replica := other }) ∧
    (∀ more field, d.clockAt field ≤ (d.performAll more).clockAt field) ∧
    (∀ u, (d.merge u).1 = true ↔ d.clockAt u.field < (d.merge u).2.clockAt u.field) ∧
    (∀ field value u d', d.set field value = .ok (u, d') →
      (∀ held, held <+: calls → ∀ f, (({ replica } : Document).performAll held).clockAt f < u.clock) ∧
      (∀ v, .take v ∈ calls → v.clock < u.clock) ∧
      u.field = field ∧ u.value = value ∧
      ∀ f, d'.winner? f = if f = field then some u else d.winner? f) ∧
    (∀ field value, (∃ e, d.set field value = .error e) ↔ d.clock = Clock.greatestCounter) ∧
    ∀ (σ : Type) (s : Shared σ), s.document = d →
      (∀ field value,
        (s.set field value).1 = (d.set field value).map Prod.fst ∧
        (d.clock = Clock.greatestCounter → (s.set field value).2 = s) ∧
        ∃ writes : List (String × Value),
          (s.set field value).2.document = d.performAll (writes.map fun w => .write w.1 w.2)) ∧
      ∀ u, (s.merge u).1 = (d.merge u).1 ∧
        ∃ writes : List (String × Value),
          (s.merge u).2.document = d.performAll (.take u :: writes.map fun w => .write w.1 w.2) := by
  intro d
  have hempty := tight_empty replica
  have hd : d.Tight := hempty.performAll calls
  have hword : d.clock ≤ Clock.greatestCounter := clock_performAll_le (Nat.zero_le _) hwords
  refine ⟨hd.wellFormed.own, hd.clock_eq_greatest, hd.mergeAll_snapshot, hd.clockAt_le_performAll,
    merge_iff_clockAt_lt d, fun field value u d' hs => ?_, fun field value => ?_, ?_⟩
  · obtain ⟨hheld, htaken⟩ := hempty.set_latest hs
    have hu := (set_eq_ok hs).1
    exact ⟨hheld, htaken, by rw [hu], by rw [hu], winner?_set hs⟩
  · rw [set_fails_iff]
    exact ⟨hword.antisymm, fun h => h.ge⟩
  · rintro σ s hs
    rw [← hs]
    exact ⟨fun field value => ⟨s.set_answer field value, fun h => Shared.set_of_exhausted h.ge,
      s.set_performs field value⟩, fun u => ⟨s.merge_answer u, s.merge_performs u⟩⟩

/-- One merge loses, the other one takes the last counter there is. -/
theorem clock_greatest_of_history_exhausted :
    let lost : FieldUpdate := ⟨"f", .bool false, ⟨1, "a"⟩⟩
    let last : FieldUpdate := ⟨"g", .null, ⟨Clock.greatestCounter, "z"⟩⟩
    let calls : List Call := [.write "f" .null, .write "f" (.bool true), .take lost, .take last, .write "f" .null]
    (∀ u, .take u ∈ calls → u.clock.counter ≤ Clock.greatestCounter) ∧
      ∃ e, (({ replica := "b" } : Document).performAll calls).set "f" .null = .error e := by
  intro lost last calls
  have hwords : ∀ u, .take u ∈ calls → u.clock.counter ≤ Clock.greatestCounter := by
    intro u hu
    simp only [calls, List.mem_cons, Call.take.injEq, reduceCtorEq, false_or, or_false, List.not_mem_nil] at hu
    rcases hu with rfl | rfl <;> decide
  have hclock : (({ replica := "b" } : Document).performAll calls).clock = Clock.greatestCounter := by
    decide +kernel
  exact ⟨hwords, ((clock_greatest_of_history "b" calls hwords).2.2.2.2.2.2.1 "f" .null).2 hclock⟩

end Document

end SecureLayout.Collab
